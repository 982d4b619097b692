import InSitu.Binding.Export
import InSitu.MixedObject
import InSitu.Projection.ReadOnly
import InSitu.Projection.Readable
import InSitu.Proofs.Files.Tree
import InSitu.Proofs.PieceIndex.Listing
import InSitu.Proofs.Projection.Cycle
import InSitu.Recorder
import InSitu.SampleCell
import InSitu.Proofs.Files.Names
import InSitu.Proofs.PieceIndex.Writing
import InSitu.Proofs.Projection.Mirror
import InSitu.Proofs.Grid.Worker
import InSitu.Proofs.Partition
import InSitu.Proofs.Grid.History
import InSitu.Proofs.Grid.Output
import InSitu.Proofs.Grid.Writing
import InSitu.Proofs.Adaptor.Visualize
import InSitu.Proofs.Adaptor.Run
import InSitu.Proofs.Projection.Pass
import InSitu.Proofs.Projection.Fresh
import InSitu.Proofs.Projection.Accounts
import InSitu.Proofs.Grid.Joining
import InSitu.Proofs.Adaptor.Ledger
import InSitu.Proofs.Processor.Record
import InSitu.Proofs.Processor.Lifecycle
import InSitu.Proofs.AttributeSet.Membership
import InSitu.Proofs.Grid.Outline
import InSitu.Proofs.Grid.Registry
import InSitu.Proofs.Grid.Registration
import InSitu.Proofs.Grid.Labels
import InSitu.Proofs.Grid.Coverage
import InSitu.Proofs.Adaptor.Sidecar
import InSitu.Proofs.Json.Numeral
import InSitu.Proofs.Json.Reading
import InSitu.Proofs.Json.Record
import InSitu.Proofs.SimulationInfo
import InSitu.Proofs.Decimal.Magnitude
import InSitu.Proofs.Decimal.Nearest
import InSitu.Proofs.Decimal.Shortest
import InSitu.Proofs.Decimal.Stepwise
import InSitu.Proofs.Decimal.Layout
import InSitu.Proofs.Json.Double
import InSitu.Proofs.Piece
import InSitu.Proofs.Grid.ReadBack
import InSitu.Proofs.Decimal.Whole
import InSitu.Proofs.AttributeSet.Origin
import InSitu.Proofs.AttributeSet.Iteration
import InSitu.Proofs.Projection.Agreement
import InSitu.Proofs.Projection.Search
import InSitu.Proofs.Projection.Transfer
import InSitu.Proofs.Projection.Tuples
import InSitu.Proofs.Grid.Announcing
import InSitu.Proofs.Grid.Selection
import InSitu.Proofs.PieceIndex.Expansion
import InSitu.Proofs.Projection.Refusal
import InSitu.Proofs.Grid.Failing
import InSitu.Proofs.Binding.Inhibition
import InSitu.Proofs.Partition.Words
import InSitu.Proofs.Projection.Storage
