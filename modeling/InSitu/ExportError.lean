import InSitu.Config
import InSitu.Files.Tree
namespace InSitu

inductive ExportError where
  | config (cause : ConfigError)
  | projection (cause : ProjectionError)
  | io (path : Path) (kind : IoKind)
  | json (path : Path)
  | placeholderMissing (path : Path) (placeholder : String)
  | stateGenerationFailed (command reason : String)
  | duplicateGrid (name : String)
  | duplicateColumn (grid column : String)
  | unknownAttribute (grid : String) (id : Nat)
  | workerAborted (grid : String)
  | processorShutDown
  | processor (reason : String)

namespace ExportError

def kind : ExportError → String
  | .config .. => "Config"
  | .projection .. => "Projection"
  | .io .. => "Io"
  | .json .. => "Json"
  | .placeholderMissing .. => "PlaceholderMissing"
  | .stateGenerationFailed .. => "StateGenerationFailed"
  | .duplicateGrid .. => "DuplicateGrid"
  | .duplicateColumn .. => "DuplicateColumn"
  | .unknownAttribute .. => "UnknownAttribute"
  | .workerAborted .. => "WorkerPanicked"
  | .processorShutDown => "ProcessorShutDown"
  | .processor .. => "Processor"

-- The text of the cause behind it, if there is one. What the system says about a file, or a reader
-- about a text, is not said here: a mark stands for it.
def source? : ExportError → Option String
  | .config cause => some cause.message
  | .projection cause => some cause.message
  | .io _ _ => some "<io>"
  | .json _ => some "<json>"
  | _ => none

def message (e : ExportError) : String :=
  let source := e.source?.getD ""
  match e with
  | .config _ => s!"config: {source}"
  | .projection _ => s!"projection: {source}"
  | .io path _ => s!"{path.display}: {source}"
  | .json path => s!"serializing {path.display}: {source}"
  | .placeholderMissing path placeholder =>
    s!"{path.display}: placeholder {placeholder} not found"
  | .stateGenerationFailed command reason => s!"state generation failed ({reason}): {command}"
  | .duplicateGrid name => s!"grid '{name}' already registered"
  | .duplicateColumn grid column => s!"grid '{grid}' already has a column '{column}'"
  | .unknownAttribute grid id => s!"grid '{grid}' has no attribute {id}"
  | .workerAborted grid => s!"worker panicked while processing grid '{grid}'"
  | .processorShutDown => "in-situ processor has been shut down"
  | .processor reason => s!"in-situ processor: {reason}"

end ExportError
end InSitu
