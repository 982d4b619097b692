namespace InSitu

inductive ProjectionError where
  | invalidComponentCount (name : String) (count : Nat)
  | rangeOutOfBounds (start stop size : Nat)
  | indexOutOfRange (index size : Nat)
  | tupleOutOfRange (tuple tuples : Nat)
  | componentMismatch (expected actual : Nat)
  | outputTooSmall (required available : Nat)
  | readOnly (operation : String)
  | noWorkers
  deriving DecidableEq, Repr

def ProjectionError.kind : ProjectionError → String
  | .invalidComponentCount .. => "InvalidComponentCount"
  | .rangeOutOfBounds .. => "RangeOutOfBounds"
  | .indexOutOfRange .. => "IndexOutOfRange"
  | .tupleOutOfRange .. => "TupleOutOfRange"
  | .componentMismatch .. => "ComponentMismatch"
  | .outputTooSmall .. => "OutputTooSmall"
  | .readOnly .. => "ReadOnly"
  | .noWorkers => "NoWorkers"

def ProjectionError.message : ProjectionError → String
  | .invalidComponentCount name count =>
    s!"projection '{name}': component count must be >= 1, got {count}"
  | .rangeOutOfBounds start stop size =>
    s!"range [{start}, {stop}) out of bounds for collection of {size}"
  | .indexOutOfRange index size => s!"index {index} out of range for projection of {size} values"
  | .tupleOutOfRange tuple tuples =>
    s!"tuple {tuple} out of range for projection of {tuples} tuples"
  | .componentMismatch expected actual =>
    s!"component mismatch: projection has {expected}, destination has {actual}"
  | .outputTooSmall required available =>
    s!"output buffer too small: {available} < {required}"
  | .readOnly operation => s!"read only container: {operation} is not supported"
  | .noWorkers => "partition requires at least one worker"

end InSitu
