namespace InSitu

inductive AttributeKind where
  | scalar
  | vector (dims : Nat)
  | categorical (values : Nat)
  deriving DecidableEq, Repr

namespace AttributeKind

def components : AttributeKind → Nat
  | .scalar => 1
  | .vector dims => dims
  | .categorical _ => 1

def label : AttributeKind → String
  | .scalar => "scalar"
  | .vector _ => "vector"
  | .categorical _ => "categorical"

end AttributeKind

structure Attribute where
  name : String
  kind : AttributeKind
  units : Option String
  deriving DecidableEq, Repr

end InSitu
