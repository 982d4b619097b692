import InSitu.Notice
import InSitu.Projection.Buffer
namespace InSitu

inductive Change (α : Type) where
  | setValue (index : Nat) (value : α)
  | insertValue (index : Nat) (value : α)
  | insertNextValue (value : α)
  | setTuple (tuple : Nat) (values : List α)
  | insertTuple (tuple : Nat) (values : List α)
  | insertNextTuple (values : List α)
  | removeTuple (tuple : Nat)
  | removeFirstTuple
  | removeLastTuple
  | resize (tuples : Nat)
  | setTupleCount (tuples : Nat)
  | allocate (size : Nat)
  | deepCopyFrom (values : List α)
  | interpolateTuple (tuple : Nat) (sources : List Nat) (weights : List Float)
  | squeeze
  | clearLookup

def Change.refusedAs : Change α → Option String
  | .setValue .. => some "set_value"
  | .insertValue .. => some "insert_value"
  | .insertNextValue .. => some "insert_next_value"
  | .setTuple .. => some "set_tuple"
  | .insertTuple .. => some "insert_tuple"
  | .insertNextTuple .. => some "insert_next_tuple"
  | .removeTuple .. => some "remove_tuple"
  | .removeFirstTuple => some "remove_first_tuple"
  | .removeLastTuple => some "remove_last_tuple"
  | .resize .. => some "resize"
  | .setTupleCount .. => some "set_tuple_count"
  | .allocate .. => some "allocate"
  | .deepCopyFrom .. => some "deep_copy_from"
  | .interpolateTuple .. => some "interpolate_tuple"
  | .squeeze => none
  | .clearLookup => none

def Change.named? [Scalar α] (operation : String) (index : Nat) (values : List α) :
    Option (Change α) :=
  let value := values.headD Scalar.zero
  match operation with
  | "set_value" => some (.setValue index value)
  | "insert_value" => some (.insertValue index value)
  | "insert_next_value" => some (.insertNextValue value)
  | "set_tuple" => some (.setTuple index values)
  | "insert_tuple" => some (.insertTuple index values)
  | "insert_next_tuple" => some (.insertNextTuple values)
  | "remove_tuple" => some (.removeTuple index)
  | "remove_first_tuple" => some .removeFirstTuple
  | "remove_last_tuple" => some .removeLastTuple
  | "resize" => some (.resize index)
  | "set_tuple_count" => some (.setTupleCount index)
  | "allocate" => some (.allocate index)
  | "deep_copy_from" => some (.deepCopyFrom values)
  | "interpolate_tuple" => some (.interpolateTuple index [] [])
  | "squeeze" => some .squeeze
  | "clear_lookup" => some .clearLookup
  | _ => none

namespace Session

def change (c : Change α) : Act (Session ο α) ProjectionError Unit :=
  match c.refusedAs with
  | some operation => Act.refuse (.readOnly operation)
  | none => pure ()

end Session

def Buffer.changeNotices (b : Buffer ο α) (c : Change α) : List Notice :=
  c.refusedAs.toList.map (.readOnlyContainer b.name ·)

end InSitu
