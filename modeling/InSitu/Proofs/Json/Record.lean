import InSitu.Json.Record
import InSitu.Proofs.Json.Reading
namespace InSitu.Json

section Members
variable {fields : List (String × Option Json)}

def members (fields : List (String × Option Json)) : List (Option String × Json) :=
  fields.filterMap fun (name, value) => value.map fun v => (some name, v)

theorem members_cons (name : String) (value : Option Json) :
    members ((name, value) :: fields) = (value.map fun v => (some name, v)).toList ++ members fields := by
  cases value <;> rfl

theorem members_named (member : pair ∈ members fields) :
    ∃ name, pair.1 = some name ∧ (name, some pair.2) ∈ fields := by
  obtain ⟨⟨name, value⟩, there, same⟩ := List.mem_filterMap.mp member
  obtain ⟨v, rfl, rfl⟩ := Option.map_eq_some_iff.mp same
  exact ⟨name, rfl, there⟩

theorem member_unnamed (apart : name ∉ fields.map (·.1)) (member : pair ∈ members fields) :
    (pair.1 == some name) = false := by
  obtain ⟨other, named, there⟩ := members_named member
  rw [named, beq_eq_false_iff_ne]
  intro same
  cases same
  exact apart (List.mem_map.mpr ⟨_, there, rfl⟩)

-- A name that stands once is found once, with its value.
theorem members_found (distinct : (fields.map (·.1)).Nodup) (field : (name, value) ∈ fields) :
    (members fields).countP (·.1 == some name) ≤ 1 ∧
      ((members fields).find? (·.1 == some name)).map (·.2) = value := by
  induction fields with
  | nil => cases field
  | cons first rest ih =>
    obtain ⟨other, shown⟩ := first
    obtain ⟨apart, later⟩ := List.nodup_cons.mp distinct
    rw [members_cons, List.countP_append, List.find?_append]
    rcases List.mem_cons.mp field with same | there
    · cases same
      have none_left : (members rest).countP (·.1 == some name) = 0 :=
        List.countP_eq_zero.mpr fun pair member => by simp [member_unnamed apart member]
      have nothing : (members rest).find? (·.1 == some name) = none :=
        List.find?_eq_none.mpr fun pair member => by simp [member_unnamed apart member]
      rw [none_left, nothing]
      cases value <;> simp
    · have different : other ≠ name := by
        rintro rfl
        exact apart (List.mem_map.mpr ⟨_, there, rfl⟩)
      obtain ⟨once, found⟩ := ih later there
      cases shown with
      | none => simpa using ⟨once, found⟩
      | some v => simpa [different] using ⟨once, found⟩

theorem fields_written (distinct : (fields.map (·.1)).Nodup) :
    (ofFields fields).fields? (fields.map (·.1)) = some (fields.map (·.2)) := by
  have named : (members fields).any (·.1.isNone) = false := by
    rw [List.any_eq_false]
    intro pair member
    obtain ⟨name, same, -⟩ := members_named member
    simp [same]
  have single : (fields.map (·.1)).any (fun name =>
      1 < (members fields).countP (·.1 == some name)) = false := by
    rw [List.any_eq_false]
    intro name listed
    obtain ⟨⟨own, value⟩, there, rfl⟩ := List.mem_map.mp listed
    simpa using (members_found distinct there).1
  show (if (members fields).any (·.1.isNone) then none
    else if (fields.map (·.1)).any (fun name => 1 < (members fields).countP (·.1 == some name)) then none
    else some _) = _
  rw [named, single, if_neg Bool.false_ne_true, if_neg Bool.false_ne_true, List.map_map]
  congr 1
  apply List.map_congr_left
  intro field there
  exact (members_found distinct there).2

theorem spelled_fields (each : ∀ field ∈ fields, ∀ value ∈ field.2, Spelled value) :
    Spelled (ofFields fields) := by
  refine .object fun pair member => ?_
  obtain ⟨name, -, there⟩ := members_named member
  exact each _ there pair.2 rfl

end Members

theorem spelled_nat (n : Nat) : Spelled (ofNat n) :=
  .number (by rw [ofChars_nat]; rfl)

theorem natBelow_nat (below : n < limit) : natBelow? limit (some (ofNat n)) = some n := by
  have read : natBelow? limit (some (ofNat n)) =
      if digitsValue (Decimal.digitChars n) < limit then some (digitsValue (Decimal.digitChars n))
      else none := by
    simp only [natBelow?, ofNat, ofChars_nat, Option.bind_eq_bind, Option.bind_some, Numeral.nat?]
    rfl
  rw [read, digitsValue_digits, if_pos below]

theorem optional_text (content : Option String) :
    optional? (content.map Json.text) = some content := by
  cases content <;> rfl

theorem double_spelled (read : double? (some (ofFloat x)) = some y) : Spelled (ofFloat x) := by
  cases written : ofFloat x with
  | number spelling =>
    rw [written] at read
    obtain ⟨numeral, valid, -⟩ := Option.bind_eq_some_iff.mp read
    exact .number (by rw [valid]; rfl)
  | _ =>
    rw [written] at read
    cases read

theorem mapM_exact {f : α → Option β} {xs : List α} {ys : List β} :
    xs.mapM f = some ys ↔ List.Forall₂ (fun x y => f x = some y) xs ys := by
  induction xs generalizing ys with
  | nil => simp [eq_comm]
  | cons x rest ih =>
    rw [List.mapM_cons, List.forall₂_cons_left_iff]
    refine Option.bind_eq_some_iff.trans ⟨?_, ?_⟩
    · rintro ⟨y, first, onward⟩
      obtain ⟨others, later, same⟩ := Option.bind_eq_some_iff.mp onward
      cases same
      exact ⟨y, others, first, ih.mp later, rfl⟩
    · rintro ⟨y, others, first, later, rfl⟩
      exact ⟨y, first, Option.bind_eq_some_iff.mpr ⟨others, ih.mpr later, rfl⟩⟩

theorem items_exact {item? : Option Json → Option β} {write : α → Json} {xs : List α} {ys : List β} :
    items? item? (some (.array (xs.map write))) = some ys ↔
      List.Forall₂ (fun x y => item? (some (write x)) = some y) xs ys := by
  simp only [items?, mapM_exact, List.forall₂_map_left_iff]

theorem items_each {item? : Option Json → Option α} {write : α → Json} {xs : List α}
    (each : ∀ x ∈ xs, item? (some (write x)) = some x) :
    items? item? (some (.array (xs.map write))) = some xs :=
  items_exact.mpr (List.forall₂_same.mpr each)

theorem spelled_items {write : α → Json} {xs : List α} (each : ∀ x ∈ xs, Spelled (write x)) :
    Spelled (.array (xs.map write)) := by
  refine .array fun item member => ?_
  obtain ⟨x, there, rfl⟩ := List.mem_map.mp member
  exact each x there

end InSitu.Json
