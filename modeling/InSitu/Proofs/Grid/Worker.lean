import InSitu.Grid
import InSitu.Proofs.Projection.Mirror
namespace InSitu

-- What a column is in itself: not its mode, nor the range and the values of the moment.
structure Registered (ο : Type) where
  name : String
  type : ScalarType
  accessor : Accessor ο type.Carrier

namespace Registered

def project (objects : List ο) (r : Registered ο) : PieceColumn :=
  ⟨r.name, r.accessor.components, r.type.name, (r.accessor.scalars objects).map Scalar.widen⟩

def chosen (columns : List (Registered ο)) (flags : List Bool) : List (Registered ο) :=
  (columns.zip flags).filterMap fun (r, on) => if on then some r else none

end Registered

namespace Column

def registered (c : Column ο) : Registered ο := ⟨c.name, c.type, c.buffer.accessor⟩

def Dated (c : Column ο) : Prop := c.buffer.staging.Dated

structure Mirrors (objects : List ο) (share : Range) (c : Column ο) : Prop where
  start_eq : c.buffer.start = share.start
  stop_eq : c.buffer.stop = share.stop
  mirrors : c.buffer.Mirrors objects

theorem made_registered {c : Column ο} {b : Buffer ο c.type.Carrier} (made : b.fork = c.buffer.fork) :
    registered ⟨c.type, b⟩ = c.registered := by
  have name := congrArg Buffer.name made
  have accessor := Buffer.made_accessor made
  have name' : b.name = c.buffer.name := name
  simp only [registered, Column.name, name', accessor]

theorem refresh_keeps (objects : List ο) (start stop : Nat) (c : Column ο) :
    (c.refresh objects start stop).2.registered = c.registered ∧
      (c.Dated → (c.refresh objects start stop).2.Dated) := by
  have sound := Session.refresh_sound objects start stop ⟨c.buffer, 0⟩
  exact ⟨made_registered (Session.refreshes_keep sound), Session.refreshes_dated sound⟩

theorem refresh_mirrors {c : Column ο} (dated : c.Dated)
    (answered : (c.refresh objects share.start share.stop).1 = .ok ()) :
    (c.refresh objects share.start share.stop).2.Mirrors objects share := by
  have refreshed := Session.refresh_answered (s := ⟨c.buffer, 0⟩) dated answered
  exact ⟨refreshed.start_eq, refreshed.stop_eq, .refreshed refreshed⟩

theorem append_short {c : Column ο} (short : shown.length < c.buffer.stop) (out : List Float) :
    ∃ note, c.append (ε := ε) shown out = (.error (.abort note), c) := by
  simp only [append, onSession, Act.bind_exact, Session.view, Buffer.covers, if_pos short]
  exact ⟨_, rfl⟩

theorem append_long {c : Column ο} (long : ¬ shown.length < c.buffer.stop) :
    c.append (ε := ε) shown out =
      ((Session.toList shown ⟨c.buffer, 0⟩).1.map fun values => out ++ values.map Scalar.widen,
        ⟨c.type, (Session.toList (ε := ε) shown ⟨c.buffer, 0⟩).2.buffer⟩) := by
  simp only [append, onSession, Act.bind_exact, Session.view, Buffer.covers, if_neg long,
    Session.appendWidened]
  rcases Session.toList (ε := ε) shown ⟨c.buffer, 0⟩ with ⟨failure | values, reached⟩ <;> rfl

theorem append_keeps (shown : List ο) (out : List Float) (c : Column ο) :
    (c.append (ε := ε) shown out).2.registered = c.registered ∧
      (c.Dated → (c.append (ε := ε) shown out).2.Dated) := by
  by_cases short : shown.length < c.buffer.stop
  · obtain ⟨note, aborted⟩ := append_short (ε := ε) short out
    rw [aborted]
    exact ⟨rfl, id⟩
  · rw [append_long short, Session.toList_exact]
    obtain ⟨alike, dated⟩ :=
      Session.readSlots_keeps (ε := ε) shown (List.range c.buffer.size) ⟨c.buffer, 0⟩
    exact ⟨made_registered alike.made, dated⟩

theorem append_mirrors {c : Column ο} (mirrors : c.Mirrors objects share)
    (agree : Agree objects shown share.start share.stop) :
    (c.append (ε := ε) shown []).2.Mirrors objects share ∧
      ∀ values, (c.append (ε := ε) shown []).1 = .ok values → values =
        (c.registered.project (objects.extract share.start share.stop)).values := by
  by_cases short : shown.length < c.buffer.stop
  · obtain ⟨note, aborted⟩ := append_short (ε := ε) short []
    rw [aborted]
    refine ⟨mirrors, ?_⟩
    intro values answered
    cases answered
  · rw [append_long short]
    rw [← mirrors.start_eq, ← mirrors.stop_eq] at agree
    obtain ⟨kept, seen⟩ := Session.toList_mirrors (ε := ε) (s := ⟨c.buffer, 0⟩) mirrors.mirrors agree
    obtain ⟨alike, -⟩ :=
      Session.readSlots_keeps (ε := ε) shown (List.range c.buffer.size) ⟨c.buffer, 0⟩
    refine ⟨⟨alike.start_eq.trans mirrors.start_eq, alike.stop_eq.trans mirrors.stop_eq, kept⟩, ?_⟩
    intro values answered
    obtain ⟨scalars, read, rfl⟩ := Outcome.map_answer answered
    rw [seen scalars read]
    show _ = (c.buffer.accessor.scalars (objects.extract share.start share.stop)).map Scalar.widen
    rw [← mirrors.start_eq, ← mirrors.stop_eq]
    rfl

theorem append_answer {c : Column ο} (mirrors : c.Mirrors objects share)
    (enough : ∀ object ∈ objects, c.registered.accessor.Shows object) :
    ∃ values, (c.append (ε := ε) objects []).1 = .ok values := by
  have long : ¬ objects.length < c.buffer.stop := Nat.not_lt.mpr mirrors.mirrors.within
  rw [append_long long]
  obtain ⟨values, read⟩ := Session.toList_answer (ε := ε) (s := ⟨c.buffer, 0⟩) mirrors.mirrors
    fun object member => enough object (List.mem_of_mem_drop (List.mem_of_mem_take member))
  exact ⟨_, by rw [read]; rfl⟩

end Column

namespace Worker

def registered (w : Worker ο) : List (Registered ο) := w.columns.map Column.registered

def Dated (w : Worker ο) : Prop := ∀ c ∈ w.columns, c.Dated

structure Mirrors (objects : List ο) (share : Range) (w : Worker ο) : Prop where
  start_eq : w.start = share.start
  stop_eq : w.stop = share.stop
  columns : ∀ c ∈ w.columns, c.Mirrors objects share

theorem refresh_keeps (objects : List ο) (start stop : Nat) (w : Worker ο) :
    (w.refresh objects start stop).2.registered = w.registered ∧
      (w.Dated → (w.refresh objects start stop).2.Dated) := by
  have same : (sweep (Column.refresh objects start stop) w.columns).2.map Column.registered =
      w.registered := sweep_same fun c _ => (c.refresh_keeps objects start stop).1
  have dated : w.Dated → ∀ c ∈ (sweep (Column.refresh objects start stop) w.columns).2, c.Dated :=
    sweep_keeps fun c _ => (c.refresh_keeps objects start stop).2
  unfold refresh
  rcases swept : sweep (Column.refresh objects start stop) w.columns with ⟨failure | done, columns⟩ <;>
    rw [swept] at same dated <;> exact ⟨same, dated⟩

theorem refresh_whole {start stop : Nat} {w : Worker ο}
    (answered : (w.refresh objects start stop).1 = .ok ()) :
    (∀ c ∈ w.columns, (c.refresh objects start stop).1 = .ok ()) ∧ (w.refresh objects start stop).2 =
      ⟨w.columns.map fun c => (c.refresh objects start stop).2, start, stop⟩ := by
  unfold refresh at answered ⊢
  rcases swept : sweep (Column.refresh objects start stop) w.columns with ⟨failure | done, columns⟩
  · rw [swept] at answered
    cases answered
  · have reached := (sweep_answers (congrArg Prod.fst swept)).2
    rw [swept] at reached
    refine ⟨fun c member => ?_, congrArg (Worker.mk · start stop) reached⟩
    obtain ⟨⟨⟩, answer⟩ := sweep_each (congrArg Prod.fst swept) c member
    exact answer

theorem refresh_mirrors {w : Worker ο} (dated : w.Dated)
    (answered : (w.refresh objects share.start share.stop).1 = .ok ()) :
    (w.refresh objects share.start share.stop).2.Mirrors objects share := by
  obtain ⟨each, reached⟩ := refresh_whole answered
  rw [reached]
  refine ⟨rfl, rfl, ?_⟩
  intro c member
  obtain ⟨before, there, rfl⟩ := List.mem_map.mp member
  exact Column.refresh_mirrors (dated before there) (each before there)

-- A column is left as it was or read, each at its place, and so are those behind that have no flag.
theorem collect_place (shown : List ο) (flags : List Bool) (w : Worker ο) (place : Nat) :
    (w.collect (ε := ε) shown flags).2.columns[place]? = w.columns[place]? ∨
      (w.collect (ε := ε) shown flags).2.columns[place]? =
        w.columns[place]?.map fun c => (c.append (ε := ε) shown []).2 := by
  have places : (sweep (collectColumn (ε := ε) shown) (w.columns.zip flags)).2.map (fun _ => ()) =
      (w.columns.zip flags).map fun _ => () := sweep_same fun _ _ => rfl
  have length : (sweep (collectColumn (ε := ε) shown) (w.columns.zip flags)).2.length =
      (w.columns.zip flags).length := by simpa only [List.length_map] using congrArg List.length places
  have size := (List.length_map (fun entry : Column ο × Bool => entry.1)).trans length
  show (List.map _ _ ++ w.columns.drop _)[place]? = _ ∨ (List.map _ _ ++ w.columns.drop _)[place]? = _
  by_cases inside : place < (w.columns.zip flags).length
  · rw [List.getElem?_append_left (size.symm ▸ inside), List.getElem?_map]
    obtain ⟨column, on⟩ := List.getElem?_zip_eq_some.mp (List.getElem?_eq_getElem inside)
    rcases sweep_place (collectColumn (ε := ε) shown) (w.columns.zip flags) place with left | visited
    · rw [left, List.getElem?_eq_getElem inside]
      exact .inl column.symm
    · rw [visited, List.getElem?_eq_getElem inside]
      generalize (w.columns.zip flags)[place] = entry at column
      obtain ⟨c, flag⟩ := entry
      cases flag with
      | false => exact .inl column.symm
      | true => exact .inr (column ▸ rfl)
  · have behind := Nat.not_lt.mp inside
    rw [List.getElem?_append_right (size.symm ▸ behind)]
    refine .inl ?_
    rw [size, length, List.getElem?_drop, Nat.add_sub_of_le behind]

theorem collect_keeps {valid : Column ο → Prop} {w : Worker ο}
    (kept : ∀ c ∈ w.columns, valid c → valid (c.append (ε := ε) shown []).2)
    (before : ∀ c ∈ w.columns, valid c) :
    ∀ c ∈ (w.collect (ε := ε) shown flags).2.columns, valid c := by
  intro c member
  obtain ⟨place, there⟩ := List.mem_iff_getElem?.mp member
  rcases w.collect_place (ε := ε) shown flags place with left | read
  · exact before c (List.mem_of_getElem? (left.symm.trans there))
  · obtain ⟨earlier, found, rfl⟩ := Option.map_eq_some_iff.mp (read.symm.trans there)
    have listed := List.mem_of_getElem? found
    exact kept earlier listed (before earlier listed)

theorem collect_dated {w : Worker ο} (dated : w.Dated) (shown : List ο) (flags : List Bool) :
    (w.collect (ε := ε) shown flags).2.Dated :=
  collect_keeps (fun c _ => (c.append_keeps shown []).2) dated

theorem collect_registered (shown : List ο) (flags : List Bool) (w : Worker ο) :
    (w.collect (ε := ε) shown flags).2.registered = w.registered := by
  apply List.ext_getElem?
  intro place
  rw [registered, registered, List.getElem?_map, List.getElem?_map]
  rcases w.collect_place (ε := ε) shown flags place with left | read
  · rw [left]
  · rw [read, Option.map_map]
    congr 1
    funext c
    exact (c.append_keeps shown []).1

def shape (objects : List ο) (entry : Column ο × Bool) : Option PieceColumn :=
  if entry.2 then some (entry.1.registered.project objects) else none

theorem chosen_shapes (columns : List (Column ο)) (flags : List Bool) (objects : List ο) :
    ((columns.zip flags).map (shape objects)).filterMap id =
      (Registered.chosen (columns.map Column.registered) flags).map (·.project objects) := by
  rw [Registered.chosen, List.zip_map_left, List.filterMap_map, List.filterMap_map,
    List.map_filterMap]
  congr 1
  funext entry
  obtain ⟨c, on⟩ := entry
  cases on <;> rfl

theorem collect_mirrors {w : Worker ο} (mirrors : w.Mirrors objects share)
    (agree : Agree objects shown share.start share.stop) :
    (w.collect (ε := ε) shown flags).2.Mirrors objects share ∧
      ∀ columns, (w.collect (ε := ε) shown flags).1 = .ok columns → columns =
        (Registered.chosen w.registered flags).map
          (·.project (objects.extract share.start share.stop)) := by
  constructor
  · refine ⟨mirrors.start_eq, mirrors.stop_eq, ?_⟩
    exact collect_keeps (fun c _ holds => (Column.append_mirrors holds agree).1) mirrors.columns
  · intro columns collected
    obtain ⟨answers, through, rfl⟩ := Outcome.map_answer collected
    have shapes : answers = (w.columns.zip flags).map
        (shape (objects.extract share.start share.stop)) := by
      apply sweep_shapes through
      intro entry member answer read
      obtain ⟨c, on⟩ := entry
      cases on with
      | false =>
        cases read
        rfl
      | true =>
        obtain ⟨values, appended, rfl⟩ := Outcome.map_answer read
        have column := mirrors.columns c (List.of_mem_zip member).1
        rw [(Column.append_mirrors column agree).2 values appended]
        rfl
    rw [shapes]
    exact chosen_shapes w.columns flags _

theorem collect_answers {w : Worker ο}
    (each : ∀ c ∈ w.columns, ∃ values, (c.append (ε := ε) shown []).1 = .ok values)
    (flags : List Bool) : ∃ columns, (w.collect (ε := ε) shown flags).1 = .ok columns := by
  have through : ∃ answers, (sweep (collectColumn (ε := ε) shown) (w.columns.zip flags)).1 =
      .ok answers := by
    apply sweep_complete
    rintro ⟨c, on⟩ member
    cases on with
    | false => exact ⟨none, rfl⟩
    | true =>
      obtain ⟨values, appended⟩ := each c (List.of_mem_zip member).1
      simp only [collectColumn, if_true, appended]
      exact ⟨_, rfl⟩
  obtain ⟨answers, swept⟩ := through
  show ∃ columns, (sweep (collectColumn (ε := ε) shown) (w.columns.zip flags)).1.map
    (·.filterMap id) = .ok columns
  rw [swept]
  exact ⟨_, rfl⟩

end Worker
end InSitu
