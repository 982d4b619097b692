import InSitu.Files.Tree
namespace InSitu

def Path.called? (p : Path) : Option PathName :=
  p.names.getLast?.filter fun name => name ≠ Path.here ∧ name ≠ Path.up ∧ ¬ p.namesDirectory

theorem Path.called_exact {p : Path} : p.called? = some name ↔ p.names.getLast? = some name ∧
    name ≠ Path.here ∧ name ≠ Path.up ∧ p.namesDirectory = false := by
  simp [called?, Option.filter_eq_some_iff]

namespace Files

theorem replaced_find (nodes : List (Location × Node)) (l other : Location) (node : Node) :
    ((nodes.map fun entry => if entry.1 = l then (l, node) else entry).find? (·.1 = other)).map
        (·.2) =
      (nodes.find? (·.1 = other)).map fun entry => if other = l then node else entry.2 := by
  induction nodes with
  | nil => rfl
  | cons entry rest ih =>
    obtain ⟨place, content⟩ := entry
    by_cases here : place = l
    · subst here
      by_cases wanted : place = other
      · simp [wanted]
      · simpa [wanted] using ih
    · by_cases wanted : place = other
      · subst wanted
        simp [here]
      · simpa [here, wanted] using ih

theorem node_put (files : Files) (node : Node) (below : l ≠ []) :
    (files.put l node).node? other = if other = l then some node else files.node? other := by
  unfold put node?
  by_cases root : other = []
  · subst root
    simp [below.symm]
  simp only [if_neg root]
  by_cases present : files.nodes.any (·.1 = l)
  · rw [if_pos present, replaced_find]
    by_cases same : other = l
    · subst same
      obtain ⟨entry, found⟩ := Option.isSome_iff_exists.mp
        (List.find?_isSome.trans (List.any_eq_true.symm) |>.mpr present)
      simp [found]
    · simp [same]
  · rw [if_neg present]
    have absent : files.nodes.find? (·.1 = l) = none :=
      List.find?_eq_none.mpr fun entry member named =>
        present (List.any_eq_true.mpr ⟨entry, member, named⟩)
    simp only [List.find?_append, Option.map_or]
    by_cases same : other = l
    · subst same
      simp [absent]
    · simp [same, Ne.symm same]

theorem follow_onward {files later : Files}
    (directories : ∀ l, files.node? l = some .directory → later.node? l = some .directory)
    (led : files.follow l names = .ok base) : later.follow l names = .ok base := by
  induction names generalizing l with
  | nil => exact led
  | cons name rest ih =>
    unfold Files.follow at led ⊢
    by_cases here : name = Path.here
    · rw [if_pos here] at led ⊢
      exact ih led
    by_cases up : name = Path.up
    · rw [if_neg here, if_pos up] at led ⊢
      exact ih led
    rw [if_neg here, if_neg up] at led ⊢
    cases found : files.node? (l ++ [name]) with
    | none => simp [found] at led
    | some node =>
      cases node with
      | file content => simp [found] at led
      | directory =>
        rw [directories _ found]
        rw [found] at led
        exact ih led

-- No directory is gone, and only files with such a name may differ, wherever they are.
structure Keeps (differing : PathName → Prop) (files later : Files) : Prop where
  directories : ∀ l, files.node? l = some .directory → later.node? l = some .directory
  others : ∀ l, (∀ name, l.getLast? = some name → ¬ differing name) →
    later.node? l = files.node? l

namespace Keeps

variable {differing : PathName → Prop} {files later : Files}

theorem same : Keeps differing files files := ⟨fun _ there => there, fun _ _ => rfl⟩

theorem trans (before : Keeps differing files later) (after : Keeps differing later last) :
    Keeps differing files last :=
  ⟨fun l there => after.directories l (before.directories l there),
    fun l other => (after.others l other).trans (before.others l other)⟩

theorem widen (keeps : Keeps differing files later) (wider : ∀ name, differing name → more name) :
    Keeps more files later :=
  ⟨keeps.directories, fun l other => keeps.others l fun name last differs =>
    other name last (wider name differs)⟩

theorem put (file : files.node? (base ++ [name]) ≠ some .directory) :
    Keeps (· = name) files (files.put (base ++ [name]) (.file content)) := by
  have below : base ++ [name] ≠ [] := by simp
  constructor
  · intro l there
    have apart : l ≠ base ++ [name] := fun same => file (same ▸ there)
    rw [node_put files _ below, if_neg apart]
    exact there
  · intro l other
    have apart : l ≠ base ++ [name] := fun same => other name (by simp [same]) rfl
    rw [node_put files _ below, if_neg apart]

theorem follow (keeps : Keeps differing files later) (led : files.follow l names = .ok base) :
    later.follow l names = .ok base :=
  follow_onward keeps.directories led

end Keeps

def spot? (files : Files) (p : Path) : Option Location :=
  p.called?.bind fun name => (files.follow [] p.names.dropLast).toOption.map (· ++ [name])

theorem spot_exact {files : Files} : files.spot? p = some l ↔ ∃ base name,
    p.called? = some name ∧ files.follow [] p.names.dropLast = .ok base ∧ l = base ++ [name] := by
  constructor
  · intro spot
    obtain ⟨name, called, found⟩ := Option.bind_eq_some_iff.mp spot
    obtain ⟨base, led, rfl⟩ := Option.map_eq_some_iff.mp found
    cases followed : files.follow [] p.names.dropLast with
    | error kind => simp [followed, Except.toOption] at led
    | ok reached =>
      rw [followed] at led
      cases led
      exact ⟨base, name, called, rfl, rfl⟩
  · rintro ⟨base, name, called, led, rfl⟩
    simp [spot?, called, led, Except.toOption]

theorem Keeps.spot (keeps : Keeps differing files later) (spot : files.spot? p = some l) :
    later.spot? p = some l := by
  obtain ⟨base, name, called, led, rfl⟩ := spot_exact.mp spot
  exact spot_exact.mpr ⟨base, name, called, keeps.follow led, rfl⟩

theorem locate_spot {files : Files} : files.locate p = .ok (l, false) ↔ files.spot? p = some l := by
  constructor
  · intro located
    unfold locate at located
    cases named : p.names.getLast? with
    | none =>
      rw [named] at located
      by_cases empty : p.isEmpty <;> simp [empty] at located
    | some last =>
      simp only [named] at located
      by_cases dots : last = Path.here ∨ last = Path.up
      · cases led : files.follow [] p.names <;> simp [dots, led, Except.map] at located
      · cases led : files.follow [] p.names.dropLast with
        | error kind => simp [dots, led, Except.map] at located
        | ok base =>
          simp only [if_neg dots, led, Except.map, Except.ok.injEq, Prod.mk.injEq] at located
          obtain ⟨here, up⟩ := not_or.mp dots
          exact spot_exact.mpr ⟨base, last, Path.called_exact.mpr ⟨named, here, up, located.2⟩,
            led, located.1.symm⟩
  · intro spot
    obtain ⟨base, name, called, led, rfl⟩ := spot_exact.mp spot
    obtain ⟨named, here, up, file⟩ := Path.called_exact.mp called
    simp [locate, named, here, up, led, file, Except.map]

theorem create_exact {files : Files} : files.create p = .ok later ↔
    ∃ l, files.spot? p = some l ∧ files.node? l ≠ some .directory ∧
      later = files.put l (.file (.text "")) := by
  unfold create
  cases located : files.locate p with
  | error kind =>
    simp only [bind, Except.bind, reduceCtorEq, false_iff]
    rintro ⟨l, spot, -⟩
    rw [locate_spot.mpr spot] at located
    cases located
  | ok found =>
    obtain ⟨l, directory⟩ := found
    cases directory with
    | true =>
      simp only [bind, Except.bind, true_or, if_true, reduceCtorEq, false_iff]
      rintro ⟨l, spot, -⟩
      rw [locate_spot.mpr spot] at located
      cases located
    | false =>
      have spot := locate_spot.mp located
      by_cases there : files.node? l = some .directory
      · simp [bind, Except.bind, there, spot]
      · simp only [bind, Except.bind, pure, Except.pure, there, spot, false_or, Bool.false_eq_true,
          if_false, Option.some.injEq, exists_eq_left', not_false_eq_true, ne_eq, true_and,
          Except.ok.injEq]
        exact eq_comm

-- Contents go into a file that is there, and nothing can be in the way.
theorem fill_there {files : Files} (spot : files.spot? p = some l)
    (there : files.node? l = some (.file old)) (content : Content) :
    files.fill p content = .ok (files.put l (.file content)) := by
  simp [fill, locate_spot.mpr spot, there, bind, Except.bind, pure, Except.pure]

theorem readText_exact {files : Files} : files.readText p = .ok content ↔
    ∃ l, files.spot? p = some l ∧ files.node? l = some (.file (.text content)) := by
  unfold readText
  cases located : files.locate p with
  | error kind =>
    simp only [bind, Except.bind, reduceCtorEq, false_iff]
    rintro ⟨l, spot, -⟩
    rw [locate_spot.mpr spot] at located
    cases located
  | ok found =>
    obtain ⟨l, directory⟩ := found
    cases directory with
    | true =>
      have other : ∀ l, files.spot? p ≠ some l := by
        intro l spot
        rw [locate_spot.mpr spot] at located
        cases located
      simp only [bind, Except.bind, other, false_and, exists_false, iff_false]
      split <;> simp
    | false =>
      have spot := locate_spot.mp located
      simp only [bind, Except.bind, spot, Option.some.injEq, exists_eq_left', pure, Except.pure]
      rcases files.node? l with - | - | text | bytes <;> simp

theorem create_keeps {files : Files} (created : files.create p = .ok later) :
    ∃ l name, p.called? = some name ∧ later.spot? p = some l ∧
      later.node? l = some (.file (.text "")) ∧ Keeps (· = name) files later := by
  obtain ⟨l, spot, free, rfl⟩ := create_exact.mp created
  obtain ⟨base, name, called, -, rfl⟩ := spot_exact.mp spot
  have keeps : Keeps (· = name) files (files.put (base ++ [name]) (.file (.text ""))) := .put free
  refine ⟨base ++ [name], name, called, keeps.spot spot, ?_, keeps⟩
  rw [node_put files _ (by simp), if_pos rfl]

theorem fill_put {files : Files} (filled : files.fill p content = .ok later) :
    ∃ l directory old, files.locate p = .ok (l, directory) ∧ files.node? l = some (.file old) ∧
      later = files.put l (.file content) := by
  unfold fill at filled
  cases located : files.locate p with
  | error kind => simp [located, bind, Except.bind] at filled
  | ok found =>
    obtain ⟨l, directory⟩ := found
    simp only [located, bind, Except.bind, pure, Except.pure] at filled
    rcases there : files.node? l with - | - | old <;> simp only [there, reduceCtorEq] at filled
    cases filled
    exact ⟨l, directory, old, rfl, there, rfl⟩

theorem fill_keeps {files : Files} (called : p.called? = some name)
    (filled : files.fill p content = .ok later) : Keeps (· = name) files later := by
  obtain ⟨named, here, up, file⟩ := Path.called_exact.mp called
  obtain ⟨l, directory, old, located, there, rfl⟩ := fill_put filled
  unfold locate at located
  rw [named] at located
  simp only [here, up, or_self, if_false] at located
  cases led : files.follow [] p.names.dropLast with
  | error kind => simp [led, Except.map] at located
  | ok base =>
    simp only [led, Except.map, Except.ok.injEq, Prod.mk.injEq] at located
    obtain ⟨rfl, -⟩ := located
    exact Keeps.put (by simp [there])

theorem fill_reads {files : Files} (spot : files.spot? p = some l)
    (there : files.node? l = some (.file old)) (content : String) :
    ∃ later, files.fill p (.text content) = .ok later ∧ later.readText p = .ok content := by
  obtain ⟨base, name, called, -, rfl⟩ := spot_exact.mp spot
  have filled := fill_there spot there (.text content)
  refine ⟨_, filled, readText_exact.mpr ⟨_, (fill_keeps called filled).spot spot, ?_⟩⟩
  rw [node_put files _ (by simp), if_pos rfl]

theorem write_reads {files : Files} (created : files.create p = .ok fresh) (content : String) :
    ∃ later, files.write p (.text content) = .ok later ∧ later.readText p = .ok content := by
  obtain ⟨l, name, -, spot, there, -⟩ := create_keeps created
  obtain ⟨later, filled, reads⟩ := fill_reads spot there content
  exact ⟨later, by simp [write, created, filled, bind, Except.bind], reads⟩

theorem write_keeps {files : Files} (written : files.write p content = .ok later) :
    ∃ name, p.called? = some name ∧ Keeps (· = name) files later := by
  unfold write at written
  cases created : files.create p with
  | error kind => simp [created, bind, Except.bind] at written
  | ok fresh =>
    obtain ⟨l, name, called, -, -, before⟩ := create_keeps created
    simp only [created, bind, Except.bind] at written
    exact ⟨name, called, before.trans (fill_keeps called written)⟩

theorem Keeps.node (keeps : Keeps differing files later) (spot : files.spot? p = some l)
    (apart : ∀ name, p.called? = some name → ¬ differing name) : later.node? l = files.node? l := by
  obtain ⟨base, last, named, -, rfl⟩ := spot_exact.mp spot
  apply keeps.others _
  intro other same
  rw [List.getLast?_concat] at same
  cases same
  exact apart last named

theorem Keeps.reads (keeps : Keeps differing files later)
    (apart : ∀ name, p.called? = some name → ¬ differing name)
    (reads : files.readText p = .ok content) : later.readText p = .ok content := by
  obtain ⟨l, spot, there⟩ := readText_exact.mp reads
  exact readText_exact.mpr ⟨l, keeps.spot spot, (keeps.node spot apart).trans there⟩

theorem Keeps.creates (keeps : Keeps differing files later)
    (apart : ∀ name, p.called? = some name → ¬ differing name)
    (created : files.create p = .ok fresh) : ∃ next, later.create p = .ok next := by
  obtain ⟨l, spot, free, -⟩ := create_exact.mp created
  exact ⟨_, create_exact.mpr ⟨l, keeps.spot spot, (keeps.node spot apart).symm ▸ free, rfl⟩⟩

-- No directory is gone and none is new.
def Steady (files later : Files) : Prop :=
  ∀ l, later.node? l = some .directory ↔ files.node? l = some .directory

namespace Steady

variable {files later : Files}

theorem same : Steady files files := fun _ => Iff.rfl

theorem trans (before : Steady files later) (after : Steady later last) : Steady files last :=
  fun l => (after l).trans (before l)

theorem symm (steady : Steady files later) : Steady later files := fun l => (steady l).symm

theorem put (free : files.node? l ≠ some .directory) (content : Content) :
    Steady files (files.put l (.file content)) := by
  have below : l ≠ [] := by
    rintro rfl
    exact free rfl
  intro other
  rw [node_put files _ below]
  by_cases same : other = l
  · subst same
    simp [free]
  · rw [if_neg same]

theorem create (created : files.create p = .ok later) : Steady files later := by
  obtain ⟨l, -, free, rfl⟩ := create_exact.mp created
  exact .put free _

theorem fill (filled : files.fill p content = .ok later) : Steady files later := by
  obtain ⟨l, directory, old, -, there, rfl⟩ := fill_put filled
  exact .put (by simp [there]) content

theorem spot (steady : Steady files later) (p : Path) : later.spot? p = files.spot? p := by
  have follows : ∀ names base, later.follow [] names = .ok base ↔ files.follow [] names = .ok base :=
    fun names base => ⟨follow_onward fun l => (steady l).mp, follow_onward fun l => (steady l).mpr⟩
  apply Option.ext
  intro l
  simp only [spot_exact, follows]

theorem creates (steady : Steady files later) (created : files.create p = .ok fresh) :
    ∃ next, later.create p = .ok next := by
  obtain ⟨l, spot, free, -⟩ := create_exact.mp created
  exact ⟨_, create_exact.mpr ⟨l, (steady.spot p).trans spot, fun there => free ((steady l).mp there),
    rfl⟩⟩

end Steady

def there? (files : Files) (p : Path) : Option Node := (files.spot? p).bind files.node?

theorem Steady.there (steady : Steady files later) (keeps : Keeps differing files later)
    (apart : ∀ name, p.called? = some name → ¬ differing name) : later.there? p = files.there? p := by
  unfold there?
  rw [steady.spot p]
  cases spot : files.spot? p with
  | none => rfl
  | some l => exact keeps.node spot apart

end Files
end InSitu
