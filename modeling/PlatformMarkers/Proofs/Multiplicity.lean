import PlatformMarkers.Proofs.FailStop
import Mathlib.Data.List.Count
import Mathlib.Data.List.Perm.Basic
import Mathlib.Logic.Function.Iterate

/-! Names that a batch lists several times. Their toggling is made on what it has left before, so
that only the number of times counts, both for the texts that are left and for the checks on the
way there, and the order of the names makes no difference. -/

set_option autoImplicit false

namespace PlatformMarkers

namespace Memory

theorem put_comm {first second : Text} (different : first ≠ second) (left right : Text)
    {files : List (Text × Text)} (known : (files.lookup first).isSome = true) :
    put first left (put second right files) = put second right (put first left files) := by
  induction files with
  | nil => cases known
  | cons file rest ih =>
    obtain ⟨name, text⟩ := file
    by_cases here : name = first
    · subst here
      simp [put, different]
    · by_cases there : name = second
      · subst there
        simp [put, here]
      · have later : (rest.lookup first).isSome = true := by
          simpa [List.lookup_cons, beq_eq_false_iff_ne.mpr (Ne.symm here)] using known
        simp [put, here, there, ih later]

section
variable (memory : Memory) (name : Text)

theorem lookup_toggled_self : (memory.toggled name).files.lookup name =
    (memory.files.lookup name).map (Mac.toggle .sequential) := by
  cases held : memory.files.lookup name with
  | none => simp [toggled, held]
  | some text => simp [toggled, held, lookup_put_self]

variable {name} in
theorem lookup_toggled_of_ne {other : Text} (different : other ≠ name) :
    (memory.toggled name).files.lookup other = memory.files.lookup other := by
  cases held : memory.files.lookup name with
  | none => simp [toggled, held]
  | some text => simp [toggled, held, lookup_put_of_ne different]

@[simp] theorem readFaults_toggled : (memory.toggled name).readFaults = memory.readFaults := by
  rw [toggled]
  split <;> rfl

@[simp] theorem writeFaults_toggled : (memory.toggled name).writeFaults = memory.writeFaults := by
  rw [toggled]
  split <;> rfl

theorem toggled_of_lookup {text : Text} (held : memory.files.lookup name = some text) :
    memory.toggled name =
      { memory with files := put name (Mac.toggle .sequential text) memory.files } := by
  simp only [toggled, held]

theorem toggled_of_absent (absent : memory.files.lookup name = none) :
    memory.toggled name = memory := by
  simp only [toggled, absent]

end

theorem toggled_comm (memory : Memory) (first second : Text) :
    (memory.toggled first).toggled second = (memory.toggled second).toggled first := by
  by_cases same : first = second
  · rw [same]
  cases heldFirst : memory.files.lookup first with
  | none =>
    have stillAbsent : (memory.toggled second).files.lookup first = none := by
      rw [lookup_toggled_of_ne memory same, heldFirst]
    rw [toggled_of_absent memory first heldFirst, toggled_of_absent _ first stillAbsent]
  | some left =>
    cases heldSecond : memory.files.lookup second with
    | none =>
      have stillAbsent : (memory.toggled first).files.lookup second = none := by
        rw [lookup_toggled_of_ne memory (Ne.symm same), heldSecond]
      rw [toggled_of_absent memory second heldSecond, toggled_of_absent _ second stillAbsent]
    | some right =>
      have stillFirst := (lookup_toggled_of_ne memory same).trans heldFirst
      have stillSecond := (lookup_toggled_of_ne memory (Ne.symm same)).trans heldSecond
      rw [toggled_of_lookup _ second stillSecond, toggled_of_lookup _ first stillFirst,
        toggled_of_lookup memory first heldFirst, toggled_of_lookup memory second heldSecond]
      simp only [put_comm same _ _ (Option.isSome_of_eq_some heldFirst)]

theorem foldl_toggled_perm (memory : Memory) {names others : List Text}
    (perm : names.Perm others) : names.foldl toggled memory = others.foldl toggled memory :=
  perm.foldl_eq' (fun first _ second _ memory => toggled_comm memory first second) memory

theorem lookup_foldl_toggled (memory : Memory) (names : List Text) (name : Text) :
    (names.foldl toggled memory).files.lookup name =
      (memory.files.lookup name).map (Mac.toggle .sequential)^[names.count name] := by
  induction names generalizing memory with
  | nil => simp
  | cons first rest ih =>
    rw [List.foldl_cons, ih]
    by_cases same : first = name
    · subst same
      rw [lookup_toggled_self, List.count_cons_self, Option.map_map]
      rfl
    · rw [lookup_toggled_of_ne memory (Ne.symm same), List.count_cons_of_ne same]

end Memory

namespace Batch

/-- The name can be toggled that many times: its file is there and can be read and written, and
no check refuses what any of the togglings leaves. -/
def Admits (options : Options) (memory : Memory) (name : Text) (times : Nat) : Prop :=
  ∃ text, memory.files.lookup name = some text ∧ memory.readFaults.lookup name = none ∧
    memory.writeFaults.lookup name = none ∧
    ∀ j, 1 ≤ j → j ≤ times → options.Accepts ((Mac.toggle .sequential)^[j] text)

variable {options : Options} {memory : Memory} {name other : Text}

theorem admits_toggled_of_ne {times : Nat} (different : other ≠ name) :
    Admits options (memory.toggled name) other times ↔ Admits options memory other times := by
  simp only [Admits, Memory.lookup_toggled_of_ne memory different, Memory.readFaults_toggled,
    Memory.writeFaults_toggled]

theorem admits_succ_iff {times : Nat} : Admits options memory name (times + 1) ↔
    Admits options memory name 1 ∧ Admits options (memory.toggled name) name times := by
  simp only [Admits, Memory.lookup_toggled_self, Memory.readFaults_toggled,
    Memory.writeFaults_toggled]
  constructor
  · rintro ⟨text, held, readable, writable, accepted⟩
    refine ⟨⟨text, held, readable, writable, fun j low high => accepted j low (by omega)⟩,
      Mac.toggle .sequential text, by rw [held]; rfl, readable, writable, fun j _ high => ?_⟩
    have later := accepted (j + 1) (by omega) (by omega)
    rwa [Function.iterate_succ_apply] at later
  · rintro ⟨⟨text, held, readable, writable, once⟩, toggled, heldToggled, _, _, accepted⟩
    rw [held, Option.map_some, Option.some.injEq] at heldToggled
    subst heldToggled
    refine ⟨text, held, readable, writable, fun j low high => ?_⟩
    obtain _ | _ | j := j
    · omega
    · exact once 1 (Nat.le_refl 1) (Nat.le_refl 1)
    · rw [Function.iterate_succ_apply]
      exact accepted (j + 1) (by omega) (by omega)

theorem value_toggleFile_eq_ok_iff :
    ((toggleFile options name).run Memory.storage memory).value = .ok () ↔
      Admits options memory name 1 := by
  have turn := turn_toggleFile Memory.storage options memory name
  generalize (toggleFile options name).run Memory.storage memory = course at turn
  constructor
  · intro value
    obtain ⟨events, final, result⟩ := course
    cases value
    cases turn with
    | completed content accepted stored =>
      obtain ⟨readable, held⟩ := Memory.read_eq_ok_iff.mp content
      obtain ⟨writable, _⟩ := Memory.write_eq_ok_iff.mp stored
      refine ⟨_, held, readable, writable, fun j low high => ?_⟩
      cases Nat.le_antisymm high low
      exact accepted
  · rintro ⟨text, held, readable, writable, accepted⟩
    have content : memory.read name = .ok text := Memory.read_eq_ok_iff.mpr ⟨readable, held⟩
    cases turn with
    | unread refused => cases content.symm.trans refused
    | unbalanced same checked found =>
      cases content.symm.trans same
      exact absurd (accepted 1 (Nat.le_refl 1) (Nat.le_refl 1) checked) found
    | unwritten _ _ refused => simp [Memory.storage, Memory.write, writable] at refused
    | completed => rfl

theorem state_toggleFile_of_ok
    (value : ((toggleFile options name).run Memory.storage memory).value = .ok ()) :
    ((toggleFile options name).run Memory.storage memory).state = memory.toggled name := by
  have turn := turn_toggleFile Memory.storage options memory name
  generalize (toggleFile options name).run Memory.storage memory = course at turn value
  obtain ⟨events, final, result⟩ := course
  cases value
  exact turn.state_of_completed

theorem value_toggleFiles_cons_eq_ok_iff {names : List Text} :
    ((toggleFiles options (name :: names)).run Memory.storage memory).value = .ok () ↔
      Admits options memory name 1 ∧
        ((toggleFiles options names).run Memory.storage (memory.toggled name)).value = .ok () := by
  rw [run_toggleFiles_cons, ← value_toggleFile_eq_ok_iff]
  cases value : ((toggleFile options name).run Memory.storage memory).value with
  | error failure => simp [value]
  | ok done => simp [value, state_toggleFile_of_ok value]

theorem value_toggleFiles_eq_ok_iff {names : List Text} :
    ((toggleFiles options names).run Memory.storage memory).value = .ok () ↔
      ∀ name ∈ names, Admits options memory name (names.count name) := by
  induction names generalizing memory with
  | nil => simp [toggleFiles, Interaction.run]
  | cons first rest ih =>
    rw [value_toggleFiles_cons_eq_ok_iff, ih]
    -- The turn of the first name takes one of its togglings and leaves all of another name.
    constructor
    · rintro ⟨once, later⟩ name member
      by_cases same : name = first
      · subst same
        rw [List.count_cons_self, admits_succ_iff]
        refine ⟨once, ?_⟩
        by_cases again : name ∈ rest
        · exact later name again
        · rw [List.count_eq_zero.mpr again]
          exact (admits_succ_iff.mp once).2
      · have inside : name ∈ rest := (List.mem_cons.mp member).resolve_left same
        rw [List.count_cons_of_ne (Ne.symm same)]
        exact (admits_toggled_of_ne same).mp (later name inside)
    · intro every
      have often := every first List.mem_cons_self
      rw [List.count_cons_self] at often
      refine ⟨(admits_succ_iff.mp often).1, fun name inside => ?_⟩
      by_cases same : name = first
      · subst same
        exact (admits_succ_iff.mp often).2
      · have admitted := every name (List.mem_cons_of_mem first inside)
        rw [List.count_cons_of_ne (Ne.symm same)] at admitted
        exact (admits_toggled_of_ne same).mpr admitted

theorem state_toggleFiles_of_ok {names : List Text}
    (value : ((toggleFiles options names).run Memory.storage memory).value = .ok ()) :
    ((toggleFiles options names).run Memory.storage memory).state =
      names.foldl Memory.toggled memory := by
  obtain ⟨completed, later, earlier, last, rfl, _, completes, stops⟩ :=
    exists_completes_stops Memory.storage options memory names
  rw [value] at stops
  cases stops
  rw [List.append_nil] at completes ⊢
  exact completes.state_eq

/-- A batch ends without an error exactly if every listed name is there, can be read and written
and, under a check, has no imbalances after any of its togglings, of which there is one for each
time it is listed. The texts are then toggled that often, and the names that are not listed keep
theirs. So a batch of the same names in another order ends without an error too, or fails too, and
without an error it leaves the same files. -/
theorem toggleFiles_eq_ok_iff (options : Options) (names : List Text) (memory : Memory) :
    let course := (toggleFiles options names).run Memory.storage memory
    (course.value = .ok () ↔ ∀ name ∈ names, ∃ text, memory.files.lookup name = some text ∧
      memory.readFaults.lookup name = none ∧ memory.writeFaults.lookup name = none ∧
      (options.check = true → ∀ j, 1 ≤ j → j ≤ names.count name →
        Mac.imbalances ((Mac.toggle .sequential)^[j] text) = [])) ∧
    (course.value = .ok () → ∀ name, course.state.files.lookup name =
      (memory.files.lookup name).map (Mac.toggle .sequential)^[names.count name]) ∧
    (course.value = .ok () → ∀ name, name ∉ names →
      course.state.files.lookup name = memory.files.lookup name) ∧
    ∀ others, names.Perm others →
      let again := (toggleFiles options others).run Memory.storage memory
      (again.value = .ok () ↔ course.value = .ok ()) ∧
      (course.value = .ok () → again.state = course.state) := by
  intro course
  have texts : course.value = .ok () → ∀ name, course.state.files.lookup name =
      (memory.files.lookup name).map (Mac.toggle .sequential)^[names.count name] := by
    intro value name
    rw [state_toggleFiles_of_ok value, Memory.lookup_foldl_toggled]
  refine ⟨?_, texts, fun value name absent => ?_, fun others perm => ?_⟩
  · rw [value_toggleFiles_eq_ok_iff]
    refine forall₂_congr fun name _ => exists_congr fun text => ?_
    simp only [Options.Accepts]
    have reordered : (∀ j, 1 ≤ j → j ≤ names.count name → options.check = true →
          Mac.imbalances ((Mac.toggle .sequential)^[j] text) = []) ↔
        (options.check = true → ∀ j, 1 ≤ j → j ≤ names.count name →
          Mac.imbalances ((Mac.toggle .sequential)^[j] text) = []) :=
      ⟨fun every checked j low high => every j low high checked,
        fun every j low high checked => every checked j low high⟩
    rw [reordered]
  · rw [texts value name, List.count_eq_zero.mpr absent, Function.iterate_zero, Option.map_id]
    rfl
  · have alike : ((toggleFiles options others).run Memory.storage memory).value = .ok () ↔
        course.value = .ok () := by
      rw [value_toggleFiles_eq_ok_iff, value_toggleFiles_eq_ok_iff]
      simp only [perm.mem_iff, perm.count_eq]
    refine ⟨alike, fun value => ?_⟩
    rw [state_toggleFiles_of_ok value, state_toggleFiles_of_ok (alike.mpr value)]
    exact (Memory.foldl_toggled_perm memory perm).symm

/-- A name that comes twice keeps its markers balanced on the way, and another order of the names
leaves the same files. -/
theorem toggleFiles_eq_ok_iff_shuffled :
    let memory : Memory := {
      files := [("a".toList, "/IF-MAC\nx\n/END-MAC/".toList), ("b".toList, "y".toList),
        ("c".toList, "//END-MAC".toList)] }
    let names := ["a".toList, "b".toList, "a".toList]
    let others := ["b".toList, "a".toList, "a".toList]
    let options : Options := { check := true }
    let course := (toggleFiles options names).run Memory.storage memory
    names.Perm others ∧ course.value = .ok () ∧
      course.state.files.lookup "a".toList =
        some ((Mac.toggle .sequential)^[2] "/IF-MAC\nx\n/END-MAC/".toList) ∧
      "c".toList ∉ names ∧ course.state.files.lookup "c".toList = some "//END-MAC".toList ∧
      ((toggleFiles options others).run Memory.storage memory).state = course.state := by
  intro memory names others options course
  obtain ⟨succeeds, texts, unlisted, shuffled⟩ := toggleFiles_eq_ok_iff options names memory
  have perm : names.Perm others := by decide
  have value : course.value = .ok () := by decide
  have absent : "c".toList ∉ names := by decide
  exact ⟨perm, value, texts value "a".toList, absent, unlisted value "c".toList absent,
    (shuffled others perm).2 value⟩

end Batch

end PlatformMarkers
