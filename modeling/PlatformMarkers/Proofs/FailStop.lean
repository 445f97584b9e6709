import PlatformMarkers.Batch.Memory
import PlatformMarkers.Proofs.Turns

/-! A batch over files in memory stops at its first failure. The names before it have been read,
toggled, written and reported, each before the next one; the failing name leaves the files as they
are, and the names behind it are not touched. -/

set_option autoImplicit false

namespace PlatformMarkers

namespace Memory

variable {memory changed : Memory} {name text content : Text}

theorem read_eq_ok_iff : memory.read name = .ok text ↔
    memory.readFaults.lookup name = none ∧ memory.files.lookup name = some text := by
  rw [read]
  cases memory.readFaults.lookup name with
  | some fault => simp
  | none => cases memory.files.lookup name <;> simp

theorem write_eq_ok_iff : memory.write name content = .ok changed ↔
    memory.writeFaults.lookup name = none ∧
      { memory with files := put name content memory.files } = changed := by
  rw [write]
  cases memory.writeFaults.lookup name <;> simp

def toggled (memory : Memory) (name : Text) : Memory :=
  match memory.files.lookup name with
  | some text => { memory with files := put name (Mac.toggle .sequential text) memory.files }
  | none => memory

end Memory

namespace Batch

variable {options : Options} {memory final : Memory} {name : Text} {names : List Text}
  {events : List Event}

theorem Turn.state_of_completed
    (turn : Turn Memory.storage options memory name ⟨events, final, .ok ()⟩) :
    final = memory.toggled name := by
  cases turn with
  | completed content accepted stored =>
    obtain ⟨_, held⟩ := Memory.read_eq_ok_iff.mp content
    obtain ⟨_, changed⟩ := Memory.write_eq_ok_iff.mp stored
    simp only [Memory.toggled, held]
    exact changed.symm

theorem Completes.state_eq
    (completes : Completes Memory.storage options memory names events final) :
    final = names.foldl Memory.toggled memory := by
  induction completes with
  | nil => rfl
  | cons turn rest ih =>
    cases turn.state_of_completed
    exact ih

/-- A batch completes the turns of some first names. Their reads, writes and reports of success
follow one another, the files are those that the toggling of these names leaves, and the batch ends
without an error exactly if no name is left. Otherwise it ends with the failed turn of the next
name, which is read, and written only if it is the write that fails. -/
theorem toggleFiles_failStop (options : Options) (names : List Text) (memory : Memory) :
    let course := (toggleFiles options names).run Memory.storage memory
    ∃ k earlier last, k ≤ names.length ∧
      Completes Memory.storage options memory (names.take k) earlier course.state ∧
      course.state = (names.take k).foldl Memory.toggled memory ∧
      course.events = earlier ++ last ∧
      landmarks earlier =
        (names.take k).flatMap (fun name => [.read name, .write name, .tell (success name)]) ∧
      (course.value = .ok () ↔ k = names.length) ∧ (k = names.length → last = []) ∧
      ∀ name, names[k]? = some name → ∃ failure, course.value = .error failure ∧
        Turn Memory.storage options course.state name ⟨last, course.state, .error failure⟩ ∧
        Fails Memory.storage options course.state name failure (landmarks last) := by
  intro course
  obtain ⟨completed, later, earlier, last, rfl, events, completes, stops⟩ :=
    exists_completes_stops Memory.storage options memory names
  refine ⟨completed.length, earlier, last, by simp, ?_⟩
  rw [List.take_left]
  refine ⟨completes, completes.state_eq, events, completes.landmarks_eq, ?_⟩
  generalize course.value = value at stops
  cases stops with
  | ended => simp
  | failed turn =>
    refine ⟨by simp, by simp, fun name next => ?_⟩
    simp only [List.getElem?_append_right (Nat.le_refl completed.length), Nat.sub_self,
      List.getElem?_cons_zero, Option.some.injEq] at next
    cases next
    exact ⟨_, rfl, turn, turn.fails⟩

/-- A name that comes twice is toggled twice, and the disk is full at the write of the next one. -/
theorem toggleFiles_failStop_full :
    let memory : Memory := {
      files := [("a".toList, "/END-MACIF-NOT-MAC/".toList), ("b".toList, "/IF-MAC*".toList),
        ("c".toList, "/END-MAC".toList)]
      writeFaults := [("b".toList, .noSpace)] }
    let names := ["a".toList, "a".toList, "b".toList, "c".toList]
    let course := (toggleFiles {} names).run Memory.storage memory
    let full : Failure := .file (.access .noSpace "b".toList)
    names[2]? = some "b".toList ∧
      course.state = ["a".toList, "a".toList].foldl Memory.toggled memory ∧
      course.state.files = [("a".toList, "//END-MAC*/IF-NOT-MAC".toList),
        ("b".toList, "/IF-MAC*".toList), ("c".toList, "/END-MAC".toList)] ∧
      course.value = .error full ∧
      ∃ last, Fails Memory.storage {} course.state "b".toList full (landmarks last) ∧
        landmarks course.events = ["a".toList, "a".toList].flatMap
          (fun name => [.read name, .write name, .tell (success name)]) ++ landmarks last := by
  intro memory names course full
  obtain ⟨k, earlier, last, short, _, state, events, marks, _, _, stopped⟩ :=
    toggleFiles_failStop {} names memory
  have two : k = 2 := by
    have different : ∀ j ∈ [0, 1, 3, 4],
        course.state ≠ (names.take j).foldl Memory.toggled memory := by decide
    have bounded : k ≤ 4 := short
    by_contra other
    exact different k (by simp only [List.mem_cons, List.not_mem_nil]; omega) state
  subst two
  have next : names[2]? = some "b".toList := by decide
  have value : course.value = .error full := by decide
  obtain ⟨failure, same, _, fails⟩ := stopped "b".toList next
  cases value.symm.trans same
  refine ⟨next, state, by decide, value, last, fails, ?_⟩
  rw [events, landmarks_append, marks]
  rfl

end Batch

end PlatformMarkers
