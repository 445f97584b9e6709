import PlatformMarkers.CommandLine.Session
import PlatformMarkers.Proofs.Resolution
import PlatformMarkers.Proofs.Turns
import Mathlib.Data.List.Count
import Mathlib.Logic.Function.Iterate

/-! What a run of the command line does to a tree. No file appears or goes, every name leads where
it led before, and a file has its text toggled once for each reported success whose name leads to
it. Its bytes are untouched if there is none, whether they are text or not. -/

set_option autoImplicit false

namespace PlatformMarkers

/-! ## Warnings -/

def Event.isWarning : Event → Bool
  | .tell (.warning _) => true
  | _ => false

def unwarned (events : List Event) : List Event := events.filter (!·.isWarning)

theorem filterMap_eq_of_unwarned {Read : Type} {read? : Event → Option Read}
    (blind : ∀ text, read? (.tell (.warning text)) = none) {first second : List Event}
    (same : unwarned first = unwarned second) : first.filterMap read? = second.filterMap read? := by
  have kept (events : List Event) : (unwarned events).filterMap read? = events.filterMap read? := by
    rw [unwarned, List.filterMap_filter]
    refine List.filterMap_congr fun event _ => ?_
    obtain _ | _ | ⟨_ | _ | text⟩ := event
    case tell.warning => exact (blind text).symm
    all_goals rfl
  rw [← kept first, same, kept]

/-! ## Programs that only read and tell -/

namespace Interaction

variable {α β State : Type}

/-- The program writes nothing and reports no success, whatever the answers to its reads. -/
def Quiet : Interaction α → Prop
  | .done _ => True
  | .read _ next => ∀ answer, (next answer).Quiet
  | .write _ _ _ => False
  | .tell note next => note.successName? = none ∧ next.Quiet

theorem Quiet.run {program : Interaction α} (quiet : program.Quiet) (storage : Storage State)
    (state : State) :
    (program.run storage state).state = state ∧
      successes (program.run storage state).events = [] := by
  induction program with
  | done value => exact ⟨rfl, rfl⟩
  | read name next ih => exact ih _ (quiet _)
  | write => exact quiet.elim
  | tell note next ih =>
    obtain ⟨silent, rest⟩ := quiet
    obtain ⟨stays, none⟩ := ih rest
    have unreported : Event.successName? (.tell note) = Option.none := silent
    exact ⟨stays, (List.filterMap_cons_none unreported).trans none⟩

theorem run_warnOnce (storage : Storage State) (program : Interaction α) (given : List Text)
    (state : State) :
    let once := (program.warnOnce given).run storage state
    let course := program.run storage state
    once.state = course.state ∧ once.value = course.value ∧
      unwarned once.events = unwarned course.events := by
  induction program generalizing given state with
  | done value => exact ⟨rfl, rfl, rfl⟩
  | read name next ih =>
    obtain ⟨stays, ends, same⟩ := ih _ given state
    exact ⟨stays, ends, congrArg (_ :: ·) same⟩
  | write name content next ih =>
    simp only [warnOnce, run]
    cases storage.write state name content with
    | error failure =>
      obtain ⟨stays, ends, same⟩ := ih _ given state
      exact ⟨stays, ends, congrArg (_ :: ·) same⟩
    | ok changed =>
      obtain ⟨stays, ends, same⟩ := ih _ given changed
      exact ⟨stays, ends, congrArg (_ :: ·) same⟩
  | tell note next ih =>
    cases note with
    | output text | diagnostic text =>
      obtain ⟨stays, ends, same⟩ := ih given state
      exact ⟨stays, ends, congrArg (_ :: ·) same⟩
    | warning text =>
      simp only [warnOnce]
      split
      · exact ih given state
      · exact ih (text :: given) state

end Interaction

namespace CommandLine

theorem quiet_complain {α : Type} (message : Text) (value : α) : (complain message value).Quiet :=
  ⟨rfl, trivial⟩

theorem quiet_readNames (name : Text) : (readNames name).Quiet := by
  rw [readNames]
  intro answer
  beta_reduce
  split
  · trivial
  · exact quiet_complain _ _
  · trivial

theorem quiet_select (settings : Settings) : (select settings).Quiet := by
  rw [select]
  split
  · trivial
  · trivial
  · exact quiet_complain _ _
  · trivial
  · exact quiet_readNames _

theorem quiet_conclude (origin : Origin) (result : Except Batch.Failure Unit) :
    (conclude origin result).Quiet := by
  rw [conclude.eq_def]
  split
  · trivial
  · trivial
  · split <;> exact quiet_complain _ _
  · exact quiet_complain _ _
  · trivial

section
variable {State : Type} (storage : Storage State) (state : State)

theorem run_toggleSelection (options : Batch.Options) (selection : Selection) :
    let course := (toggleSelection options selection).run storage state
    let batch := (Batch.toggleFiles options selection.names).run storage state
    course.state = batch.state ∧ successes course.events = successes batch.events := by
  intro course batch
  have concluded := (quiet_conclude selection.origin batch.value).run storage batch.state
  have ran : course = _ := Interaction.run_bind storage _ _ state
  rw [ran, successes_append]
  exact ⟨concluded.1, by rw [concluded.2, List.append_nil]⟩

/-- What a program does to the state and reports as a success is what some batch does. -/
def ActsAsBatch {α : Type} (program : Interaction α) : Prop :=
  ∃ options names,
    let course := program.run storage state
    let batch := (Batch.toggleFiles options names).run storage state
    course.state = batch.state ∧ successes course.events = successes batch.events

variable {storage state} in
theorem ActsAsBatch.of_quiet {α : Type} {program : Interaction α} (quiet : program.Quiet) :
    ActsAsBatch storage state program := ⟨{}, [], quiet.run storage state⟩

theorem actsAsBatch_toggle (settings : Settings) : ActsAsBatch storage state (toggle settings) := by
  obtain ⟨stays, none⟩ := (quiet_select settings).run storage state
  rw [ActsAsBatch, toggle]
  simp only [Interaction.run_bind, successes_append, stays, none, List.nil_append]
  cases ((select settings).run storage state).value with
  | error ending =>
    have quiet : (Interaction.done ending).Quiet := trivial
    exact ActsAsBatch.of_quiet quiet
  | ok selection => exact ⟨_, selection.names, run_toggleSelection storage state _ selection⟩

theorem actsAsBatch_session (arguments : List Text) :
    ActsAsBatch storage state (session arguments) := by
  rw [session]
  cases request arguments with
  | help => exact .of_quiet ⟨rfl, trivial⟩
  | version => exact .of_quiet ⟨rfl, trivial⟩
  | refuse error => exact .of_quiet ⟨rfl, trivial⟩
  | toggle settings =>
    obtain ⟨sameState, _, sameEvents⟩ := (toggle settings).run_warnOnce storage [] state
    obtain ⟨options, names, state, reported⟩ := actsAsBatch_toggle storage state settings
    exact ⟨options, names, sameState.trans state,
      (filterMap_eq_of_unwarned (fun _ => rfl) sameEvents).trans reported⟩

end

/-! ## Batches over a tree -/

/-- What becomes of bytes whose text is toggled so many times. Bytes that are not toggled need not
be text. -/
def Advances (times : Nat) (before after : Option ByteArray) : Prop :=
  (times = 0 → after = before) ∧
    (0 < times → ∃ bytes text, before = some bytes ∧ Text.ofUtf8? bytes = some text ∧
      after = some (Text.toUtf8 ((Mac.toggle .sequential)^[times] text)))

theorem Advances.zero (bytes : Option ByteArray) : Advances 0 bytes bytes :=
  ⟨fun _ => rfl, fun positive => absurd positive (Nat.lt_irrefl 0)⟩

theorem Advances.succ {times : Nat} {bytes : ByteArray} {text : Text} {after : Option ByteArray}
    (decoded : Text.ofUtf8? bytes = some text)
    (later : Advances times (some (Text.toUtf8 (Mac.toggle .sequential text))) after) :
    Advances (times + 1) (some bytes) after := by
  refine ⟨fun none => absurd none (Nat.succ_ne_zero times),
    fun _ => ⟨bytes, text, rfl, decoded, ?_⟩⟩
  rw [Function.iterate_succ_apply]
  rcases Nat.eq_zero_or_pos times with rfl | positive
  · exact later.1 rfl
  · obtain ⟨found, again, same, redecoded, result⟩ := later.2 positive
    rw [← Option.some.inj same, Text.ofUtf8?_toUtf8] at redecoded
    rw [Option.some.inj redecoded]
    exact result

/-- A tree and what is left of it once the names have been toggled one after another. -/
structure Framed (tree final : FileTree) (names : List Text) : Prop
    extends FileTree.SamePlaces tree final where
  advances : ∀ location,
    Advances (names.countP fun name => tree.placeOf? name = some location)
      (tree.bytesAt? location) (final.bytesAt? location)

theorem Framed.nil (tree : FileTree) : Framed tree tree [] :=
  ⟨.refl tree, fun location => .zero (tree.bytesAt? location)⟩

variable {options : Batch.Options} {tree final : FileTree} {name : Text} {names : List Text}
  {events : List Event}

theorem tree_of_completed
    (turn : Batch.Turn treeStorage options tree name ⟨events, final, .ok ()⟩) :
    ∃ file text, tree.openFile name = .ok file ∧ Text.ofUtf8? file.bytes = some text ∧
      options.Accepts (Mac.toggle .sequential text) ∧
      final = tree.setBytes file.location (Text.toUtf8 (Mac.toggle .sequential text)) := by
  cases turn with
  | completed content accepted stored =>
    obtain ⟨file, opened, decoded⟩ := FileTree.readText_eq_ok_iff.mp content
    cases (FileTree.writeText_of_openFile opened _).symm.trans stored
    exact ⟨file, _, opened, decoded, accepted, rfl⟩

theorem Framed.cons {next : FileTree}
    (turn : Batch.Turn treeStorage options tree name ⟨events, next, .ok ()⟩)
    (rest : Framed next final names) : Framed tree final (name :: names) := by
  obtain ⟨file, text, opened, decoded, _, rfl⟩ := tree_of_completed turn
  have same := FileTree.SamePlaces.setBytes tree file.location
    (Text.toUtf8 (Mac.toggle .sequential text))
  have place : tree.placeOf? name = some file.location :=
    FileTree.placeOf?_eq_some_iff.mpr ⟨file.bytes, opened⟩
  refine ⟨same.trans rest.toSamePlaces, fun location => ?_⟩
  have later := rest.advances location
  simp only [same.placeOf?_eq] at later
  rw [List.countP_cons, place]
  -- The turn counts for the place of its own file alone.
  by_cases here : location = file.location
  · subst here
    rw [FileTree.bytesAt?_setBytes_self, FileTree.bytesAt?_of_openFile opened] at later
    rw [FileTree.bytesAt?_of_openFile opened]
    simpa using Advances.succ decoded later
  · rw [FileTree.bytesAt?_setBytes_of_ne tree _ here] at later
    simpa [Ne.symm here] using later

theorem Framed.of_completes
    (completes : Batch.Completes treeStorage options tree names events final) :
    Framed tree final names := by
  induction completes with
  | nil state => exact .nil state
  | cons turn rest ih => exact .cons turn ih

/-- However a run ends, the tree has the directories and files that it had, every name leads where
it led, and the bytes of a file are those of its text toggled once for each reported success whose
name leads to it. Without such a success they are the same bytes. -/
theorem session_frame (tree : FileTree) (arguments : List Text) :
    let course := sessionOn tree arguments
    course.state.directories = tree.directories ∧
    course.state.files.map Prod.fst = tree.files.map Prod.fst ∧
    (∀ name, course.state.placeOf? name = tree.placeOf? name) ∧
    ∀ location,
      let times := (successes course.events).countP fun name => tree.placeOf? name = some location
      (times = 0 → course.state.bytesAt? location = tree.bytesAt? location) ∧
      (0 < times → ∃ bytes text, tree.bytesAt? location = some bytes ∧
        Text.ofUtf8? bytes = some text ∧ course.state.bytesAt? location =
          some (Text.toUtf8 ((Mac.toggle .sequential)^[times] text))) := by
  intro course
  obtain ⟨options, names, state, reported⟩ := actsAsBatch_session treeStorage tree arguments
  obtain ⟨completed, later, earlier, last, _, events, completes, stops⟩ :=
    Batch.exists_completes_stops treeStorage options tree names
  have framed : Framed tree course.state completed := by
    rw [show course.state = _ from state]
    exact .of_completes completes
  have successful : successes course.events = completed := by
    rw [show successes course.events = _ from reported, events, successes_append,
      completes.successes_eq, stops.successes_eq, List.append_nil]
  rw [successful]
  exact ⟨framed.directories_eq, framed.locations_eq, framed.placeOf?_eq, framed.advances⟩

/-- Three names lead to one file before the run ends at a file that is not text. -/
theorem session_frame_aliases :
    let text := "/IF-MAC\n/END-MAC".toList
    let tree : FileTree := {
      directories := [["d".toList]]
      files := [(["a".toList], Text.toUtf8 text), (["b".toList], ⟨#[255]⟩)] }
    let arguments := ["a".toList, "./a".toList, "d/../a".toList, "b".toList, "a".toList]
    let course := sessionOn tree arguments
    let times := fun location =>
      (successes course.events).countP fun name => tree.placeOf? name = some location
    course.value = .escaped (.file .undecodable) ∧
      times ["a".toList] = 3 ∧ course.state.bytesAt? ["a".toList] =
        some (Text.toUtf8 ((Mac.toggle .sequential)^[3] text)) ∧
      times ["b".toList] = 0 ∧ course.state.bytesAt? ["b".toList] = some ⟨#[255]⟩ := by
  intro text tree arguments course times
  have thrice : times ["a".toList] = 3 := by decide +kernel
  have never : times ["b".toList] = 0 := by decide +kernel
  have positive : 0 < times ["a".toList] := by rw [thrice]; decide
  obtain ⟨_, _, _, bytes⟩ := session_frame tree arguments
  obtain ⟨held, decoded, same, read, result⟩ := (bytes ["a".toList]).2 positive
  have initial : tree.bytesAt? ["a".toList] = some (Text.toUtf8 text) := rfl
  rw [initial, Option.some.injEq] at same
  rw [← same, Text.ofUtf8?_toUtf8, Option.some.injEq] at read
  refine ⟨by decide +kernel, thrice, ?_, never, (bytes ["b".toList]).1 never⟩
  rw [result, ← read]
  exact congrArg (fun count => some (Text.toUtf8 ((Mac.toggle .sequential)^[count] text))) thrice

end CommandLine

end PlatformMarkers
