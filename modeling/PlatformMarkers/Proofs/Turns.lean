import PlatformMarkers.Batch.Toggling
import Mathlib.Data.List.Basic

/-! The turns of the files in a batch. The turn of a file ends in one of four ways, and a batch
is a row of completed turns that ends with the files or with the first turn that fails. This is
so over every storage, and what a batch does to one of them is read off its turns. -/

set_option autoImplicit false

namespace PlatformMarkers

/-! ## Landmarks among the events -/

def Note.successName? : Note → Option Text
  | .output text =>
    (text.dropPrefix? "success: wrote to `".toList).bind (·.dropSuffix? "`\n".toList)
  | .diagnostic _ => none
  | .warning _ => none

namespace Event

def successName? : Event → Option Text
  | .read _ => none
  | .write _ => none
  | .tell note => note.successName?

/-- The reads, the writes and the reports of success. -/
def isLandmark : Event → Bool
  | .read _ => true
  | .write _ => true
  | .tell note => note.successName?.isSome

end Event

def successes (events : List Event) : List Text := events.filterMap Event.successName?

def landmarks (events : List Event) : List Event := events.filter Event.isLandmark

theorem successes_append (first second : List Event) :
    successes (first ++ second) = successes first ++ successes second :=
  List.filterMap_append

theorem landmarks_append (first second : List Event) :
    landmarks (first ++ second) = landmarks first ++ landmarks second :=
  List.filter_append first second

theorem landmarks_tell {notes : List Note} (silent : ∀ note ∈ notes, note.successName? = none) :
    landmarks (notes.map .tell) = [] := by
  rw [landmarks, List.filter_map, List.map_eq_nil_iff, List.filter_eq_nil_iff]
  intro note member
  simp [Event.isLandmark, silent note member]

namespace Batch

theorem successName?_success (name : Text) : (success name).successName? = some name := by
  have line : "success: wrote to ".toList ++ Text.ticked name ++ "\n".toList =
      "success: wrote to `".toList ++ (name ++ "`\n".toList) := by
    simp [Text.ticked]
  rw [success, line, Note.successName?, List.dropPrefix?_append_of_beq _ (beq_self_eq_true _),
    Option.bind_some, List.dropSuffix?_eq_some_iff]
  exact ⟨_, rfl, beq_self_eq_true _⟩

theorem successName?_of_mem_trace {text : Text} {note : Note} (member : note ∈ trace text) :
    note.successName? = none := by
  obtain ⟨pass, _, rfl⟩ := List.mem_map.mp member
  rfl

/-! ## The turn of one file -/

def Options.shown (options : Options) (text : Text) : List Note :=
  if options.verbose then trace text else []

/-- Only a check refuses a toggled text, and none without imbalances. -/
def Options.Accepts (options : Options) (toggled : Text) : Prop :=
  options.check = true → Mac.imbalances toggled = []

def warnings (name toggled : Text) : List Note := (Mac.imbalances toggled).map (warning name)

def refusals (name toggled : Text) : List Note := (Mac.imbalances toggled).map (refusal name)

theorem successName?_of_mem_shown {options : Options} {text : Text} {note : Note}
    (member : note ∈ options.shown text) : note.successName? = none := by
  rw [Options.shown] at member
  split at member
  · exact successName?_of_mem_trace member
  · cases member

section
variable {State : Type} (storage : Storage State) (options : Options)

/-- The courses that the turn of a file can take from a state. -/
inductive Turn (state : State) (name : Text) : Course State (Except Failure Unit) → Prop where
  | unread {failure : FileFailure} (refused : storage.read state name = .error failure) :
      Turn state name ⟨[.read name], state, .error (.file failure)⟩
  | unbalanced {text : Text} (content : storage.read state name = .ok text)
      (checked : options.check = true)
      (found : Mac.imbalances (Mac.toggle .sequential text) ≠ []) :
      Turn state name ⟨
        .read name ::
          (options.shown text ++ refusals name (Mac.toggle .sequential text)).map .tell,
        state, .error (.unbalanced (Mac.imbalances (Mac.toggle .sequential text)))⟩
  | unwritten {text : Text} {failure : FileFailure} (content : storage.read state name = .ok text)
      (accepted : options.Accepts (Mac.toggle .sequential text))
      (refused : storage.write state name (Mac.toggle .sequential text) = .error failure) :
      Turn state name ⟨
        .read name ::
          (options.shown text ++ warnings name (Mac.toggle .sequential text)).map .tell ++
            [.write name],
        state, .error (.file failure)⟩
  | completed {text : Text} {changed : State} (content : storage.read state name = .ok text)
      (accepted : options.Accepts (Mac.toggle .sequential text))
      (stored : storage.write state name (Mac.toggle .sequential text) = .ok changed) :
      Turn state name ⟨
        .read name ::
          (options.shown text ++ warnings name (Mac.toggle .sequential text)).map .tell ++
            [.write name, .tell (success name)],
        changed, .ok ()⟩

theorem run_save (state : State) (name toggled : Text) :
    (save name toggled).run storage state =
      match storage.write state name toggled with
      | .error failure => ⟨[.write name], state, .error (.file failure)⟩
      | .ok changed => ⟨[.write name, .tell (success name)], changed, .ok ()⟩ := by
  rw [save, Interaction.run]
  cases storage.write state name toggled <;> rfl

variable {options} in
theorem settle_of_accepted {name toggled : Text} (accepted : options.Accepts toggled) :
    settle options name toggled =
      Interaction.tellAll (warnings name toggled) (save name toggled) := by
  have unrefused : (options.check && !(Mac.imbalances toggled).isEmpty) = false := by
    simpa [Options.Accepts] using accepted
  simp only [settle, unrefused, Bool.false_eq_true, if_false, warnings]

variable {options} in
theorem settle_of_refused {name toggled : Text} (checked : options.check = true)
    (found : Mac.imbalances toggled ≠ []) :
    settle options name toggled =
      Interaction.tellAll (refusals name toggled)
        (.done (.error (.unbalanced (Mac.imbalances toggled)))) := by
  have refused : (options.check && !(Mac.imbalances toggled).isEmpty) = true := by
    simpa [checked] using found
  simp only [settle, refused, if_true, refusals]

variable {options} in
theorem toggleFile_eq {name : Text} : toggleFile options name = .read name fun
    | .error failure => .done (.error (.file failure))
    | .ok text => Interaction.tellAll (options.shown text)
        (settle options name (Mac.toggle .sequential text)) := rfl

theorem turn_toggleFile (state : State) (name : Text) :
    Turn storage options state name ((toggleFile options name).run storage state) := by
  simp only [toggleFile_eq, Interaction.run]
  cases content : storage.read state name with
  | error failure => exact .unread content
  | ok text =>
    simp only [Interaction.run_tellAll]
    by_cases accepted : options.Accepts (Mac.toggle .sequential text)
    · simp only [settle_of_accepted accepted, Interaction.run_tellAll, run_save]
      cases stored : storage.write state name (Mac.toggle .sequential text) with
      | error failure => simpa using Turn.unwritten content accepted stored
      | ok changed => simpa using Turn.completed content accepted stored
    · simp only [Options.Accepts, Classical.not_imp] at accepted
      obtain ⟨checked, found⟩ := accepted
      simp only [settle_of_refused checked found, Interaction.run_tellAll, Interaction.run]
      simpa using Turn.unbalanced content checked found

/-- The causes of a failed turn, each with the landmarks that the turn then has. -/
inductive Fails (state : State) (name : Text) : Failure → List Event → Prop where
  | read {failure : FileFailure} (refused : storage.read state name = .error failure) :
      Fails state name (.file failure) [.read name]
  | check {text : Text} (content : storage.read state name = .ok text)
      (checked : options.check = true)
      (found : Mac.imbalances (Mac.toggle .sequential text) ≠ []) :
      Fails state name (.unbalanced (Mac.imbalances (Mac.toggle .sequential text))) [.read name]
  | write {text : Text} {failure : FileFailure} (content : storage.read state name = .ok text)
      (accepted : options.Accepts (Mac.toggle .sequential text))
      (refused : storage.write state name (Mac.toggle .sequential text) = .error failure) :
      Fails state name (.file failure) [.read name, .write name]

/-- Completed turns, one after another, with their events and the state that they lead to. -/
inductive Completes : State → List Text → List Event → State → Prop where
  | nil (state : State) : Completes state [] [] state
  | cons {state next final : State} {name : Text} {names : List Text} {events later : List Event}
      (turn : Turn storage options state name ⟨events, next, .ok ()⟩)
      (rest : Completes next names later final) :
      Completes state (name :: names) (events ++ later) final

/-- The end of a batch behind its completed turns: no name is left, or the turn of the first one
fails, and the names behind it have none. -/
inductive Stops (state : State) : List Text → Course State (Except Failure Unit) → Prop where
  | ended : Stops state [] ⟨[], state, .ok ()⟩
  | failed {name : Text} {later : List Text} {events : List Event} {failure : Failure}
      (turn : Turn storage options state name ⟨events, state, .error failure⟩) :
      Stops state (name :: later) ⟨events, state, .error failure⟩

variable {storage options}

/-! ## Laws of one turn -/

section
variable {state final : State} {name : Text} {events : List Event} {failure : Failure}

theorem silent_notes {text : Text} {remarks : List Note}
    (silent : ∀ note ∈ remarks, note.successName? = none) :
    ∀ note ∈ options.shown text ++ remarks, note.successName? = none := by
  intro note member
  rcases List.mem_append.mp member with inside | inside
  · exact successName?_of_mem_shown inside
  · exact silent note inside

theorem successName?_of_mem_warnings {toggled : Text} :
    ∀ note ∈ warnings name toggled, note.successName? = none := by
  intro note member
  obtain ⟨_, _, rfl⟩ := List.mem_map.mp member
  rfl

theorem successName?_of_mem_refusals {toggled : Text} :
    ∀ note ∈ refusals name toggled, note.successName? = none := by
  intro note member
  obtain ⟨_, _, rfl⟩ := List.mem_map.mp member
  rfl

theorem landmarks_notes {notes : List Note} (silent : ∀ note ∈ notes, note.successName? = none)
    (rest : List Event) :
    landmarks (.read name :: notes.map .tell ++ rest) = .read name :: landmarks rest := by
  rw [landmarks_append]
  have read : landmarks (.read name :: notes.map .tell) =
      .read name :: landmarks (notes.map .tell) := rfl
  rw [read, landmarks_tell silent]
  rfl

theorem Turn.landmarks_completed (turn : Turn storage options state name ⟨events, final, .ok ()⟩) :
    landmarks events = [.read name, .write name, .tell (success name)] := by
  cases turn with
  | completed =>
    rw [landmarks_notes (silent_notes successName?_of_mem_warnings)]
    simp [landmarks, Event.isLandmark, successName?_success]

theorem Turn.state_of_failed
    (turn : Turn storage options state name ⟨events, final, .error failure⟩) : final = state := by
  cases turn <;> rfl

theorem Turn.fails (turn : Turn storage options state name ⟨events, final, .error failure⟩) :
    Fails storage options state name failure (landmarks events) := by
  cases turn with
  | unread refused => exact .read refused
  | unbalanced content checked found =>
    rw [← List.append_nil (Event.read name :: _),
      landmarks_notes (silent_notes successName?_of_mem_refusals)]
    exact .check content checked found
  | unwritten content accepted refused =>
    rw [landmarks_notes (silent_notes successName?_of_mem_warnings)]
    exact .write content accepted refused

end

/-! ## Laws of a batch -/

theorem run_toggleFiles_cons (state : State) (name : Text) (names : List Text) :
    (toggleFiles options (name :: names)).run storage state =
      let first := (toggleFile options name).run storage state
      match first.value with
      | .error failure => ⟨first.events, first.state, .error failure⟩
      | .ok () =>
        let rest := (toggleFiles options names).run storage first.state
        ⟨first.events ++ rest.events, rest.state, rest.value⟩ := by
  simp only [toggleFiles, Interaction.run_bind]
  cases ((toggleFile options name).run storage state).value with
  | error failure => simp [Interaction.run]
  | ok done => rfl

variable (storage options) in
theorem exists_completes_stops (state : State) (names : List Text) :
    let course := (toggleFiles options names).run storage state
    ∃ completed later earlier last, names = completed ++ later ∧ course.events = earlier ++ last ∧
      Completes storage options state completed earlier course.state ∧
      Stops storage options course.state later ⟨last, course.state, course.value⟩ := by
  induction names generalizing state with
  | nil => exact ⟨[], [], [], [], rfl, rfl, .nil state, .ended⟩
  | cons name names ih =>
    have turn := turn_toggleFile storage options state name
    rw [run_toggleFiles_cons]
    generalize (toggleFile options name).run storage state = first at turn
    obtain ⟨events, next, value⟩ := first
    cases value with
    | error failure =>
      cases turn.state_of_failed
      exact ⟨[], name :: names, [], events, rfl, rfl, .nil state, .failed turn⟩
    | ok done =>
      obtain ⟨completed, later, earlier, last, rfl, course, completes, stops⟩ := ih next
      refine ⟨name :: completed, later, events ++ earlier, last, rfl, ?_, .cons turn completes,
        stops⟩
      simp only [course, List.append_assoc]

theorem Completes.landmarks_eq {state final : State} {names : List Text} {events : List Event}
    (completes : Completes storage options state names events final) :
    landmarks events =
      names.flatMap fun name => [.read name, .write name, .tell (success name)] := by
  induction completes with
  | nil => rfl
  | cons turn rest ih => rw [landmarks_append, turn.landmarks_completed, ih, List.flatMap_cons]

theorem filterMap_landmarks {Read : Type} {read? : Event → Option Read}
    (blind : ∀ event : Event, event.isLandmark = false → read? event = none) (events : List Event) :
    (landmarks events).filterMap read? = events.filterMap read? := by
  rw [landmarks, List.filterMap_filter]
  refine List.filterMap_congr fun event _ => ?_
  cases marked : event.isLandmark with
  | false => simp [blind event marked]
  | true => rfl

theorem Completes.filterMap_eq {state final : State} {names : List Text} {events : List Event}
    {read? : Event → Option Text}
    (blind : ∀ event : Event, event.isLandmark = false → read? event = none)
    (once : ∀ name, [.read name, .write name, .tell (success name)].filterMap read? = [name])
    (completes : Completes storage options state names events final) :
    events.filterMap read? = names := by
  rw [← filterMap_landmarks blind, completes.landmarks_eq, List.filterMap_flatMap]
  exact (List.flatMap_congr fun name _ => once name).trans (List.flatMap_singleton' names)

theorem successName?_of_not_landmark (event : Event) (unmarked : event.isLandmark = false) :
    event.successName? = none := by
  cases event with
  | read => rfl
  | write => rfl
  | tell note => simpa [Event.isLandmark, Event.successName?] using unmarked

theorem successes_landmarks (events : List Event) :
    successes (landmarks events) = successes events :=
  filterMap_landmarks successName?_of_not_landmark events

theorem Completes.successes_eq {state final : State} {names : List Text} {events : List Event}
    (completes : Completes storage options state names events final) :
    successes events = names := by
  refine completes.filterMap_eq successName?_of_not_landmark fun name => ?_
  have told : Event.successName? (.tell (success name)) = some name := successName?_success name
  rw [List.filterMap_cons_none rfl, List.filterMap_cons_none rfl, List.filterMap_cons_some told,
    List.filterMap_nil]

theorem Stops.successes_eq {state : State} {names : List Text}
    {course : Course State (Except Failure Unit)}
    (stops : Stops storage options state names course) :
    successes course.events = [] := by
  cases stops with
  | ended => rfl
  | failed turn =>
    have fails := turn.fails
    rw [← successes_landmarks]
    generalize landmarks _ = marks at fails ⊢
    cases fails <;> rfl

end

end Batch

end PlatformMarkers
