import PlatformMarkers.Batch.Memory
import PlatformMarkers.Proofs.Turns

/-! A batch with a check beside the same batch without one. Both take the same course up to the
first file that the check refuses. There the one stops, and the other gives its refusals as
warnings and goes on to write the file. -/

set_option autoImplicit false

namespace PlatformMarkers

/-! ## The states in which events happen -/

/-- An event, and the state that it finds. -/
structure Moment (State : Type) where
  state : State
  event : Event

def told {State : Type} (state : State) (notes : List Note) : List (Moment State) :=
  notes.map fun note => ⟨state, .tell note⟩

namespace Interaction

variable {α β State : Type}

def timeline (storage : Storage State) : Interaction α → State → List (Moment State)
  | .done _, _ => []
  | .read name next, state =>
    ⟨state, .read name⟩ :: timeline storage (next (storage.read state name)) state
  | .write name content next, state =>
    ⟨state, .write name⟩ ::
      match storage.write state name content with
      | .ok changed => timeline storage (next (.ok ())) changed
      | .error failure => timeline storage (next (.error failure)) state
  | .tell note next, state => ⟨state, .tell note⟩ :: timeline storage next state

theorem map_event_timeline (storage : Storage State) (program : Interaction α) (state : State) :
    (program.timeline storage state).map Moment.event = (program.run storage state).events := by
  induction program generalizing state with
  | done value => rfl
  | read name next ih => simp only [timeline, run, List.map_cons, ih]
  | write name content next ih =>
    simp only [timeline, run, List.map_cons]
    cases storage.write state name content <;> simp only [ih]
  | tell note next ih => simp only [timeline, run, List.map_cons, ih]

theorem timeline_bind (storage : Storage State) (first : Interaction α)
    (second : α → Interaction β) (state : State) :
    let start := first.run storage state
    (first.bind second).timeline storage state =
      first.timeline storage state ++ (second start.value).timeline storage start.state := by
  induction first generalizing state with
  | done value => rfl
  | read name next ih => simp only [bind, run, timeline, ih, List.cons_append]
  | write name content next ih =>
    simp only [bind, run, timeline]
    cases storage.write state name content <;> simp only [ih, List.cons_append]
  | tell note next ih => simp only [bind, run, timeline, ih, List.cons_append]

theorem timeline_tellAll (storage : Storage State) (notes : List Note) (next : Interaction α)
    (state : State) : (tellAll notes next).timeline storage state =
      told state notes ++ next.timeline storage state := by
  induction notes with
  | nil => rfl
  | cons note notes ih =>
    simp only [tellAll, List.foldr_cons, timeline] at ih ⊢
    rw [ih]
    rfl

end Interaction

def Event.diagnostic? : Event → Option Text
  | .tell (.diagnostic text) => some text
  | _ => none

def diagnostics (events : List Event) : List Text := events.filterMap Event.diagnostic?

theorem diagnostics_append (first second : List Event) :
    diagnostics (first ++ second) = diagnostics first ++ diagnostics second :=
  List.filterMap_append

theorem diagnostics_eq_nil {events : List Event}
    (silent : ∀ event ∈ events, ∀ text, event ≠ .tell (.diagnostic text)) :
    diagnostics events = [] := by
  refine List.filterMap_eq_nil_iff.mpr fun event member => ?_
  cases found : event.diagnostic? with
  | none => rfl
  | some text =>
    obtain _ | _ | ⟨_ | line | _⟩ := event <;> simp only [Event.diagnostic?, reduceCtorEq] at found
    exact absurd rfl (silent _ member line)

theorem diagnostics_told {State : Type} (state : State) (lines : List Text) :
    diagnostics ((told state (lines.map .diagnostic)).map Moment.event) = lines := by
  rw [told, List.map_map, List.map_map, diagnostics, List.filterMap_map]
  exact List.filterMap_some

namespace Batch

/-! ## The moments of one turn -/

section
variable {State : Type} {storage : Storage State} {options : Options} {state : State}
  {name text toggled : Text}

variable (storage state name toggled) in
theorem timeline_save : ∃ later, (save name toggled).timeline storage state =
    ⟨state, .write name⟩ :: later ∧ ∀ moment ∈ later, moment.event = .tell (success name) := by
  rw [save, Interaction.timeline]
  refine ⟨_, rfl, fun moment member => ?_⟩
  cases stored : storage.write state name toggled with
  | error failure => simp [stored, Interaction.timeline] at member
  | ok changed =>
    simp only [stored, Interaction.timeline, List.mem_singleton] at member
    rw [member]

theorem timeline_toggleFile (content : storage.read state name = .ok text) :
    (toggleFile options name).timeline storage state =
      ⟨state, .read name⟩ :: told state (options.shown text) ++
        (settle options name (Mac.toggle .sequential text)).timeline storage state := by
  simp only [toggleFile_eq, Interaction.timeline, content, Interaction.timeline_tellAll,
    List.cons_append]

theorem timeline_toggleFile_of_unread {failure : FileFailure}
    (refused : storage.read state name = .error failure) :
    (toggleFile options name).timeline storage state = [⟨state, .read name⟩] := by
  simp only [toggleFile_eq, Interaction.timeline, refused]

end

section
variable {State : Type} (storage : Storage State) (options : Options)

inductive Arises (state : State) (name : Text) : Moment State → Prop where
  | read : Arises state name ⟨state, .read name⟩
  | shown {text : Text} {note : Note} (member : note ∈ options.shown text) :
      Arises state name ⟨state, .tell note⟩
  | refused {imbalance : Mac.Imbalance} (checked : options.check = true) :
      Arises state name ⟨state, .tell (refusal name imbalance)⟩
  | warned {toggled : Text} {imbalance : Mac.Imbalance} (accepted : options.Accepts toggled)
      (member : imbalance ∈ Mac.imbalances toggled) :
      Arises state name ⟨state, .tell (warning name imbalance)⟩
  | written {text : Text} (content : storage.read state name = .ok text)
      (accepted : options.Accepts (Mac.toggle .sequential text)) :
      Arises state name ⟨state, .write name⟩
  | reported {changed : State} : Arises state name ⟨changed, .tell (success name)⟩

variable {storage options} {state : State} {name : Text} {moment : Moment State}

theorem arises_of_mem_settle {text : Text} (content : storage.read state name = .ok text)
    (member : moment ∈
      (settle options name (Mac.toggle .sequential text)).timeline storage state) :
    Arises storage options state name moment := by
  by_cases accepted : options.Accepts (Mac.toggle .sequential text)
  · obtain ⟨later, saved, reports⟩ :=
      timeline_save storage state name (Mac.toggle .sequential text)
    rw [settle_of_accepted accepted, Interaction.timeline_tellAll, saved, List.mem_append,
      List.mem_cons] at member
    rcases member with inside | rfl | after
    · simp only [told, warnings, List.map_map, List.mem_map, Function.comp_apply] at inside
      obtain ⟨imbalance, found, rfl⟩ := inside
      exact .warned accepted found
    · exact .written content accepted
    · obtain ⟨changed, event⟩ := moment
      cases reports _ after
      exact .reported
  · simp only [Options.Accepts, Classical.not_imp] at accepted
    obtain ⟨checked, found⟩ := accepted
    rw [settle_of_refused checked found, Interaction.timeline_tellAll] at member
    simp only [Interaction.timeline, List.append_nil, told, refusals, List.map_map, List.mem_map,
      Function.comp_apply] at member
    obtain ⟨imbalance, _, rfl⟩ := member
    exact .refused checked

theorem arises_of_mem (member : moment ∈ (toggleFile options name).timeline storage state) :
    Arises storage options state name moment := by
  cases content : storage.read state name with
  | error failure =>
    rw [timeline_toggleFile_of_unread content, List.mem_singleton] at member
    rw [member]
    exact .read
  | ok text =>
    rw [timeline_toggleFile content, List.cons_append, List.mem_cons, List.mem_append] at member
    rcases member with rfl | inside | inside
    · exact .read
    · obtain ⟨note, shown, rfl⟩ := List.mem_map.mp inside
      exact .shown shown
    · exact arises_of_mem_settle content inside

theorem exists_output_of_mem_shown {text : Text} {note : Note}
    (member : note ∈ options.shown text) : ∃ line, note = .output line := by
  rw [Options.shown] at member
  split at member
  · obtain ⟨pass, _, rfl⟩ := List.mem_map.mp member
    exact ⟨pass.render, rfl⟩
  · cases member

namespace Arises

variable (arises : Arises storage options state name moment)
include arises

theorem event_ne_warning (checked : options.check = true) (text : Text) :
    moment.event ≠ .tell (.warning text) := by
  cases arises with
  | shown member =>
    obtain ⟨line, rfl⟩ := exists_output_of_mem_shown member
    simp
  | warned accepted member =>
    rw [accepted checked] at member
    cases member
  | read | refused | written | reported => simp [refusal, success]

theorem event_ne_diagnostic (unchecked : options.check = false) (text : Text) :
    moment.event ≠ .tell (.diagnostic text) := by
  cases arises with
  | shown member =>
    obtain ⟨line, rfl⟩ := exists_output_of_mem_shown member
    simp
  | refused checked => rw [unchecked] at checked; cases checked
  | read | warned | written | reported => simp [warning, success]

theorem balanced_of_write (checked : options.check = true) {other : Text}
    (written : moment.event = .write other) :
    ∃ text, storage.read moment.state other = .ok text ∧
      Mac.imbalances (Mac.toggle .sequential text) = [] := by
  cases arises with
  | written content accepted =>
    cases written
    exact ⟨_, content, accepted checked⟩
  | read | shown | refused | warned | reported => cases written

end Arises

end

/-! ## Two batches side by side -/

section
variable {State : Type} {storage : Storage State} {options : Options} {state : State}
  {name : Text} {names : List Text}

theorem timeline_toggleFiles_cons :
    (toggleFiles options (name :: names)).timeline storage state =
      let first := (toggleFile options name).run storage state
      (toggleFile options name).timeline storage state ++
        match first.value with
        | .error _ => []
        | .ok () => (toggleFiles options names).timeline storage first.state := by
  simp only [toggleFiles, Interaction.timeline_bind]
  cases ((toggleFile options name).run storage state).value <;> rfl

theorem exists_arises_of_mem {moment : Moment State}
    (member : moment ∈ (toggleFiles options names).timeline storage state) :
    ∃ start name, Arises storage options start name moment := by
  induction names generalizing state with
  | nil => cases member
  | cons first rest ih =>
    rw [timeline_toggleFiles_cons] at member
    rcases List.mem_append.mp member with inside | after
    · exact ⟨state, first, arises_of_mem inside⟩
    · cases value : ((toggleFile options first).run storage state).value with
      | error failure => simp [value] at after
      | ok done =>
        simp only [value] at after
        exact ih after

section
variable {moment : Moment State}
  (member : moment ∈ (toggleFiles options names).timeline storage state)
include member

theorem event_ne_warning_of_mem (checked : options.check = true) (text : Text) :
    moment.event ≠ .tell (.warning text) := by
  obtain ⟨_, _, arises⟩ := exists_arises_of_mem member
  exact arises.event_ne_warning checked text

theorem event_ne_diagnostic_of_mem (unchecked : options.check = false) (text : Text) :
    moment.event ≠ .tell (.diagnostic text) := by
  obtain ⟨_, _, arises⟩ := exists_arises_of_mem member
  exact arises.event_ne_diagnostic unchecked text

theorem balanced_of_write_of_mem (checked : options.check = true)
    (written : moment.event = .write name) :
    ∃ text, storage.read moment.state name = .ok text ∧
      Mac.imbalances (Mac.toggle .sequential text) = [] := by
  obtain ⟨_, _, arises⟩ := exists_arises_of_mem member
  exact arises.balanced_of_write checked written

end

theorem warnings_eq (name toggled : Text) :
    warnings name toggled = ((Mac.imbalances toggled).map (remark name)).map .warning :=
  List.map_map.symm

theorem refusals_eq (name toggled : Text) : refusals name toggled =
    (((Mac.imbalances toggled).map (remark name)).map fun remark =>
      "error: ".toList ++ remark ++ "\n".toList).map .diagnostic := by
  simp only [List.map_map]
  rfl

variable (storage) in
/-- Two batches part at a file, where the one with the check ends in the state and with the value.
Both have read the file. The check refuses its toggled text, and without it the same remarks come
as warnings and then the write. -/
structure Parting (verbose : Bool) (final : State) (value : Except Failure Unit)
    (strict lenient : List (Moment State)) (name text : Text) (common later : List (Moment State)) :
    Prop where
  content : storage.read final name = .ok text
  found : Mac.imbalances (Mac.toggle .sequential text) ≠ []
  value_eq : value = .error (.unbalanced (Mac.imbalances (Mac.toggle .sequential text)))
  common_eq : ∃ before, common = before ++ ⟨final, .read name⟩ ::
    told final (if verbose then trace text else [])
  strict_eq : strict = common ++ told final (refusals name (Mac.toggle .sequential text))
  lenient_eq : lenient = common ++ told final (warnings name (Mac.toggle .sequential text)) ++
    ⟨final, .write name⟩ :: later

namespace Parting

variable {verbose : Bool} {final : State} {value : Except Failure Unit} {text : Text}
  {strict lenient common later : List (Moment State)}
  (parting : Parting storage verbose final value strict lenient name text common later)
include parting

theorem append (more : List (Moment State)) :
    Parting storage verbose final value strict (lenient ++ more) name text common
      (later ++ more) where
  content := parting.content
  found := parting.found
  value_eq := parting.value_eq
  common_eq := parting.common_eq
  strict_eq := parting.strict_eq
  lenient_eq := by rw [parting.lenient_eq, List.append_assoc, List.cons_append]

theorem prepend (front : List (Moment State)) :
    Parting storage verbose final value (front ++ strict) (front ++ lenient) name text
      (front ++ common) later where
  content := parting.content
  found := parting.found
  value_eq := parting.value_eq
  common_eq := by
    obtain ⟨before, reached⟩ := parting.common_eq
    exact ⟨front ++ before, by rw [reached, List.append_assoc]⟩
  strict_eq := by rw [parting.strict_eq, List.append_assoc]
  lenient_eq := by rw [parting.lenient_eq]; simp only [List.append_assoc]

theorem diagnostics_eq
    (silent : ∀ moment ∈ lenient, ∀ text, moment.event ≠ .tell (.diagnostic text)) :
    diagnostics (strict.map Moment.event) =
      ((Mac.imbalances (Mac.toggle .sequential text)).map (remark name)).map fun remark =>
        "error: ".toList ++ remark ++ "\n".toList := by
  have none : diagnostics (common.map Moment.event) = [] := by
    refine diagnostics_eq_nil fun event inside line same => ?_
    obtain ⟨moment, member, rfl⟩ := List.mem_map.mp inside
    refine silent moment ?_ line same
    rw [parting.lenient_eq, List.append_assoc]
    exact List.mem_append_left _ member
  rw [parting.strict_eq, List.map_append, diagnostics_append, none, List.nil_append, refusals_eq,
    diagnostics_told]

end Parting

section
variable (storage) (verbose : Bool)

theorem toggleFile_alike (balanced : ∀ text, storage.read state name = .ok text →
      Mac.imbalances (Mac.toggle .sequential text) = []) :
    (toggleFile ⟨verbose, true⟩ name).run storage state =
        (toggleFile ⟨verbose, false⟩ name).run storage state ∧
      (toggleFile ⟨verbose, true⟩ name).timeline storage state =
        (toggleFile ⟨verbose, false⟩ name).timeline storage state := by
  simp only [toggleFile_eq, Interaction.run, Interaction.timeline]
  cases content : storage.read state name with
  | error failure => exact ⟨rfl, rfl⟩
  | ok text =>
    have accepted : ∀ options : Options, options.Accepts (Mac.toggle .sequential text) :=
      fun _ _ => balanced text content
    simp only [settle_of_accepted (accepted _)]
    exact ⟨rfl, rfl⟩

theorem value_toggleFile_of_balanced (options : Options)
    (balanced : ∀ text, storage.read state name = .ok text →
      Mac.imbalances (Mac.toggle .sequential text) = []) (found : List Mac.Imbalance) :
    ((toggleFile options name).run storage state).value ≠ .error (.unbalanced found) := by
  have turn := turn_toggleFile storage options state name
  generalize (toggleFile options name).run storage state = course at turn
  cases turn with
  | unbalanced content _ imbalanced => exact absurd (balanced _ content) imbalanced
  | unread | unwritten | completed => simp

theorem run_toggleFile_of_unbalanced {text : Text} (content : storage.read state name = .ok text)
    (found : Mac.imbalances (Mac.toggle .sequential text) ≠ []) :
    let checked := (toggleFile ⟨verbose, true⟩ name).run storage state
    checked.state = state ∧
      checked.value = .error (.unbalanced (Mac.imbalances (Mac.toggle .sequential text))) := by
  intro checked
  have turn : Turn storage ⟨verbose, true⟩ state name checked :=
    turn_toggleFile storage _ state name
  generalize checked = course at turn
  cases turn with
  | unread refused => cases content.symm.trans refused
  | unbalanced same =>
    cases content.symm.trans same
    exact ⟨rfl, rfl⟩
  | unwritten same accepted | completed same accepted =>
    cases content.symm.trans same
    exact absurd (accepted rfl) found

theorem toggleFile_parting {text : Text} (content : storage.read state name = .ok text)
    (found : Mac.imbalances (Mac.toggle .sequential text) ≠ []) :
    let checked := (toggleFile ⟨verbose, true⟩ name).run storage state
    ∃ common later, Parting storage verbose checked.state checked.value
      ((toggleFile ⟨verbose, true⟩ name).timeline storage state)
      ((toggleFile ⟨verbose, false⟩ name).timeline storage state) name text common later := by
  intro checked
  obtain ⟨stays, value⟩ := run_toggleFile_of_unbalanced storage verbose content found
  have accepted : Options.Accepts ⟨verbose, false⟩ (Mac.toggle .sequential text) :=
    fun checked => by cases checked
  obtain ⟨later, saved, _⟩ := timeline_save storage state name (Mac.toggle .sequential text)
  refine ⟨⟨state, .read name⟩ :: told state (if verbose then trace text else []), later, ?_⟩
  rw [stays]
  refine ⟨content, found, value, ⟨[], rfl⟩, ?_, ?_⟩
  · rw [timeline_toggleFile content, settle_of_refused rfl found, Interaction.timeline_tellAll,
      Interaction.timeline, List.append_nil]
    rfl
  · rw [timeline_toggleFile content, settle_of_accepted accepted, Interaction.timeline_tellAll,
      saved, List.append_assoc]
    rfl

variable (state names) in
/-- A batch takes the same course with a check as without one, or the two part at some file. -/
theorem toggleFiles_alike_or_parting :
    let checked := (toggleFiles ⟨verbose, true⟩ names).run storage state
    let strict := (toggleFiles ⟨verbose, true⟩ names).timeline storage state
    let unchecked := (toggleFiles ⟨verbose, false⟩ names).run storage state
    let lenient := (toggleFiles ⟨verbose, false⟩ names).timeline storage state
    ((∀ found, checked.value ≠ .error (.unbalanced found)) ∧ checked = unchecked) ∨
      ∃ name ∈ names, ∃ text common later,
        Parting storage verbose checked.state checked.value strict lenient
          name text common later := by
  induction names generalizing state with
  | nil => exact .inl ⟨fun found => by simp [toggleFiles, Interaction.run], rfl⟩
  | cons name names ih =>
    simp only [run_toggleFiles_cons, timeline_toggleFiles_cons]
    by_cases balanced : ∀ text, storage.read state name = .ok text →
        Mac.imbalances (Mac.toggle .sequential text) = []
    · -- Both batches go on from one state, or end with one failure.
      obtain ⟨sameRun, sameLine⟩ := toggleFile_alike storage verbose balanced
      have settled := value_toggleFile_of_balanced storage ⟨verbose, false⟩ balanced
      rw [sameRun, sameLine]
      cases value : ((toggleFile ⟨verbose, false⟩ name).run storage state).value with
      | error failure =>
        refine .inl ⟨fun found => ?_, rfl⟩
        simpa [value] using settled found
      | ok done =>
        rcases ih ((toggleFile ⟨verbose, false⟩ name).run storage state).state with
          ⟨other, same⟩ | ⟨parted, member, text, common, later, parting⟩
        · exact .inl ⟨other, by simp only [same]⟩
        · exact .inr ⟨parted, List.mem_cons_of_mem name member, text, _, later, parting.prepend _⟩
    · -- The check ends here, and all that comes without it belongs to the rest behind the write.
      simp only [Classical.not_forall] at balanced
      obtain ⟨text, content, found⟩ := balanced
      obtain ⟨common, later, parting⟩ := toggleFile_parting storage verbose content found
      have value := parting.value_eq
      rw [value] at parting
      simp only [value, List.append_nil]
      exact .inr ⟨name, List.mem_cons_self, text, common, _, parting.append _⟩

end

end

/-- Unless a check refuses a file, the batch is the same without it, and gives no warning. If it
does refuse one, then both batches have the same events, none of them a warning, up to the read of
that file and the passes over it. One refusal for each imbalance ends the check, and all that it
has on the error output. The same remarks come as warnings without it, and the state that the check
leaves is the one that the write then finds. So no check writes a text with imbalances. -/
theorem toggleFiles_check {State : Type} (storage : Storage State) (verbose : Bool)
    (names : List Text) (state : State) :
    let checked := (toggleFiles ⟨verbose, true⟩ names).run storage state
    let unchecked := (toggleFiles ⟨verbose, false⟩ names).run storage state
    let strict := (toggleFiles ⟨verbose, true⟩ names).timeline storage state
    let lenient := (toggleFiles ⟨verbose, false⟩ names).timeline storage state
    strict.map Moment.event = checked.events ∧ lenient.map Moment.event = unchecked.events ∧
    ((∀ found, checked.value ≠ .error (.unbalanced found)) →
      unchecked = checked ∧ ∀ text, .tell (.warning text) ∉ unchecked.events) ∧
    (∀ found, checked.value = .error (.unbalanced found) →
      ∃ name ∈ names, ∃ text before later,
        let common := before ++ ⟨checked.state, .read name⟩ ::
          told checked.state (if verbose then trace text else [])
        let remarks := found.map (remark name)
        let refusals := remarks.map fun remark => "error: ".toList ++ remark ++ "\n".toList
        storage.read checked.state name = .ok text ∧
        found = Mac.imbalances (Mac.toggle .sequential text) ∧ found ≠ [] ∧
        (∀ moment ∈ common, ∀ text, moment.event ≠ .tell (.warning text)) ∧
        strict = common ++ told checked.state (refusals.map .diagnostic) ∧
        lenient = common ++ told checked.state (remarks.map .warning) ++
          ⟨checked.state, .write name⟩ :: later ∧
        diagnostics checked.events = refusals) ∧
    ∀ moment ∈ strict, ∀ name, moment.event = .write name → ∃ text,
      storage.read moment.state name = .ok text ∧
      Mac.imbalances (Mac.toggle .sequential text) = [] := by
  intro checked unchecked strict lenient
  have strictEvents : strict.map Moment.event = checked.events :=
    Interaction.map_event_timeline storage _ state
  have lenientEvents : lenient.map Moment.event = unchecked.events :=
    Interaction.map_event_timeline storage _ state
  have unwarned : ∀ moment ∈ strict, ∀ text, moment.event ≠ .tell (.warning text) :=
    fun moment member => event_ne_warning_of_mem member rfl
  have undiagnosed : ∀ moment ∈ lenient, ∀ text, moment.event ≠ .tell (.diagnostic text) :=
    fun moment member => event_ne_diagnostic_of_mem member rfl
  have compared : ((∀ found, checked.value ≠ .error (.unbalanced found)) ∧ checked = unchecked) ∨
      ∃ name ∈ names, ∃ text common later, Parting storage verbose checked.state checked.value
        strict lenient name text common later :=
    toggleFiles_alike_or_parting storage state names verbose
  refine ⟨strictEvents, lenientEvents, fun other => ?_, fun found value => ?_,
    fun moment member name written => balanced_of_write_of_mem member rfl written⟩
  · rcases compared with ⟨_, same⟩ | ⟨_, _, _, _, _, parting⟩
    · refine ⟨same.symm, fun text member => ?_⟩
      have inside : Event.tell (.warning text) ∈ strict.map Moment.event :=
        strictEvents ▸ (congrArg Course.events same).symm ▸ member
      obtain ⟨moment, before, event⟩ := List.mem_map.mp inside
      exact unwarned moment before text event
    · exact absurd parting.value_eq (other _)
  · rcases compared with ⟨other, _⟩ | ⟨name, member, text, common, later, parting⟩
    · exact absurd value (other found)
    · have refused := parting.value_eq.symm.trans value
      rw [Except.error.injEq, Failure.unbalanced.injEq] at refused
      subst refused
      have strictLine := parting.strict_eq
      have lenientLine := parting.lenient_eq
      have diagnosed := parting.diagnostics_eq undiagnosed
      rw [refusals_eq] at strictLine
      rw [warnings_eq] at lenientLine
      rw [strictEvents] at diagnosed
      obtain ⟨before, rfl⟩ := parting.common_eq
      refine ⟨name, member, text, before, later, parting.content, rfl, parting.found,
        fun moment inside => unwarned moment ?_, strictLine, lenientLine, diagnosed⟩
      rw [strictLine]
      exact List.mem_append_left _ inside

/-- The first batch never meets the file without an end of its region, and the second one parts
there, after a write. -/
theorem toggleFiles_check_open :
    let memory : Memory := {
      files := [("a".toList, "/IF-MAC\n/END-MAC".toList), ("b".toList, "/IF-MAC".toList)] }
    let checked := (toggleFiles ⟨true, true⟩ ["a".toList]).run Memory.storage memory
    let unchecked := (toggleFiles ⟨true, false⟩ ["a".toList]).run Memory.storage memory
    let names := ["a".toList, "b".toList, "a".toList]
    let stopped := (toggleFiles ⟨true, true⟩ names).run Memory.storage memory
    let found := Mac.imbalances "/*IF-MAC".toList
    (∀ found, checked.value ≠ .error (.unbalanced found)) ∧ unchecked = checked ∧
      stopped.value = .error (.unbalanced found) ∧
      diagnostics stopped.events =
        ["error: `b`, line 1: `IF-MAC` never closed by `END-MAC`\n".toList] ∧
      stopped.state.files =
        [("a".toList, "/*IF-MAC\n//END-MAC*/".toList), ("b".toList, "/IF-MAC".toList)] ∧
      ∃ name ∈ names, ∃ before later,
        (toggleFiles ⟨true, false⟩ names).timeline Memory.storage memory =
          before ++ told stopped.state (found.map (warning name)) ++
            ⟨stopped.state, .write name⟩ :: later := by
  intro memory checked unchecked names stopped found
  have value : checked.value = .ok () := by decide
  have other : ∀ found, checked.value ≠ .error (.unbalanced found) := by
    intro found refused
    cases value.symm.trans refused
  have parted : stopped.value = .error (.unbalanced found) := by decide
  obtain ⟨_, _, alike, _⟩ := toggleFiles_check Memory.storage true ["a".toList] memory
  obtain ⟨_, _, _, parts, _⟩ := toggleFiles_check Memory.storage true names memory
  obtain ⟨name, member, _, _, later, _, _, _, _, _, lenient, _⟩ := parts found parted
  rw [List.map_map] at lenient
  exact ⟨other, (alike other).1, parted, by decide, by decide, name, member, _, later, lenient⟩

end Batch

end PlatformMarkers
