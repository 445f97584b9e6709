import PlatformMarkers.Proofs.CheckMode
import PlatformMarkers.Proofs.Commits
import PlatformMarkers.Proofs.ShownPasses

/-! Verbose mode beside silent mode. The same steps get the same answers and lead to the same
tables, and the same batch does the same to its files. All that verbose mode adds are passes. -/

set_option autoImplicit false

namespace PlatformMarkers

/-! ## Drafts -/

namespace TableDraft

def withVerbose (verbose : Bool) (draft : TableDraft) : TableDraft := { draft with verbose }

section
variable (verbose : Bool) (draft : TableDraft)

theorem commit_withVerbose : (draft.withVerbose verbose).commit =
    (draft.commit.1, draft.commit.2.withVerbose verbose) := by
  rw [commit_eq, commit_eq]
  rfl

theorem map_text_apply_withVerbose (text : Text) :
    ((draft.withVerbose verbose).apply text).map Applied.text =
      (draft.apply text).map Applied.text := by
  obtain ⟨name, _, entries, mode, appended, committed⟩ := draft
  cases committed <;> rfl

theorem step_withVerbose (step : Step) :
    let answer := (draft.withVerbose verbose).step step
    answer.1.result = (draft.step step).1.result ∧
      answer.2 = (draft.step step).2.withVerbose verbose := by
  cases step with
  | put entry =>
    obtain ⟨name, _, entries, mode, appended, committed⟩ := draft
    cases committed <;> exact ⟨rfl, rfl⟩
  | setMode mode =>
    obtain ⟨name, _, entries, _, appended, committed⟩ := draft
    cases committed <;> exact ⟨rfl, rfl⟩
  | commit =>
    rw [step_commit, step_commit, commit_withVerbose]
    exact ⟨rfl, rfl⟩
  | apply text =>
    obtain ⟨name, _, entries, mode, appended, committed⟩ := draft
    cases committed <;> exact ⟨rfl, rfl⟩

end

section
variable {draft : TableDraft} (silent : draft.verbose = false)
include silent

theorem shown_of_apply {text : Text} {applied : Applied}
    (applies : draft.apply text = .ok applied) : applied.shown = [] := by
  rw [TableDraft.apply, silent] at applies
  split at applies <;> cases applies
  rfl

theorem shown_step_of_silent (step : Step) : (draft.step step).1.shown = [] := by
  cases step with
  | put entry =>
    rw [TableDraft.step, put]
    split <;> rfl
  | setMode mode =>
    rw [TableDraft.step, setMode]
    split <;> rfl
  | commit =>
    rw [step_commit]
    cases draft.flaw? <;> rfl
  | apply text =>
    rw [TableDraft.step]
    cases applies : draft.apply text with
    | error fault => rfl
    | ok applied => exact shown_of_apply silent applies

end

end TableDraft

/-! ## Books -/

namespace RuleBook

def withVerbose (verbose : Bool) (book : RuleBook) : RuleBook :=
  { book with verbose, tables := book.tables.map (TableDraft.withVerbose verbose) }

theorem map_text_applyTables_cons (draft : TableDraft) (drafts : List TableDraft) (text : Text) :
    (applyTables (draft :: drafts) text).map Applied.text =
      match (draft.apply text).map Applied.text with
      | .error fault => .error fault
      | .ok middle => (applyTables drafts middle).map Applied.text := by
  rw [applyTables]
  cases draft.apply text with
  | error fault => rfl
  | ok first =>
    simp only [Except.map]
    cases applyTables drafts first.text <;> rfl

section
variable (verbose : Bool)

theorem map_text_applyTables_withVerbose (drafts : List TableDraft) (text : Text) :
    (applyTables (drafts.map (TableDraft.withVerbose verbose)) text).map Applied.text =
      (applyTables drafts text).map Applied.text := by
  induction drafts generalizing text with
  | nil => rfl
  | cons draft drafts ih =>
    rw [List.map_cons, map_text_applyTables_cons, map_text_applyTables_cons,
      TableDraft.map_text_apply_withVerbose]
    split
    · rfl
    · exact ih _

variable (book : RuleBook)

theorem objection?_withVerbose (adoption : Adoption) :
    (book.withVerbose verbose).objection? adoption = book.objection? adoption := rfl

theorem enlarged_withVerbose (adoption : Adoption) :
    (book.withVerbose verbose).enlarged adoption =
      (book.enlarged adoption).withVerbose verbose := by
  have draft : adoption.draft verbose = (adoption.draft book.verbose).withVerbose verbose := rfl
  simp only [enlarged, withVerbose, draft, TableDraft.commit_withVerbose, List.map_append,
    List.map_singleton]

theorem result_ofApplied (applied : Except Fault Applied) :
    (Outcome.ofApplied applied).result = (applied.map Applied.text).map some := by
  cases applied <;> rfl

theorem step_withVerbose (step : Step) :
    let answer := (book.withVerbose verbose).step step
    answer.1.result = (book.step step).1.result ∧
      answer.2 = (book.step step).2.withVerbose verbose := by
  cases step with
  | adopt name entries mode =>
    have silent := book.step_adopt ⟨name, entries, mode⟩
    have showing := (book.withVerbose verbose).step_adopt ⟨name, entries, mode⟩
    rw [objection?_withVerbose, enlarged_withVerbose] at showing
    rw [silent, showing]
    cases book.objection? ⟨name, entries, mode⟩ <;> exact ⟨rfl, rfl⟩
  | apply text =>
    refine ⟨?_, rfl⟩
    simp only [RuleBook.step, result_ofApplied, RuleBook.apply, withVerbose,
      map_text_applyTables_withVerbose]
  | onTable position step =>
    simp only [RuleBook.step, withVerbose, List.getElem?_map]
    cases book.tables[position]? with
    | none => exact ⟨rfl, rfl⟩
    | some draft =>
      obtain ⟨result, left⟩ := draft.step_withVerbose verbose step
      refine ⟨result, ?_⟩
      simp only [Option.map_some, left, List.map_set]

/-- What is seen of an answer and of the book after it, whether passes are shown or not. -/
def seen (answer : Outcome × RuleBook) : Except Fault (Option Text) × RuleBook :=
  (answer.1.result, answer.2.withVerbose false)

theorem withVerbose_withVerbose (last : Bool) :
    (book.withVerbose verbose).withVerbose last = book.withVerbose last := by
  simp only [withVerbose, List.map_map]
  rfl

theorem seen_step_withVerbose (step : Step) :
    seen ((book.withVerbose verbose).step step) = seen (book.step step) := by
  obtain ⟨result, left⟩ := book.step_withVerbose verbose step
  rw [seen, seen, result, left, withVerbose_withVerbose]

theorem map_seen_run_withVerbose (steps : List Step) :
    ((book.withVerbose verbose).run steps).map seen = (book.run steps).map seen := by
  induction steps generalizing book with
  | nil => rfl
  | cons step steps ih =>
    obtain ⟨_, left⟩ := book.step_withVerbose verbose step
    simp only [run, List.map_cons, seen_step_withVerbose, left, ih]

theorem after_withVerbose (steps : List Step) :
    (book.withVerbose verbose).after steps = (book.after steps).withVerbose verbose := by
  induction steps generalizing book with
  | nil => rfl
  | cons step steps ih =>
    obtain ⟨_, left⟩ := book.step_withVerbose verbose step
    rw [after, List.foldl_cons, left]
    exact ih _

end

theorem shown_applyTables_of_silent {drafts : List TableDraft} {text : Text} {applied : Applied}
    (silent : ∀ draft ∈ drafts, draft.verbose = false)
    (applies : applyTables drafts text = .ok applied) : applied.shown = [] := by
  induction drafts generalizing text applied with
  | nil =>
    cases applies
    rfl
  | cons draft drafts ih =>
    rw [applyTables] at applies
    cases here : draft.apply text with
    | error fault => simp [here] at applies
    | ok first =>
      cases behind : applyTables drafts first.text with
      | error fault => simp [here, behind] at applies
      | ok last =>
        simp only [here, behind, Except.ok.injEq] at applies
        have none := TableDraft.shown_of_apply (silent draft List.mem_cons_self) here
        have later :=
          ih (fun other member => silent other (List.mem_cons_of_mem draft member)) behind
        simp only [← applies, none, later, List.append_nil]

theorem shown_step_of_silent (book : RuleBook) (step : Step) :
    ((book.withVerbose false).step step).1.shown = [] := by
  have silent : ∀ draft ∈ (book.withVerbose false).tables, draft.verbose = false := by
    intro draft member
    obtain ⟨_, _, rfl⟩ := List.mem_map.mp member
    rfl
  -- Nothing else of silent mode is needed, and the cases read better for any such book.
  generalize book.withVerbose false = book at silent
  cases step with
  | adopt name entries mode =>
    have answer := book.step_adopt ⟨name, entries, mode⟩
    rw [answer]
    cases book.objection? ⟨name, entries, mode⟩ <;> rfl
  | apply text =>
    rw [RuleBook.step, RuleBook.apply]
    cases applies : applyTables book.tables text with
    | error fault => rfl
    | ok applied => exact shown_applyTables_of_silent silent applies
  | onTable position step =>
    rw [RuleBook.step]
    cases found : book.tables[position]? with
    | none => rfl
    | some draft =>
      exact TableDraft.shown_step_of_silent (silent draft (List.mem_of_getElem? found)) step

theorem shown_of_mem_run {book : RuleBook} {steps : List Step} {answer : Outcome × RuleBook}
    (member : answer ∈ (book.withVerbose false).run steps) : answer.1.shown = [] := by
  induction steps generalizing book with
  | nil => cases member
  | cons step steps ih =>
    rcases List.mem_cons.mp member with rfl | later
    · exact book.shown_step_of_silent step
    · rw [(book.step_withVerbose false step).2] at later
      exact ih later

theorem step_apply_verbose (steps : List Step) (text : Text) :
    let showing : RuleBook := { verbose := true }
    let book := showing.after steps
    ∃ shown, book.step (.apply text) = (⟨.ok (some (book.rewrite text)), shown⟩, book) ∧
      Shows book.tables text shown (book.rewrite text) := by
  intro showing book
  have committed : book.Ready := (ready_fresh true).after steps
  have verbose : ∀ draft ∈ book.tables, draft.verbose = true := by
    have left : book = ({ verbose := false : RuleBook }.after steps).withVerbose true :=
      after_withVerbose true { verbose := false } steps
    intro draft member
    rw [left] at member
    obtain ⟨_, _, rfl⟩ := List.mem_map.mp member
    rfl
  obtain ⟨shown, applies, shows⟩ :=
    exists_shows (fun draft member => ⟨(committed draft member).1, verbose draft member⟩) text
  refine ⟨shown, ?_, shows⟩
  rw [RuleBook.step, RuleBook.apply, applies]
  rfl

end RuleBook

/-! ## Batches -/

/-- A pass is printed as an output, like a report of success and nothing else. -/
def Event.isShown : Event → Bool
  | .tell (.output text) => (Note.output text).successName?.isNone
  | _ => false

def unshown (events : List Event) : List Event := events.filter (!·.isShown)

namespace Batch

theorem isShown_of_mem_trace {text : Text} {note : Note} (member : note ∈ trace text) :
    Event.isShown (.tell note) = true := by
  have unreported := successName?_of_mem_trace member
  obtain ⟨pass, _, rfl⟩ := List.mem_map.mp member
  rw [Event.isShown, unreported]
  rfl

theorem isShown_success (name : Text) : Event.isShown (.tell (success name)) = false := by
  have reported := successName?_success name
  rw [success] at reported ⊢
  rw [Event.isShown, reported]
  rfl

section
variable {State : Type} (storage : Storage State)

/-- The event and, behind the read of a text, the passes of its toggling. -/
def revealed (moment : Moment State) : List Event :=
  moment.event :: match moment.event with
    | .read name =>
      match storage.read moment.state name with
      | .ok text => (trace text).map .tell
      | .error _ => []
    | _ => []

theorem flatMap_revealed_of_unread {moments : List (Moment State)}
    (unread : ∀ moment ∈ moments, ∀ name, moment.event ≠ .read name) :
    moments.flatMap (revealed storage) = moments.map Moment.event := by
  rw [List.map_eq_flatMap]
  refine List.flatMap_congr fun moment member => ?_
  rw [revealed]
  split
  next name read => exact absurd read (unread moment member name)
  next => rfl

theorem unread_settle (options : Options) (state : State) (name toggled : Text) :
    ∀ moment ∈ (settle options name toggled).timeline storage state,
      ∀ other, moment.event ≠ .read other := by
  intro moment member other
  by_cases accepted : options.Accepts toggled
  · obtain ⟨later, saved, reports⟩ := timeline_save storage state name toggled
    rw [settle_of_accepted accepted, Interaction.timeline_tellAll, saved, List.mem_append,
      List.mem_cons] at member
    rcases member with inside | rfl | after
    · obtain ⟨_, _, rfl⟩ := List.mem_map.mp inside
      simp
    · simp
    · rw [reports moment after]
      simp
  · simp only [Options.Accepts, Classical.not_imp] at accepted
    rw [settle_of_refused accepted.1 accepted.2, Interaction.timeline_tellAll, Interaction.timeline,
      List.append_nil] at member
    obtain ⟨_, _, rfl⟩ := List.mem_map.mp member
    simp

variable (check : Bool) (state : State)

theorem run_toggleFile_verbose (name : Text) :
    (toggleFile ⟨true, check⟩ name).run storage state =
      { (toggleFile ⟨false, check⟩ name).run storage state with
        events := ((toggleFile ⟨false, check⟩ name).timeline storage state).flatMap
          (revealed storage) } := by
  cases content : storage.read state name with
  | error failure =>
    rw [timeline_toggleFile_of_unread content]
    simp [toggleFile_eq, Interaction.run, content, revealed]
  | ok text =>
    -- Behind the read, verbose mode changes nothing and no second read follows.
    have alike : settle ⟨true, check⟩ name (Mac.toggle .sequential text) =
        settle ⟨false, check⟩ name (Mac.toggle .sequential text) := rfl
    have read : revealed storage ⟨state, .read name⟩ = .read name :: (trace text).map .tell := by
      simp only [revealed, content]
    have settled := flatMap_revealed_of_unread storage
      (unread_settle storage ⟨false, check⟩ state name (Mac.toggle .sequential text))
    rw [Interaction.map_event_timeline] at settled
    rw [timeline_toggleFile content, List.cons_append, List.flatMap_cons, List.flatMap_append, read,
      settled]
    simp [toggleFile_eq, Interaction.run, content, Interaction.run_tellAll, alike, Options.shown,
      told]

theorem run_toggleFiles_verbose (names : List Text) :
    (toggleFiles ⟨true, check⟩ names).run storage state =
      { (toggleFiles ⟨false, check⟩ names).run storage state with
        events := ((toggleFiles ⟨false, check⟩ names).timeline storage state).flatMap
          (revealed storage) } := by
  induction names generalizing state with
  | nil => rfl
  | cons name names ih =>
    rw [run_toggleFiles_cons, run_toggleFiles_cons, timeline_toggleFiles_cons,
      run_toggleFile_verbose]
    cases value : ((toggleFile ⟨false, check⟩ name).run storage state).value with
    | error failure => simp only [value, List.append_nil]
    | ok done => simp only [value, ih, List.flatMap_append]

variable {storage check state} in
theorem not_isShown_of_mem {names : List Text} {moment : Moment State}
    (member : moment ∈ (toggleFiles ⟨false, check⟩ names).timeline storage state) :
    moment.event.isShown = false := by
  obtain ⟨_, _, arises⟩ := exists_arises_of_mem member
  cases arises with
  | shown none => cases none
  | reported => exact isShown_success _
  | read | refused | warned | written => rfl

theorem unshown_revealed {moment : Moment State} (silent : moment.event.isShown = false) :
    unshown (revealed storage moment) = [moment.event] := by
  have passes (text : Text) : unshown ((trace text).map .tell) = [] := by
    refine List.filter_eq_nil_iff.mpr fun event member => ?_
    obtain ⟨note, shown, rfl⟩ := List.mem_map.mp member
    simp [isShown_of_mem_trace shown]
  rw [unshown, revealed, List.filter_cons_of_pos (by simp [silent])]
  refine congrArg (_ :: ·) ?_
  split
  · split
    · exact passes _
    · rfl
  · rfl

theorem unshown_flatMap_revealed {moments : List (Moment State)}
    (silent : ∀ moment ∈ moments, moment.event.isShown = false) :
    unshown (moments.flatMap (revealed storage)) = moments.map Moment.event := by
  rw [unshown, List.filter_flatMap, List.map_eq_flatMap]
  exact List.flatMap_congr fun moment member => unshown_revealed storage (silent moment member)

end

end Batch

theorem Mac.step_adopted_table (mode : Mode) (text : Text) :
    let fresh : RuleBook := { verbose := true }
    let book := (fresh.step (.adopt tableName (table.map Rule.entry) mode)).2
    (book.step (.apply text)).1 = ⟨.ok (some (toggle mode text)), passes mode text⟩ := by
  intro fresh book
  obtain ⟨adopted, adopts, applies⟩ := apply_adopt_table true mode
  have same : book = adopted := by simp only [book, RuleBook.step, fresh, adopts]
  rw [same, RuleBook.step, applies text]
  rfl

/-- Whatever is done to a book, its answers and its tables are the same in verbose mode as in silent
mode, which shows nothing. A book in verbose mode applies its tables without a fault and shows the
work of each in turn: the passes of its rules, one after another, and then its own. The printed
passes that are marked are those that change nothing. A batch ends with the same files and the same
error in either mode. It has the events that it has in silent mode and, behind each read of a text,
the passes that a verbose book with the toggling table shows for it. -/
theorem verbose_adds_passes {State : Type} (steps : List RuleBook.Step) (storage : Storage State)
    (check : Bool) (names : List Text) (state : State) :
    let silent : RuleBook := { verbose := false }
    let showing : RuleBook := { verbose := true }
    let book := showing.after steps
    let quiet := (Batch.toggleFiles ⟨false, check⟩ names).run storage state
    let line := (Batch.toggleFiles ⟨false, check⟩ names).timeline storage state
    let loud := (Batch.toggleFiles ⟨true, check⟩ names).run storage state
    ((showing.run steps).map RuleBook.seen = (silent.run steps).map RuleBook.seen ∧
      ∀ answer ∈ silent.run steps, answer.1.shown = []) ∧
    (∀ text, ∃ shown, book.step (.apply text) = (⟨.ok (some (book.rewrite text)), shown⟩, book) ∧
      RuleBook.Shows book.tables text shown (book.rewrite text)) ∧
    (∀ pass : Pass, pass.Marked ↔ pass.before = pass.after) ∧
    (loud.state = quiet.state ∧ loud.value = quiet.value ∧ unshown loud.events = quiet.events) ∧
    line.map Moment.event = quiet.events ∧ loud.events = line.flatMap (Batch.revealed storage) ∧
    ∀ mode text,
      let adopted := (showing.step (.adopt Mac.tableName (Mac.table.map Rule.entry) mode)).2
      (adopted.step (.apply text)).1 =
        ⟨.ok (some (Mac.toggle mode text)), Mac.passes mode text⟩ := by
  intro silent showing book quiet line loud
  have batch : loud = { quiet with events := line.flatMap (Batch.revealed storage) } :=
    Batch.run_toggleFiles_verbose storage check state names
  have events : line.map Moment.event = quiet.events :=
    Interaction.map_event_timeline storage _ state
  have unshowing : ∀ answer ∈ (silent.withVerbose false).run steps, answer.1.shown = [] :=
    fun _ => RuleBook.shown_of_mem_run
  refine ⟨⟨silent.map_seen_run_withVerbose true steps, unshowing⟩,
    RuleBook.step_apply_verbose steps, Pass.marked_iff, ⟨?_, ?_, ?_⟩, events, ?_,
    Mac.step_adopted_table⟩
  · rw [batch]
  · rw [batch]
  · rw [batch, ← events]
    exact Batch.unshown_flatMap_revealed storage fun _ => Batch.not_isShown_of_mem
  · rw [batch]

/-- The first table has been committed twice and makes its pass twice, and the second one finds
nothing. The check refuses the second file. -/
theorem verbose_adds_passes_recommitted :
    let entry (tag : String) (substitute : Option String) : Entry :=
      ⟨some tag.toList, substitute.map String.toList⟩
    let steps : List RuleBook.Step := [.adopt "t".toList [entry "a" (some "b/a")] .sequential,
      .adopt "t".toList [] .simultaneous, .onTable 0 .commit, .onTable 0 (.put (entry "b" none)),
      .adopt "u".toList [entry "b" none] .simultaneous, .apply "/b".toList]
    let silent : RuleBook := { verbose := false }
    let showing : RuleBook := { verbose := true }
    let pass (name before after : String) : Pass := ⟨name.toList, before.toList, after.toList⟩
    let shown := [pass "t.a" "/a" "b/a", pass "t.a" "b/a" "bb/a", pass "t" "/a" "bb/a",
      pass "u" "bb/a" "bb/a"]
    let memory : Memory := { files := [("a".toList, "/END-MAC".toList), ("b".toList, [])] }
    let names := ["b".toList, "a".toList]
    let quiet := (Batch.toggleFiles ⟨false, true⟩ names).run Memory.storage memory
    let loud := (Batch.toggleFiles ⟨true, true⟩ names).run Memory.storage memory
    (showing.run steps).map RuleBook.seen = (silent.run steps).map RuleBook.seen ∧
      RuleBook.Shows (showing.after steps).tables "/a".toList shown "bb/a".toList ∧
      (∀ pass ∈ shown, pass.Marked ↔ pass.name = "u".toList) ∧
      loud.value = quiet.value ∧ unshown loud.events = quiet.events ∧
      loud.events.length = quiet.events.length + 14 := by
  intro entry steps silent showing pass shown memory names quiet loud
  obtain ⟨⟨alike, _⟩, shows, marked, ⟨_, value, events⟩, _⟩ :=
    verbose_adds_passes steps Memory.storage true names memory
  obtain ⟨found, answer, same⟩ := shows "/a".toList
  have result : (showing.after steps).rewrite "/a".toList = "bb/a".toList := by decide
  have passes : ((showing.after steps).step (.apply "/a".toList)).1.shown = shown := by decide
  rw [answer] at passes
  rw [result, show found = shown from passes] at same
  have changes : ∀ pass ∈ shown, pass.before = pass.after ↔ pass.name = "u".toList := by decide
  exact ⟨alike, same, fun pass member => (marked pass).trans (changes pass member), value, events,
    by decide⟩

end PlatformMarkers
