import PlatformMarkers.Proofs.Entries

/-! The histories of drafts and books. Whatever steps have been made, the rules that a draft
applies stand for entries that were put into it, under tags that it still has, and the tables
of a book are committed. -/

set_option autoImplicit false

namespace PlatformMarkers

section
variable {State Step : Type} (next : State → Step → State)

/-- The steps made one after another, each with the state in which it is made. -/
def courseFrom : State → List Step → List (State × Step)
  | _, [] => []
  | state, step :: steps => (state, step) :: courseFrom (next state step) steps

theorem courseFrom_concat (state : State) (steps : List Step) (step : Step) :
    courseFrom next state (steps ++ [step]) =
      courseFrom next state steps ++ [(steps.foldl next state, step)] := by
  induction steps generalizing state with
  | nil => rfl
  | cons first steps ih => exact congrArg (_ :: ·) (ih (next state first))

@[simp] theorem map_snd_courseFrom (state : State) (steps : List Step) :
    (courseFrom next state steps).map Prod.snd = steps := by
  induction steps generalizing state with
  | nil => rfl
  | cons step steps ih => exact congrArg (step :: ·) (ih (next state step))

theorem exists_append_of_mem_courseFrom {state : State} {steps : List Step} {made : State × Step}
    (member : made ∈ courseFrom next state steps) :
    ∃ before later, steps = before ++ made.2 :: later ∧ made.1 = before.foldl next state := by
  induction steps generalizing state with
  | nil => cases member
  | cons step steps ih =>
    rcases List.mem_cons.mp member with rfl | further
    · exact ⟨[], steps, rfl, rfl⟩
    · obtain ⟨before, later, rfl, same⟩ := ih further
      exact ⟨step :: before, later, rfl, same⟩

/-- If every step adds at most one part to what is read off the state, then a course of steps
adds these parts one after another. -/
theorem read_foldl {Read Part : Type} {read : State → Read} {add : Read → Part → Read}
    {part? : State × Step → Option Part}
    (reads : ∀ state step,
      read (next state step) = (part? (state, step)).elim (read state) (add (read state)))
    (state : State) (steps : List Step) : read (steps.foldl next state) =
      ((courseFrom next state steps).filterMap part?).foldl add (read state) := by
  induction steps generalizing state with
  | nil => rfl
  | cons step steps ih =>
    rw [List.foldl_cons, ih, reads, courseFrom, List.filterMap_cons]
    cases part? (state, step) <;> rfl

end

/-! ## Drafts -/

namespace TableDraft

/-- What the draft makes of a text once it is committed. -/
def rewrite (draft : TableDraft) (text : Text) : Text := draft.table.apply draft.mode text

theorem apply_of_committed {draft : TableDraft} (committed : draft.committed = true) (text : Text) :
    (draft.apply text).map Applied.text = .ok (draft.rewrite text) := by
  simp [TableDraft.apply, committed, Except.map, rewrite]

-- What each kind of step leaves of a draft, apart from its answer.
section
variable (draft : TableDraft)

theorem snd_step_put (entry : Entry) : (draft.step (.put entry)).2 =
    if draft.committed then draft else { draft with entries := entry.put draft.entries } := by
  rw [step, put]
  split <;> rfl

theorem snd_step_setMode (mode : Mode) :
    (draft.step (.setMode mode)).2 = if draft.committed then draft else { draft with mode } := by
  rw [step, setMode]
  split <;> rfl

theorem snd_step_commit : (draft.step .commit).2 = draft.commit.2 := by
  rw [step]
  split <;> rename_i commits <;> rw [commits]

end

variable {draft : TableDraft}

/-- The rules that a commit appends. A draft that is applied in one pass needs none. -/
def due (draft : TableDraft) : Table :=
  match draft.mode with
  | .sequential => Entry.completeRules draft.entries
  | .simultaneous => []

def flaw? (draft : TableDraft) : Option Fault :=
  match draft.mode with
  | .sequential => (Entry.firstMissing? draft.entries).map .missing
  | .simultaneous => if draft.entries.any (·.tag.isNone) then some .untagged else none

/-- A commit appends the rules that are due even if a flaw then stops it. -/
theorem commit_eq (draft : TableDraft) : draft.commit =
    (draft.flaw?.elim (.ok ()) .error,
      { draft with
        appended := draft.appended ++ draft.due
        committed := draft.committed || draft.flaw?.isNone }) := by
  obtain ⟨name, verbose, entries, mode, appended, committed⟩ := draft
  cases mode with
  | sequential =>
    simp only [commit, due, flaw?]
    cases Entry.firstMissing? entries <;> simp
  | simultaneous =>
    simp only [commit, due, flaw?]
    split <;> simp

theorem entries_commit (draft : TableDraft) : draft.commit.2.entries = draft.entries := by
  rw [commit_eq]

theorem of_mem_due {rule : Rule} (member : rule ∈ draft.due) : rule.entry ∈ draft.entries := by
  unfold due at member
  split at member
  · exact Entry.entry_mem_of_mem_completeRules member
  · cases member

theorem of_mem_appended_commit {rule : Rule} (member : rule ∈ draft.commit.2.appended) :
    rule ∈ draft.appended ∨ rule.entry ∈ draft.entries := by
  rw [commit_eq] at member
  exact (List.mem_append.mp member).imp_right of_mem_due

theorem of_mem_table {rule : Rule} (member : rule ∈ draft.table) :
    rule ∈ draft.appended ∨ ∃ entry ∈ draft.entries, entry.simultaneousRule? = some rule := by
  unfold TableDraft.table at member
  split at member
  · exact Or.inl member
  · exact Or.inr (List.mem_filterMap.mp member)

theorem committed_commit (flawless : draft.flaw? = none) : draft.commit.2.committed = true := by
  rw [commit_eq, flawless]
  exact Bool.or_true _

theorem snd_step_of_committed (committed : draft.committed = true) (step : Step) :
    (draft.step step).2 = draft ∨ (draft.step step).2 = draft.commit.2 := by
  cases step with
  | put entry => exact Or.inl (by rw [snd_step_put, if_pos committed])
  | setMode mode => exact Or.inl (by rw [snd_step_setMode, if_pos committed])
  | commit => exact Or.inr (snd_step_commit draft)
  | apply text => exact Or.inl rfl

theorem committed_step (committed : draft.committed = true) (step : Step) :
    (draft.step step).2.committed = true := by
  rcases snd_step_of_committed committed step with same | again
  · rw [same, committed]
  · rw [again, commit_eq]
    simp [committed]

def Tagged (draft : TableDraft) : Prop :=
  ∀ rule ∈ draft.appended, some rule.tag ∈ draft.entries.map Entry.tag

theorem Tagged.of_mem_table (tagged : draft.Tagged) :
    ∀ rule ∈ draft.table, some rule.tag ∈ draft.entries.map Entry.tag := by
  intro rule member
  rcases TableDraft.of_mem_table member with appended | ⟨entry, entryMember, same⟩
  · exact tagged rule appended
  · obtain ⟨tag, tagSame, rfl⟩ := Option.map_eq_some_iff.mp same
    exact List.mem_map.mpr ⟨entry, entryMember, tagSame⟩

theorem Tagged.commit (tagged : draft.Tagged) : draft.commit.2.Tagged := by
  intro rule member
  rw [entries_commit]
  rcases of_mem_appended_commit member with earlier | new
  · exact tagged rule earlier
  · exact List.mem_map_of_mem new

theorem Tagged.step (tagged : draft.Tagged) (step : Step) : (draft.step step).2.Tagged := by
  cases step with
  | put entry =>
    rw [snd_step_put]
    split
    · exact tagged
    · exact fun rule member => (Entry.mem_tags_put entry _).mpr (Or.inr (tagged rule member))
  | setMode mode =>
    rw [snd_step_setMode]
    split <;> exact tagged
  | commit =>
    rw [snd_step_commit]
    exact tagged.commit
  | apply text => exact tagged

theorem tagged_fresh (name : Text) (verbose : Bool) : Tagged { name, verbose } := nofun

theorem Tagged.after (tagged : draft.Tagged) (steps : List Step) : (draft.after steps).Tagged :=
  List.foldlRecOn steps _ tagged fun _ kept step _ => kept.step step

end TableDraft

/-! ## Laws of entries -/

/-- The rule of the entry obeys the law. An entry without a tag has no rule. -/
def Entry.Obeys (law : Rule → Prop) (entry : Entry) : Prop :=
  ∀ rule ∈ entry.simultaneousRule?, law rule

namespace TableDraft

structure Obeys (law : Rule → Prop) (draft : TableDraft) : Prop where
  entries : ∀ entry ∈ draft.entries, entry.Obeys law
  appended : ∀ rule ∈ draft.appended, law rule

def Step.Obeys (law : Rule → Prop) : Step → Prop
  | .put entry => entry.Obeys law
  | .setMode _ => True
  | .commit => True
  | .apply _ => True

variable {law : Rule → Prop} {draft : TableDraft}

theorem Obeys.of_mem_table (obeys : draft.Obeys law) : ∀ rule ∈ draft.table, law rule := by
  intro rule member
  rcases TableDraft.of_mem_table member with appended | ⟨entry, entryMember, same⟩
  · exact obeys.appended rule appended
  · exact obeys.entries entry entryMember rule same

theorem Obeys.commit (obeys : draft.Obeys law) : draft.commit.2.Obeys law where
  entries := by
    rw [entries_commit]
    exact obeys.entries
  appended rule member := by
    rcases of_mem_appended_commit member with earlier | new
    · exact obeys.appended rule earlier
    · exact obeys.entries rule.entry new rule rfl

theorem Obeys.step (obeys : draft.Obeys law) {step : Step} (stepObeys : step.Obeys law) :
    (draft.step step).2.Obeys law := by
  cases step with
  | put entry =>
    rw [snd_step_put]
    split
    · exact obeys
    · refine ⟨fun other member => ?_, obeys.appended⟩
      rcases Entry.mem_of_mem_put member with rfl | earlier
      · exact stepObeys
      · exact obeys.entries other earlier
  | setMode mode =>
    rw [snd_step_setMode]
    split
    · exact obeys
    · exact ⟨obeys.entries, obeys.appended⟩
  | commit =>
    rw [snd_step_commit]
    exact obeys.commit
  | apply text => exact obeys

theorem obeys_fresh (law : Rule → Prop) (name : Text) (verbose : Bool) :
    Obeys law { name, verbose } := ⟨nofun, nofun⟩

theorem Obeys.after (obeys : draft.Obeys law) {steps : List Step}
    (stepsObey : ∀ step ∈ steps, step.Obeys law) : (draft.after steps).Obeys law :=
  List.foldlRecOn steps _ obeys fun _ kept step member => kept.step (stepsObey step member)

end TableDraft

/-! ## Books -/

structure Adoption where
  name : Text
  entries : List Entry
  mode : Mode
  deriving DecidableEq, Repr

def Adoption.draft (adoption : Adoption) (verbose : Bool) : TableDraft :=
  { name := adoption.name, verbose, entries := Entry.putAll adoption.entries, mode := adoption.mode }

namespace RuleBook

/-- What speaks against the adoption: a name that is taken, or else a table that cannot be
committed. -/
def objection? (book : RuleBook) (adoption : Adoption) : Option Fault :=
  if book.names.contains adoption.name then some (.taken adoption.name)
  else (adoption.draft book.verbose).flaw?

def enlarged (book : RuleBook) (adoption : Adoption) : RuleBook :=
  { book with
    names := book.names ++ [adoption.name]
    tables := book.tables ++ [(adoption.draft book.verbose).commit.2] }

theorem adopt_eq (book : RuleBook) (adoption : Adoption) :
    book.adopt adoption.name adoption.entries adoption.mode =
      (book.objection? adoption).elim (.ok (book.enlarged adoption)) .error := by
  rw [adopt, objection?]
  split
  next => rfl
  next =>
    simp only [enlarged, Adoption.draft, TableDraft.commit_eq]
    cases TableDraft.flaw? _ <;> rfl

theorem step_adopt (book : RuleBook) (adoption : Adoption) :
    book.step (.adopt adoption.name adoption.entries adoption.mode) =
      (book.objection? adoption).elim (⟨.ok (some adoption.name), []⟩, book.enlarged adoption)
        fun fault => (Outcome.fault fault, book) := by
  rw [step, adopt_eq]
  cases book.objection? adoption <;> rfl

theorem unopposed_iff {book : RuleBook} {adoption : Adoption} : book.objection? adoption = none ↔
    adoption.name ∉ book.names ∧ (adoption.draft book.verbose).flaw? = none := by
  simp only [objection?, List.contains_iff_mem]
  split <;> simp [*]

def after (book : RuleBook) (steps : List Step) : RuleBook :=
  steps.foldl (fun book step => (book.step step).2) book

def rewrite (book : RuleBook) (text : Text) : Text :=
  book.tables.foldl (fun text draft => draft.rewrite text) text

/-- Every table of the book is committed, and its rules have the tags of its entries. -/
def Ready (book : RuleBook) : Prop :=
  ∀ draft ∈ book.tables, draft.committed = true ∧ draft.Tagged

theorem applyTables_of_committed {drafts : List TableDraft}
    (committed : ∀ draft ∈ drafts, draft.committed = true) (text : Text) :
    (applyTables drafts text).map Applied.text =
      .ok (drafts.foldl (fun text draft => draft.rewrite text) text) := by
  induction drafts generalizing text with
  | nil => rfl
  | cons draft rest ih =>
    have here := TableDraft.apply_of_committed (committed draft List.mem_cons_self) text
    have later := ih fun other member => committed other (List.mem_cons_of_mem draft member)
    cases first : draft.apply text with
    | error fault => simp [first, Except.map] at here
    | ok applied =>
      have same : applied.text = draft.rewrite text := by simpa [first, Except.map] using here
      have last := later applied.text
      cases second : applyTables rest applied.text with
      | error fault => simp [second, Except.map] at last
      | ok final =>
        rw [second] at last
        simp only [applyTables, first, second, List.foldl_cons, ← same]
        exact last

variable {book : RuleBook}

theorem Ready.apply (ready : book.Ready) (text : Text) :
    (book.apply text).map Applied.text = .ok (book.rewrite text) :=
  applyTables_of_committed (fun draft member => (ready draft member).1) text

theorem Ready.enlarged (ready : book.Ready) {adoption : Adoption}
    (unopposed : book.objection? adoption = none) : (book.enlarged adoption).Ready := by
  have fresh : (adoption.draft book.verbose).Tagged := nofun
  intro draft member
  rcases List.mem_append.mp member with earlier | new
  · exact ready draft earlier
  · rw [List.mem_singleton.mp new]
    exact ⟨TableDraft.committed_commit (unopposed_iff.mp unopposed).2, fresh.commit⟩

theorem Ready.step (ready : book.Ready) (step : Step) : (book.step step).2.Ready := by
  cases step with
  | adopt name entries mode =>
    rw [step_adopt book ⟨name, entries, mode⟩]
    cases unopposed : book.objection? ⟨name, entries, mode⟩ with
    | none => exact ready.enlarged unopposed
    | some fault => exact ready
  | apply text => exact ready
  | onTable position step =>
    rw [RuleBook.step]
    split
    next => exact ready
    next draft found =>
      have held := ready draft (List.mem_of_getElem? found)
      intro other member
      rcases List.mem_or_eq_of_mem_set member with earlier | rfl
      · exact ready other earlier
      · exact ⟨TableDraft.committed_step held.1 step, held.2.step step⟩

theorem ready_fresh (verbose : Bool) : Ready { verbose } := nofun

theorem Ready.after (ready : book.Ready) (steps : List Step) : (book.after steps).Ready :=
  List.foldlRecOn steps _ ready fun _ kept step _ => kept.step step

end RuleBook

end PlatformMarkers
