import PlatformMarkers.Proofs.Entries
import PlatformMarkers.Proofs.History
import Mathlib.Data.List.Forall2

/-! The history behind the rules of a draft. Every commit in sequential mode appends rules, the
failed ones and the repeated ones too, and only the first success closes the draft to changes
of its entries and of its mode. -/

set_option autoImplicit false

namespace PlatformMarkers.TableDraft

def course (draft : TableDraft) (steps : List Step) : List (TableDraft × Step) :=
  courseFrom (fun draft step => (draft.step step).2) draft steps

def accepts (draft : TableDraft) (step : Step) : Bool := (draft.step step).1.result.isOk

def put? : TableDraft × Step → Option Entry
  | (draft, .put entry) => if draft.accepts (.put entry) then some entry else none
  | _ => none

/-- The entries that a commit in sequential mode meets, whether it succeeds or not. -/
def sequentialCommit? : TableDraft × Step → Option (List Entry)
  | (draft, .commit) => if draft.mode = .sequential then some draft.entries else none
  | _ => none

def successfulCommit : TableDraft × Step → Bool
  | (draft, .commit) => draft.accepts .commit
  | _ => false

def puts (draft : TableDraft) (steps : List Step) : List Entry :=
  (draft.course steps).filterMap put?

def sequentialCommits (draft : TableDraft) (steps : List Step) : List (List Entry) :=
  (draft.course steps).filterMap sequentialCommit?

theorem accepts_put (draft : TableDraft) (entry : Entry) :
    draft.accepts (.put entry) = !draft.committed := by
  rw [accepts, step, put]
  cases draft.committed <;> rfl

theorem step_commit (draft : TableDraft) : draft.step .commit =
    (draft.flaw?.elim Outcome.done Outcome.fault, draft.commit.2) := by
  rw [step, commit_eq]
  cases draft.flaw? <;> rfl

theorem accepts_commit (draft : TableDraft) : draft.accepts .commit = draft.flaw?.isNone := by
  rw [accepts, step_commit]
  cases draft.flaw? <;> rfl

/-! ## What a step leaves, and a course of steps -/

section
variable (draft : TableDraft)

theorem entries_step (step : Step) : (draft.step step).2.entries =
    (put? (draft, step)).elim draft.entries fun entry => entry.put draft.entries := by
  cases step with
  | put entry =>
    rw [snd_step_put, put?, accepts_put]
    cases draft.committed <;> rfl
  | setMode mode =>
    rw [snd_step_setMode]
    split <;> rfl
  | commit =>
    rw [snd_step_commit, entries_commit]
    rfl
  | apply text => rfl

theorem appended_step (step : Step) : (draft.step step).2.appended =
    (sequentialCommit? (draft, step)).elim draft.appended
      fun entries => draft.appended ++ Entry.completeRules entries := by
  cases step with
  | put entry =>
    rw [snd_step_put]
    split <;> rfl
  | setMode mode =>
    rw [snd_step_setMode]
    split <;> rfl
  | commit =>
    rw [snd_step_commit, commit_eq, sequentialCommit?, due]
    cases draft.mode <;> simp
  | apply text => rfl

theorem committed_step_eq (step : Step) :
    (draft.step step).2.committed = (draft.committed || successfulCommit (draft, step)) := by
  cases step with
  | put entry =>
    rw [snd_step_put]
    split <;> simp [successfulCommit]
  | setMode mode =>
    rw [snd_step_setMode]
    split <;> simp [successfulCommit]
  | commit => rw [snd_step_commit, commit_eq, successfulCommit, accepts_commit]
  | apply text => simp [step, successfulCommit]

theorem entries_after (steps : List Step) : (draft.after steps).entries =
    (draft.puts steps).foldl (fun placed entry => entry.put placed) draft.entries :=
  read_foldl _ entries_step draft steps

theorem appended_after (steps : List Step) : (draft.after steps).appended =
    draft.appended ++ ((draft.sequentialCommits steps).map Entry.completeRules).flatten := by
  have appended : (draft.after steps).appended = (draft.sequentialCommits steps).foldl
      (fun rules entries => rules ++ Entry.completeRules entries) draft.appended :=
    read_foldl _ appended_step draft steps
  rw [appended, List.foldl_append_eq_append]

theorem committed_after (steps : List Step) : (draft.after steps).committed =
    (draft.committed || (draft.course steps).any successfulCommit) := by
  induction steps generalizing draft with
  | nil => exact (Bool.or_false _).symm
  | cons step steps ih =>
    have later := ih (draft.step step).2
    rw [committed_step_eq, Bool.or_assoc] at later
    exact later

end

/-! ## Committed drafts -/

variable {draft : TableDraft}

/-- A draft that is committed can be committed again. -/
def Settled (draft : TableDraft) : Prop := draft.committed = true → draft.flaw? = none

theorem settled_fresh (name : Text) (verbose : Bool) : Settled { name, verbose } := nofun

theorem flaw?_commit (draft : TableDraft) : draft.commit.2.flaw? = draft.flaw? := by
  rw [commit_eq]
  rfl

theorem Settled.step (settled : draft.Settled) (step : Step) : (draft.step step).2.Settled := by
  cases step with
  | put entry =>
    rw [snd_step_put]
    split
    next => exact settled
    next editing => exact fun committed => absurd committed editing
  | setMode mode =>
    rw [snd_step_setMode]
    split
    next => exact settled
    next editing => exact fun committed => absurd committed editing
  | commit =>
    rw [snd_step_commit, Settled, flaw?_commit, commit_eq, Bool.or_eq_true, Option.isNone_iff_eq_none]
    exact Or.rec settled id
  | apply text => exact settled

theorem Settled.after (settled : draft.Settled) (steps : List Step) : (draft.after steps).Settled :=
  List.foldlRecOn steps _ settled fun _ kept step _ => kept.step step

/-- A draft that has become committed in sequential mode applies, for each of its sequential
commits in order, the rules of the longest complete beginning of the entries of that time. Its
entries are those that were put into it before the first success. From then on every change is
refused, and every further commit succeeds. -/
theorem apply_after_sequentialCommits (name : Text) (verbose : Bool) (steps : List Step) :
    let fresh : TableDraft := { name, verbose }
    let draft := fresh.after steps
    (draft.committed = true → draft.mode = .sequential →
      ∃ rules : List Table,
        List.Forall₂ Entry.LongestComplete (fresh.sequentialCommits steps) rules ∧
        ∀ text, (draft.apply text).map Applied.text =
          .ok (Table.applySequentially rules.flatten text)) ∧
    Entry.Tabulates (fresh.puts steps) draft.entries ∧
    (draft.committed = true ↔ ∃ moment ∈ fresh.course steps, successfulCommit moment = true) ∧
    (draft.committed = true →
      (∀ entry, draft.step (.put entry) = (Outcome.fault .fixedEntries, draft)) ∧
      (∀ mode, draft.step (.setMode mode) = (Outcome.fault .fixedMode, draft)) ∧
      (draft.step .commit).1 = Outcome.done) := by
  intro fresh draft
  refine ⟨fun committed sequential => ?_, ?_, ?_, fun committed => ⟨fun entry => ?_, fun mode => ?_, ?_⟩⟩
  · refine ⟨(fresh.sequentialCommits steps).map Entry.completeRules, ?_, fun text => ?_⟩
    · rw [List.forall₂_map_right_iff, List.forall₂_same]
      exact fun entries _ => Entry.longestComplete_completeRules entries
    · have appended : draft.appended =
          ((fresh.sequentialCommits steps).map Entry.completeRules).flatten :=
        fresh.appended_after steps
      rw [apply_of_committed committed, rewrite, table, sequential, appended]
      rfl
  · have entries : draft.entries = Entry.putAll (fresh.puts steps) := fresh.entries_after steps
    rw [entries]
    exact Entry.tabulates_putAll _
  · have committed : draft.committed = (fresh.course steps).any successfulCommit :=
      fresh.committed_after steps
    rw [committed, List.any_eq_true]
  · rw [step, put, if_pos committed]
    rfl
  · rw [step, setMode, if_pos committed]
    rfl
  · rw [step_commit, (settled_fresh name verbose).after steps committed]
    rfl

/-- The first commit fails and leaves a rule behind, whose substitute is replaced later on. -/
theorem apply_after_sequentialCommits_edited :
    let entry (tag : String) (substitute : Option String) : Entry :=
      ⟨some tag.toList, substitute.map String.toList⟩
    let edited : List Entry := [entry "a" (some "a*"), entry "c" (some "c")]
    let fresh : TableDraft := { name := [], verbose := false }
    let steps : List Step := [.put (entry "a" (some "b/a")), .put (entry "c" none), .commit] ++
      .setMode .simultaneous :: edited.map .put ++
      [.setMode .sequential, .commit, .put (entry "a" none), .commit]
    let draft := fresh.after steps
    draft.committed = true ∧ draft.mode = .sequential ∧ draft.entries = edited ∧
      fresh.sequentialCommits steps = [[entry "a" (some "b/a"), entry "c" none], edited, edited] ∧
      (∃ rules : List Table,
        List.Forall₂ Entry.LongestComplete (fresh.sequentialCommits steps) rules ∧
        Table.applySequentially rules.flatten "/a/c".toList = "bac".toList) ∧
      Table.applySequentially (Entry.completeRules edited) "/a/c".toList = "ac".toList ∧
      draft.step (.put (entry "a" none)) = (Outcome.fault .fixedEntries, draft) ∧
      (draft.step .commit).1 = Outcome.done := by
  intro entry edited fresh steps draft
  have committed : draft.committed = true := by decide
  have sequential : draft.mode = .sequential := by decide
  obtain ⟨applied, _, _, closed⟩ := apply_after_sequentialCommits [] false steps
  obtain ⟨rules, longest, applies⟩ := applied committed sequential
  obtain ⟨noPut, _, again⟩ := closed committed
  have result : (draft.apply "/a/c".toList).map Applied.text = .ok "bac".toList := by decide
  exact ⟨committed, sequential, by decide, by decide,
    ⟨rules, longest, Except.ok.inj ((applies _).symm.trans result)⟩, by decide, noPut _, again⟩

end PlatformMarkers.TableDraft
