import PlatformMarkers.Proofs.Commits
import Mathlib.Logic.Function.Iterate

/-! What can be seen of a draft, and what it applies. In one pass it applies its entries. In
sequential mode it first applies what failed commits have left behind, and then its entries,
once for every commit that has succeeded, so that drafts which look alike can differ. -/

set_option autoImplicit false

namespace PlatformMarkers

theorem Table.applySequentially_replicate (table : Table) (times : Nat) (text : Text) :
    applySequentially (List.replicate times table).flatten text =
      table.applySequentially^[times] text := by
  induction times generalizing text with
  | zero => rfl
  | succ times ih =>
    rw [List.replicate_succ, List.flatten_cons, applySequentially_append, ih,
      Function.iterate_succ_apply]

namespace TableDraft

def visible (draft : TableDraft) : Table := draft.entries.filterMap Entry.simultaneousRule?

def failedCommit : TableDraft × Step → Bool
  | (draft, .commit) => !draft.accepts .commit
  | _ => false

def successes (draft : TableDraft) (steps : List Step) : Nat :=
  (draft.course steps).countP successfulCommit

/-- The rules that failed commits leave behind. -/
def leftovers (draft : TableDraft) (steps : List Step) : Table :=
  ((draft.course steps).filter failedCommit).flatMap fun (draft, _) => draft.due

theorem successes_cons (draft : TableDraft) (step : Step) (steps : List Step) :
    draft.successes (step :: steps) =
      (if successfulCommit (draft, step) then 1 else 0) + (draft.step step).2.successes steps := by
  rw [successes, course, courseFrom, List.countP_cons, Nat.add_comm]
  rfl

theorem leftovers_cons (draft : TableDraft) (step : Step) (steps : List Step) :
    draft.leftovers (step :: steps) =
      (if failedCommit (draft, step) then draft.due else []) ++ (draft.step step).2.leftovers steps := by
  rw [leftovers, course, courseFrom, List.filter_cons]
  split <;> rfl

/-! ## The rules behind a draft -/

/-- The draft holds the rules that failed commits have left, and then its own ones, once for
each success. Only an editable draft can have had none. -/
structure Accounted (draft : TableDraft) (left : Table) (times : Nat) : Prop where
  settled : draft.Settled
  editable : draft.committed = false → times = 0
  appended : draft.appended = left ++ (List.replicate times draft.due).flatten

variable {draft : TableDraft}

theorem accounted_fresh (name : Text) (verbose : Bool) : Accounted { name, verbose } [] 0 :=
  ⟨settled_fresh name verbose, fun _ => rfl, rfl⟩

namespace Accounted

variable {left : Table} {times : Nat} (accounted : draft.Accounted left times)
include accounted

theorem appended_of_editable (editable : draft.committed = false) : draft.appended = left := by
  rw [accounted.appended, accounted.editable editable]
  simp

theorem edit {changed : TableDraft} (editable : draft.committed = false)
    (stillEditable : changed.committed = false) (same : changed.appended = draft.appended) :
    changed.Accounted left times where
  settled committed := by rw [stillEditable] at committed; cases committed
  editable _ := accounted.editable editable
  appended := by
    rw [same, accounted.appended, accounted.editable editable]
    rfl

theorem commit_of_flaw {fault : Fault} (flaw : draft.flaw? = some fault) :
    draft.commit.2.Accounted (left ++ draft.due) times := by
  have editable : draft.committed = false := by
    by_contra committed
    rw [Bool.not_eq_false] at committed
    rw [accounted.settled committed] at flaw
    cases flaw
  have stillEditable : draft.commit.2.committed = false := by simp [commit_eq, editable, flaw]
  refine ⟨fun committed => ?_, fun _ => accounted.editable editable, ?_⟩
  · rw [stillEditable] at committed
    cases committed
  · rw [accounted.editable editable, commit_eq, accounted.appended_of_editable editable]
    simp

theorem commit_of_no_flaw (flawless : draft.flaw? = none) :
    draft.commit.2.Accounted left (times + 1) where
  settled _ := by rwa [flaw?_commit]
  editable := by simp [commit_eq, flawless]
  appended := by
    have due : draft.commit.2.due = draft.due := by rw [commit_eq]; rfl
    rw [due, commit_eq, List.replicate_succ', List.flatten_append, List.flatten_singleton,
      ← List.append_assoc, ← accounted.appended]

theorem step (step : Step) : (draft.step step).2.Accounted
    (left ++ if failedCommit (draft, step) then draft.due else [])
    (times + if successfulCommit (draft, step) then 1 else 0) := by
  cases step with
  | put entry =>
    simp only [failedCommit, successfulCommit, Bool.false_eq_true, if_false, List.append_nil,
      Nat.add_zero, snd_step_put]
    split
    next => exact accounted
    next editable =>
      rw [Bool.not_eq_true] at editable
      exact accounted.edit editable editable rfl
  | setMode mode =>
    simp only [failedCommit, successfulCommit, Bool.false_eq_true, if_false, List.append_nil,
      Nat.add_zero, snd_step_setMode]
    split
    next => exact accounted
    next editable =>
      rw [Bool.not_eq_true] at editable
      exact accounted.edit editable editable rfl
  | commit =>
    rw [snd_step_commit, failedCommit, successfulCommit, accepts_commit]
    cases flaw : draft.flaw? with
    | none => simpa [flaw] using accounted.commit_of_no_flaw flaw
    | some fault => simpa [flaw] using accounted.commit_of_flaw flaw
  | apply text =>
    simp only [failedCommit, successfulCommit, Bool.false_eq_true, if_false, List.append_nil,
      Nat.add_zero]
    exact accounted

theorem after (steps : List Step) : (draft.after steps).Accounted
    (left ++ draft.leftovers steps) (times + draft.successes steps) := by
  induction steps generalizing draft left times with
  | nil => simpa [TableDraft.after, leftovers, successes, course, courseFrom] using accounted
  | cons step steps ih =>
    have later := ih (accounted.step step)
    rwa [List.append_assoc, Nat.add_assoc, ← leftovers_cons, ← successes_cons] at later

end Accounted

/-! ## The rules that can be seen -/

theorem tag_isSome_of_no_flaw (flawless : draft.flaw? = none) :
    ∀ entry ∈ draft.entries, entry.tag.isSome = true := by
  intro entry member
  rw [flaw?] at flawless
  split at flawless
  next =>
    rw [Option.map_eq_none_iff, Entry.firstMissing?_eq_none_iff] at flawless
    rw [← flawless] at member
    obtain ⟨rule, _, rfl⟩ := List.mem_map.mp member
    rfl
  next =>
    split at flawless
    next => cases flawless
    next tagged =>
      rw [List.any_eq_true, not_exists] at tagged
      rw [← Option.not_isNone, Bool.not_eq_true', Bool.eq_false_iff]
      exact fun untagged => tagged entry ⟨member, untagged⟩

theorem map_visible (flawless : draft.flaw? = none) :
    draft.visible.map (fun rule => (some rule.tag, rule.substitute)) =
      draft.entries.map fun entry => (entry.tag, entry.substitute.getD []) := by
  rw [visible, List.map_filterMap, List.filterMap_eq_map_iff_forall_eq_some]
  intro entry member
  obtain ⟨tag, same⟩ := Option.isSome_iff_exists.mp (tag_isSome_of_no_flaw flawless entry member)
  simp [Entry.simultaneousRule?, same]

theorem apply_of_simultaneous (committed : draft.committed = true)
    (simultaneous : draft.mode = .simultaneous) (text : Text) :
    draft.apply text = .ok ⟨draft.visible.applySimultaneously text,
      if draft.verbose then [⟨draft.name, text, draft.visible.applySimultaneously text⟩] else []⟩ := by
  simp [TableDraft.apply, committed, table, simultaneous, Table.apply, Table.passes, visible]

theorem due_eq_visible (flawless : draft.flaw? = none) (sequential : draft.mode = .sequential) :
    draft.due = draft.visible := by
  simp only [flaw?, sequential, Option.map_eq_none_iff, Entry.firstMissing?_eq_none_iff] at flawless
  simp only [due, sequential, visible]
  conv_rhs => rw [← flawless, List.filterMap_map]
  exact (Entry.filterMap_simultaneousRule?_entry _).symm

/-- A draft that has become committed for a single pass applies what can be seen of it. One that
has become committed in sequential mode applies that as often as it was committed, behind what
failed commits have left; so if it was committed once, and none failed with rules in front of the
incomplete entry, it too applies what can be seen of it. -/
theorem apply_eq_iterate_visible (name : Text) (verbose : Bool) (steps : List Step) :
    let fresh : TableDraft := { name, verbose }
    let draft := fresh.after steps
    draft.committed = true →
      draft.visible.map (fun rule => (some rule.tag, rule.substitute)) =
        draft.entries.map (fun entry => (entry.tag, entry.substitute.getD [])) ∧
      (draft.mode = .simultaneous → ∀ text,
        (draft.apply text).map Applied.text = .ok (draft.visible.applySimultaneously text)) ∧
      (draft.mode = .sequential → 0 < fresh.successes steps ∧ ∀ text,
        (draft.apply text).map Applied.text = .ok (draft.visible.applySequentially^[fresh.successes steps]
          ((fresh.leftovers steps).applySequentially text))) ∧
      (fresh.leftovers steps = [] → fresh.successes steps = 1 → ∀ text,
        (draft.apply text).map Applied.text = .ok (draft.visible.apply draft.mode text)) := by
  intro fresh draft committed
  have flawless := (settled_fresh name verbose).after steps committed
  have accounted := (accounted_fresh name verbose).after steps
  rw [List.nil_append, Nat.zero_add] at accounted
  have applies := apply_of_committed committed
  have onePass : draft.mode = .simultaneous → ∀ text,
      (draft.apply text).map Applied.text = .ok (draft.visible.applySimultaneously text) := by
    intro simultaneous text
    rw [applies, rewrite, table, simultaneous]
    rfl
  have passByPass : draft.mode = .sequential → ∀ text, (draft.apply text).map Applied.text =
      .ok (draft.visible.applySequentially^[fresh.successes steps]
        ((fresh.leftovers steps).applySequentially text)) := by
    intro sequential text
    rw [applies, rewrite, table, sequential, Table.apply, accounted.appended,
      due_eq_visible flawless sequential, Table.applySequentially_append,
      Table.applySequentially_replicate]
  have succeeded : 0 < fresh.successes steps := by
    have someCommit := (fresh.committed_after steps).symm.trans committed
    rw [Bool.false_or, List.any_eq_true] at someCommit
    exact List.countP_pos_iff.mpr someCommit
  refine ⟨map_visible flawless, onePass, fun sequential => ⟨succeeded, passByPass sequential⟩, ?_⟩
  intro noLeftovers once text
  cases mode : draft.mode with
  | sequential =>
    rw [passByPass mode, noLeftovers, once]
    rfl
  | simultaneous => exact onePass mode text

theorem apply_eq_iterate_visible_recommitted :
    let fresh : TableDraft := { name := [], verbose := false }
    let steps : List Step := [.put ⟨some "a".toList, some "b/a".toList⟩, .put ⟨some "c".toList, none⟩,
      .commit, .put ⟨some "c".toList, some "/c".toList⟩, .commit, .commit]
    let draft := fresh.after steps
    let table : Table := [⟨"a".toList, "b/a".toList⟩, ⟨"c".toList, "/c".toList⟩]
    draft.committed = true ∧ draft.mode = .sequential ∧ draft.visible = table ∧
      fresh.leftovers steps = [⟨"a".toList, "b/a".toList⟩] ∧ fresh.successes steps = 2 ∧
      (draft.apply "/a*c".toList).map Applied.text = .ok (table.applySequentially^[2]
        (Table.applySequentially [⟨"a".toList, "b/a".toList⟩] "/a*c".toList)) ∧
      (draft.apply "/a*c".toList).map Applied.text = .ok "bbb/ac".toList := by
  intro fresh steps draft table
  have committed : draft.committed = true := by decide
  have sequential : draft.mode = .sequential := by decide
  have seen : draft.visible = table := by decide
  have left : fresh.leftovers steps = [⟨"a".toList, "b/a".toList⟩] := by decide
  have twice : fresh.successes steps = 2 := by decide
  obtain ⟨_, _, passByPass, _⟩ := apply_eq_iterate_visible [] false steps committed
  have applied := (passByPass sequential).2 "/a*c".toList
  rw [seen, left, twice] at applied
  exact ⟨committed, sequential, seen, left, twice, applied, by decide⟩

/-- A second commit makes every pass a second time, and a rule that a failed commit has left goes
before the one that has replaced it among the entries. -/
theorem apply_ne_visible :
    let fresh : TableDraft := { name := [], verbose := false }
    let entry (tag : String) (substitute : Option String) : Entry :=
      ⟨some tag.toList, substitute.map String.toList⟩
    let repeated := fresh.after [.put (entry "a" (some "b/a")), .commit, .commit]
    let replaced := fresh.after [.put (entry "a" (some "x")), .put (entry "c" none), .commit,
      .put (entry "a" (some "y")), .put (entry "c" (some "c")), .commit]
    (repeated.committed = true ∧ repeated.mode = .sequential ∧
      repeated.entries = [entry "a" (some "b/a")] ∧
      (repeated.apply "/a".toList).map Applied.text = .ok "bb/a".toList ∧
      repeated.visible.applySequentially "/a".toList = "b/a".toList) ∧
    (replaced.committed = true ∧ replaced.mode = .sequential ∧
      replaced.entries = [entry "a" (some "y"), entry "c" (some "c")] ∧
      (replaced.apply "/a".toList).map Applied.text = .ok "x".toList ∧
      replaced.visible.applySequentially "/a".toList = "y".toList) := by
  decide

end TableDraft

end PlatformMarkers
