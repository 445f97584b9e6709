import PlatformMarkers.Rule.Draft
import Mathlib.Data.List.Induction

/-! The life of a rule, told from its steps alone. Until a commit finds both parts, a draft holds
what was set last. The first commit that finds them fixes the rule, and nothing changes it again. -/

set_option autoImplicit false

namespace PlatformMarkers.RuleDraft

/-! ## The steps, apart from any draft -/

def Step.set? : Part → Step → Option (Option Text)
  | .tag, .setTag value => some value
  | .substitute, .setSubstitute value => some value
  | _, _ => none

def lastSet (part : Part) (steps : List Step) : Option Text :=
  (steps.filterMap (Step.set? part)).getLast?.join

/-- No commit among the steps finds both parts set. -/
def Unfixed (steps : List Step) : Prop := ∀ before later, steps = before ++ .commit :: later →
  lastSet .tag before = none ∨ lastSet .substitute before = none

/-- The first commit that finds both parts set finds those of the rule. -/
def Fixes (steps : List Step) (rule : Rule) : Prop := ∃ before later,
  steps = before ++ .commit :: later ∧ Unfixed before ∧
    lastSet .tag before = some rule.tag ∧ lastSet .substitute before = some rule.substitute

theorem lastSet_concat (part : Part) (steps : List Step) (step : Step) :
    lastSet part (steps ++ [step]) = (step.set? part).getD (lastSet part steps) := by
  rw [lastSet, lastSet, List.filterMap_append]
  cases found : step.set? part <;> simp [found]

theorem unfixed_concat_iff {steps : List Step} {step : Step} : Unfixed (steps ++ [step]) ↔
    Unfixed steps ∧
      (step = .commit → lastSet .tag steps = none ∨ lastSet .substitute steps = none) := by
  constructor
  · intro unfixed
    refine ⟨fun before later same => ?_, fun commit => ?_⟩
    · exact unfixed before (later ++ [step]) (by rw [same, List.append_assoc, List.cons_append])
    · exact unfixed steps [] (by rw [commit])
  · rintro ⟨unfixed, last⟩ before later same
    rcases List.eq_nil_or_concat later with rfl | ⟨others, final, rfl⟩
    · obtain ⟨rfl, commit⟩ := List.append_inj' same rfl
      exact last (List.cons.inj commit).1
    · rw [List.concat_eq_append, ← List.cons_append, ← List.append_assoc] at same
      obtain ⟨rfl, _⟩ := List.append_inj' same rfl
      exact unfixed before others rfl

theorem exists_fixes_of_not_unfixed {steps : List Step} (fixed : ¬ Unfixed steps) :
    ∃ rule, Fixes steps rule := by
  induction steps using List.reverseRecOn with
  | nil => exact absurd (fun before later same => by simp at same) fixed
  | append_singleton steps step ih =>
    by_cases unfixed : Unfixed steps
    · -- Only the last step can be the commit that finds both parts.
      simp only [unfixed_concat_iff, unfixed, true_and, Classical.not_imp, not_or] at fixed
      obtain ⟨rfl, tagged, substituted⟩ := fixed
      obtain ⟨tag, tagSame⟩ := Option.ne_none_iff_exists'.mp tagged
      obtain ⟨substitute, substituteSame⟩ := Option.ne_none_iff_exists'.mp substituted
      exact ⟨⟨tag, substitute⟩, steps, [], rfl, unfixed, tagSame, substituteSame⟩
    · obtain ⟨rule, before, later, rfl, first, parts⟩ := ih unfixed
      exact ⟨rule, before, later ++ [step], by simp, first, parts⟩

/-! ## A draft after steps -/

def after (draft : RuleDraft) (steps : List Step) : RuleDraft :=
  steps.foldl (fun draft step => (draft.step step).2) draft

section
variable (draft : RuleDraft)

theorem after_append (first second : List Step) :
    draft.after (first ++ second) = (draft.after first).after second := List.foldl_append

theorem after_concat (steps : List Step) (step : Step) :
    draft.after (steps ++ [step]) = ((draft.after steps).step step).2 := by
  rw [after_append]
  rfl

theorem run_concat (steps : List Step) (step : Step) :
    draft.run (steps ++ [step]) = draft.run steps ++ [(draft.after steps).step step] := by
  induction steps generalizing draft with
  | nil => rfl
  | cons first steps ih => exact congrArg (_ :: ·) (ih (draft.step first).2)

theorem step_commit : draft.step .commit = Outcome.orKeep draft draft.commit := rfl

theorem commit_done_iff :
    (draft.step .commit).1 = Outcome.done ↔ draft.tag? ≠ none ∧ draft.substitute? ≠ none := by
  obtain ⟨name, verbose, stage⟩ := draft
  obtain ⟨_ | tag, _ | substitute⟩ | rule := stage <;>
    simp [step, commit, Outcome.orKeep, Outcome.done, Outcome.fault, tag?, substitute?]

theorem step_of_fault {step : Step} {fault : Fault}
    (refused : (draft.step step).1.result = .error fault) :
    draft.step step = (Outcome.fault fault, draft) := by
  have kept : ∀ change : Except Fault RuleDraft,
      (Outcome.orKeep draft change).1.result = .error fault →
        Outcome.orKeep draft change = (Outcome.fault fault, draft) := by
    intro change found
    cases change with
    | ok changed => cases found
    | error other =>
      cases found
      rfl
  cases step with
  | setTag value => exact kept _ refused
  | setSubstitute value => exact kept _ refused
  | commit => exact kept _ refused
  | apply text =>
    rw [step] at refused ⊢
    cases applied : draft.apply text with
    | ok result => simp [applied, Outcome.ofApplied] at refused
    | error other =>
      simp only [applied, Outcome.ofApplied, Outcome.fault, Except.error.injEq] at refused
      rw [refused]
      rfl

end

theorem after_of_isCommitted {draft : RuleDraft} (committed : draft.isCommitted = true)
    (steps : List Step) : draft.after steps = draft := by
  obtain ⟨name, verbose, _ | rule⟩ := draft
  · cases committed
  · induction steps with
    | nil => rfl
    | cons step steps ih => cases step <;> exact ih

section
variable (name : Text) (verbose : Bool) {steps : List Step}

theorem after_of_unfixed (unfixed : Unfixed steps) :
    let fresh : RuleDraft := { name, verbose }
    fresh.after steps =
      { fresh with stage := .editing (lastSet .tag steps) (lastSet .substitute steps) } := by
  intro fresh
  induction steps using List.reverseRecOn with
  | nil => rfl
  | append_singleton steps step ih =>
    obtain ⟨earlier, last⟩ := unfixed_concat_iff.mp unfixed
    rw [after_concat, ih earlier, lastSet_concat, lastSet_concat]
    cases step with
    | setTag value => rfl
    | setSubstitute value => rfl
    | apply text => rfl
    | commit =>
      -- The commit lacks a part, so it leaves the draft as it was.
      simp only [step_commit, commit, Step.set?, Option.getD_none]
      rcases last rfl with missing | missing
      · rw [missing]
        rfl
      · rw [missing]
        cases lastSet .tag steps <;> rfl

theorem after_of_fixes {rule : Rule} (fixes : Fixes steps rule) :
    let fresh : RuleDraft := { name, verbose }
    fresh.after steps = { fresh with stage := .committed rule } := by
  intro fresh
  obtain ⟨before, later, rfl, unfixed, tagged, substituted⟩ := fixes
  have held := after_of_unfixed name verbose unfixed
  rw [tagged, substituted] at held
  have committed : fresh.after (before ++ [.commit]) = { fresh with stage := .committed rule } := by
    rw [after_concat, show fresh.after before = _ from held]
    rfl
  rw [List.append_cons, after_append, committed]
  exact after_of_isCommitted rfl later

end

/-- A commit succeeds exactly if the draft has both parts, and looks for the tag first. As long as
no commit has found both, the parts are those set last, and every application is refused. The first
commit that finds them fixes the rule for good: every part is then refused, every further commit
succeeds, and every application is one pass of that rule. A refused step changes nothing. -/
theorem fixed_by_first_commit (name : Text) (verbose : Bool) (steps : List Step) :
    let fresh : RuleDraft := { name, verbose }
    let draft := fresh.after steps
    (∀ step, fresh.run (steps ++ [step]) = fresh.run steps ++ [draft.step step]) ∧
    ((draft.step .commit).1 = Outcome.done ↔ draft.tag? ≠ none ∧ draft.substitute? ≠ none) ∧
    (draft.tag? = none → draft.step .commit = (Outcome.fault (.missing .tag), draft)) ∧
    (draft.tag? ≠ none → draft.substitute? = none →
      draft.step .commit = (Outcome.fault (.missing .substitute), draft)) ∧
    (Unfixed steps → draft.isCommitted = false ∧
      draft.tag? = lastSet .tag steps ∧ draft.substitute? = lastSet .substitute steps ∧
      ∀ text, draft.step (.apply text) = (Outcome.fault .uncommitted, draft)) ∧
    (¬ Unfixed steps → ∃ rule, Fixes steps rule) ∧
    (∀ rule, Fixes steps rule → draft.isCommitted = true ∧
      draft.tag? = some rule.tag ∧ draft.substitute? = some rule.substitute ∧
      (∀ value, draft.step (.setTag value) = (Outcome.fault (.fixedPart .tag), draft)) ∧
      (∀ value, draft.step (.setSubstitute value) =
        (Outcome.fault (.fixedPart .substitute), draft)) ∧
      draft.step .commit = (Outcome.done, draft) ∧ (∀ later, draft.after later = draft) ∧
      ∀ text, let result := replaceMarkers [rule.tag] (fun _ => rule.substitute) text
        draft.step (.apply text) =
          (⟨.ok (some result), if verbose then [⟨name, text, result⟩] else []⟩, draft)) ∧
    ∀ step fault, (draft.step step).1.result = .error fault →
      draft.step step = (Outcome.fault fault, draft) := by
  intro fresh draft
  refine ⟨fresh.run_concat steps, draft.commit_done_iff, fun untagged => ?_,
    fun tagged unsubstituted => ?_, fun unfixed => ?_, exists_fixes_of_not_unfixed,
    fun rule fixes => ?_, fun step fault => draft.step_of_fault⟩
  · generalize draft = current at untagged ⊢
    obtain ⟨name, verbose, ⟨_ | tag, substitute⟩ | rule⟩ := current
    · rfl
    · cases untagged
    · cases untagged
  · generalize draft = current at tagged unsubstituted ⊢
    obtain ⟨name, verbose, ⟨_ | tag, _ | substitute⟩ | rule⟩ := current
    · exact absurd rfl tagged
    · cases unsubstituted
    · rfl
    · cases unsubstituted
    · cases unsubstituted
  · have held : draft = _ := after_of_unfixed name verbose unfixed
    rw [held]
    exact ⟨rfl, rfl, rfl, fun text => rfl⟩
  · have held : draft = _ := after_of_fixes name verbose fixes
    rw [held]
    exact ⟨rfl, rfl, rfl, fun value => rfl, fun value => rfl, rfl, after_of_isCommitted rfl,
      fun text => rfl⟩

/-- A commit fails between two values of the substitute, and what is set after the next commit is
refused. -/
theorem fixed_by_first_commit_retried :
    let fresh : RuleDraft := { name := [], verbose := false }
    let early : List Step := [.setTag "a".toList, .setSubstitute "b".toList, .setSubstitute none]
    let steps := early ++ [.commit, .setSubstitute "b/a".toList, .commit, .setTag "c".toList]
    let rule : Rule := ⟨"a".toList, "b/a".toList⟩
    let draft := fresh.after steps
    Unfixed early ∧ (fresh.after early).step .commit =
        (Outcome.fault (.missing .substitute), fresh.after early) ∧
      (fresh.after early).step (.apply []) = (Outcome.fault .uncommitted, fresh.after early) ∧
      ¬ Unfixed steps ∧ Fixes steps rule ∧ draft.tag? = some "a".toList ∧
      draft.step (.setTag none) = (Outcome.fault (.fixedPart .tag), draft) ∧
      draft.step (.apply "/a".toList) = (⟨.ok (some "b/a".toList), []⟩, draft) := by
  intro fresh early steps rule draft
  have unfixed : Unfixed early := by
    intro before later same
    have member : Step.commit ∈ early := same ▸ List.mem_append_right _ List.mem_cons_self
    exact absurd member (by decide)
  have fixes : Fixes steps rule := by
    have failed : Unfixed (early ++ [.commit]) :=
      unfixed_concat_iff.mpr ⟨unfixed, fun _ => .inr rfl⟩
    exact ⟨early ++ [.commit] ++ [.setSubstitute "b/a".toList], [.setTag "c".toList], rfl,
      unfixed_concat_iff.mpr ⟨failed, nofun⟩, rfl, rfl⟩
  obtain ⟨_, _, _, unsubstituted, open_, _⟩ := fixed_by_first_commit [] false early
  obtain ⟨_, _, _, _, _, _, fixed, _⟩ := fixed_by_first_commit [] false steps
  obtain ⟨_, _, _, refused⟩ := open_ unfixed
  obtain ⟨_, tagged, _, noTag, _, _, _, applied⟩ := fixed rule fixes
  refine ⟨unfixed, unsubstituted (by decide) rfl, refused [], fun other => ?_, fixes, tagged,
    noTag none, applied "/a".toList⟩
  have missing := other (early ++ [.commit, .setSubstitute "b/a".toList]) [.setTag "c".toList] rfl
  exact absurd missing (by decide)

end PlatformMarkers.RuleDraft
