import PlatformMarkers.Proofs.History
import Mathlib.Data.List.Forall2

/-! The passes that are shown in verbose mode. A table shows the passes of its rules, if it makes
them one by one, and then its own; a book shows the passes of its tables. Each pass starts with the
text that is there when it is made, and a printed pass is marked if it changes nothing. -/

set_option autoImplicit false

namespace PlatformMarkers

/-! ## Passes in a row -/

namespace Pass

/-- The passes hand a text on: each starts with what the one before it leaves. -/
inductive Relay : Text → List Pass → Text → Prop where
  | nil (text : Text) : Relay text [] text
  | cons {pass : Pass} {passes : List Pass} {text final : Text} (start : pass.before = text)
      (rest : Relay pass.after passes final) : Relay text (pass :: passes) final

structure MadeBy (table : Text) (rule : Rule) (pass : Pass) : Prop where
  name_eq : pass.name = table ++ ".".toList ++ rule.tag
  after_eq : pass.after = replaceMarkers [rule.tag] (fun _ => rule.substitute) pass.before

def opening (pass : Pass) : Text :=
  divider '<' ++ " BEFORE #".toList ++ pass.name ++ "\n".toList ++ pass.before ++ "\n".toList ++
    divider '='

/-- The divider between the two texts is followed by a note. -/
def Marked (pass : Pass) : Prop := pass.opening ++ " (no change)".toList <+: pass.render

theorem marked_iff (pass : Pass) : pass.Marked ↔ pass.before = pass.after := by
  have render : pass.render = pass.opening ++
      ((if pass.before = pass.after then " (no change)".toList else []) ++ ("\n".toList ++
        pass.after ++ "\n".toList ++ divider '>' ++ " AFTER #".toList ++ pass.name ++
        "\n".toList ++ "\n\n\n\n\n".toList)) := by
    simp only [Pass.render, opening, List.append_assoc]
  rw [Marked, render, List.prefix_append_right_inj]
  split
  next same => exact iff_of_true (List.prefix_append _ _) same
  next changed => exact iff_of_false (by simp) changed

end Pass

namespace Table

theorem forall₂_rulePasses (name : Text) (table : Table) (text : Text) :
    List.Forall₂ (Pass.MadeBy name) table (Table.rulePasses name table text) := by
  induction table generalizing text with
  | nil => exact .nil
  | cons rule table ih => exact .cons ⟨rfl, rfl⟩ (ih (rule.apply text))

theorem relay_rulePasses (name : Text) (table : Table) (text : Text) :
    Pass.Relay text (Table.rulePasses name table text) (table.applySequentially text) := by
  induction table generalizing text with
  | nil => exact .nil text
  | cons rule table ih => exact .cons rfl (ih (rule.apply text))

end Table

/-! ## Drafts -/

namespace TableDraft

/-- What a table shows of its work on a text: the passes of its rules, if it makes them one by
one, and then its own. -/
inductive Shows (draft : TableDraft) (text : Text) : List Pass → Text → Prop where
  | sequential {inner : List Pass} {result : Text} (mode_eq : draft.mode = .sequential)
      (made : List.Forall₂ (Pass.MadeBy draft.name) draft.appended inner)
      (relay : Pass.Relay text inner result) :
      Shows draft text (inner ++ [⟨draft.name, text, result⟩]) result
  | simultaneous (mode_eq : draft.mode = .simultaneous) :
      Shows draft text [⟨draft.name, text, draft.rewrite text⟩] (draft.rewrite text)

theorem shows_passes (draft : TableDraft) (text : Text) :
    draft.Shows text (draft.table.passes draft.name draft.mode text) (draft.rewrite text) := by
  cases mode_eq : draft.mode with
  | sequential =>
    have table : draft.table = draft.appended := by rw [TableDraft.table, mode_eq]
    rw [rewrite, mode_eq, table]
    exact .sequential mode_eq (Table.forall₂_rulePasses _ _ text) (Table.relay_rulePasses _ _ text)
  | simultaneous =>
    have shows : draft.Shows text [⟨draft.name, text, draft.rewrite text⟩] (draft.rewrite text) :=
      .simultaneous mode_eq
    rw [rewrite, mode_eq] at shows ⊢
    exact shows

end TableDraft

/-! ## Books -/

namespace RuleBook

inductive Shows : List TableDraft → Text → List Pass → Text → Prop where
  | nil (text : Text) : Shows [] text [] text
  | cons {draft : TableDraft} {drafts : List TableDraft} {text middle result : Text}
      {shown later : List Pass} (first : draft.Shows text shown middle)
      (rest : Shows drafts middle later result) :
      Shows (draft :: drafts) text (shown ++ later) result

theorem exists_shows {drafts : List TableDraft}
    (ready : ∀ draft ∈ drafts, draft.committed = true ∧ draft.verbose = true) (text : Text) :
    let result := drafts.foldl (fun text draft => draft.rewrite text) text
    ∃ shown, applyTables drafts text = .ok ⟨result, shown⟩ ∧ Shows drafts text shown result := by
  intro result
  induction drafts generalizing text with
  | nil => exact ⟨[], rfl, .nil text⟩
  | cons draft drafts ih =>
    obtain ⟨committed, verbose⟩ := ready draft List.mem_cons_self
    have applied : draft.apply text = .ok ⟨draft.rewrite text,
        draft.table.passes draft.name draft.mode text⟩ := by
      rw [TableDraft.apply, if_pos committed, if_pos verbose, TableDraft.rewrite]
    obtain ⟨later, applies, shows⟩ := ih
      (fun other member => ready other (List.mem_cons_of_mem draft member)) (draft.rewrite text)
    refine ⟨_, ?_, .cons (draft.shows_passes text) shows⟩
    simp only [applyTables, applied, applies]
    rfl

end RuleBook

end PlatformMarkers
