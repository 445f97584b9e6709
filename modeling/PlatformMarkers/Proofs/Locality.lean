import PlatformMarkers.Proofs.Lines
import PlatformMarkers.Proofs.History

/-! Rewriting in parts. A character that no marker can hold divides a text for every pass, and
so for all passes of a table and for all tables of a book, although each of them works on
what the ones before it have left. -/

set_option autoImplicit false

namespace PlatformMarkers

/-- The rewriting treats the texts on the two sides of the character by themselves. -/
def Divides (c : Char) (rewrite : Text → Text) : Prop :=
  ∀ first rest, rewrite (first ++ c :: rest) = rewrite first ++ c :: rewrite rest

theorem Divides.foldl {Pass : Type} {c : Char} {passes : List Pass} {apply : Text → Pass → Text}
    (divides : ∀ pass ∈ passes, Divides c fun text => apply text pass) :
    Divides c fun text => passes.foldl apply text := by
  intro first rest
  -- Substitutes may have brought the character into what a pass finds on the two sides.
  induction passes generalizing first rest with
  | nil => rfl
  | cons pass passes ih =>
    have here := divides pass List.mem_cons_self first rest
    have later := ih fun other member => divides other (List.mem_cons_of_mem pass member)
    simp only [List.foldl_cons, here]
    exact later _ _

theorem Table.divides_apply {table : Table} {c : Char} (parts : Parts table.tags c) (mode : Mode) :
    Divides c (table.apply mode) := by
  cases mode with
  | sequential =>
    refine Divides.foldl fun rule member => ?_
    have single : Parts [rule.tag] c :=
      ⟨parts.1, List.forall_mem_singleton.mpr (parts.2 rule.tag (mem_tags member))⟩
    exact replaceMarkers_append_cons single _
  | simultaneous => exact replaceMarkers_append_cons parts _

def TableDraft.Parts (draft : TableDraft) (c : Char) : Prop :=
  isDelimiter c = false ∧ ∀ entry ∈ draft.entries, ∀ tag ∈ entry.tag, c ∉ tag

instance (draft : TableDraft) (c : Char) : Decidable (draft.Parts c) :=
  inferInstanceAs (Decidable (_ ∧ ∀ entry ∈ draft.entries, ∀ tag ∈ entry.tag, c ∉ tag))

theorem TableDraft.Tagged.divides_rewrite {draft : TableDraft} (tagged : draft.Tagged) {c : Char}
    (parts : draft.Parts c) : Divides c draft.rewrite := by
  refine Table.divides_apply ⟨parts.1, fun tag member => ?_⟩ draft.mode
  obtain ⟨rule, ruleMember, rfl⟩ := List.mem_map.mp member
  obtain ⟨entry, entryMember, same⟩ := List.mem_map.mp (tagged.of_mem_table rule ruleMember)
  exact parts.2 entry entryMember rule.tag same

theorem RuleBook.Ready.divides_rewrite {book : RuleBook} (ready : book.Ready) {c : Char}
    (parts : ∀ draft ∈ book.tables, draft.Parts c) : Divides c book.rewrite :=
  Divides.foldl fun draft member => (ready draft member).2.divides_rewrite (parts draft member)

/-- A character that is in no tag divides what a committed draft rewrites, and what the tables
of a book rewrite, whatever steps have led to them. A line feed divides toggling. -/
theorem rewriting_divided :
    (∀ (c : Char) (name : Text) (verbose : Bool) (steps : List TableDraft.Step),
      let draft := TableDraft.after { name, verbose } steps
      draft.committed = true → draft.Parts c →
      ∃ rewrite, Divides c rewrite ∧
        ∀ text, (draft.apply text).map Applied.text = .ok (rewrite text)) ∧
    (∀ (c : Char) (verbose : Bool) (steps : List RuleBook.Step),
      let book := RuleBook.after { verbose } steps
      (∀ draft ∈ book.tables, draft.Parts c) →
      ∃ rewrite, Divides c rewrite ∧
        ∀ text, (book.apply text).map Applied.text = .ok (rewrite text)) ∧
    ∀ mode, Divides '\n' (Mac.toggle mode) := by
  refine ⟨?_, ?_, fun mode => (Mac.linewise_toggle mode).append_cons⟩
  · intro c name verbose steps draft committed parts
    have tagged := (TableDraft.tagged_fresh name verbose).after steps
    exact ⟨_, tagged.divides_rewrite parts, TableDraft.apply_of_committed committed⟩
  · intro c verbose steps book parts
    have ready := (RuleBook.ready_fresh verbose).after steps
    exact ⟨_, ready.divides_rewrite parts, ready.apply⟩

/-- An empty tag makes every run a marker, and its substitute is the dividing character. -/
theorem rewriting_divided_untagged :
    let entries : List Entry := [⟨some [], some "x".toList⟩, ⟨some "a*".toList, none⟩]
    let draft := TableDraft.after { name := [], verbose := false }
      (entries.map .put ++ [.setMode .simultaneous, .commit])
    let book := RuleBook.after { verbose := false }
      [.adopt "one".toList entries .simultaneous, .adopt "two".toList (Mac.table.map Rule.entry) .sequential]
    let text := "b/".toList ++ 'x' :: "/a*c*".toList
    let result := "bx".toList ++ 'x' :: "cx".toList
    draft.committed = true ∧ draft.Parts 'x' ∧ (∀ draft ∈ book.tables, draft.Parts 'x') ∧
      (draft.apply text).map Applied.text = .ok result ∧
      (book.apply text).map Applied.text = .ok result := by
  intro entries draft book text result
  have committed : draft.committed = true := by decide
  have parts : draft.Parts 'x' := by decide
  have bookParts : ∀ draft ∈ book.tables, draft.Parts 'x' := by decide
  refine ⟨committed, parts, bookParts, ?_, ?_⟩
  · obtain ⟨rewrite, divides, applies⟩ := rewriting_divided.1 'x' [] false _ committed parts
    have first : rewrite "b/".toList = "bx".toList :=
      Except.ok.inj ((applies "b/".toList).symm.trans (by decide))
    have rest : rewrite "/a*c*".toList = "cx".toList :=
      Except.ok.inj ((applies "/a*c*".toList).symm.trans (by decide))
    have whole := applies text
    rwa [divides, first, rest] at whole
  · obtain ⟨rewrite, divides, applies⟩ := rewriting_divided.2.1 'x' false _ bookParts
    have first : rewrite "b/".toList = "bx".toList :=
      Except.ok.inj ((applies "b/".toList).symm.trans (by decide))
    have rest : rewrite "/a*c*".toList = "cx".toList :=
      Except.ok.inj ((applies "/a*c*".toList).symm.trans (by decide))
    have whole := applies text
    rwa [divides, first, rest] at whole

end PlatformMarkers
