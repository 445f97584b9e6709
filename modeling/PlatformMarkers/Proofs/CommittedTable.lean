import PlatformMarkers.Rule.Book
import PlatformMarkers.Mac.Toggling
import Mathlib.Data.List.Nodup

/-! Drafts into which the rules of a table are put and that are committed once. Such a
draft applies exactly the table, in the mode that it was set to. -/

set_option autoImplicit false

namespace PlatformMarkers

def Rule.entry (rule : Rule) : Entry := ⟨some rule.tag, some rule.substitute⟩

namespace Entry

@[simp] theorem completeRules_entries (table : Table) :
    completeRules (table.map Rule.entry) = table := by
  induction table with
  | nil => rfl
  | cons rule table ih => simp [Rule.entry, completeRules, ih]

@[simp] theorem firstMissing?_entries (table : Table) :
    firstMissing? (table.map Rule.entry) = none := by
  induction table with
  | nil => rfl
  | cons rule table ih => simpa [Rule.entry, firstMissing?] using ih

@[simp] theorem filterMap_simultaneousRule?_entry (table : Table) :
    table.filterMap (fun rule => rule.entry.simultaneousRule?) = table := by
  simp [Rule.entry, simultaneousRule?]

theorem put_of_fresh {entry : Entry} {entries : List Entry}
    (fresh : entry.tag ∉ entries.map Entry.tag) : entry.put entries = entries ++ [entry] := by
  induction entries with
  | nil => rfl
  | cons first rest ih =>
    simp only [List.map_cons, List.mem_cons, not_or] at fresh
    rw [put, if_neg (Ne.symm fresh.1), ih fresh.2, List.cons_append]

theorem foldl_put_of_nodup {placed entries : List Entry}
    (distinct : ((placed ++ entries).map Entry.tag).Nodup) :
    entries.foldl (fun placed entry => entry.put placed) placed = placed ++ entries := by
  induction entries generalizing placed with
  | nil => simp
  | cons entry entries ih =>
    rw [List.append_cons] at distinct ⊢
    have fresh : entry.tag ∉ placed.map Entry.tag := by
      intro member
      rw [List.map_append, List.map_append] at distinct
      exact (List.nodup_append.mp distinct.of_append_left).2.2 _ member _ (by simp) rfl
    rw [List.foldl_cons, put_of_fresh fresh, ih distinct]

end Entry

theorem Table.nodup_tags_entries {table : Table} (distinct : table.tags.Nodup) :
    ((table.map Rule.entry).map Entry.tag).Nodup := by
  have same : (table.map Rule.entry).map Entry.tag = table.tags.map some := by
    simp [Table.tags, Rule.entry, Function.comp_def]
  rw [same]
  exact distinct.map fun _ _ => Option.some.inj

namespace TableDraft

def after (draft : TableDraft) (steps : List Step) : TableDraft :=
  steps.foldl (fun draft step => (draft.step step).2) draft

/-- Set the mode of a fresh draft, put the rules of the table into it and commit it once. -/
def built (name : Text) (verbose : Bool) (mode : Mode) (table : Table) : TableDraft :=
  TableDraft.after { name, verbose }
    (.setMode mode :: (table.map fun rule => .put rule.entry) ++ [.commit])

theorem after_puts (draft : TableDraft) (editing : draft.committed = false)
    (entries : List Entry) : draft.after (entries.map .put) =
      { draft with entries := entries.foldl (fun placed entry => entry.put placed) draft.entries } := by
  induction entries generalizing draft with
  | nil => rfl
  | cons entry entries ih =>
    have put : (draft.step (.put entry)).2 = { draft with entries := entry.put draft.entries } := by
      simp [step, TableDraft.put, editing, Outcome.orKeep]
    rw [List.map_cons, after, List.foldl_cons, put]
    exact ih { draft with entries := entry.put draft.entries } editing

theorem after_append (draft : TableDraft) (first second : List Step) :
    draft.after (first ++ second) = (draft.after first).after second :=
  List.foldl_append

theorem exists_commit (name : Text) (verbose : Bool) (mode : Mode) (table : Table) :
    ∃ committed, commit { name, verbose, entries := table.map Rule.entry, mode } =
        (.ok (), committed) ∧
      ∀ text, (committed.apply text).map Applied.text = .ok (table.apply mode text) := by
  have tagged : (table.map Rule.entry).any (·.tag.isNone) = false := by
    simp [Rule.entry]
  -- A sequential commit copies the rules, and a simultaneous one leaves them among the entries.
  cases mode with
  | sequential =>
    refine ⟨{
      name, verbose, entries := table.map Rule.entry, appended := table, committed := true
    }, by simp [commit], fun text => ?_⟩
    simp [TableDraft.apply, TableDraft.table, Except.map]
  | simultaneous =>
    refine ⟨{
      name, verbose, entries := table.map Rule.entry, mode := .simultaneous, committed := true
    }, by simp only [commit, tagged, Bool.false_eq_true, if_false], fun text => ?_⟩
    simp [TableDraft.apply, TableDraft.table, Except.map]

theorem apply_built (name : Text) (verbose : Bool) (mode : Mode) {table : Table}
    (distinct : table.tags.Nodup) (text : Text) :
    ((built name verbose mode table).apply text).map Applied.text = .ok (table.apply mode text) := by
  obtain ⟨committed, commits, applies⟩ := exists_commit name verbose mode table
  have placed : (table.map Rule.entry).foldl (fun placed entry => entry.put placed) [] =
      table.map Rule.entry :=
    Entry.foldl_put_of_nodup (by simpa using Table.nodup_tags_entries distinct)
  have puts := after_puts { name, verbose, mode } rfl (table.map Rule.entry)
  rw [placed, List.map_map] at puts
  have built : built name verbose mode table = committed := by
    rw [TableDraft.built, after_append]
    refine (congrArg (fun draft => (step draft .commit).2) puts).trans ?_
    simp only [step, commits]
  rw [built]
  exact applies text

end TableDraft

/-- Toggling is what a fresh rule book gives that has adopted the toggling table. -/
theorem Mac.apply_adopt_table (verbose : Bool) (mode : Mode) :
    ∃ book, RuleBook.adopt { verbose } tableName (table.map Rule.entry) mode = .ok book ∧
      ∀ text, book.apply text =
        .ok ⟨toggle mode text, if verbose then passes mode text else []⟩ := by
  let adopted : TableDraft := {
    name := tableName, verbose, entries := table.map Rule.entry, mode
    appended := if mode = .sequential then table else [], committed := true }
  refine ⟨{ verbose, names := [tableName], tables := [adopted] }, ?_, fun text => ?_⟩
  · cases verbose <;> cases mode <;> decide
  · cases mode <;>
      simp [RuleBook.apply, RuleBook.applyTables, TableDraft.apply, TableDraft.table, adopted,
        toggle, passes]

end PlatformMarkers
