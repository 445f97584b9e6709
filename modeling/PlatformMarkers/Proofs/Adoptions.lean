import PlatformMarkers.Proofs.History
import Mathlib.Data.List.Forall2

/-! The tables of a book and their adoptions. Whatever is done to a book and to the tables that
it hands out, it holds one committed table for each adoption that succeeded, in their order, with
the entries and the mode of that adoption. A refused adoption leaves no trace. -/

set_option autoImplicit false

namespace PlatformMarkers

theorem forall₂_set {Left Right : Type} {Related : Left → Right → Prop} {lefts : List Left}
    {rights : List Right} {position : Nat} {old new : Right}
    (related : List.Forall₂ Related lefts rights) (found : rights[position]? = some old)
    (kept : ∀ left, Related left old → Related left new) :
    List.Forall₂ Related lefts (rights.set position new) := by
  induction related generalizing position with
  | nil => exact .nil
  | cons first rest ih =>
    cases position with
    | zero =>
      cases found
      exact .cons (kept _ first) rest
    | succ position => exact .cons first (ih found)

/-! ## One adoption -/

namespace Adoption

structure Fits (adoption : Adoption) (table : TableDraft) : Prop where
  name_eq : table.name = adoption.name
  mode_eq : table.mode = adoption.mode
  tabulates : Entry.Tabulates adoption.entries table.entries
  entries_eq : (adoption.entries.map Entry.tag).Nodup → table.entries = adoption.entries

structure Holds (adoption : Adoption) (table : TableDraft) : Prop extends Fits adoption table where
  committed : table.committed = true

variable {adoption : Adoption} {table : TableDraft}

theorem fits_draft (adoption : Adoption) (verbose : Bool) :
    adoption.Fits (adoption.draft verbose) where
  name_eq := rfl
  mode_eq := rfl
  tabulates := Entry.tabulates_putAll adoption.entries
  entries_eq distinct := Entry.foldl_put_of_nodup distinct

theorem Fits.commit (fits : adoption.Fits table) : adoption.Fits table.commit.2 := by
  rw [TableDraft.commit_eq]
  exact ⟨fits.name_eq, fits.mode_eq, fits.tabulates, fits.entries_eq⟩

theorem Holds.step (holds : adoption.Holds table) (step : TableDraft.Step) :
    adoption.Holds (table.step step).2 := by
  have committed := TableDraft.committed_step holds.committed step
  rcases TableDraft.snd_step_of_committed holds.committed step with same | again
  · rwa [same]
  · rw [again] at committed ⊢
    exact ⟨holds.toFits.commit, committed⟩

end Adoption

namespace RuleBook

def course (book : RuleBook) (steps : List Step) : List (RuleBook × Step) :=
  courseFrom (fun book step => (book.step step).2) book steps

def adoption? : RuleBook × Step → Option Adoption
  | (book, .adopt name entries mode) =>
    if (book.step (.adopt name entries mode)).1.result.isOk then some ⟨name, entries, mode⟩ else none
  | _ => none

def adoptions (book : RuleBook) (steps : List Step) : List Adoption :=
  (book.course steps).filterMap adoption?

theorem adoptions_cons (book : RuleBook) (step : Step) (steps : List Step) :
    book.adoptions (step :: steps) =
      (adoption? (book, step)).toList ++ (book.step step).2.adoptions steps := by
  rw [adoptions, course, courseFrom, List.filterMap_cons]
  cases adoption? (book, step) <;> rfl

theorem adoption?_adopt (book : RuleBook) (adoption : Adoption) :
    adoption? (book, .adopt adoption.name adoption.entries adoption.mode) =
      if book.objection? adoption = none then some adoption else none := by
  rw [adoption?, step_adopt]
  cases book.objection? adoption <;> rfl

/-- The fault with which the book refuses the adoption. A taken name is noticed first. -/
inductive Refuses (book : RuleBook) (adoption : Adoption) : Fault → Prop where
  | taken (known : adoption.name ∈ book.names) : Refuses book adoption (.taken adoption.name)
  | missing {part : Part} (fresh : adoption.name ∉ book.names)
      (sequential : adoption.mode = .sequential)
      (lacks : Entry.firstMissing? (Entry.putAll adoption.entries) = some part) :
      Refuses book adoption (.missing part)
  | untagged {entry : Entry} (fresh : adoption.name ∉ book.names)
      (simultaneous : adoption.mode = .simultaneous)
      (member : entry ∈ Entry.putAll adoption.entries) (lacks : entry.tag = none) :
      Refuses book adoption .untagged

theorem objection?_eq_some_iff {book : RuleBook} {adoption : Adoption} {fault : Fault} :
    book.objection? adoption = some fault ↔ book.Refuses adoption fault := by
  obtain ⟨name, entries, mode⟩ := adoption
  constructor
  · intro objection
    rw [objection?] at objection
    simp only [List.contains_iff_mem] at objection
    split at objection
    next known =>
      cases objection
      exact .taken known
    next fresh =>
      cases mode with
      | sequential =>
        obtain ⟨part, lacks, rfl⟩ := Option.map_eq_some_iff.mp objection
        exact .missing fresh rfl lacks
      | simultaneous =>
        obtain ⟨untagged, same⟩ := Option.ite_none_right_eq_some.mp objection
        cases same
        obtain ⟨entry, member, lacks⟩ := List.any_eq_true.mp untagged
        exact .untagged fresh rfl member (Option.isNone_iff_eq_none.mp lacks)
  · intro refuses
    simp only [objection?, List.contains_iff_mem]
    cases refuses with
    | taken known => rw [if_pos known]
    | missing fresh sequential lacks =>
      cases sequential
      simp [fresh, Adoption.draft, TableDraft.flaw?, lacks]
    | untagged fresh simultaneous member lacks =>
      cases simultaneous
      have untagged : (Entry.putAll entries).any (·.tag.isNone) = true :=
        List.any_eq_true.mpr ⟨_, member, Option.isNone_iff_eq_none.mpr lacks⟩
      rw [if_neg fresh]
      exact if_pos untagged

theorem adopt_refused_iff {book : RuleBook} {adoption : Adoption} {fault : Fault} :
    (book.step (.adopt adoption.name adoption.entries adoption.mode)).1.result = .error fault ↔
      book.Refuses adoption fault := by
  rw [step_adopt, ← objection?_eq_some_iff]
  cases book.objection? adoption <;> simp [Outcome.fault]

theorem Refuses.step {book : RuleBook} {adoption : Adoption} {fault : Fault}
    (refuses : book.Refuses adoption fault) :
    (book.step (.adopt adoption.name adoption.entries adoption.mode)).2 = book := by
  rw [step_adopt, objection?_eq_some_iff.mpr refuses]
  rfl

/-! ## The tables behind a course of steps -/

/-- The book holds the tables that have been adopted, under distinct names. -/
structure Registered (book : RuleBook) (adopted : List Adoption) : Prop where
  names_eq : book.names = adopted.map Adoption.name
  nodup : book.names.Nodup
  holds : List.Forall₂ Adoption.Holds adopted book.tables

theorem registered_fresh (verbose : Bool) : Registered { verbose } [] :=
  ⟨rfl, List.nodup_nil, .nil⟩

namespace Registered

variable {book : RuleBook} {adopted : List Adoption} (registered : book.Registered adopted)
include registered

theorem enlarged {adoption : Adoption} (unopposed : book.objection? adoption = none) :
    (book.enlarged adoption).Registered (adopted ++ [adoption]) := by
  obtain ⟨fresh, flawless⟩ := unopposed_iff.mp unopposed
  refine ⟨?_, ?_, List.rel_append registered.holds (.cons ?_ .nil)⟩
  · rw [RuleBook.enlarged, registered.names_eq, List.map_append, List.map_singleton]
  · rw [RuleBook.enlarged, ← List.concat_eq_append]
    exact registered.nodup.concat fresh
  · exact ⟨(adoption.fits_draft book.verbose).commit, TableDraft.committed_commit flawless⟩

theorem step (step : Step) :
    (book.step step).2.Registered (adopted ++ (adoption? (book, step)).toList) := by
  cases step with
  | adopt name entries mode =>
    have answer := book.step_adopt ⟨name, entries, mode⟩
    rw [answer, adoption?_adopt book ⟨name, entries, mode⟩]
    cases unopposed : book.objection? ⟨name, entries, mode⟩ with
    | none => exact registered.enlarged unopposed
    | some fault => simpa using registered
  | apply text => simpa [adoption?, RuleBook.step] using registered
  | onTable position step =>
    have nothing : adoption? (book, .onTable position step) = none := rfl
    rw [nothing, Option.toList_none, List.append_nil, RuleBook.step]
    split
    next => exact registered
    next table found =>
      exact { registered with
        holds := forall₂_set registered.holds found fun _ holds => holds.step step }

theorem after (steps : List Step) :
    (book.after steps).Registered (adopted ++ book.adoptions steps) := by
  induction steps generalizing book adopted with
  | nil => simpa [RuleBook.after, adoptions, course, courseFrom] using registered
  | cons step steps ih =>
    have later := ih (registered.step step)
    rwa [List.append_assoc, ← adoptions_cons] at later

theorem names_eq_tables : book.names = book.tables.map TableDraft.name := by
  rw [registered.names_eq, ← List.forall₂_eq_eq_eq, List.forall₂_map_left_iff,
    List.forall₂_map_right_iff]
  exact registered.holds.imp fun _ _ holds => holds.name_eq.symm

end Registered

/-- A book that starts out empty holds the tables of its successful adoptions, in their order
and under distinct names, each of them committed and with the entries and the mode that it was
adopted with. It applies them one after another without a fault, and a refused adoption makes no
difference to what follows. -/
theorem holds_adoptions (verbose : Bool) (steps : List Step) :
    let fresh : RuleBook := { verbose }
    let book := fresh.after steps
    (book.names.Nodup ∧ book.names = book.tables.map TableDraft.name ∧
      book.names = (fresh.adoptions steps).map Adoption.name) ∧
    List.Forall₂ Adoption.Holds (fresh.adoptions steps) book.tables ∧
    (∀ draft ∈ book.tables, ∀ text,
      (draft.apply text).map Applied.text = .ok (draft.rewrite text)) ∧
    (∀ text, (book.apply text).map Applied.text =
      .ok (book.tables.foldl (fun text draft => draft.rewrite text) text)) ∧
    (∀ adoption : Adoption, ∀ fault,
      let request : Step := .adopt adoption.name adoption.entries adoption.mode
      ((book.step request).1.result = .error fault ↔ book.Refuses adoption fault) ∧
      ((book.step request).1.result = .error fault → (book.step request).2 = book ∧
        ∀ later, book.after (request :: later) = book.after later)) := by
  intro fresh book
  have registered : book.Registered (fresh.adoptions steps) :=
    (registered_fresh verbose).after steps
  have ready : book.Ready := (ready_fresh verbose).after steps
  refine ⟨⟨registered.nodup, registered.names_eq_tables, registered.names_eq⟩, registered.holds,
    fun draft member => TableDraft.apply_of_committed (ready draft member).1, ready.apply,
    fun adoption fault => ⟨adopt_refused_iff, fun refused => ?_⟩⟩
  have same := (adopt_refused_iff.mp refused).step
  exact ⟨same, fun later => congrArg (·.after later) same⟩

/-- Three refused adoptions stand between two that succeed. The first table is committed again,
which makes its pass twice, and refuses another entry. -/
theorem holds_adoptions_refused :
    let entry (tag substitute : Option String) : Entry :=
      ⟨tag.map String.toList, substitute.map String.toList⟩
    let first : Adoption := ⟨"t".toList, [entry "a" "x", entry "a" "b/a"], .sequential⟩
    let second : Adoption := ⟨"u".toList, [entry "b" none], .simultaneous⟩
    let again : Adoption := ⟨"t".toList, [], .simultaneous⟩
    let request (adoption : Adoption) : Step := .adopt adoption.name adoption.entries adoption.mode
    let fresh : RuleBook := { verbose := true }
    let steps := [request first, request again,
      request ⟨"u".toList, [entry "b" none], .sequential⟩, .onTable 0 .commit,
      .onTable 0 (.put (entry "b" none)), request ⟨"u".toList, [entry none "c"], .simultaneous⟩,
      .apply "/a".toList, request second]
    let book := fresh.after steps
    book.names = ["t".toList, "u".toList] ∧ List.Forall₂ Adoption.Holds [first, second] book.tables ∧
      (book.apply "/a /b".toList).map Applied.text = .ok "bb/a ".toList ∧
      book.Refuses again (.taken "t".toList) ∧ (book.step (request again)).2 = book := by
  intro entry first second again request fresh steps book
  obtain ⟨_, holds, _, _, refusals⟩ := holds_adoptions true steps
  have names : book.names = ["t".toList, "u".toList] := by decide
  have adoptions : fresh.adoptions steps = [first, second] := by decide
  have applied : (book.apply "/a /b".toList).map Applied.text = .ok "bb/a ".toList := by decide
  obtain ⟨refused, unchanged⟩ := refusals again (.taken "t".toList)
  have refuses : book.Refuses again (.taken "t".toList) := by
    refine .taken ?_
    rw [names]
    decide
  rw [adoptions] at holds
  exact ⟨names, holds, applied, refuses, (unchanged (refused.mpr refuses)).1⟩

end RuleBook

end PlatformMarkers
