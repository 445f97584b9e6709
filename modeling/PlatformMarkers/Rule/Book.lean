import PlatformMarkers.Rule.TableDraft

/-! A rule book: committed tables with distinct names, applied in the order of their
adoption. -/

set_option autoImplicit false

namespace PlatformMarkers

structure RuleBook where
  verbose : Bool
  names : List Text := []
  tables : List TableDraft := []
  deriving DecidableEq, Repr

namespace RuleBook

/-- Commit a table of the entries and put it last. A table that cannot be committed, or
whose name is taken, leaves the book as it was. -/
def adopt (book : RuleBook) (name : Text) (entries : List Entry) (mode : Mode) :
    Except Fault RuleBook :=
  if book.names.contains name then .error (.taken name)
  else
    let draft : TableDraft := { name, verbose := book.verbose, entries := Entry.putAll entries, mode }
    match draft.commit with
    | (.ok (), committed) =>
      .ok { book with names := book.names ++ [name], tables := book.tables ++ [committed] }
    | (.error fault, _) => .error fault

def applyTables : List TableDraft → Text → Except Fault Applied
  | [], text => .ok ⟨text, []⟩
  | draft :: rest, text =>
    match draft.apply text with
    | .error fault => .error fault
    | .ok first =>
      match applyTables rest first.text with
      | .error fault => .error fault
      | .ok last => .ok ⟨last.text, first.shown ++ last.shown⟩

def apply (book : RuleBook) (text : Text) : Except Fault Applied := applyTables book.tables text

inductive Step where
  | adopt (name : Text) (entries : List Entry) (mode : Mode)
  | apply (text : Text)
  | onTable (position : Nat) (step : TableDraft.Step)
  deriving DecidableEq, Repr

def step (book : RuleBook) : Step → Outcome × RuleBook
  | .adopt name entries mode =>
    match book.adopt name entries mode with
    | .ok changed => (⟨.ok (some name), []⟩, changed)
    | .error fault => (Outcome.fault fault, book)
  | .apply text => (Outcome.ofApplied (book.apply text), book)
  | .onTable position step =>
    match book.tables[position]? with
    | none => (Outcome.fault (.absent position), book)
    | some draft =>
      let (outcome, changed) := draft.step step
      (outcome, { book with tables := book.tables.set position changed })

def run (book : RuleBook) : List Step → List (Outcome × RuleBook)
  | [] => []
  | next :: steps =>
    let answer := book.step next
    answer :: run answer.2 steps

end RuleBook

end PlatformMarkers
