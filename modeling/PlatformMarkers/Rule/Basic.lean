import PlatformMarkers.Marker.Scan

/-! Replacement rules, and tables of rules with the two ways to apply them. -/

set_option autoImplicit false

namespace PlatformMarkers

structure Rule where
  tag : Text
  substitute : Text
  deriving DecidableEq, Repr

def Rule.apply (rule : Rule) (text : Text) : Text :=
  replaceMarkers [rule.tag] (fun _ => rule.substitute) text

abbrev Table := List Rule

inductive Mode where
  /-- One pass for each rule in order, over what the rules before it have left. -/
  | sequential
  /-- One pass for all rules together. -/
  | simultaneous
  deriving DecidableEq, Repr

namespace Table

def tags (table : Table) : List Text := table.map Rule.tag

/-- The substitute of the first rule with the tag; no tag outside the table is asked for. -/
def substituteFor (table : Table) (tag : Text) : Text :=
  match table.find? (·.tag == tag) with
  | some rule => rule.substitute
  | none => []

def applySequentially (table : Table) (text : Text) : Text :=
  table.foldl (fun text rule => rule.apply text) text

def applySimultaneously (table : Table) (text : Text) : Text :=
  replaceMarkers table.tags table.substituteFor text

def apply (table : Table) : Mode → Text → Text
  | .sequential => table.applySequentially
  | .simultaneous => table.applySimultaneously

@[simp] theorem applySequentially_nil (text : Text) : applySequentially [] text = text := rfl

@[simp] theorem applySequentially_cons (rule : Rule) (table : Table) (text : Text) :
    applySequentially (rule :: table) text = applySequentially table (rule.apply text) := rfl

theorem applySequentially_append (first second : Table) (text : Text) :
    applySequentially (first ++ second) text =
      applySequentially second (applySequentially first text) :=
  List.foldl_append

end Table

end PlatformMarkers
