import PlatformMarkers.Rule.Basic

/-! The passes that an application of rules makes over a text, as they are recorded and
shown in verbose mode. -/

set_option autoImplicit false

namespace PlatformMarkers

structure Pass where
  name : Text
  before : Text
  after : Text
  deriving DecidableEq, Repr

namespace Pass

def dividerWidth : Nat := 48

def divider (symbol : Char) : Text := List.replicate dividerWidth symbol

/-- The text before and after, set off by dividers; five empty lines follow. -/
def render (pass : Pass) : Text :=
  divider '<' ++ " BEFORE #".toList ++ pass.name ++ "\n".toList ++
  pass.before ++ "\n".toList ++
  divider '=' ++ (if pass.before = pass.after then " (no change)".toList else []) ++ "\n".toList ++
  pass.after ++ "\n".toList ++
  divider '>' ++ " AFTER #".toList ++ pass.name ++ "\n".toList ++
  "\n\n\n\n\n".toList

end Pass

namespace Table

def rulePasses (name : Text) : Table → Text → List Pass
  | [], _ => []
  | rule :: table, text =>
    let result := rule.apply text
    ⟨name ++ ".".toList ++ rule.tag, text, result⟩ :: rulePasses name table result

def passes (name : Text) (table : Table) (mode : Mode) (text : Text) : List Pass :=
  (match mode with
    | .sequential => rulePasses name table text
    | .simultaneous => []) ++
    [⟨name, text, table.apply mode text⟩]

end Table

end PlatformMarkers
