import PlatformMarkers.Text.Basic

/-! What can go wrong while rules are set up, committed and applied. -/

set_option autoImplicit false

namespace PlatformMarkers

inductive Part where
  | tag
  | substitute
  deriving DecidableEq, Repr

def Part.name : Part → Text
  | .tag => "tag".toList
  | .substitute => "substitute".toList

inductive Fault where
  | fixedPart (part : Part)
  | fixedEntries
  | fixedMode
  | uncommitted
  | missing (part : Part)
  /-- A simultaneous table is committed with an entry that has no tag. -/
  | untagged
  | taken (name : Text)
  | absent (position : Nat)
  deriving DecidableEq, Repr

/-- The message of a fault, if it has one of its own. -/
def Fault.message? : Fault → Option Text
  | .fixedPart part =>
    some ("error: cannot set ".toList ++ Text.ticked part.name ++ " after `commit()`".toList)
  | .fixedEntries => some "error: cannot call `add_substitution(...)` after `commit()`".toList
  | .fixedMode =>
    some "error: cannot set `apply_substitutions_simultaneously` after `commit()`".toList
  | .uncommitted => some "error: cannot call `apply(string)` before `commit()`".toList
  | .missing part =>
    some ("error: mandatory attribute ".toList ++ Text.ticked part.name ++ " not set".toList)
  | .taken name =>
    some ("error: replacement with id ".toList ++ Text.ticked name ++ " already legislated".toList)
  | .untagged | .absent _ => none

end PlatformMarkers
