import PlatformMarkers.Rule.Fault
import PlatformMarkers.Rule.Pass

/-! What the steps in the life of a rule, a table or a rule book answer. -/

set_option autoImplicit false

namespace PlatformMarkers

structure Applied where
  text : Text
  shown : List Pass
  deriving DecidableEq, Repr

/-- The answer to one step. Only an application, or the adoption of a table, answers
with a text, and only an application shows passes. -/
structure Outcome where
  result : Except Fault (Option Text)
  shown : List Pass

namespace Outcome

def done : Outcome := ⟨.ok none, []⟩

def fault (fault : Fault) : Outcome := ⟨.error fault, []⟩

def ofApplied : Except Fault Applied → Outcome
  | .ok applied => ⟨.ok (some applied.text), applied.shown⟩
  | .error found => fault found

def orKeep {State : Type} (state : State) : Except Fault State → Outcome × State
  | .ok changed => (done, changed)
  | .error found => (fault found, state)

end Outcome

end PlatformMarkers
