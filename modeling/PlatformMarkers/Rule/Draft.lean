import PlatformMarkers.Rule.Outcome

/-! The life of a single rule: its parts are set in any order, a commit needs both of
them, and a committed rule never changes again. -/

set_option autoImplicit false

namespace PlatformMarkers

inductive RuleStage where
  | editing (tag substitute : Option Text)
  | committed (rule : Rule)
  deriving DecidableEq, Repr

structure RuleDraft where
  name : Text
  verbose : Bool
  stage : RuleStage := .editing none none
  deriving DecidableEq, Repr

namespace RuleDraft

def tag? (draft : RuleDraft) : Option Text :=
  match draft.stage with
  | .editing tag _ => tag
  | .committed rule => some rule.tag

def substitute? (draft : RuleDraft) : Option Text :=
  match draft.stage with
  | .editing _ substitute => substitute
  | .committed rule => some rule.substitute

def isCommitted (draft : RuleDraft) : Bool :=
  match draft.stage with
  | .editing _ _ => false
  | .committed _ => true

def setTag (draft : RuleDraft) (value : Option Text) : Except Fault RuleDraft :=
  match draft.stage with
  | .editing _ substitute => .ok { draft with stage := .editing value substitute }
  | .committed _ => .error (.fixedPart .tag)

def setSubstitute (draft : RuleDraft) (value : Option Text) : Except Fault RuleDraft :=
  match draft.stage with
  | .editing tag _ => .ok { draft with stage := .editing tag value }
  | .committed _ => .error (.fixedPart .substitute)

/-- The tag is looked for before the substitute. A second commit changes nothing. -/
def commit (draft : RuleDraft) : Except Fault RuleDraft :=
  match draft.stage with
  | .editing none _ => .error (.missing .tag)
  | .editing (some _) none => .error (.missing .substitute)
  | .editing (some tag) (some substitute) =>
    .ok { draft with stage := .committed ⟨tag, substitute⟩ }
  | .committed _ => .ok draft

def apply (draft : RuleDraft) (text : Text) : Except Fault Applied :=
  match draft.stage with
  | .editing _ _ => .error .uncommitted
  | .committed rule =>
    let result := rule.apply text
    .ok ⟨result, if draft.verbose then [⟨draft.name, text, result⟩] else []⟩

inductive Step where
  | setTag (value : Option Text)
  | setSubstitute (value : Option Text)
  | commit
  | apply (text : Text)
  deriving DecidableEq, Repr

def step (draft : RuleDraft) : Step → Outcome × RuleDraft
  | .setTag value => Outcome.orKeep draft (draft.setTag value)
  | .setSubstitute value => Outcome.orKeep draft (draft.setSubstitute value)
  | .commit => Outcome.orKeep draft draft.commit
  | .apply text => (Outcome.ofApplied (draft.apply text), draft)

def run (draft : RuleDraft) : List Step → List (Outcome × RuleDraft)
  | [] => []
  | next :: steps =>
    let answer := draft.step next
    answer :: run answer.2 steps

end RuleDraft

end PlatformMarkers
