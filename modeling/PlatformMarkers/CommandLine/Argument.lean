import PlatformMarkers.CommandLine.Usage
import PlatformMarkers.Text.DecimalDigit

/-! What each argument of a command line is, told from its text alone: an operand, an
option or the separator after which everything is an operand. -/

set_option autoImplicit false

namespace PlatformMarkers.CommandLine

inductive Argument where
  | operand (text : Text)
  | separator
  | switch (switch : Switch) (form : Form) (attached : Option Text)
  | unknown (text : Text)
  deriving DecidableEq, Repr

/-- Digits, or digits with a point before the last of them, behind a minus sign. A line
feed may follow. -/
def isNegativeNumber : Text → Bool
  | '-' :: rest =>
    let body := if rest.getLast? = some '\n' then rest.dropLast else rest
    match body.dropWhile Text.isDecimalDigit with
    | [] => !body.isEmpty
    | '.' :: fraction => !fraction.isEmpty && fraction.all Text.isDecimalDigit
    | _ => false
  | _ => false

/-- Something with a minus sign that is no option may still be an operand. -/
def unspelled (text : Text) : Argument :=
  if isNegativeNumber text || text.contains ' ' then .operand text else .unknown text

def splitValue (text : Text) : Text × Option Text :=
  match text.dropWhile (· != '=') with
  | [] => (text, none)
  | _ :: value => (text.takeWhile (· != '='), some value)

/-- An option by the beginning of its word, or by its letter with text directly after it. -/
def abbreviation (text : Text) : Except UsageError Argument :=
  match text with
  | '-' :: '-' :: _ =>
    let (word, attached) := splitValue text
    match Switch.all.filter (word.isPrefixOf ·.long) with
    | [] => .ok (unspelled text)
    | [switch] => .ok (.switch switch .long attached)
    | candidates => .error (.ambiguous text candidates)
  | '-' :: letter :: attached =>
    match Switch.ofLetter? letter with
    | some switch => .ok (.switch switch .short (some attached))
    | none => .ok (unspelled text)
  | _ => .ok (.operand text)

def classify (text : Text) : Except UsageError Argument :=
  match spelling? text with
  | some (switch, form) => .ok (.switch switch form none)
  | none =>
    match splitValue text with
    | (name, some value) =>
      match spelling? name with
      | some (switch, form) => .ok (.switch switch form (some value))
      | none => abbreviation text
    | (_, none) => abbreviation text

def classifyAll : List Text → Except UsageError (List Argument)
  | [] => .ok []
  | text :: rest =>
    if text = "--".toList then .ok (.separator :: rest.map .operand)
    else
      match classify text with
      | .error error => .error error
      | .ok first =>
        match classifyAll rest with
        | .error error => .error error
        | .ok others => .ok (first :: others)

end PlatformMarkers.CommandLine
