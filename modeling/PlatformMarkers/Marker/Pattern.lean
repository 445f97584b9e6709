import PlatformMarkers.Marker.Basic

/-! The markers of a set of tags as the text of a regular expression, for the extended
syntax in which white space outside of an escape stands for nothing. -/

set_option autoImplicit false

namespace PlatformMarkers.Pattern

def special : Text := "()[]\x7b\x7d?*+-|^$\\.&~# \t\n\r\x0b\x0c".toList

def escape (text : Text) : Text :=
  text.flatMap fun c => if special.contains c then ['\\', c] else [c]

inductive Repetition where
  | atLeastOnce
  | anyTimes
  deriving DecidableEq, Repr

def Repetition.sign : Repetition → Char
  | .atLeastOnce => '+'
  | .anyTimes => '*'

def delimiterRun (repetition : Repetition) : Text :=
  "[".toList ++ escape delimiters ++ "]".toList ++ [repetition.sign]

def insertByLength (tag : Text) : List Text → List Text
  | [] => [tag]
  | first :: rest =>
    if tag.length < first.length then first :: insertByLength tag rest else tag :: first :: rest

/-- Longer tags come first, and tags of one length keep their order. -/
def longestFirst (tags : List Text) : List Text := tags.foldr insertByLength []

theorem mem_insertByLength {tag other : Text} {tags : List Text} :
    other ∈ insertByLength tag tags ↔ other = tag ∨ other ∈ tags := by
  induction tags with
  | nil => simp [insertByLength]
  | cons first rest ih =>
    rw [insertByLength]
    split
    · simp only [List.mem_cons, ih]
      exact or_left_comm
    · simp

def anyTag (tags : List Text) : Text :=
  "(?P<tag> ".toList ++ Text.joined "|".toList ((longestFirst tags).map escape) ++ " )".toList

def marker (tags : List Text) : Text :=
  Text.joined " ".toList [delimiterRun .atLeastOnce, anyTag tags, delimiterRun .anyTimes]

end PlatformMarkers.Pattern
