import PlatformMarkers.Text.Basic

/-! Lines of a text, counted in two ways: a position is located by the line feeds
before it, and a list of lines is cut at every Unicode line boundary. -/

set_option autoImplicit false

namespace PlatformMarkers.Text

/-- An index below zero counts from the end of the text, never past its start. -/
def offset (text : Text) (index : Int) : Nat :=
  if index < 0 then (index + text.length).toNat else index.toNat

def lineNumber (text : Text) (index : Int) : Nat :=
  (text.take (text.offset index)).count '\n' + 1

theorem lineNumber_append (before after : Text) :
    lineNumber (before ++ after) before.length = before.count '\n' + 1 := by
  have found : offset (before ++ after) before.length = before.length := by
    rw [offset, if_neg (Int.not_lt.mpr (Int.natCast_nonneg _)), Int.toNat_natCast]
  rw [lineNumber, found, List.take_left]

/-- Line feed to form feed, carriage return, the three information separators from U+001C,
next line, line separator and paragraph separator. -/
def isLineBreak (c : Char) : Bool :=
  ('\n' ≤ c && c ≤ '\r') || ('\x1c' ≤ c && c ≤ '\x1e') || c == '\u0085' ||
    c == '\u2028' || c == '\u2029'

/-- Cut at each line break, where `current` holds the line under way in reverse.
A carriage return and the line feed after it are one break. -/
def linesFrom (current : Text) : Text → List Text
  | [] => if current.isEmpty then [] else [current.reverse]
  | '\r' :: '\n' :: rest => current.reverse :: linesFrom [] rest
  | c :: rest =>
    if isLineBreak c then current.reverse :: linesFrom [] rest else linesFrom (c :: current) rest

def lines (text : Text) : List Text := linesFrom [] text

end PlatformMarkers.Text
