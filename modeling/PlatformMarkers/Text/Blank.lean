import PlatformMarkers.Text.Basic

/-! White space: the six ASCII characters of it, and the wider Unicode class that is
stripped from the ends of a line. -/

set_option autoImplicit false

namespace PlatformMarkers.Text

/-- Space, and tab to carriage return. -/
def isAsciiSpace (c : Char) : Bool := c == ' ' || ('\t' ≤ c && c ≤ '\r')

def isSpace (c : Char) : Bool :=
  isAsciiSpace c || ('\x1c' ≤ c && c ≤ '\x1f') || c == '\u0085' || c == '\u00a0' ||
    c == '\u1680' || ('\u2000' ≤ c && c ≤ '\u200a') || c == '\u2028' || c == '\u2029' ||
    c == '\u202f' || c == '\u205f' || c == '\u3000'

theorem isSpace_of_isAsciiSpace {c : Char} (ascii : isAsciiSpace c = true) : isSpace c = true := by
  simp [isSpace, ascii]

def isAsciiBlank (text : Text) : Bool := text.all isAsciiSpace

def stripLeft (text : Text) : Text := text.dropWhile isSpace

def stripRight (text : Text) : Text := (text.reverse.dropWhile isSpace).reverse

def strip (text : Text) : Text := text.stripLeft.stripRight

end PlatformMarkers.Text
