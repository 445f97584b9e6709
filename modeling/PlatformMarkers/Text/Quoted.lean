import PlatformMarkers.Text.Printable

/-! Text in quotes for messages: the quote around it, the backslash and everything
unprintable are escaped. -/

set_option autoImplicit false

namespace PlatformMarkers.Text

def hexadecimal (width number : Nat) : Text :=
  let digits := Nat.toDigits 16 number
  List.replicate (width - digits.length) '0' ++ digits

/-- Single quotes, unless the text holds some and no double quotes. -/
def quoteFor (text : Text) : Char :=
  if text.contains '\'' && !text.contains '"' then '"' else '\''

def escapeCharacter (quote c : Char) : Text :=
  if c = quote || c = '\\' then ['\\', c]
  else if c = '\t' then "\\t".toList
  else if c = '\n' then "\\n".toList
  else if c = '\r' then "\\r".toList
  else if isPrintable c then [c]
  else if c.toNat ≤ 0xff then "\\x".toList ++ hexadecimal 2 c.toNat
  else if c.toNat ≤ 0xffff then "\\u".toList ++ hexadecimal 4 c.toNat
  else "\\U".toList ++ hexadecimal 8 c.toNat

def quoted (text : Text) : Text :=
  let quote := quoteFor text
  [quote] ++ text.flatMap (escapeCharacter quote) ++ [quote]

end PlatformMarkers.Text
