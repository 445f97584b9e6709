import PlatformMarkers.Rule.Basic

/-! The six tags that mark code for the Mac and code for every other platform. Each
region of code has a tag that opens it and a tag that closes it. -/

set_option autoImplicit false

namespace PlatformMarkers.Mac

/-- Code for every platform but the Mac stays live. Code for the Mac is commented out, also as the
second branch of a choice. -/
inductive Region where
  | notMac
  | mac
  | elseMac
  deriving DecidableEq, Repr

def Region.isBlock : Region → Bool
  | .notMac => false
  | .mac => true
  | .elseMac => true

inductive Tag where
  | opens (region : Region)
  | closes (region : Region)
  deriving DecidableEq, Repr

namespace Tag

def text : Tag → Text
  | .opens .notMac => "IF-NOT-MAC".toList
  | .closes .notMac => "END-NOT-MAC".toList
  | .opens .mac => "IF-MAC".toList
  | .closes .mac => "END-MAC".toList
  | .opens .elseMac => "ELSE-IF-MAC".toList
  | .closes .elseMac => "ELSE-IF-NOT-MAC".toList

/-- The tags, in the order in which their rules are applied. -/
def all : List Tag :=
  [.opens .notMac, .closes .notMac, .opens .mac, .closes .mac, .opens .elseMac, .closes .elseMac]

theorem mem_all (tag : Tag) : tag ∈ all := by
  rcases tag with ⟨_ | _ | _⟩ | ⟨_ | _ | _⟩ <;> decide

def texts : List Text := all.map text

def ofText? (text : Text) : Option Tag := all.find? (·.text == text)

@[simp] theorem ofText?_text (tag : Tag) : ofText? tag.text = some tag := by
  rcases tag with ⟨_ | _ | _⟩ | ⟨_ | _ | _⟩ <;> decide

/-- A tag that opens dead code opens a block comment; every other tag starts a line comment. -/
def lead : Tag → Text
  | .opens region => if region.isBlock then "/*".toList else "//".toList
  | .closes _ => "//".toList

def trail : Tag → Text
  | .opens _ => []
  | .closes region => if region.isBlock then "*/".toList else []

def substitute (tag : Tag) : Text := tag.lead ++ tag.text ++ tag.trail

def rule (tag : Tag) : Rule := ⟨tag.text, tag.substitute⟩

end Tag

def table : Table := Tag.all.map Tag.rule

def tableName : Text := "mac-markers".toList

end PlatformMarkers.Mac
