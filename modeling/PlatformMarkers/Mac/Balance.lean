import PlatformMarkers.Mac.Tag

/-! The balance of a document's markers. An opening marker that is never closed leaves a
block comment unterminated, and a closing marker without its opening one ends a comment
too early. Markers are paired in document order, innermost first. -/

set_option autoImplicit false

namespace PlatformMarkers.Mac

/-- A marker of a document, with the line on which its tag starts. -/
structure Sighting where
  tag : Tag
  line : Nat
  deriving DecidableEq, Repr

/-- The tags among the pieces of a scan; `line` is the number of the line under way. -/
def sightingsFrom (line : Nat) : List Piece → List Sighting
  | [] => []
  | .plain c :: rest => sightingsFrom (if c = '\n' then line + 1 else line) rest
  | .marker marker :: rest =>
    let later := sightingsFrom (line + marker.text.count '\n') rest
    match Tag.ofText? marker.tag with
    | some tag => ⟨tag, line⟩ :: later
    | none => later

def sightings (text : Text) : List Sighting := sightingsFrom 1 (scan Tag.texts text)

structure Site where
  region : Region
  line : Nat
  deriving DecidableEq, Repr

inductive Imbalance where
  /-- A block comment is opened inside the one opened at `outer`. -/
  | nested (opener outer : Site)
  | unopened (closer : Site)
  | mismatched (closer innermost : Site)
  | unclosed (opener : Site)
  deriving DecidableEq, Repr

namespace Imbalance

def tag : Imbalance → Tag
  | .nested opener _ => .opens opener.region
  | .unopened closer => .closes closer.region
  | .mismatched closer _ => .closes closer.region
  | .unclosed opener => .opens opener.region

def line : Imbalance → Nat
  | .nested opener _ => opener.line
  | .unopened closer => closer.line
  | .mismatched closer _ => closer.line
  | .unclosed opener => opener.line

def message (imbalance : Imbalance) : Text :=
  let name (tag : Tag) : Text := Text.ticked tag.text
  name imbalance.tag ++
    match imbalance with
    | .nested _ outer =>
      " opens a block comment inside the block comment opened by ".toList ++
        name (.opens outer.region) ++ " on line ".toList ++ Text.decimal outer.line
    | .unopened _ => " without a preceding opening marker".toList
    | .mismatched _ innermost =>
      " where ".toList ++ name (.closes innermost.region) ++ " was expected to close ".toList ++
        name (.opens innermost.region) ++ " on line ".toList ++ Text.decimal innermost.line
    | .unclosed opener => " never closed by ".toList ++ name (.closes opener.region)

def report (imbalance : Imbalance) : Text :=
  "line ".toList ++ Text.decimal imbalance.line ++ ": ".toList ++ imbalance.message

end Imbalance

/-- The earliest open site whose region is a block comment; `opened` holds the innermost first. -/
def outermostBlock? (opened : List Site) : Option Site := opened.reverse.find? (·.region.isBlock)

/-- The imbalances of the markers that follow, where `opened` holds the open regions,
innermost first. A closing marker that does not match is reported and otherwise ignored. -/
def imbalancesFrom : List Site → List Sighting → List Imbalance
  | opened, [] => opened.reverse.map .unclosed
  | opened, ⟨.opens region, line⟩ :: rest =>
    let opener : Site := ⟨region, line⟩
    let later := imbalancesFrom (opener :: opened) rest
    match outermostBlock? opened with
    | some outer => if region.isBlock then .nested opener outer :: later else later
    | none => later
  | [], ⟨.closes region, line⟩ :: rest => .unopened ⟨region, line⟩ :: imbalancesFrom [] rest
  | innermost :: outer, ⟨.closes region, line⟩ :: rest =>
    if region = innermost.region then imbalancesFrom outer rest
    else .mismatched ⟨region, line⟩ innermost :: imbalancesFrom (innermost :: outer) rest

def imbalances (text : Text) : List Imbalance := imbalancesFrom [] (sightings text)

def balanceMessage (found : List Imbalance) : Text :=
  Text.joined "; ".toList (found.map Imbalance.report)

def checkBalance (text : Text) : Except (List Imbalance) Unit :=
  match imbalances text with
  | [] => .ok ()
  | found => .error found

end PlatformMarkers.Mac
