import PlatformMarkers.Text.Line
import PlatformMarkers.Text.Blank
import PlatformMarkers.File.Path

/-! Lists of file names: one name to a line, relative to the directory of the list, with
blank lines and comments left out. -/

set_option autoImplicit false

namespace PlatformMarkers.NameList

def isComment (line : Text) : Bool := line.stripLeft.head? == some '#'

def isSkipped (line : Text) : Bool := line.isAsciiBlank || isComment line

def nameOn (base line : Text) : Text := Path.normalize (Path.join base line.strip)

/-- The names that the list holds; `listName` is the list's own name. -/
def names (content listName : Text) : List Text :=
  (content.lines.filter (!isSkipped ·)).map (nameOn (Path.directory listName))

end PlatformMarkers.NameList
