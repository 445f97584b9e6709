import PlatformMarkers.Mac.Tag
import PlatformMarkers.Rule.Pass

/-! Toggling brings every marker of a document into its toggled form, whatever
delimiters stood around it. -/

set_option autoImplicit false

namespace PlatformMarkers.Mac

def toggle (mode : Mode) (text : Text) : Text := table.apply mode text

def passes (mode : Mode) (text : Text) : List Pass := table.passes tableName mode text

end PlatformMarkers.Mac
