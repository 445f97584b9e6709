import PlatformMarkers.Text.Basic

/-! Why a file cannot be read or written. -/

set_option autoImplicit false

namespace PlatformMarkers

inductive AccessFault where
  | notFound
  | isDirectory
  | notDirectory
  | nameTooLong
  | permissionDenied
  | inputOutput
  | noSpace
  | other (description : Text)
  deriving DecidableEq, Repr

def AccessFault.message : AccessFault → Text
  | .notFound => "No such file or directory".toList
  | .isDirectory => "Is a directory".toList
  | .notDirectory => "Not a directory".toList
  | .nameTooLong => "File name too long".toList
  | .permissionDenied => "Permission denied".toList
  | .inputOutput => "Input/output error".toList
  | .noSpace => "No space left on device".toList
  | .other description => description

inductive FileFailure where
  | access (fault : AccessFault) (name : Text)
  /-- The name holds a NUL, which no file name may. -/
  | embeddedNul
  | undecodable
  deriving DecidableEq, Repr

end PlatformMarkers
