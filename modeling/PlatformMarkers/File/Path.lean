import PlatformMarkers.Text.Basic

/-! File names with slashes between their components, handled as text alone: the
directory part, joining and the normal form. -/

set_option autoImplicit false

namespace PlatformMarkers.Path

def components (path : Text) : List Text := path.splitOn '/'

/-- The part up to the last slash, without slashes at its end unless it has nothing else. -/
def directory (path : Text) : Text :=
  let throughSlash := path.reverse.dropWhile (· != '/')
  match throughSlash.dropWhile (· == '/') with
  | [] => throughSlash.reverse
  | reversed => reversed.reverse

def join (base path : Text) : Text :=
  if path.head? = some '/' then path
  else if base.isEmpty || base.getLast? = some '/' then base ++ path
  else base ++ "/".toList ++ path

/-- The slashes that the normal form starts with. Exactly two are kept, and more count as one. -/
def root (path : Text) : Text :=
  match (path.takeWhile (· == '/')).length with
  | 0 => []
  | 2 => "//".toList
  | _ => "/".toList

/-- Put a component on those kept so far, the last of which comes first. A step up takes
back a step down, goes nowhere from the top of an absolute path, and is kept otherwise. -/
def pushComponent (absolute : Bool) (kept : List Text) (component : Text) : List Text :=
  if component = [] ∨ component = ".".toList then kept
  else if component = "..".toList then
    match kept with
    | [] => if absolute then [] else [component]
    | last :: earlier => if last = "..".toList then component :: kept else earlier
  else component :: kept

def normalComponents (path : Text) : List Text :=
  ((components path).foldl (pushComponent (!(root path).isEmpty)) []).reverse

/-- The normal form, without empty components and needless steps; a single dot if nothing is left. -/
def normalize (path : Text) : Text :=
  match root path ++ Text.joined "/".toList (normalComponents path) with
  | [] => ".".toList
  | normal => normal

end PlatformMarkers.Path
