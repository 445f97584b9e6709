import PlatformMarkers.Text.Utf8
import PlatformMarkers.File.Failure
import PlatformMarkers.File.Path

/-! A tree of directories and files, in which names are looked up component by component.
Relative names start at the top, which is its own parent. -/

set_option autoImplicit false

namespace PlatformMarkers

/-- The components that lead from the top to a file or directory; the top has none. -/
abbrev Location := List Text

structure FileTree where
  /-- The directories below the top. -/
  directories : List Location := []
  files : List (Location × ByteArray) := []

structure LocatedFile where
  location : Location
  bytes : ByteArray

inductive Target where
  | directory (location : Location)
  | file (file : LocatedFile)

namespace FileTree

/-- The longest component that a name may have, and below the longest name, both in bytes. -/
def maximalComponentLength : Nat := 255

def maximalNameLength : Nat := 4095

def isDirectory (tree : FileTree) (location : Location) : Bool :=
  location.isEmpty || tree.directories.contains location

def bytesAt? (tree : FileTree) (location : Location) : Option ByteArray := tree.files.lookup location

/-- Follow the components from a directory. A file may only come last. -/
def walk (tree : FileTree) (here : Location) : List Text → Except AccessFault Target
  | [] => .ok (.directory here)
  | component :: rest =>
    if component = [] ∨ component = ".".toList then walk tree here rest
    else if component = "..".toList then walk tree here.dropLast rest
    else if component.utf8Length > maximalComponentLength then .error .nameTooLong
    else
      let inner := here ++ [component]
      if tree.isDirectory inner then walk tree inner rest
      else
        match tree.bytesAt? inner, rest with
        | none, _ => .error .notFound
        | some bytes, [] => .ok (.file ⟨inner, bytes⟩)
        | some _, _ :: _ => .error .notDirectory

def locate (tree : FileTree) (name : Text) : Except AccessFault Target :=
  if name.isEmpty then .error .notFound
  else if name.utf8Length > maximalNameLength then .error .nameTooLong
  else tree.walk [] (Path.components name)

def openFile (tree : FileTree) (name : Text) : Except FileFailure LocatedFile :=
  if name.contains '\x00' then .error .embeddedNul
  else
    match tree.locate name with
    | .ok (.file file) => .ok file
    | .ok (.directory _) => .error (.access .isDirectory name)
    | .error fault => .error (.access fault name)

/-- Read a file of UTF-8, with its line ends as they are. -/
def readText (tree : FileTree) (name : Text) : Except FileFailure Text :=
  match tree.openFile name with
  | .error failure => .error failure
  | .ok file =>
    match Text.ofUtf8? file.bytes with
    | some text => .ok text
    | none => .error .undecodable

def setBytes (tree : FileTree) (location : Location) (bytes : ByteArray) : FileTree :=
  { tree with files := tree.files.map fun file => if file.1 = location then (location, bytes) else file }

@[simp] theorem locations_setBytes (tree : FileTree) (location : Location) (bytes : ByteArray) :
    (tree.setBytes location bytes).files.map Prod.fst = tree.files.map Prod.fst := by
  simp only [setBytes, List.map_map]
  apply List.map_congr_left
  intro file _
  simp only [Function.comp_apply]
  split
  · next same => exact same.symm
  · rfl

theorem bytesAt?_setBytes_of_ne (tree : FileTree) {location other : Location} (bytes : ByteArray)
    (different : other ≠ location) :
    (tree.setBytes location bytes).bytesAt? other = tree.bytesAt? other := by
  simp only [bytesAt?, setBytes]
  induction tree.files with
  | nil => rfl
  | cons file rest ih =>
    obtain ⟨place, held⟩ := file
    simp only [List.map_cons]
    split
    · next same =>
      subst same
      simpa [List.lookup_cons, beq_eq_false_iff_ne.mpr different] using ih
    · simp only [List.lookup_cons, ih]

theorem bytesAt?_setBytes_self (tree : FileTree) (location : Location) (bytes : ByteArray) :
    (tree.setBytes location bytes).bytesAt? location = (tree.bytesAt? location).map fun _ => bytes := by
  simp only [bytesAt?, setBytes]
  induction tree.files with
  | nil => rfl
  | cons file rest ih =>
    obtain ⟨place, held⟩ := file
    simp only [List.map_cons]
    split
    · next same => simp [same]
    · next different =>
      simpa [List.lookup_cons, beq_eq_false_iff_ne.mpr (Ne.symm different)] using ih

/-- Where a file of the name can be made: in a directory that is there, and under a name that
leads nowhere yet. -/
def vacancy? (tree : FileTree) (name : Text) : Option Location :=
  let components := Path.components name
  match tree.openFile name, tree.walk [] components.dropLast, components.getLast? with
  | .error (.access .notFound _), .ok (.directory here), some last =>
    if last.isEmpty then none else some (here ++ [last])
  | _, _, _ => none

def writeText (tree : FileTree) (name content : Text) : Except FileFailure FileTree :=
  match tree.openFile name with
  | .ok file => .ok (tree.setBytes file.location content.toUtf8)
  | .error failure =>
    match tree.vacancy? name with
    | some location => .ok { tree with files := tree.files ++ [(location, content.toUtf8)] }
    | none => .error failure

def addDirectory (tree : FileTree) (location : Location) : FileTree :=
  let above := (List.range location.length).map fun depth => location.take (depth + 1)
  { tree with directories := tree.directories ++ above.filter (!tree.isDirectory ·) }

def addFile (tree : FileTree) (location : Location) (bytes : ByteArray) : FileTree :=
  let tree := tree.addDirectory location.dropLast
  match tree.bytesAt? location with
  | some _ => tree.setBytes location bytes
  | none => { tree with files := tree.files ++ [(location, bytes)] }

end FileTree

end PlatformMarkers
