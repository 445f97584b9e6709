import PlatformMarkers.File.Tree
import Mathlib.Data.List.Basic

/-! What a name leads to in a tree. It depends on the places of the directories and files, and not
on the bytes in them, so that an exchange of bytes leaves every name where it was. -/

set_option autoImplicit false

namespace PlatformMarkers.FileTree

variable {tree : FileTree} {name : Text} {location : Location} {file : LocatedFile}

/-! ## The file that a name opens -/

def placeOf? (tree : FileTree) (name : Text) : Option Location :=
  (tree.openFile name).toOption.map LocatedFile.location

theorem openFile_eq_ok_iff : tree.openFile name = .ok file ↔
    name.contains '\x00' = false ∧ name.isEmpty = false ∧ name.utf8Length ≤ maximalNameLength ∧
      tree.walk [] (Path.components name) = .ok (.file file) := by
  rw [openFile, locate]
  cases name.contains '\x00' with
  | true => simp
  | false =>
    cases name.isEmpty with
    | true => simp
    | false =>
      by_cases long : name.utf8Length > maximalNameLength
      · simp [long, Nat.not_le_of_gt long]
      · cases tree.walk [] (Path.components name) with
        | error fault => simp [long]
        | ok target => cases target <;> simp [long, Nat.le_of_not_gt long]

theorem placeOf?_eq_some_iff :
    tree.placeOf? name = some location ↔ ∃ bytes, tree.openFile name = .ok ⟨location, bytes⟩ := by
  rw [placeOf?]
  cases tree.openFile name with
  | error failure => simp [Except.toOption]
  | ok file =>
    obtain ⟨place, bytes⟩ := file
    simp [Except.toOption]

theorem bytesAt?_of_walk {here : Location} {components : List Text}
    (found : tree.walk here components = .ok (.file file)) :
    tree.bytesAt? file.location = some file.bytes := by
  induction components generalizing here with
  | nil => simp [walk] at found
  | cons component rest ih =>
    simp only [walk] at found
    -- The first four cases go on from a directory or fail, and only the last one can end at a file.
    split at found
    · exact ih found
    split at found
    · exact ih found
    split at found
    · cases found
    split at found
    · exact ih found
    cases held : tree.bytesAt? (here ++ [component]) with
    | none => simp [held] at found
    | some bytes =>
      cases rest with
      | nil =>
        simp only [held, Except.ok.injEq, Target.file.injEq] at found
        rw [← found, held]
      | cons => simp [held] at found

theorem bytesAt?_of_openFile (opened : tree.openFile name = .ok file) :
    tree.bytesAt? file.location = some file.bytes :=
  bytesAt?_of_walk (openFile_eq_ok_iff.mp opened).2.2.2

theorem openFile_eq_error {failure : FileFailure} (refused : tree.openFile name = .error failure) :
    (failure = .embeddedNul ∧ '\x00' ∈ name) ∨ ∃ fault, failure = .access fault name := by
  rw [openFile] at refused
  split at refused
  · next inside =>
    cases refused
    exact .inl ⟨rfl, List.contains_iff_mem.mp inside⟩
  · split at refused <;> cases refused
    · exact .inr ⟨_, rfl⟩
    · exact .inr ⟨_, rfl⟩

theorem readText_eq_ok_iff {text : Text} : tree.readText name = .ok text ↔
    ∃ file, tree.openFile name = .ok file ∧ Text.ofUtf8? file.bytes = some text := by
  rw [readText]
  cases tree.openFile name with
  | error failure => simp
  | ok file => cases decoded : Text.ofUtf8? file.bytes <;> simp [decoded]

theorem readText_eq_error_iff {failure : FileFailure} : tree.readText name = .error failure ↔
    tree.openFile name = .error failure ∨
      failure = .undecodable ∧ ∃ file, tree.openFile name = .ok file ∧
        Text.ofUtf8? file.bytes = none := by
  rw [readText]
  cases tree.openFile name with
  | error other => simp
  | ok file => cases decoded : Text.ofUtf8? file.bytes <;> simp [decoded, eq_comm]

theorem name_of_readText {fault : AccessFault} {other : Text}
    (refused : tree.readText name = .error (.access fault other)) : other = name := by
  rcases readText_eq_error_iff.mp refused with unopened | ⟨nofault, _⟩
  · rcases openFile_eq_error unopened with ⟨nofault, _⟩ | ⟨_, same⟩
    · cases nofault
    · cases same
      rfl
  · cases nofault

theorem writeText_of_openFile (opened : tree.openFile name = .ok file) (content : Text) :
    tree.writeText name content = .ok (tree.setBytes file.location content.toUtf8) := by
  rw [writeText, opened]

/-! ## Exchanged bytes -/

def exchanged (location : Location) (bytes : ByteArray) (file : LocatedFile) : LocatedFile :=
  if file.location = location then ⟨location, bytes⟩ else file

def exchangedTarget (location : Location) (bytes : ByteArray) : Target → Target
  | .directory here => .directory here
  | .file file => .file (exchanged location bytes file)

section
variable (tree : FileTree) (location : Location) (bytes : ByteArray)

theorem bytesAt?_setBytes (other : Location) : (tree.setBytes location bytes).bytesAt? other =
    (tree.bytesAt? other).map fun held => if other = location then bytes else held := by
  by_cases here : other = location
  · subst here
    simp [bytesAt?_setBytes_self]
  · simp [bytesAt?_setBytes_of_ne tree bytes here, here]

theorem walk_setBytes (here : Location) (components : List Text) :
    (tree.setBytes location bytes).walk here components =
      (tree.walk here components).map (exchangedTarget location bytes) := by
  have directories : (tree.setBytes location bytes).isDirectory = tree.isDirectory := rfl
  induction components generalizing here with
  | nil => rfl
  | cons component rest ih =>
    simp only [walk, directories, bytesAt?_setBytes]
    split
    · exact ih here
    split
    · exact ih here.dropLast
    split
    · rfl
    split
    · exact ih (here ++ [component])
    cases tree.bytesAt? (here ++ [component]) with
    | none => rfl
    | some held =>
      cases rest with
      | nil =>
        simp only [Option.map_some, Except.map, exchangedTarget, exchanged]
        split
        · next same => rw [same]
        · rfl
      | cons => rfl

theorem locate_setBytes (name : Text) : (tree.setBytes location bytes).locate name =
    (tree.locate name).map (exchangedTarget location bytes) := by
  rw [locate, locate, walk_setBytes]
  split
  · rfl
  split
  · rfl
  · rfl

theorem openFile_setBytes (name : Text) : (tree.setBytes location bytes).openFile name =
    (tree.openFile name).map (exchanged location bytes) := by
  rw [openFile, openFile, locate_setBytes]
  split
  · rfl
  cases tree.locate name with
  | error fault => rfl
  | ok target => cases target <;> rfl

end

theorem readText_setBytes_eq_error_iff {text : Text} {failure : FileFailure}
    (opened : tree.openFile name = .ok file) (decoded : Text.ofUtf8? file.bytes = some text)
    (content other : Text) :
    (tree.setBytes file.location content.toUtf8).readText other = .error failure ↔
      tree.readText other = .error failure := by
  rw [readText_eq_error_iff, readText_eq_error_iff, openFile_setBytes]
  cases found : tree.openFile other with
  | error refused => simp [Except.map]
  | ok held =>
    by_cases here : held.location = file.location
    · have sameBytes : held.bytes = file.bytes := by
        have there := bytesAt?_of_openFile found
        rw [here, bytesAt?_of_openFile opened] at there
        exact (Option.some.inj there).symm
      simp [Except.map, exchanged, here, sameBytes, decoded]
    · simp [Except.map, exchanged, here]

/-! ## Trees with the same places -/

theorem isSome_bytesAt?_iff :
    (tree.bytesAt? location).isSome = true ↔ location ∈ tree.files.map Prod.fst := by
  simp [bytesAt?, List.lookup_isSome_iff]

/-- The trees have their directories and their files at the same places. -/
structure SamePlaces (tree other : FileTree) : Prop where
  directories_eq : other.directories = tree.directories
  locations_eq : other.files.map Prod.fst = tree.files.map Prod.fst

namespace SamePlaces

theorem refl (tree : FileTree) : SamePlaces tree tree := ⟨rfl, rfl⟩

theorem setBytes (tree : FileTree) (location : Location) (bytes : ByteArray) :
    SamePlaces tree (tree.setBytes location bytes) := ⟨rfl, locations_setBytes tree location bytes⟩

variable {other : FileTree} (same : SamePlaces tree other)
include same

theorem trans {final : FileTree} (later : SamePlaces other final) : SamePlaces tree final :=
  ⟨later.directories_eq.trans same.directories_eq, later.locations_eq.trans same.locations_eq⟩

theorem isDirectory_eq (location : Location) :
    other.isDirectory location = tree.isDirectory location := by
  rw [isDirectory, isDirectory, same.directories_eq]

theorem isSome_bytesAt? (location : Location) :
    (other.bytesAt? location).isSome = (tree.bytesAt? location).isSome := by
  rw [Bool.eq_iff_iff, isSome_bytesAt?_iff, isSome_bytesAt?_iff, same.locations_eq]

theorem walk_file_iff {here : Location} {components : List Text} :
    (∃ bytes, other.walk here components = .ok (.file ⟨location, bytes⟩)) ↔
      ∃ bytes, tree.walk here components = .ok (.file ⟨location, bytes⟩) := by
  induction components generalizing here with
  | nil => simp [walk]
  | cons component rest ih =>
    simp only [walk, same.isDirectory_eq]
    split
    · exact ih
    split
    · exact ih
    split
    · simp
    split
    · exact ih
    -- The bytes may differ here, but either tree has some or neither has.
    have known := same.isSome_bytesAt? (here ++ [component])
    cases found : tree.bytesAt? (here ++ [component]) <;>
      cases kept : other.bytesAt? (here ++ [component]) <;> simp [found, kept] at known
    · simp
    · cases rest <;> simp

theorem placeOf?_eq (name : Text) : other.placeOf? name = tree.placeOf? name := by
  ext location
  rw [placeOf?_eq_some_iff, placeOf?_eq_some_iff]
  simp only [openFile_eq_ok_iff, exists_and_left, same.walk_file_iff]

end SamePlaces

end PlatformMarkers.FileTree
