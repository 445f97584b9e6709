import PlatformMarkers.CommandLine.Argument

/-! What a command line asks for. Options are taken from left to right, and the operands
are the files; only those that stand together count, and the rest is refused. -/

set_option autoImplicit false

namespace PlatformMarkers.CommandLine

/-- A file list. A value of exactly two dashes attached to the option is dropped, which
leaves the list without a name. -/
inductive ListFile where
  | named (name : Text)
  | unnamed
  deriving DecidableEq, Repr

structure Settings where
  list : Option ListFile := none
  verbose : Bool := false
  check : Bool := false
  files : List Text := []
  deriving DecidableEq, Repr

inductive Request where
  | help
  | version
  | toggle (settings : Settings)
  | refuse (error : UsageError)
  deriving DecidableEq, Repr

inductive ListValue where
  | attached (value : Text)
  | following
  deriving DecidableEq, Repr

structure Cluster where
  flags : List Flag
  list : Option ListValue
  deriving DecidableEq, Repr

/-- The options of a flag's letter and of the letters directly after it. Only the list
option takes what is left of the text as its value. -/
def letterCluster (flag : Flag) : Text → Except UsageError Cluster
  | [] => .error (.ignoredValue flag [])
  | letter :: rest =>
    match Switch.ofLetter? letter with
    | none => .error (.ignoredValue flag (letter :: rest))
    | some .list => .ok ⟨[flag], some (if rest.isEmpty then .following else .attached rest)⟩
    | some (.flag next) =>
      if rest.isEmpty then .ok ⟨[flag, next], none⟩
      else
        match letterCluster next rest with
        | .error error => .error error
        | .ok later => .ok ⟨flag :: later.flags, later.list⟩

def cluster (switch : Switch) (form : Form) (attached : Option Text) : Except UsageError Cluster :=
  match switch, form, attached with
  | .list, _, none => .ok ⟨[], some .following⟩
  | .list, _, some value => .ok ⟨[], some (.attached value)⟩
  | .flag flag, _, none => .ok ⟨[flag], none⟩
  | .flag flag, .short, some letters => letterCluster flag letters
  | .flag flag, .long, some value => .error (.ignoredValue flag value)

/-- The operands that stand together first. -/
inductive Group where
  | awaited
  | growing (files : List Text)
  | ended (files : List Text)
  deriving DecidableEq, Repr

namespace Group

def files : Group → List Text
  | .awaited => []
  | .growing files => files
  | .ended files => files

def interrupt : Group → Group
  | .awaited => .awaited
  | .growing files => .ended files
  | .ended files => .ended files

end Group

structure Reading where
  list : Option ListFile := none
  verbose : Bool := false
  check : Bool := false
  group : Group := .awaited
  leftOver : List Text := []
  deriving DecidableEq, Repr

namespace Reading

def operand (reading : Reading) (text : Text) : Reading :=
  match reading.group with
  | .awaited => { reading with group := .growing [text] }
  | .growing files => { reading with group := .growing (files ++ [text]) }
  | .ended _ => { reading with leftOver := reading.leftOver ++ [text] }

/-- The separator may stand in the group, to which it adds nothing. -/
def separator (reading : Reading) : Reading :=
  match reading.group with
  | .awaited => { reading with group := .growing [] }
  | .growing _ => reading
  | .ended _ => { reading with leftOver := reading.leftOver ++ ["--".toList] }

def unknown (reading : Reading) (text : Text) : Reading :=
  { reading with group := reading.group.interrupt, leftOver := reading.leftOver ++ [text] }

/-- Take flags in order; asking for help or the version ends the reading at once. -/
def takeFlags (reading : Reading) : List Flag → Except Request Reading
  | [] => .ok { reading with group := reading.group.interrupt }
  | .help :: _ => .error .help
  | .version :: _ => .error .version
  | .verbose :: rest => takeFlags { reading with verbose := true } rest
  | .check :: rest => takeFlags { reading with check := true } rest

def takeList (reading : Reading) (list : ListFile) : Reading := { reading with list := some list }

def finish (reading : Reading) : Request :=
  if reading.leftOver.isEmpty then
    .toggle ⟨reading.list, reading.verbose, reading.check, reading.group.files⟩
  else .refuse (.unrecognized reading.leftOver)

end Reading

def ListFile.ofAttached (value : Text) : ListFile :=
  if value = "--".toList then .unnamed else .named value

def interpret (reading : Reading) : List Argument → Request
  | [] => reading.finish
  | .operand text :: rest => interpret (reading.operand text) rest
  | .separator :: rest => interpret reading.separator rest
  | .unknown text :: rest => interpret (reading.unknown text) rest
  | .switch switch form attached :: rest =>
    match cluster switch form attached with
    | .error error => .refuse error
    | .ok found =>
      match found.list, rest with
      | some .following, .operand value :: rest =>
        match reading.takeFlags found.flags with
        | .error request => request
        | .ok reading => interpret (reading.takeList (.named value)) rest
      | some .following, _ => .refuse .missingValue
      | some (.attached value), rest =>
        match reading.takeFlags found.flags with
        | .error request => request
        | .ok reading => interpret (reading.takeList (.ofAttached value)) rest
      | none, rest =>
        match reading.takeFlags found.flags with
        | .error request => request
        | .ok reading => interpret reading rest

def request (arguments : List Text) : Request :=
  match classifyAll arguments with
  | .error error => .refuse error
  | .ok classified => interpret {} classified

end PlatformMarkers.CommandLine
