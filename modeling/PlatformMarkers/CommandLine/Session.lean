import PlatformMarkers.Batch.Toggling
import PlatformMarkers.CommandLine.Request
import PlatformMarkers.File.NameList
import PlatformMarkers.File.Tree

/-! A run of the command line: from its arguments to the files that are toggled, the
messages about what failed, and the exit status. -/

set_option autoImplicit false

namespace PlatformMarkers.CommandLine

inductive ExitStatus where
  | success
  | failure
  | misuse
  deriving DecidableEq, Repr

def ExitStatus.code : ExitStatus → Nat
  | .success => 0
  | .failure => 1
  | .misuse => 2

/-- Failures for which the command line has no message of its own. -/
inductive Escape where
  | file (failure : FileFailure)
  | unnamedList
  deriving DecidableEq, Repr

inductive Ending where
  | exit (status : ExitStatus)
  | escaped (escape : Escape)
  deriving DecidableEq, Repr

def Ending.status : Ending → ExitStatus
  | .exit status => status
  | .escaped _ => .failure

def defaultNames : List Text :=
  ["Lemmini.java".toList, "Game/Core.java".toList, "Game/GraphicsPane.java".toList,
    "Game/GameController.java".toList, "Extract/Extract.java".toList,
    "Extract/FolderDialog.java".toList]

inductive Origin where
  | operands
  | elsewhere
  deriving DecidableEq, Repr

structure Selection where
  names : List Text
  origin : Origin
  deriving DecidableEq, Repr

def errorLine (message : Text) : Note := .diagnostic ("error: ".toList ++ message ++ "\n".toList)

def complain {α : Type} (message : Text) (value : α) : Interaction α :=
  .tell (errorLine message) (.done value)

/-- The names in a file list. A list that is not there is reported, and any other failure escapes. -/
def readNames (name : Text) : Interaction (Except Ending Selection) :=
  .read name fun
    | .ok content => .done (.ok ⟨NameList.names content name, .elsewhere⟩)
    | .error (.access .notFound name) =>
      complain ("argument `-l/--list`: file ".toList ++ Text.ticked name ++ " not found".toList)
        (.error (.exit .misuse))
    | .error failure => .done (.error (.escaped (.file failure)))

def select (settings : Settings) : Interaction (Except Ending Selection) :=
  match settings.list, settings.files with
  | none, [] => .done (.ok ⟨defaultNames, .elsewhere⟩)
  | none, files => .done (.ok ⟨files, .operands⟩)
  | some _, _ :: _ =>
    complain "option -l (or --list) cannot be used with positional argument".toList
      (.error (.exit .misuse))
  | some .unnamed, [] => .done (.error (.escaped .unnamedList))
  | some (.named name), [] => readNames name

def conclude (origin : Origin) : Except Batch.Failure Unit → Interaction Ending
  | .ok () => .done (.exit .success)
  | .error (.unbalanced _) => .done (.exit .failure)
  | .error (.file (.access .notFound name)) =>
    match origin with
    | .operands =>
      complain ("argument ".toList ++ Text.ticked name ++ ": file not found".toList) (.exit .misuse)
    | .elsewhere =>
      complain ("file ".toList ++ Text.ticked name ++ " not found".toList) (.exit .failure)
  | .error (.file (.access fault name)) =>
    complain ("cannot access ".toList ++ Text.ticked name ++ ": ".toList ++ fault.message)
      (.exit .failure)
  | .error (.file failure) => .done (.escaped (.file failure))

def toggleSelection (options : Batch.Options) (selection : Selection) : Interaction Ending :=
  (Batch.toggleFiles options selection.names).bind (conclude selection.origin)

def toggle (settings : Settings) : Interaction Ending :=
  (select settings).bind fun
    | .error ending => .done ending
    | .ok selection => toggleSelection ⟨settings.verbose, settings.check⟩ selection

/-- The whole run. A warning is given only once, however often it would come again. -/
def session (arguments : List Text) : Interaction Ending :=
  match request arguments with
  | .help => .tell (.output help) (.done (.exit .success))
  | .version => .tell (.output versionText) (.done (.exit .success))
  | .refuse error => .tell (.diagnostic error.report) (.done (.exit .misuse))
  | .toggle settings => (toggle settings).warnOnce []

def treeStorage : Storage FileTree := ⟨FileTree.readText, FileTree.writeText⟩

def sessionOn (tree : FileTree) (arguments : List Text) : Course FileTree Ending :=
  (session arguments).run treeStorage tree

end PlatformMarkers.CommandLine
