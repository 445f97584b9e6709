import PlatformMarkers.CommandLine.Session

/-! The command line on real files. -/

set_option autoImplicit false

namespace PlatformMarkers

/-- The cause that an error number stands for. Some calls give the number with its sign changed. -/
def AccessFault.ofNumber (number : UInt32) (description : String) : AccessFault :=
  match min number (0 - number) with
  | 2 => .notFound
  | 5 => .inputOutput
  | 13 => .permissionDenied
  | 20 => .notDirectory
  | 21 => .isDirectory
  | 28 => .noSpace
  | 36 => .nameTooLong
  | _ => .other description.toList

def AccessFault.ofError : IO.Error → AccessFault
  | .noFileOrDirectory _ number description => .ofNumber number description
  | .permissionDenied _ number description => .ofNumber number description
  | .resourceExhausted _ number description => .ofNumber number description
  | .inappropriateType _ number description => .ofNumber number description
  | .invalidArgument _ number description => .ofNumber number description
  | .hardwareFault number description => .ofNumber number description
  | .otherError number description => .ofNumber number description
  | error => .other error.toString.toList

def readFile (name : Text) : IO (Except FileFailure Text) := do
  if name.contains '\x00' then return .error .embeddedNul
  try
    let bytes ← IO.FS.readBinFile (String.ofList name)
    return match Text.ofUtf8? bytes with
      | some text => .ok text
      | none => .error .undecodable
  catch error => return .error (.access (.ofError error) name)

def writeFile (name content : Text) : IO (Except FileFailure Unit) := do
  try
    IO.FS.writeBinFile (String.ofList name) content.toUtf8
    return .ok ()
  catch error => return .error (.access (.ofError error) name)

def say : Note → IO Unit
  | .output text => IO.print (String.ofList text)
  | .diagnostic text => IO.eprint (String.ofList text)
  | .warning text => IO.eprintln ("warning: " ++ String.ofList text)

def perform {α : Type} : Interaction α → IO α
  | .done value => return value
  | .read name next => do perform (next (← readFile name))
  | .write name content next => do perform (next (← writeFile name content))
  | .tell note next => do
    say note
    perform next

def describe : CommandLine.Escape → Text
  | .file (.access fault name) => fault.message ++ ": ".toList ++ Text.ticked name
  | .file .embeddedNul => "embedded null byte".toList
  | .file .undecodable => "a file is not UTF-8".toList
  | .unnamedList => "the file list has no name".toList

end PlatformMarkers

open PlatformMarkers in
def main (arguments : List String) : IO UInt32 := do
  let ending ← perform (CommandLine.session (arguments.map String.toList))
  match ending with
  | .exit _ => pure ()
  | .escaped escape => say (CommandLine.errorLine (describe escape))
  return ending.status.code.toUInt32
