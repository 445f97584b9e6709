import PlatformMarkers.Text.Basic

/-! The options of the command line and their spellings. -/

set_option autoImplicit false

namespace PlatformMarkers.CommandLine

inductive Flag where
  | help
  | version
  | verbose
  | check
  deriving DecidableEq, Repr

inductive Switch where
  | flag (flag : Flag)
  | list
  deriving DecidableEq, Repr

namespace Switch

def all : List Switch := [.flag .help, .flag .version, .list, .flag .verbose, .flag .check]

def letter : Switch → Char
  | .flag .help => 'h'
  | .flag .version => 'v'
  | .flag .verbose => 'x'
  | .flag .check => 'c'
  | .list => 'l'

def short (switch : Switch) : Text := ['-', switch.letter]

def long : Switch → Text
  | .flag .help => "--help".toList
  | .flag .version => "--version".toList
  | .flag .verbose => "--verbose".toList
  | .flag .check => "--check".toList
  | .list => "--list".toList

def title (switch : Switch) : Text := switch.short ++ "/".toList ++ switch.long

def ofLetter? (letter : Char) : Option Switch := all.find? (·.letter == letter)

end Switch

inductive Form where
  | short
  | long
  deriving DecidableEq, Repr

def spelling? (text : Text) : Option (Switch × Form) :=
  match Switch.all.find? (·.short == text), Switch.all.find? (·.long == text) with
  | some switch, _ => some (switch, .short)
  | none, some switch => some (switch, .long)
  | none, none => none

end PlatformMarkers.CommandLine
