import PlatformMarkers.CommandLine.Switch
import PlatformMarkers.Text.Quoted

/-! What the command line tells about itself: its usage, its help and version, and what
is wrong with a list of arguments. -/

set_option autoImplicit false

namespace PlatformMarkers.CommandLine

def programName : Text := "mactoggle".toList

def version : Text := "1.0.0".toList

def versionText : Text := programName ++ " version ".toList ++ version ++ "\n".toList

def usage : Text :=
  "usage: ".toList ++ programName ++
    " [-h] [-v] [-l files.txt] [-x] [-c] [file.java ...]\n".toList

def helpLines : List String := [
  "",
  "Rewrite Mac markers (IF-MAC, END-MAC, IF-NOT-MAC, ...) in source files to",
  "their toggled form, leaving the not-Mac code live and the Mac code commented",
  "out.",
  "",
  "positional arguments:",
  "  file.java             name of source file to be rewritten in place (if",
  "                        neither files nor a file list are given, the built-in",
  "                        list of files is used)",
  "",
  "options:",
  "  -h, --help            show this help message and exit",
  "  -v, --version         show program's version number and exit",
  "  -l files.txt, --list files.txt",
  "                        rewrite the files named in a file list (one name per",
  "                        line, relative to the file list; blank lines and lines",
  "                        beginning with `#` are ignored)",
  "  -x, --verbose         run in verbose mode (prints every replacement applied)",
  "  -c, --check           abort instead of warning when a file has unbalanced",
  "                        markers"]

def help : Text := usage ++ helpLines.flatMap fun line => line.toList ++ "\n".toList

inductive UsageError where
  | ambiguous (argument : Text) (candidates : List Switch)
  | ignoredValue (flag : Flag) (value : Text)
  | missingValue
  | unrecognized (arguments : List Text)
  deriving DecidableEq, Repr

namespace UsageError

def message : UsageError → Text
  | .ambiguous argument candidates =>
    "ambiguous option: ".toList ++ argument ++ " could match ".toList ++
      Text.joined ", ".toList (candidates.map Switch.long)
  | .ignoredValue flag value =>
    "argument ".toList ++ (Switch.flag flag).title ++ ": ignored explicit argument ".toList ++
      value.quoted
  | .missingValue =>
    "argument ".toList ++ Switch.list.title ++ ": expected one argument".toList
  | .unrecognized arguments =>
    "unrecognized arguments: ".toList ++ Text.joined " ".toList arguments

def report (error : UsageError) : Text :=
  usage ++ programName ++ ": error: ".toList ++ error.message ++ "\n".toList

end UsageError

end PlatformMarkers.CommandLine
