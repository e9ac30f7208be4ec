import TinyTcl.Text.Basic

/-! The switches of the command line, what can be wrong with its arguments, and the texts that
explain it. -/
namespace TinyTcl

/-- A switch (`build_parser`). -/
inductive Switch where
  | help
  /-- Takes the script from the next argument. -/
  | command
  | trace
  | ast
  | verbose
deriving DecidableEq, Repr

namespace Switch

/-- All switches, in the order in which they are listed. -/
def all : List Switch := [help, command, trace, ast, verbose]

/-- The letter of a switch behind one dash. -/
def letter? : Switch → Option Char
  | help => some 'h'
  | command => some 'c'
  | trace | ast => none
  | verbose => some 'v'

/-- The spelling of a switch behind two dashes, dashes included. -/
def long : Switch → Text
  | help => "--help".toList
  | command => "--command".toList
  | trace => "--trace".toList
  | ast => "--ast".toList
  | verbose => "--verbose".toList

/-- The full spellings of a switch. -/
def spellings (s : Switch) : List Text := (s.letter?.map fun c => ['-', c]).toList ++ [s.long]

/-- A switch in messages. -/
def title (s : Switch) : Text := List.intercalate ['/'] s.spellings

/-- The switch with a letter. -/
def ofLetter? (c : Char) : Option Switch := all.find? fun s => s.letter? == some c

/-- The switch with a full spelling. -/
def ofSpelling? (t : Text) : Option Switch := all.find? fun s => s.spellings.contains t

/-- The switches whose long spelling begins with a text. -/
def abbreviated (t : Text) : List Switch := all.filter fun s => t.isPrefixOf s.long

end Switch

/-- What can be wrong with the arguments. -/
inductive UsageFault where
  | ambiguous (argument : Text) (candidates : List Switch)
  | noValue (s : Switch)
  | uselessValue (s : Switch) (value : Text)
  | unrecognized (arguments : List Text)
deriving DecidableEq, Repr

/-- The wording of a fault. -/
def UsageFault.message : UsageFault → Text
  | ambiguous argument candidates =>
    "ambiguous option: ".toList ++ argument ++ " could match ".toList ++
      List.intercalate ", ".toList (candidates.map Switch.long)
  | noValue s => "argument ".toList ++ s.title ++ ": expected one argument".toList
  | uselessValue s value =>
    "argument ".toList ++ s.title ++ ": ignored explicit argument ".toList ++ value.quoted
  | unrecognized arguments =>
    "unrecognized arguments: ".toList ++ List.intercalate [' '] arguments

/-- The usage line. -/
def usage : String :=
  "usage: tclscript [-h] [-c SOURCE] [--trace] [--ast] [-v] [program]\n"

/-- The help text. -/
def help : String :=
  usage ++
  "\n" ++
  "TclScript interpreter\n" ++
  "\n" ++
  "positional arguments:\n" ++
  "  program               Script file to run ('-' reads stdin)\n" ++
  "\n" ++
  "options:\n" ++
  "  -h, --help            show this help message and exit\n" ++
  "  -c SOURCE, --command SOURCE\n" ++
  "                        Run the given script text\n" ++
  "  --trace               Log every executed command\n" ++
  "  --ast                 Print the syntax tree instead of running\n" ++
  "  -v, --verbose         More logging (-v info, -vv debug)\n"

end TinyTcl
