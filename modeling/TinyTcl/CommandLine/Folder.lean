import TinyTcl.Interpreter

/-! The files that scripts are read from, and what is done with the scripts. A path is a row of
names between slashes and is followed from the folder on, name by name; a name that is empty or a
single point stays where it is, and two points lead outwards. What lies outside of the folder has no
files. -/
namespace TinyTcl

/-- The files of a folder, by their paths. -/
abbrev Folder := Table Text

namespace Folder

/-- The parts of a text between slashes. -/
def parts (t : Text) : List Text :=
  t.foldr (fun c parts =>
    match c, parts with
    | '/', parts => [] :: parts
    | c, first :: rest => (c :: first) :: rest
    | c, [] => [[c]]) [[]]

/-- Whether a name stays where it is. -/
def isIdle (name : Text) : Bool := name == [] || name == ['.']

/-- The names that lead from the folder to each file. -/
def located (f : Folder) : List (List Text × Text) :=
  f.entries.map fun e => ((parts e.1).filter fun name => !isIdle name, e.2)

/-- The number of bytes of a text. -/
def byteCount (t : Text) : Nat := t.foldl (fun count c => count + c.utf8Size) 0

/-- The most bytes of a name. -/
def maxNameBytes : Nat := 255

/-- The most bytes of a path. -/
def maxPathBytes : Nat := 4095

/-- Follows names from a place, which is given by the names that lead there from the folder; it is
none outside of the folder. -/
def follow (files : List (List Text × Text)) (place : Option (List Text)) :
    List Text → Except FileFault Text
  | [] => .error .directory
  | name :: rest =>
    if isIdle name then follow files place rest
    else if name = "..".toList then
      follow files (place.bind fun names => if names.isEmpty then none else some names.dropLast)
        rest
    else if byteCount name > maxNameBytes then .error .tooLong
    else
      match place with
      | none => .error .missing
      | some names =>
        let here := names ++ [name]
        match files.find? fun e => e.1 == here with
        | some e => if rest.isEmpty then .ok e.2 else .error .notDirectory
        | none =>
          if files.any fun e => here.isPrefixOf e.1 then follow files (some here) rest
          else .error .missing

/-- Reads the file at a path. -/
def read (f : Folder) (path : Text) : Except FileFault Text :=
  if path.contains '\x00' then .error .nullCharacter
  else if path.isEmpty then .error .missing
  else if byteCount path > maxPathBytes then .error .tooLong
  else follow f.located (if path.head? == some '/' then none else some []) (parts path)

/-- The script that a file holds. -/
def script (f : Folder) (path : Text) : Except Failure Text :=
  match f.read path with
  | .ok content => .ok content.unifyLineEnds
  | .error fault => .error (.unreadable path fault)

/-- Reads the commands of a file (`parse_file`). -/
def parseFile (f : Folder) (path : Text) : Except Failure (List Command) :=
  (f.script path).bind fun t => (Reader.ofText t (some path) .start).commands.mapError .diagnostic

/-- Runs the script of a file (`run_file`). -/
def runFile (f : Folder) (path : Text) (tracing : Bool) : Except Failure (Turn Value) :=
  (f.script path).map fun t => (Reader.ofText t (some path) .start).runScript tracing

end Folder
end TinyTcl
