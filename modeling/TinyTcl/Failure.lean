import TinyTcl.Diagnostic

/-! What can stop an evaluation. Most failures are diagnostics of the script and carry a place; the
others say that something around the script is amiss and are passed on unchanged. -/
namespace TinyTcl

/-- Why the file at a path cannot be read. -/
inductive FileFault where
  | missing
  | directory
  /-- The path goes on behind a file. -/
  | notDirectory
  /-- The path, or a name in it, is longer than names can be. -/
  | tooLong
  /-- The path holds a null character, which no path can. -/
  | nullCharacter
deriving DecidableEq, Repr

/-- The wording of a fault for a path. -/
def FileFault.message (fault : FileFault) (path : Text) : Text :=
  match fault with
  | missing => "[Errno 2] No such file or directory: ".toList ++ path.quoted
  | directory => "[Errno 21] Is a directory: ".toList ++ path.quoted
  | notDirectory => "[Errno 20] Not a directory: ".toList ++ path.quoted
  | tooLong => "[Errno 36] File name too long: ".toList ++ path.quoted
  | nullCharacter => "embedded null byte".toList

/-- Why an operation gave no result. -/
inductive Failure where
  | diagnostic (d : Diagnostic)
  /-- The scope that encloses the one in use is gone. -/
  | lostScope
  /-- An integer literal with more digits than are read. -/
  | tooManyDigits (digits : Nat)
  /-- An integer with more digits than are written. -/
  | tooManyDigitsToWrite
  | unknownOperator (operator : Text)
  /-- A value of a host program that has no counterpart in a script. -/
  | foreignValue (type : Text)
  | unreadable (path : Text) (fault : FileFault)
deriving DecidableEq, Repr

/-- The largest number of digits that an integer is read or written with. -/
def maxDigits : Nat := 4300

namespace Failure

/-- The wording of a failure that is due to the limit on digits. -/
def digitLimit (detail : String) : String :=
  "Exceeds the limit (" ++ String.ofList (Text.ofNat maxDigits) ++
    " digits) for integer string conversion" ++ detail ++
    "; use sys.set_int_max_str_digits() to increase the limit"

/-- The wording of a failure, its place included. -/
def message : Failure → String
  | diagnostic d => d.message
  | lostScope => "parent scope no longer exists"
  | tooManyDigits digits =>
    digitLimit (": value has " ++ String.ofList (Text.ofNat digits) ++ " digits")
  | tooManyDigitsToWrite => digitLimit ""
  | unknownOperator operator => "Unknown operator " ++ String.ofList operator.quoted
  | foreignValue type => "Cannot convert " ++ String.ofList type ++ " to TclValue"
  | unreadable path fault => String.ofList (fault.message path)

/-- Changes the diagnostic, if the failure is one. -/
def mapDiagnostic (f : Diagnostic → Diagnostic) : Failure → Failure
  | diagnostic d => diagnostic (f d)
  | failure => failure

end Failure
end TinyTcl
