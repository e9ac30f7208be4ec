import TinyTcl.Interpreter

/-! A demonstration: one script that runs to its end and one that fails, with what they leave. -/
namespace TinyTcl.Demo

/-- The script that runs to its end (`SCRIPT`). -/
def script : String :=
  "\n" ++
  "# compute an area\n" ++
  "set width 6\n" ++
  "set height [expr $width / 2]\n" ++
  "puts \"area: [expr $width * $height]\"\n" ++
  "\x7b\n" ++
  "    set width 100\n" ++
  "    puts \"inner width: $width\"\n" ++
  "\x7d\n" ++
  "puts \"outer width: $width\"\n" ++
  "expr ($width + $height) * 2\n"

/-- The script that fails. -/
def failing : String := "puts before; expr 5 / 0; puts after"

/-- The text of a value, or nothing after a failure. -/
def resultText (turn : Turn Value) : Text :=
  match turn.outcome with
  | .ok value => value.text
  | .error _ => []

/-- The message of a division by zero, if that is how a run ended. -/
def divisionText (turn : Turn Value) : String :=
  match turn.outcome with
  | .error (.diagnostic d) =>
    if d.cause = .divisionByZero then "[4] Error: " ++ d.message ++ "\n" else ""
  | _ => ""

/-- What the demonstration shows (`main`). -/
def report : String :=
  let good := (Reader.ofText script.toList (some "<demo>".toList) .start).runScript true
  let bad := (Reader.ofText failing.toList none .start).runScript false
  "=== TclScript Demo ===\n" ++
  "\n" ++
  "[1] Output:\n" ++
  String.ofList good.interpreter.output ++ "\n" ++
  "[2] Result: " ++ String.ofList (resultText good) ++ "\n" ++
  "[3] Executed " ++ String.ofList (Text.ofNat good.interpreter.trace.length) ++ " commands\n" ++
  "\n" ++
  divisionText bad ++
  "[5] Output kept: " ++ String.ofList bad.interpreter.output.quoted ++ "\n"

end TinyTcl.Demo
