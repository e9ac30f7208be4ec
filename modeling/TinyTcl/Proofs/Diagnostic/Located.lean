import TinyTcl.Proofs.Number.Decimal

/-! What becomes of the place of a diagnostic. Whoever passes a diagnostic on may know more of its
place (`Hint`), and each hint fills in a line or a name that is not known yet. Main statement:
`locateAll_settles`. The first line and the first name that are told are kept for good, and the
wording, which is written anew with every hint (`Notice`), has the place that is known by then in
front. A column belongs to its line: it comes with the line, and a column that was given without one
is replaced when a line is told.

The proof takes one hint after the other. A hint does nothing to a line and to a name that are known
(`line_locateHint`, `filename_locateHint`); the results on all hints follow by induction on them. -/
namespace TinyTcl

/-- What somebody knows of the place of a diagnostic. -/
structure Hint where
  line : Option Int := none
  column : Option Int := none
  filename : Option Text := none
deriving DecidableEq, Repr

/-- Whether a name of a script says anything: the empty name counts as none. -/
def isNamed (filename : Option Text) : Bool := filename.any (!·.isEmpty)

namespace Diagnostic

/-- The diagnostic with what a hint adds to its place. -/
def locateHint (d : Diagnostic) (h : Hint) : Diagnostic := d.locate h.line h.column h.filename

/-- The diagnostic with what hints add to its place, one after the other. -/
def locateAll (d : Diagnostic) (hints : List Hint) : Diagnostic := hints.foldl locateHint d

/-- The parts of the place that are known: the name of the script, and the line with the column.
Only behind a name is the line not called one. -/
def placeParts (d : Diagnostic) : List Text :=
  let name := d.filename.toList.filter fun name => !name.isEmpty
  let column := match d.column with
    | none => []
    | some column => ':' :: Text.ofInt column
  match d.line with
  | none => name
  | some line =>
    name ++ [(if name.isEmpty then "line ".toList else []) ++ Text.ofInt line ++ column]

/-- The message, behind the parts of the place that are known, with colons between them. -/
def worded (d : Diagnostic) : String :=
  match d.placeParts with
  | [] => d.cause.message
  | parts => String.ofList (List.intercalate [':'] parts ++ ": ".toList) ++ d.cause.message

end Diagnostic

/-- A diagnostic with the wording that it is shown in. -/
structure Notice where
  diagnostic : Diagnostic
  wording : String

namespace Notice

/-- A diagnostic that is put into words. -/
def ofDiagnostic (d : Diagnostic) : Notice := ⟨d, d.message⟩

/-- A hint changes the place, and the diagnostic is put into words again. -/
def locateHint (n : Notice) (h : Hint) : Notice := ofDiagnostic (n.diagnostic.locateHint h)

/-- Hints change the place one after the other. -/
def locateAll (n : Notice) (hints : List Hint) : Notice := hints.foldl locateHint n

end Notice

namespace Diagnostic

section Hints

variable (d : Diagnostic) (h : Hint) (hints : List Hint)

@[simp] theorem locateAll_nil : d.locateAll [] = d := rfl

@[simp] theorem locateAll_cons : d.locateAll (h :: hints) = (d.locateHint h).locateAll hints := rfl

private theorem locateAll_append (first later : List Hint) :
    d.locateAll (first ++ later) = (d.locateAll first).locateAll later :=
  List.foldl_append

/-! ### One hint -/

private theorem line_inFile (filename : Option Text) : (d.inFile filename).line = d.line := by
  unfold inFile
  split <;> rfl

private theorem column_inFile (filename : Option Text) :
    (d.inFile filename).column = d.column := by
  unfold inFile
  split <;> rfl

private theorem filename_place (line column : Option Int) :
    (d.place line column).filename = d.filename := by
  unfold place
  split <;> rfl

/-- A name is filled in if none is known. -/
theorem filename_inFile_eq (filename : Option Text) : (d.inFile filename).filename =
    if isNamed d.filename = false ∧ isNamed filename = true then filename else d.filename := by
  obtain ⟨cause, line, column, known⟩ := d
  rcases known with _ | _ | ⟨a, s⟩ <;> rcases filename with _ | _ | ⟨b, t⟩ <;> rfl

private theorem cause_locateHint : (d.locateHint h).cause = d.cause := by
  unfold locateHint locate inFile place
  split <;> split <;> rfl

/-- A hint fills in the line if none is known. -/
theorem line_locateHint : (d.locateHint h).line = d.line.or h.line := by
  rw [locateHint, locate, line_inFile]
  obtain ⟨cause, line, column, filename⟩ := d
  cases line <;> cases told : h.line <;> rfl

/-- The column comes with the line. -/
theorem column_locateHint : (d.locateHint h).column =
    if d.line = none ∧ h.line.isSome = true then h.column else d.column := by
  rw [locateHint, locate, column_inFile]
  obtain ⟨cause, line, column, filename⟩ := d
  cases line <;> cases told : h.line <;> rfl

theorem filename_locateHint : (d.locateHint h).filename =
    if isNamed d.filename = false ∧ isNamed h.filename = true then h.filename else d.filename := by
  rw [locateHint, locate, filename_inFile_eq, filename_place]

/-! ### All hints -/

/-- Hints change the place alone. -/
theorem cause_locateAll : (d.locateAll hints).cause = d.cause := by
  induction hints generalizing d with
  | nil => rfl
  | cons h rest ih => rw [locateAll_cons, ih, cause_locateHint]

/-- The line is the first one that was told. -/
theorem line_locateAll :
    (d.locateAll hints).line = (d.line :: hints.map Hint.line).findSome? id := by
  induction hints generalizing d with
  | nil => cases known : d.line <;> simp [known]
  | cons h rest ih =>
    rw [locateAll_cons, ih, line_locateHint]
    cases known : d.line <;> cases told : h.line <;> simp [told]

/-- The column is the one that was told with the line. -/
theorem column_locateAll : (d.locateAll hints).column =
    if d.line = none then ((hints.find? (·.line.isSome)).map Hint.column).getD d.column
    else d.column := by
  induction hints generalizing d with
  | nil => simp
  | cons h rest ih =>
    rw [locateAll_cons, ih, line_locateHint, column_locateHint]
    cases known : d.line <;> cases told : h.line <;> simp [told]

/-- The name is the first one that was told and is not empty. -/
theorem filename_locateAll : (d.locateAll hints).filename =
    ((d.filename :: hints.map Hint.filename).find? isNamed).getD d.filename := by
  induction hints generalizing d with
  | nil => cases named : isNamed d.filename <;> simp [named]
  | cons h rest ih =>
    rw [locateAll_cons, ih, filename_locateHint]
    cases named : isNamed d.filename <;> cases told : isNamed h.filename <;> simp [named, told]

/-- A line that is known is kept, and so is its column. -/
theorem locateAll_of_line (known : d.line ≠ none) :
    (d.locateAll hints).line = d.line ∧ (d.locateAll hints).column = d.column := by
  rw [line_locateAll, column_locateAll, if_neg known]
  obtain ⟨line, known⟩ := Option.ne_none_iff_exists'.mp known
  simp [known]

/-- A column is kept as long as no line is told. -/
theorem column_locateAll_of_untold (untold : ∀ h ∈ hints, h.line = none) :
    (d.locateAll hints).column = d.column := by
  have none : hints.find? (·.line.isSome) = none := by simpa using untold
  rw [column_locateAll, none]
  simp

/-- A name that is known is kept. -/
theorem filename_locateAll_of_named (named : isNamed d.filename = true) :
    (d.locateAll hints).filename = d.filename := by
  rw [filename_locateAll, List.find?_cons_of_pos named, Option.getD_some]

/-! ### The wording -/

/-- The wording has the parts of the place in front that are known. -/
theorem message_eq_worded : d.message = d.worded := by
  obtain ⟨cause, line, column, filename⟩ := d
  have digits (n : Int) : ∃ c t, Text.ofInt n = c :: t := by
    unfold Text.ofInt
    split
    · exact ⟨_, _, rfl⟩
    · exact List.exists_cons_of_ne_nil (Text.ofNat_ne_nil _)
  rcases line with _ | line
  · rcases filename with _ | _ | ⟨a, s⟩ <;>
      simp [message, worded, placeText, placeParts, List.intercalate]
  · obtain ⟨c, t, shown⟩ := digits line
    rcases column with _ | column <;> rcases filename with _ | _ | ⟨a, s⟩ <;>
      simp [message, worded, placeText, placeParts, List.intercalate, shown]

end Hints
end Diagnostic

/-- The wording is that of the diagnostic as it is located. -/
theorem Notice.locateAll_ofDiagnostic (d : Diagnostic) (hints : List Hint) :
    (ofDiagnostic d).locateAll hints = ofDiagnostic (d.locateAll hints) := by
  induction hints generalizing d with
  | nil => rfl
  | cons h rest ih => exact ih (d.locateHint h)

/-- **The place of a diagnostic settles.** Hints are taken one after the other, the `first` ones and
then the `later` ones. A line, its column and a name that are known after the first ones are kept; a
column without a line is kept as long as no line is told. In the end the line is the first one that
was told, the column is the one that was told with it, and the name is the first one that was told
and is not empty. After each hint the wording is the message behind the place as it is known
then. -/
theorem Diagnostic.locateAll_settles (d : Diagnostic) (first later : List Hint) :
    let now := d.locateAll first
    let final := d.locateAll (first ++ later)
    let told := first ++ later
    (now.line ≠ none → final.line = now.line ∧ final.column = now.column) ∧
      ((∀ h ∈ later, h.line = none) → final.column = now.column) ∧
      (isNamed now.filename = true → final.filename = now.filename) ∧
      final.cause = d.cause ∧
      final.line = (d.line :: told.map Hint.line).findSome? id ∧
      final.column = (if d.line = none then
        ((told.find? (·.line.isSome)).map Hint.column).getD d.column else d.column) ∧
      final.filename = ((d.filename :: told.map Hint.filename).find? isNamed).getD d.filename ∧
      ((Notice.ofDiagnostic d).locateAll told).diagnostic = final ∧
      ((Notice.ofDiagnostic d).locateAll told).wording = final.worded := by
  intro now final told
  have final_eq : final = now.locateAll later := d.locateAll_append first later
  refine ⟨fun known => ?_, fun untold => ?_, fun named => ?_, d.cause_locateAll told,
    d.line_locateAll told, d.column_locateAll told, d.filename_locateAll told, ?_, ?_⟩
  · exact final_eq ▸ now.locateAll_of_line later known
  · exact final_eq ▸ now.column_locateAll_of_untold later untold
  · exact final_eq ▸ now.filename_locateAll_of_named later named
  · rw [Notice.locateAll_ofDiagnostic]
    rfl
  · rw [Notice.locateAll_ofDiagnostic]
    exact final.message_eq_worded

/-- A column that was given without a line is kept by the name that is told first, and lost when a
line is told; the line and the name that are told then stay. -/
theorem Diagnostic.locateAll_settles_column :
    let d : Diagnostic := { cause := .divisionByZero, column := some 2 }
    let named : List Hint := [{ filename := some "a.tcl".toList }]
    let first : List Hint := named ++ [{ line := some 5 }]
    let later : List Hint := [{ line := some 7, column := some 3, filename := some ['b'] }]
    ((∀ h ∈ named, h.line = none) ∧ (d.locateAll named).column = some 2) ∧
      ((d.locateAll first).line ≠ none ∧ isNamed (d.locateAll first).filename = true) ∧
      (d.locateAll (first ++ later)).line = some 5 ∧
      (d.locateAll (first ++ later)).column = none ∧
      (d.locateAll (first ++ later)).filename = some "a.tcl".toList ∧
      ((Notice.ofDiagnostic d).locateAll (first ++ later)).wording = "a.tcl:5: divide by zero" := by
  intro d named first later
  have untold : ∀ h ∈ named, h.line = none := by decide
  obtain ⟨-, kept, -⟩ := d.locateAll_settles [] named
  obtain ⟨line, -, name, -, -, column, -, -, wording⟩ := d.locateAll_settles first later
  have known : (d.locateAll first).line ≠ none := by decide
  have called : isNamed (d.locateAll first).filename = true := by decide
  exact ⟨⟨untold, kept untold⟩, ⟨known, called⟩, (line known).1, column, name called,
    wording.trans (by decide +kernel)⟩

end TinyTcl
