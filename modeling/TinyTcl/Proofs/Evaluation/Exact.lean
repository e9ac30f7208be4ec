import TinyTcl.Proofs.Evaluation.Variable
import TinyTcl.Proofs.Number.Coercion

/-! Integer arithmetic is exact. An expression over integers has an exact value in the unbounded
integers, unless some divisor is zero (`Expr.exact`). What is evaluated is this value or nothing:
there is no wrapping, whatever the expression.

What an evaluation does is said once for a sign (`computes_withSign`) and once for an operator
(`computes_apply`), and carried to all expressions by induction (`ends_eval`). The last operand is
narrowed by the command itself, so that a literal which does not fit is a fault there at the latest.

Main statement: an expression over integers has a value if and only if every leaf and every
intermediate result fits into 64 bits and no divisor is zero; the value is then the exact one. If
not, it fails with an overflow or a division by zero, and only for the reason named
(`integer_arithmetic`). -/
namespace TinyTcl

open Integer (Fits)

/-! ### Exact values -/

/-- The integer that a value denotes: an integer, or an integer numeral that is not too long. -/
inductive Value.Denotes : Value → Int → Prop where
  | integer (i : Integer) : Denotes (.number (.integer i)) i.val
  | numeral {s : Text} {negative : Bool} {digits : List Nat} :
      (Numeral.integer negative digits).Written s.trim → digits.length ≤ maxDigits →
      Denotes (.string s) (Numeral.signed negative (Numeral.valueOf digits))

/-- The integer that a value denotes, if it denotes one. -/
def Value.integer? : Value → Option Int
  | .number (.integer i) => some i.val
  | .number (.real _) => none
  | .string s =>
    match Numeral.ofText? s with
    | some (.integer negative digits) =>
      if digits.length ≤ maxDigits then some (Numeral.signed negative (Numeral.valueOf digits))
      else none
    | _ => none

theorem Value.Denotes.integer? {v : Value} {z : Int} (h : v.Denotes z) : v.integer? = some z := by
  cases h with
  | integer i => rfl
  | numeral written few =>
    simp only [Value.integer?, Numeral.ofText?_eq_some_iff.mpr written, few, if_true]

/-- The exact result of an operator; division rounds downwards. -/
def Operator.onIntegers (operator : Operator) (x y : Int) : Option Int :=
  match operator with
  | .add => some (x + y)
  | .subtract => some (x - y)
  | .multiply => some (x * y)
  | .divide => if y = 0 then none else some (x.fdiv y)

/-- The integer behind a sign. -/
def Sign.onInteger : Sign → Int → Int
  | .positive, z => z
  | .negative, z => -z

namespace Expr

/-- The exact value of an expression over integers, where a scope gives the values of variables.
Where a divisor is zero there is none. -/
def exact (scope : Chain) : Expr → Option Int
  | .number text _ => (Value.string text).integer?
  | .reference name _ =>
    match scope.lookup name with
    | .ok value => value.integer?
    | .error _ => none
  | .signed sign _ operand => (operand.exact scope).map sign.onInteger
  | .binary left operator _ right => do
    operator.onIntegers (← left.exact scope) (← right.exact scope)
  | .group inner => inner.exact scope
  | .word _ _ | .quoted _ _ | .substitution _ _ => none

/-- An expression made of integer literals, variables bound to integers, signs, operators and
groups. -/
def Integral (scope : Chain) : Expr → Prop
  | .number text _ => ∃ z, (Value.string text).Denotes z
  | .reference name _ => ∃ value z, scope.lookup name = .ok value ∧ value.Denotes z
  | .signed _ _ operand => operand.Integral scope
  | .binary left _ _ right => left.Integral scope ∧ right.Integral scope
  | .group inner => inner.Integral scope
  | .word _ _ | .quoted _ _ | .substitution _ _ => False

/-- An expression and all expressions in it. -/
def subtrees : Expr → List Expr
  | .signed sign p operand => .signed sign p operand :: operand.subtrees
  | .binary left operator p right =>
    .binary left operator p right :: (left.subtrees ++ right.subtrees)
  | .group inner => .group inner :: inner.subtrees
  | leaf => [leaf]

/-- Every leaf and every intermediate result fits into 64 bits. -/
def InRange (scope : Chain) (e : Expr) : Prop :=
  ∀ part ∈ e.subtrees, ∀ z, part.exact scope = some z → Fits z

/-- Some divisor is zero. -/
def DividesByZero (scope : Chain) (e : Expr) : Prop :=
  ∃ left p right, .binary left .divide p right ∈ e.subtrees ∧ right.exact scope = some 0

section Parts

variable {scope : Chain} {e left right : Expr} {sign : Sign} {operator : Operator} {p : Position}
  {z : Int}

private theorem mem_subtrees (e : Expr) : e ∈ e.subtrees := by
  cases e <;> simp [subtrees]

private theorem InRange.fits (h : e.InRange scope) (value : e.exact scope = some z) : Fits z :=
  h e e.mem_subtrees z value

theorem inRange_of_leaf (leaf : e.subtrees = [e]) :
    e.InRange scope ↔ ∀ z, e.exact scope = some z → Fits z := by
  rw [InRange, leaf, List.forall_mem_singleton]

theorem not_dividesByZero_of_leaf (leaf : e.subtrees = [e]) : ¬ e.DividesByZero scope := by
  rintro ⟨left, p, right, inside, -⟩
  rw [leaf, List.mem_singleton] at inside
  subst inside
  have inner := left.mem_subtrees
  simp only [subtrees, List.cons.injEq, List.append_eq_nil_iff, true_and] at leaf
  rw [leaf.1] at inner
  cases inner

theorem inRange_signed : (signed sign p e).InRange scope ↔
    (∀ z, (signed sign p e).exact scope = some z → Fits z) ∧ e.InRange scope := by
  simp only [InRange, subtrees, List.forall_mem_cons]

private theorem inRange_binary : (binary left operator p right).InRange scope ↔
    (∀ z, (binary left operator p right).exact scope = some z → Fits z) ∧
      left.InRange scope ∧ right.InRange scope := by
  simp only [InRange, subtrees, List.forall_mem_cons, List.forall_mem_append]

private theorem inRange_group : (group e).InRange scope ↔ e.InRange scope := by
  simp only [InRange, subtrees, List.forall_mem_cons]
  exact ⟨fun h => h.2, fun h => ⟨h e e.mem_subtrees, h⟩⟩

theorem dividesByZero_signed : (signed sign p e).DividesByZero scope ↔ e.DividesByZero scope := by
  simp [DividesByZero, subtrees]

private theorem dividesByZero_group : (group e).DividesByZero scope ↔ e.DividesByZero scope := by
  simp [DividesByZero, subtrees]

private theorem dividesByZero_binary : (binary left operator p right).DividesByZero scope ↔
    operator = .divide ∧ right.exact scope = some 0 ∨
      left.DividesByZero scope ∨ right.DividesByZero scope := by
  simp only [DividesByZero, subtrees, List.mem_cons, List.mem_append]
  constructor
  · rintro ⟨l, q, r, same | inside | inside, zero⟩
    · cases same
      exact .inl ⟨rfl, zero⟩
    · exact .inr (.inl ⟨l, q, r, inside, zero⟩)
    · exact .inr (.inr ⟨l, q, r, inside, zero⟩)
  · rintro (⟨rfl, zero⟩ | ⟨l, q, r, inside, zero⟩ | ⟨l, q, r, inside, zero⟩)
    · exact ⟨left, p, right, .inl rfl, zero⟩
    · exact ⟨l, q, r, .inr (.inl inside), zero⟩
    · exact ⟨l, q, r, .inr (.inr inside), zero⟩

end Parts

end Expr

/-! ### Narrowing to 64 bits -/

/-- An integer is narrowed to 64 bits: it is the same one, or an overflow. -/
inductive Number.Narrows (z : Int) : Except Failure Number → Prop where
  | fits {i : Integer} : i.val = z → Narrows z (.ok (.integer i))
  | overflows {d : Diagnostic} {t : Text} : ¬ Fits z → d.cause = .overflow t →
      Narrows z (.error (.diagnostic d))

private theorem Number.narrows_ofInt {z : Int} (short : (Text.ofNat z.natAbs).length ≤ maxDigits)
    (place : Place) : Narrows z (ofInt z place) := by
  by_cases fits : Fits z
  · rw [ofInt_val ⟨z, fits⟩]
    exact .fits rfl
  · rw [ofInt_of_unfit fits short]
    exact .overflows fits rfl

/-- No result of an operator for two integers is too long to be written. -/
theorem Number.length_exact_le (operator : Operator) (i j : Integer) :
    (Text.ofNat (exact operator i.val j.val).natAbs).length ≤ maxDigits := by
  have left := i.natAbs_le
  have right := j.natAbs_le
  have sum : i.val.natAbs + j.val.natAbs ≤ Integer.bound.natAbs * Integer.bound.natAbs :=
    Nat.le_trans (Nat.add_le_add left right) (by decide)
  have product : (i.val * j.val).natAbs ≤ Integer.bound.natAbs * Integer.bound.natAbs := by
    rw [Int.natAbs_mul]
    exact Nat.mul_le_mul left right
  have quotient : (i.val.fdiv j.val).natAbs ≤ i.val.natAbs := Int.natAbs_fdiv_le_natAbs _ _
  have most : (exact operator i.val j.val).natAbs ≤
      Integer.bound.natAbs * Integer.bound.natAbs := by
    cases operator with
    | add => exact Nat.le_trans (Int.natAbs_add_le _ _) sum
    | subtract => exact Nat.le_trans (Int.natAbs_sub_le _ _) sum
    | multiply => exact product
    | divide => exact Nat.le_trans quotient (Nat.le_trans left (by decide))
  have short : (Text.ofNat (exact operator i.val j.val).natAbs).length ≤ 39 :=
    Text.length_ofNat_le (by decide) (Nat.lt_of_le_of_lt most (by decide))
  exact Nat.le_trans short (by decide)

private theorem Number.length_negated_le (i : Integer) :
    (Text.ofNat (-i.val).natAbs).length ≤ maxDigits := by
  rw [Int.natAbs_neg]
  exact i.length_magnitude_le

namespace Value

variable {v w : Value} {x y z : Int}

/-- A value that denotes an integer is narrowed where it is used as a number. -/
theorem Denotes.narrows (h : v.Denotes z) (place : Place) :
    Number.Narrows z (v.toNumber place) := by
  cases h with
  | integer i => exact .fits rfl
  | @numeral s negative digits written few =>
    have read := Numeral.ofText?_eq_some_iff.mpr written
    by_cases fits : Fits (Numeral.signed negative (Numeral.valueOf digits))
    · rw [toNumber_of_integer (i := ⟨_, fits⟩) place read few rfl]
      exact .fits rfl
    · obtain ⟨d, fault, cause⟩ := toNumber_of_overflow place read few fun i same =>
        fits (same ▸ i.fits)
      rw [fault]
      exact .overflows fits cause

/-- What becomes of integers: their result, or the reason why there is none. -/
inductive Computes (inputs : List Int) (result : Option Int) : Except Failure Value → Prop where
  | value {i : Integer} : (∀ z ∈ inputs, Fits z) → result = some i.val →
      Computes inputs result (.ok (.number (.integer i)))
  | overflow {d : Diagnostic} {t : Text} :
      (∃ z ∈ inputs, ¬ Fits z) ∨ (∃ z, result = some z ∧ ¬ Fits z) → d.cause = .overflow t →
      Computes inputs result (.error (.diagnostic d))
  | division {d : Diagnostic} : result = none → d.cause = .divisionByZero →
      Computes inputs result (.error (.diagnostic d))

private theorem computes_of_narrows {inputs : List Int} {narrowed : Except Failure Number}
    (fits : ∀ z ∈ inputs, Fits z) (h : Number.Narrows z narrowed) :
    Computes inputs (some z) (.number <$> narrowed) := by
  cases h with
  | fits same => exact .value fits (congrArg some same.symm)
  | overflows unfit cause => exact .overflow (.inr ⟨z, rfl, unfit⟩) cause

theorem computes_withSign (h : v.Denotes z) (sign : Sign) (place : Place) :
    Computes [z] (some (sign.onInteger z)) (v.withSign sign place) := by
  have used := h.narrows place
  generalize read : v.toNumber place = n at used
  cases used with
  | @fits i same =>
    subst same
    have fits : ∀ z ∈ [i.val], Fits z := by simpa using i.fits
    cases sign with
    | positive =>
      simp only [withSign, toNumberValue, read]
      exact .value fits rfl
    | negative =>
      have negated : v.negate place = .number <$> Number.ofInt (-i.val) place := by
        simp only [negate, read]
        rfl
      rw [withSign, negated]
      exact computes_of_narrows fits (Number.narrows_ofInt (Number.length_negated_le i) place)
  | @overflows d t unfit cause =>
    have failed : v.withSign sign place = .error (.diagnostic d) := by
      cases sign <;> simp only [withSign, toNumberValue, negate, read] <;> rfl
    rw [failed]
    exact .overflow (.inl ⟨z, by simp, unfit⟩) cause

theorem computes_apply (left : v.Denotes x) (right : w.Denotes y) (operator : Operator)
    (place : Place) :
    Computes [x, y] (operator.onIntegers x y) (Value.apply operator v w place) := by
  have first := left.narrows place
  have second := right.narrows place
  generalize read : v.toNumber place = m at first
  generalize also : w.toNumber place = n at second
  have applied : Value.apply operator v w place =
      m.bind fun a => n.bind fun b => .number <$> a.apply operator b place := by
    rw [Value.apply, read, also]
    cases m <;> cases n <;> rfl
  rw [applied]
  cases first with
  | overflows unfit cause => exact .overflow (.inl ⟨x, by simp, unfit⟩) cause
  | @fits i left =>
    cases second with
    | overflows unfit cause => exact .overflow (.inl ⟨y, by simp, unfit⟩) cause
    | @fits j right =>
      subst left right
      have fits : ∀ z ∈ [i.val, j.val], Fits z := by simpa using ⟨i.fits, j.fits⟩
      simp only [Except.bind]
      by_cases zero : operator = .divide ∧ j.val = 0
      · obtain ⟨rfl, zero⟩ := zero
        have none : Operator.onIntegers .divide i.val j.val = none := if_pos zero
        have failed : Number.apply .divide (.integer i) (.integer j) place =
            .error (place.fail .divisionByZero) := if_pos ⟨rfl, by simpa [Number.isZero] using zero⟩
        rw [none, failed]
        exact .division rfl rfl
      · have some : operator.onIntegers i.val j.val = some (Number.exact operator i.val j.val) := by
          cases operator with
          | divide => exact if_neg fun none => zero ⟨rfl, none⟩
          | _ => rfl
        have done : Number.apply operator (.integer i) (.integer j) place =
            Number.ofInt (Number.exact operator i.val j.val) place :=
          if_neg fun none => zero ⟨none.1, by simpa [Number.isZero] using none.2⟩
        rw [some, done]
        have short := Number.length_exact_le operator i j
        exact computes_of_narrows fits (Number.narrows_ofInt short place)

end Value

/-! ### Evaluation -/

/-- The scope in use, with those around it. -/
def Machine.scope (m : Machine) (around : Surroundings) : Chain :=
  .link m.bindings around.outer

namespace Expr

/-- How the evaluation of an expression over integers ends: with a value that may still have to be
narrowed, or with a failure for one of two reasons. The machine stays as it is. -/
inductive Ends (scope : Chain) (e : Expr) (m : Machine) :
    EStateM.Result Failure Machine Value → Prop where
  | value {v : Value} {z : Int} : v.Denotes z → e.exact scope = some z →
      (Fits z → e.InRange scope) → ¬ e.DividesByZero scope → Ends scope e m (.ok v m)
  | overflow {d : Diagnostic} {t : Text} : ¬ e.InRange scope → d.cause = .overflow t →
      Ends scope e m (.error (.diagnostic d) m)
  | division {d : Diagnostic} : e.DividesByZero scope → d.cause = .divisionByZero →
      Ends scope e m (.error (.diagnostic d) m)

section Ends

variable {around : Surroundings} {m : Machine} {scope : Chain} {e left right : Expr} {sign : Sign}
  {operator : Operator} {p : Position} {v : Value} {z : Int}
  {done : EStateM.Result Failure Machine Value}

private theorem ends_of_leaf (leaf : e.subtrees = [e]) (denotes : v.Denotes z)
    (value : e.exact scope = some z) : Ends scope e m (.ok v m) := by
  refine .value denotes value (fun fits => (inRange_of_leaf leaf).mpr fun y same => ?_)
    (not_dividesByZero_of_leaf leaf)
  cases value.symm.trans same
  exact fits

private theorem ends_group (h : Ends scope e m (e.eval around m)) :
    Ends scope (group e) m ((group e).eval around m) := by
  have same : (group e).eval around m = e.eval around m := by rw [eval]
  rw [same]
  generalize e.eval around m = done at h
  cases h with
  | value denotes value range whole =>
    exact .value denotes value (fun fits => inRange_group.mpr (range fits))
      fun zero => whole (dividesByZero_group.mp zero)
  | overflow outside cause => exact .overflow (fun range => outside (inRange_group.mp range)) cause
  | division zero cause => exact .division (dividesByZero_group.mpr zero) cause

private theorem ends_signed (h : Ends scope e m (e.eval around m)) :
    Ends scope (signed sign p e) m ((signed sign p e).eval around m) := by
  rw [eval]
  generalize operand : e.eval around m = done at h
  cases h with
  | overflow outside cause =>
    rw [Eval.bind_of_error operand]
    exact .overflow (fun range => outside (inRange_signed.mp range).2) cause
  | division zero cause =>
    rw [Eval.bind_of_error operand]
    exact .division (dividesByZero_signed.mpr zero) cause
  | @value v z denotes value range whole =>
    rw [Eval.bind_of_ok operand]
    have exact : (signed sign p e).exact scope = some (sign.onInteger z) := by
      rw [Expr.exact, value, Option.map_some]
    have computes := Value.computes_withSign denotes sign (.ofPosition p)
    generalize v.withSign sign (.ofPosition p) = result at computes
    cases computes with
    | @value i inputs same =>
      have known := exact.trans same
      refine .value (.integer i) known (fun fits => inRange_signed.mpr ⟨fun y also => ?_, ?_⟩)
        fun zero => whole (dividesByZero_signed.mp zero)
      · cases known.symm.trans also
        exact fits
      · exact range (inputs z (by simp))
    | overflow reason cause =>
      refine .overflow (fun inside => ?_) cause
      obtain ⟨here, below⟩ := inRange_signed.mp inside
      obtain ⟨y, mem, unfit⟩ | ⟨y, same, unfit⟩ := reason
      · cases List.mem_singleton.mp mem
        exact unfit (below.fits value)
      · exact unfit (here y (exact.trans same))
    | division none => cases none

private theorem ends_binary (first : Ends scope left m (left.eval around m))
    (second : Ends scope right m (right.eval around m)) :
    Ends scope (binary left operator p right) m ((binary left operator p right).eval around m) := by
  rw [eval]
  generalize one : left.eval around m = done at first
  cases first with
  | overflow outside cause =>
    rw [Eval.bind_of_error one]
    exact .overflow (fun range => outside (inRange_binary.mp range).2.1) cause
  | division zero cause =>
    rw [Eval.bind_of_error one]
    exact .division (dividesByZero_binary.mpr (.inr (.inl zero))) cause
  | @value v x denotes value range whole =>
    rw [Eval.bind_of_ok one]
    generalize other : right.eval around m = done at second
    cases second with
    | overflow outside cause =>
      rw [Eval.bind_of_error other]
      exact .overflow (fun range => outside (inRange_binary.mp range).2.2) cause
    | division zero cause =>
      rw [Eval.bind_of_error other]
      exact .division (dividesByZero_binary.mpr (.inr (.inr zero))) cause
    | @value w y denotes' value' range' whole' =>
      rw [Eval.bind_of_ok other]
      have exact : (binary left operator p right).exact scope = operator.onIntegers x y := by
        rw [Expr.exact, value, value']
        rfl
      have computes := Value.computes_apply denotes denotes' operator (.ofPosition p)
      generalize Value.apply operator v w (.ofPosition p) = result at computes
      cases computes with
      | @value i inputs same =>
        have known := exact.trans same
        refine .value (.integer i) known
          (fun fits => inRange_binary.mpr ⟨fun z also => ?_, ?_, ?_⟩) ?_
        · cases known.symm.trans also
          exact fits
        · exact range (inputs x (by simp))
        · exact range' (inputs y (by simp))
        · rw [dividesByZero_binary]
          rintro (⟨rfl, zero⟩ | inLeft | inRight)
          · cases value'.symm.trans zero
            cases same
          · exact whole inLeft
          · exact whole' inRight
      | overflow reason cause =>
        refine .overflow (fun inside => ?_) cause
        obtain ⟨here, before, after⟩ := inRange_binary.mp inside
        obtain ⟨z, mem, unfit⟩ | ⟨z, same, unfit⟩ := reason
        · simp only [List.mem_cons, List.not_mem_nil, or_false] at mem
          obtain rfl | rfl := mem
          · exact unfit (before.fits value)
          · exact unfit (after.fits value')
        · exact unfit (here z (exact.trans same))
      | division none cause =>
        refine .division (dividesByZero_binary.mpr (.inl ?_)) cause
        cases operator with
        | divide =>
          by_cases zero : y = 0
          · exact ⟨rfl, zero ▸ value'⟩
          · rw [Operator.onIntegers, if_neg zero] at none
            cases none
        | _ => cases none

end Ends

/-- An expression over integers ends in one of these ways, in the scope that the machine is in. -/
theorem ends_eval {e : Expr} {around : Surroundings} {m : Machine}
    (integral : e.Integral (m.scope around)) : Ends (m.scope around) e m (e.eval around m) := by
  match e, integral with
  | .number text p, ⟨z, denotes⟩ =>
    rw [eval]
    exact ends_of_leaf rfl denotes denotes.integer?
  | .reference name p, ⟨v, z, bound, denotes⟩ =>
    have read : (Expr.reference name p).eval around m = .ok v m := by
      unfold eval Eval.mapDiagnostic
      rw [Eval.lookup_eq, ← Machine.scope, bound]
      rfl
    have value : (Expr.reference name p).exact (m.scope around) = some z := by
      simp only [exact, bound, denotes.integer?]
    rw [read]
    exact ends_of_leaf rfl denotes value
  | .signed sign p operand, integral => exact ends_signed (ends_eval integral)
  | .binary left operator p right, ⟨first, second⟩ =>
    exact ends_binary (ends_eval first) (ends_eval second)
  | .group inner, integral => exact ends_group (ends_eval integral)

end Expr

/-! ### The command -/

namespace Command

section Execute

variable {around : Surroundings} {c : Command} {m m' : Machine} {v : Value} {failure : Failure}

/-- Carrying a command out adds to log and trace. -/
theorem execute_of_perform (ready : around.Traceable) (h : c.perform around m = .ok v m') :
    ∃ n, c.execute around m = .ok v n ∧ n.bindings = m'.bindings ∧ n.output = m'.output := by
  have alike := Eval.likeResult_carryOut (c := c) ready
    (show m.Like False m from ⟨rfl, rfl, fun _ => rfl⟩)
  simp only [Eval.mapDiagnostic, h] at alike
  rw [execute]
  generalize Eval.carryOut around _ _ m = executed at alike
  cases executed with
  | error f n => exact alike.elim
  | ok w n =>
    obtain ⟨rfl, same⟩ := alike
    exact ⟨n, rfl, same.bindings, same.output⟩

/-- A fault that has no place is placed. -/
theorem execute_of_perform_error (ready : around.Traceable)
    (h : c.perform around m = .error failure m') :
    ∃ n, c.execute around m = .error (failure.mapDiagnostic (Eval.locate c)) n ∧
      n.bindings = m'.bindings ∧ n.output = m'.output := by
  have alike := Eval.likeResult_carryOut (c := c) ready
    (show m.Like False m from ⟨rfl, rfl, fun _ => rfl⟩)
  simp only [Eval.mapDiagnostic, h] at alike
  rw [execute]
  generalize Eval.carryOut around _ _ m = executed at alike
  cases executed with
  | ok w n => exact alike.elim
  | error f n =>
    obtain ⟨rfl, same⟩ := alike
    exact ⟨n, rfl, same.bindings, same.output⟩

end Execute

/-- How a command ends whose operand is an expression over integers. Log and trace may grow. -/
inductive Computes (scope : Chain) (e : Expr) (m : Machine) :
    EStateM.Result Failure Machine Value → Prop where
  | value {i : Integer} {m' : Machine} : e.exact scope = some i.val → e.InRange scope →
      ¬ e.DividesByZero scope → m'.bindings = m.bindings → m'.output = m.output →
      Computes scope e m (.ok (.number (.integer i)) m')
  | overflow {d : Diagnostic} {t : Text} {m' : Machine} : ¬ e.InRange scope →
      d.cause = .overflow t → m'.bindings = m.bindings → m'.output = m.output →
      Computes scope e m (.error (.diagnostic d) m')
  | division {d : Diagnostic} {m' : Machine} : e.DividesByZero scope →
      d.cause = .divisionByZero → m'.bindings = m.bindings → m'.output = m.output →
      Computes scope e m (.error (.diagnostic d) m')

variable {e : Expr} {around : Surroundings} {m : Machine} {p : Position}

private theorem computes_perform (integral : e.Integral (m.scope around)) :
    Computes (m.scope around) e m ((expr p e).perform around m) := by
  have ends := Expr.ends_eval integral
  rw [perform]
  generalize operand : e.eval around m = done at ends
  cases ends with
  | overflow outside cause =>
    rw [Eval.bind_of_error operand]
    exact .overflow outside cause rfl rfl
  | division zero cause =>
    rw [Eval.bind_of_error operand]
    exact .division zero cause rfl rfl
  | @value v z denotes value range whole =>
    rw [Eval.bind_of_ok operand]
    have computes := Value.computes_withSign denotes .positive (.ofPosition p)
    rw [Value.withSign] at computes
    generalize v.toNumberValue (.ofPosition p) = result at computes
    cases computes with
    | value inputs same =>
      exact .value (value.trans same) (range (inputs z (by simp))) whole rfl rfl
    | overflow reason cause =>
      refine .overflow (fun inside => ?_) cause rfl rfl
      obtain ⟨y, mem, unfit⟩ | ⟨y, same, unfit⟩ := reason
      · cases List.mem_singleton.mp mem
        exact unfit (inside.fits value)
      · cases same
        exact unfit (inside.fits value)
    | division none => cases none

theorem computes_execute (ready : around.Traceable) (integral : e.Integral (m.scope around)) :
    Computes (m.scope around) e m ((expr p e).execute around m) := by
  have computes := computes_perform (p := p) integral
  generalize performed : (expr p e).perform around m = done at computes
  cases computes with
  | value exact range whole bindings output =>
    obtain ⟨n, executed, bindings', output'⟩ := execute_of_perform ready performed
    rw [executed]
    exact .value exact range whole (bindings'.trans bindings) (output'.trans output)
  | overflow outside cause bindings output =>
    obtain ⟨n, executed, bindings', output'⟩ := execute_of_perform_error ready performed
    rw [executed]
    exact .overflow outside ((Eval.cause_locate _ _).trans cause) (bindings'.trans bindings)
      (output'.trans output)
  | division zero cause bindings output =>
    obtain ⟨n, executed, bindings', output'⟩ := execute_of_perform_error ready performed
    rw [executed]
    exact .division zero ((Eval.cause_locate _ _).trans cause) (bindings'.trans bindings)
      (output'.trans output)

/-- Integer arithmetic is exact: an expression over integers has a value if and only if nothing in
it leaves the range of 64 bits and no divisor is zero, and this value is the exact one. A failure
names a reason that there is. Bindings and output stay as they are. -/
theorem integer_arithmetic (p : Position) {act : Eval Value}
    (integral : e.Integral (m.scope around))
    (evaluates : act = (expr p e).perform around ∨
      around.Traceable ∧ act = (expr p e).execute around) :
    ((∃ v m', act m = .ok v m') ↔
      e.InRange (m.scope around) ∧ ¬ e.DividesByZero (m.scope around)) ∧
    (∀ v m', act m = .ok v m' → ∃ i : Integer,
      v = .number (.integer i) ∧ v.text = Text.ofInt i.val ∧
        e.exact (m.scope around) = some i.val ∧
        m'.bindings = m.bindings ∧ m'.output = m.output) ∧
    (∀ failure m', act m = .error failure m' → ∃ d, failure = .diagnostic d ∧
      ((∃ t, d.cause = .overflow t) ∧ ¬ e.InRange (m.scope around) ∨
        d.cause = .divisionByZero ∧ e.DividesByZero (m.scope around)) ∧
      m'.bindings = m.bindings ∧ m'.output = m.output) := by
  have computes : Computes (m.scope around) e m (act m) := by
    obtain rfl | ⟨ready, rfl⟩ := evaluates
    · exact computes_perform integral
    · exact computes_execute ready integral
  generalize act m = done at computes
  cases computes with
  | @value i m' exact range whole bindings output =>
    refine ⟨⟨fun _ => ⟨range, whole⟩, fun _ => ⟨_, _, rfl⟩⟩, ?_, fun _ _ => nofun⟩
    rintro v n ⟨⟩
    exact ⟨i, rfl, rfl, exact, bindings, output⟩
  | @overflow d t m' outside cause bindings output =>
    refine ⟨⟨fun ⟨_, _, same⟩ => (nomatch same), fun h => (outside h.1).elim⟩, fun _ _ => nofun, ?_⟩
    rintro failure n ⟨⟩
    exact ⟨d, rfl, .inl ⟨⟨t, cause⟩, outside⟩, bindings, output⟩
  | @division d m' zero cause bindings output =>
    refine ⟨⟨fun ⟨_, _, same⟩ => (nomatch same), fun h => (h.2 zero).elim⟩, fun _ _ => nofun, ?_⟩
    rintro failure n ⟨⟩
    exact ⟨d, rfl, .inr ⟨cause, zero⟩, bindings, output⟩

/-- Of `$n / $k` for two variables: seven by minus two is rounded downwards, and the least integer
of all has no quotient by minus one. -/
theorem integer_arithmetic_of_quotients :
    let quotient : Expr :=
      .binary (.reference ['n'] .start) .divide .start (.reference ['k'] .start)
    let around : Surroundings := { tracing := false, filename := none, outer := .root }
    let machine (n k : Integer) : Machine :=
      { bindings := (Table.empty.insert ['n'] (.number (.integer n))).insert ['k']
          (.number (.integer k)),
        output := [], trace := [], log := [] }
    (∃ i m', (expr .start quotient).perform around
        (machine ⟨7, by decide⟩ ⟨-2, by decide⟩) =
      .ok (.number (.integer i)) m' ∧ i.val = -4) ∧
    ∃ d t m', (expr .start quotient).perform around
        (machine ⟨-Integer.bound, by decide⟩ ⟨-1, by decide⟩) =
      .error (.diagnostic d) m' ∧ d.cause = .overflow t := by
  intro quotient around machine
  have general (n k : Integer) := @integer_arithmetic quotient around (machine n k) .start _
    ⟨⟨_, _, rfl, .integer n⟩, ⟨_, _, rfl, .integer k⟩⟩ (.inl rfl)
  constructor
  · obtain ⟨-, value, -⟩ := general ⟨7, by decide⟩ ⟨-2, by decide⟩
    obtain ⟨i, same, -, exact, -⟩ := value _ _ rfl
    exact ⟨i, _, congrArg (EStateM.Result.ok · _) same, (Option.some.inj exact).symm⟩
  · obtain ⟨ranges, -, failure⟩ := general ⟨-Integer.bound, by decide⟩ ⟨-1, by decide⟩
    cases done : (expr .start quotient).perform around
        (machine ⟨-Integer.bound, by decide⟩ ⟨-1, by decide⟩) with
    | ok v m' =>
      have fits : Fits Integer.bound := (ranges.mp ⟨v, m', done⟩).1.fits rfl
      exact absurd fits (by decide)
    | error failed m' =>
      obtain ⟨d, rfl, ⟨⟨t, overflow⟩, -⟩ | ⟨-, division⟩, -⟩ := failure failed m' done
      · exact ⟨d, t, m', rfl, overflow⟩
      · rcases Expr.dividesByZero_binary.mp division with ⟨-, zero⟩ | inner | inner
        · cases zero
        · exact (Expr.not_dividesByZero_of_leaf rfl inner).elim
        · exact (Expr.not_dividesByZero_of_leaf rfl inner).elim

end Command

end TinyTcl
