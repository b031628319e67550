import Mathlib.Algebra.Order.Field.Rat

/-!
# AdsHub.Lib.Rego — the part of Rego that boolean policies are written in

Terms, comparisons and rule bodies over an input document, with OPA's reading of
them:

* a term may be *undefined*: a field that is not in the input, arithmetic on
  something that is not a number, a division by zero;
* two values of different types are unequal, and are ordered by type (null,
  booleans, numbers, strings);
* a body holds when each of its expressions is defined and true, and a rule with
  several bodies holds when one of them does.

A JSON null is a value like any other: `null != ""` holds.
-/

namespace Rego

/-- The scalar values of a document. -/
inductive Value where
  | null
  | bool (b : Bool)
  | num (n : ℚ)
  | str (s : String)
deriving DecidableEq

/-- The place of a value's type in OPA's order of types. -/
def Value.rank : Value → ℕ
  | .null => 0
  | .bool _ => 1
  | .num _ => 2
  | .str _ => 3

/-- OPA's order on values: by type, and within a type by value. -/
def Value.lt : Value → Value → Bool
  | .bool a, .bool b => !a && b
  | .num a, .num b => decide (a < b)
  | .str a, .str b => decide (a < b)
  | a, b => decide (a.rank < b.rank)

/-- Arithmetic operators. -/
inductive Op where
  | sub | mul | div
deriving DecidableEq, Repr

/-- Arithmetic is defined on numbers only, and division not by zero. -/
def Op.apply : Op → Value → Value → Option Value
  | .sub, .num a, .num b => some (.num (a - b))
  | .mul, .num a, .num b => some (.num (a * b))
  | .div, .num a, .num b => if b = 0 then none else some (.num (a / b))
  | _, _, _ => none

/-- A term: a field of the input, a literal, or arithmetic. -/
inductive Term where
  | input (field : String)
  | lit (v : Value)
  | arith (op : Op) (a b : Term)

/-- The document a policy is evaluated on, as its fields. -/
abbrev Input := String → Option Value

/-- The value of a term, `none` when it is undefined. -/
def Term.eval (input : Input) : Term → Option Value
  | .input field => input field
  | .lit v => some v
  | .arith op a b => do op.apply (← a.eval input) (← b.eval input)

/-- Comparison operators. -/
inductive Cmp where
  | eq | ne | gt | le
deriving DecidableEq, Repr

def Cmp.apply : Cmp → Value → Value → Bool
  | .eq, a, b => decide (a = b)
  | .ne, a, b => decide (a ≠ b)
  | .gt, a, b => b.lt a
  | .le, a, b => !b.lt a

/-- An expression of a body. -/
structure Expr where
  left : Term
  cmp : Cmp
  right : Term

/-- An expression with an undefined side does not hold. -/
def Expr.holds (input : Input) (e : Expr) : Bool :=
  match e.left.eval input, e.right.eval input with
  | some a, some b => e.cmp.apply a b
  | _, _ => false

/-- A rule that is false by default, given by its bodies. -/
def holds (bodies : List (List Expr)) (input : Input) : Bool :=
  bodies.any (fun body => body.all (·.holds input))

/-! ## Values of the operators -/

@[simp] theorem eval_input (input : Input) (field : String) :
    (Term.input field).eval input = input field := rfl

@[simp] theorem eval_lit (input : Input) (v : Value) : (Term.lit v).eval input = some v := rfl

theorem eval_arith (input : Input) (op : Op) (a b : Term) :
    (Term.arith op a b).eval input =
      (a.eval input).bind (fun x => (b.eval input).bind (fun y => op.apply x y)) := rfl

@[simp] theorem lt_num (a b : ℚ) : (Value.num a).lt (.num b) = decide (a < b) := rfl

@[simp] theorem holds_nil (input : Input) : holds [] input = false := rfl

@[simp] theorem holds_cons (body : List Expr) (bodies : List (List Expr)) (input : Input) :
    holds (body :: bodies) input = (body.all (·.holds input) || holds bodies input) := rfl

end Rego
