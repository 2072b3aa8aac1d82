import Tabular.Data.Number
import Tabular.Data.Row

/-! The value of an expression on a row. Both operands of a binary operator are evaluated, the left
one first, and the first failure in that order is the failure of the whole. -/

namespace Tabular

def Value.compare (a b : Value) : Except Error Ordering :=
  match a.compare? b with
  | some o => .ok o
  | none => .error (.typeMismatch (.comparison a b))

/-- The result of an operation on two numbers, if it is in range. -/
def Arithmetic.apply? : Arithmetic → Int64 → Int64 → Option Int64
  | add, a, b => Number.add? a b
  | sub, a, b => Number.sub? a b
  | mul, a, b => Number.mul? a b
  | div, a, b => Number.div? a b

def Arithmetic.apply (op : Arithmetic) (a b : Int64) : Except Error Int64 :=
  if op = .div ∧ b = 0 then .error .divisionByZero
  else match op.apply? a b with
    | some n => .ok n
    | none => .error (.overflow (.binary a op b))

/-- The result of a binary operator. A comparison takes two values of one kind, arithmetic two
numbers, and a connective two truth values. -/
def BinaryOp.apply : BinaryOp → Value → Value → Except Error Value
  | comparison op, a, b =>
    match a.compare? b with
    | some o => .ok (.bool (op.holds o))
    | none => .error (.typeMismatch (.operands (comparison op) a.kind a b))
  | arithmetic op, .number a, .number b => .number <$> op.apply a b
  | arithmetic op, a, b => .error (.typeMismatch (.operands (arithmetic op) .int a b))
  | connective op, .bool a, .bool b => .ok (.bool (op.apply a b))
  | connective op, a, b => .error (.typeMismatch (.operands (connective op) .bool a b))

/-- The result of a sign, which takes a number. -/
def Sign.apply : Sign → Value → Except Error Value
  | plus, .number n => .ok (.number n)
  | minus, .number n =>
    match Number.neg? n with
    | some m => .ok (.number m)
    | none => .error (.overflow (.negation n))
  | sign, v => .error (.typeMismatch (.operand sign v))

namespace Expr

def eval (r : Row) : Expr → Except Error Value
  | column name =>
    match r.get? name with
    | some v => .ok v
    | none => .error (.unknownColumn name)
  | literal v => .ok v
  | wildcard => .error .misplacedWildcard
  | binary left op right => do
    let a ← left.eval r
    let b ← right.eval r
    op.apply a b
  | signed sign operand => do
    let v ← operand.eval r
    sign.apply v
  | group inner => inner.eval r

/-- Whether a condition holds on a row. Its value is a truth value. -/
def holds (e : Expr) (r : Row) : Except Error Bool := do
  match ← e.eval r with
  | .bool b => return b
  | v => throw (.typeMismatch (.condition e v))

end Expr

end Tabular
