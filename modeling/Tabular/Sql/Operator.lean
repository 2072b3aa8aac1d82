/-! The operators of expressions. Binary operators fall into three families by what they take and
give: comparisons of two values of one kind, arithmetic on numbers, and connectives of truth
values. -/

namespace Tabular

/-- The comparisons of two values. -/
inductive Comparison where
  | eq
  | ne
  | lt
  | le
  | gt
  | ge
  deriving DecidableEq, Repr

namespace Comparison

def sql : Comparison → String
  | eq => "="
  | ne => "!="
  | lt => "<"
  | le => "<="
  | gt => ">"
  | ge => ">="

/-- Whether a comparison holds of values in the given order. -/
def holds : Comparison → Ordering → Bool
  | eq, o => o.isEq
  | ne, o => o.isNe
  | lt, o => o.isLT
  | le, o => o.isLE
  | gt, o => o.isGT
  | ge, o => o.isGE

end Comparison

/-- The arithmetic on two numbers. -/
inductive Arithmetic where
  | add
  | sub
  | mul
  | div
  deriving DecidableEq, Repr

def Arithmetic.sql : Arithmetic → String
  | add => "+"
  | sub => "-"
  | mul => "*"
  | div => "/"

/-- The connectives of two truth values. -/
inductive Connective where
  | and
  | or
  deriving DecidableEq, Repr

namespace Connective

def sql : Connective → String
  | and => "AND"
  | or => "OR"

/-- The truth value that a connective makes of two. -/
def apply : Connective → Bool → Bool → Bool
  | and, a, b => a && b
  | or, a, b => a || b

end Connective

/-- A binary operator. -/
inductive BinaryOp where
  | comparison (op : Comparison)
  | arithmetic (op : Arithmetic)
  | connective (op : Connective)
  deriving DecidableEq, Repr

namespace BinaryOp

def sql : BinaryOp → String
  | comparison op => op.sql
  | arithmetic op => op.sql
  | connective op => op.sql

def isComparison : BinaryOp → Bool
  | comparison _ => true
  | _ => false

def isArithmetic : BinaryOp → Bool
  | arithmetic _ => true
  | _ => false

def isConnective : BinaryOp → Bool
  | connective _ => true
  | _ => false

end BinaryOp

/-- A sign before an operand. -/
inductive Sign where
  | plus
  | minus
  deriving DecidableEq, Repr

def Sign.sql : Sign → String
  | plus => "+"
  | minus => "-"

end Tabular
