import Tabular.Data.Value
import Tabular.Sql.Operator

/-! Expressions: trees of column names, literals and operators. `sql` writes a tree as text without
adding parentheses, so a group is the only node that shows them. -/

namespace Tabular

/-- An expression. The wildcard `*` stands for all columns of a row, and a group for parentheses
around its inner expression. -/
inductive Expr where
  | column (name : String)
  | literal (value : Value)
  | wildcard
  | binary (left : Expr) (op : BinaryOp) (right : Expr)
  | signed (sign : Sign) (operand : Expr)
  | group (inner : Expr)
  deriving DecidableEq, Repr

namespace Expr

def sql : Expr → String
  | column name => name
  | literal value => value.sql
  | wildcard => "*"
  | binary left op right => left.sql ++ " " ++ op.sql ++ " " ++ right.sql
  | signed sign operand => sign.sql ++ operand.sql
  | group inner => "(" ++ inner.sql ++ ")"

/-- The column names in an expression from left to right, each as often as it occurs. -/
def columns : Expr → List String
  | column name => [name]
  | literal _ => []
  | wildcard => []
  | binary left _ right => left.columns ++ right.columns
  | signed _ operand => operand.columns
  | group inner => inner.columns

def hasWildcard : Expr → Bool
  | column _ => false
  | literal _ => false
  | wildcard => true
  | binary left _ right => left.hasWildcard || right.hasWildcard
  | signed _ operand => operand.hasWildcard
  | group inner => inner.hasWildcard

end Expr

end Tabular
