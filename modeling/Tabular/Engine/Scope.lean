import Tabular.Schema.Basic

/-! What an expression may mention. Every expression over the rows of a table is checked against
the table's schema before any row is looked at. -/

namespace Tabular.Expr

/-- Checks that an expression has no wildcard and names columns of the schema only. The first name
from the left that is no column decides the error. -/
def checkScope (s : Schema) (e : Expr) : Except Error Unit :=
  if e.hasWildcard then .error .misplacedWildcard
  else match e.columns.find? fun name => (s.index? name).isNone with
    | some name => .error (.unknownColumn name)
    | none => .ok ()

end Tabular.Expr
