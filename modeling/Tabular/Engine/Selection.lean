import Tabular.Engine.Evaluation
import Tabular.Engine.Scope
import Tabular.Sql.Statement
import Tabular.Storage.Table

/-! Reading a table: which rows satisfy a condition, in what order they come, and what is shown of
each. -/

namespace Tabular

/-- The rows that a `SELECT` statement shows, under the labels of their columns. -/
structure ResultSet where
  labels : List String
  rows : List (List Value)
  deriving DecidableEq, Repr

/-- Checks that a condition, if there is one, names columns of the schema only. -/
def Schema.checkCondition (s : Schema) : Option Expr → Except Error Unit
  | some e => e.checkScope s
  | none => .ok ()

/-- Whether a row satisfies a condition. Every row satisfies the absent one. -/
def Row.satisfies (r : Row) : Option Expr → Except Error Bool
  | some e => e.holds r
  | none => .ok true

/-- The rows that satisfy a condition, each with its position, in order. The first row on which the
condition fails decides the error. -/
def Row.satisfying (condition : Option Expr) :
    List (Row × Nat) → Except Error (List (Row × Nat))
  | [] => .ok []
  | (r, i) :: rest => do
    let keep ← r.satisfies condition
    let kept ← satisfying condition rest
    return if keep then (r, i) :: kept else kept

/-- The rows of a table that satisfy a condition, each with its position, in order. -/
def Table.matching (t : Table) (condition : Option Expr) :
    Except (Failure Error) (List (Row × Nat)) := do
  let rows ← t.rows
  Row.satisfying condition rows.zipIdx

namespace SortKey

/-- The order of two values under a sort key, where values that do not compare are equal. -/
def compare (k : SortKey) (a b : Value) : Ordering :=
  let o := (a.compare? b).getD .eq
  if k.descending then o.swap else o

/-- The order of two lists of values, one value for each sort key. The first key under which two
values differ decides. -/
def compareAll : List SortKey → List Value → List Value → Ordering
  | k :: order, a :: as, b :: bs => (k.compare a b).then (compareAll order as bs)
  | _, _, _ => .eq

def values (order : List SortKey) (r : Row) : Except Error (List Value) :=
  order.mapM (·.expr.eval r)

/-- Checks that lists of values compare: at each place the values of the later lists are of the
kind of the first list's. -/
def checkAgree : List (List Value) → Except Error Unit
  | [] => .ok ()
  | first :: rest =>
    rest.forM fun later => (first.zip later).forM fun (a, b) => discard (a.compare b)

end SortKey

/-- Rows in the order of sort keys. Rows that are equal under all keys keep their order. -/
def Row.sorted (order : List SortKey) (rows : List Row) : Except Error (List Row) := do
  let keyed ← rows.mapM fun r => return (← SortKey.values order r, r)
  SortKey.checkAgree (keyed.map (·.1))
  return (keyed.mergeSort fun a b => (SortKey.compareAll order a.1 b.1).isLE).map (·.2)

/-- The labels of a projected expression: all names for a wildcard, else the expression's text. -/
def Expr.labels (s : Schema) : Expr → Except Error (List String)
  | wildcard => .ok s.names
  | e => do
    e.checkScope s
    return [e.sql]

/-- What a projected expression shows of a row: all values for a wildcard, else the expression's
value. -/
def Expr.shown (r : Row) : Expr → Except Error (List Value)
  | wildcard => .ok r.values
  | e => return [← e.eval r]

def Row.project (projection : List Expr) (r : Row) : Except Error (List Value) := do
  return (← projection.mapM (·.shown r)).flatten

namespace Select

/-- Checks all expressions of a `SELECT` statement, projection before condition and condition
before sort keys, and gives the labels of what it shows. -/
def labels (q : Select) (s : Schema) : Except Error (List String) := do
  let labels ← q.projection.mapM (·.labels s)
  s.checkCondition q.condition
  q.order.forM (·.expr.checkScope s)
  return labels.flatten

/-- The first rows of a list, as many as the statement's limit allows. -/
def limited (q : Select) (rows : List Row) : List Row :=
  match q.limit with
  | some n => rows.take n
  | none => rows

/-- What a `SELECT` statement makes of the rows that satisfy its condition. Rows past the limit are
not projected. -/
def present (q : Select) (rows : List Row) : Except Error (List (List Value)) := do
  let ordered ← if q.order.isEmpty then pure rows else Row.sorted q.order rows
  (q.limited ordered).mapM (Row.project q.projection)

end Select

def Table.select (t : Table) (q : Select) : Except (Failure Error) ResultSet := do
  let labels ← q.labels t.schema
  let found ← t.matching q.condition
  let rows ← q.present (found.map (·.1))
  return { labels, rows }

end Tabular
