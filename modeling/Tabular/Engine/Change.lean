import Tabular.Engine.Selection
import Tabular.Storage.Edit

/-! Writing to a table: the row that an `INSERT` statement adds, the rows that an `UPDATE` statement
writes, and the rows that a `DELETE` statement removes. Each of these statements is an edit of the
table, which gives the number of rows concerned. -/

namespace Tabular

/-- The value of an expression that belongs to no row, so that no column name means anything. -/
def Expr.evalAlone (e : Expr) : Except Error Value :=
  if e.hasWildcard then .error .misplacedWildcard else e.eval Row.empty

/-- Checks that names are columns of the schema and that none repeats an earlier one, or one of
`earlier`. -/
def Schema.checkNames (s : Schema) (earlier : List String) : List String → Except Error Unit
  | [] => .ok ()
  | name :: rest =>
    if (s.index? name).isNone then .error (.unknownColumn name)
    else if name ∈ earlier then .error (.duplicateColumn name)
    else s.checkNames (name :: earlier) rest

namespace InsertRow

/-- A value for each name in order, taken from values that are given by name. A value is taken only
once. -/
def arranged : List String → List (String × Value) → Except Error (List Value)
  | [], _ => .ok []
  | name :: rest, given =>
    match given.lookup name with
    | some v => do return v :: (← arranged rest (given.filter (·.1 != name)))
    | none => .error (.missingValue name)

/-- The row that an `INSERT` statement adds to a table with the given schema. -/
def row (q : InsertRow) (s : Schema) : Except Error (List Value) := do
  let expected := if q.columns.isEmpty then s.length else q.columns.length
  if expected ≠ q.values.length then
    throw (.valueCount expected q.values.length)
  let values ← q.values.mapM (·.evalAlone)
  if q.columns.isEmpty then
    return values
  s.checkNames [] q.columns
  arranged s.names (q.columns.zip values)

def apply (q : InsertRow) : Table.Edit Nat := do
  let values ← q.row (← get).schema
  Table.Edit.insert values
  return 1

end InsertRow

/-- The positions of the columns that assignments write to, each with its new value's expression.
No column is written twice; `earlier` are positions written before. -/
def Schema.targets (s : Schema) (earlier : List Nat) :
    List Assignment → Except Error (List (Nat × Expr))
  | [] => .ok []
  | a :: rest =>
    match s.index? a.column with
    | none => .error (.unknownColumn a.column)
    | some k =>
      if k ∈ earlier then .error (.duplicateColumn a.column)
      else do
        a.value.checkScope s
        return (k, a.value) :: (← s.targets (k :: earlier) rest)

/-- The values of a row with the one at a position replaced. -/
def Row.replace (values : List Value) (k : Nat) (v : Value) : Except Fault (List Value) :=
  if k < values.length then .ok (values.set k v) else .error .outOfRange

/-- The values of a row with the one that a target replaces, whose expression is evaluated on `r`.
-/
def Row.assignTo (r : Row) (values : List Value) (target : Nat × Expr) :
    Except (Failure Error) (List Value) := do
  Row.replace values target.1 (← target.2.eval r)

/-- The values of a row after assignments to its positions, all of which see the row as it was. -/
def Row.assign (r : Row) (targets : List (Nat × Expr)) : Except (Failure Error) (List Value) :=
  targets.foldlM r.assignTo r.values

/-- The updates that assignments make of rows, each of which comes with its position. -/
def Row.updates (targets : List (Nat × Expr)) (found : List (Row × Nat)) :
    Except (Failure Error) (List (Nat × List Value)) :=
  found.mapM fun (r, i) => return (i, ← r.assign targets)

/-- The updates of an `UPDATE` statement on a table, one for each row that satisfies the statement's
condition. -/
def Update.plan (q : Update) (t : Table) : Except (Failure Error) (List (Nat × List Value)) := do
  let targets ← t.schema.targets [] q.assignments
  t.schema.checkCondition q.condition
  let found ← t.matching q.condition
  Row.updates targets found

/-- Changes the rows that satisfy the condition of an `UPDATE` statement. All new rows are computed
before the first one is written. -/
def Update.apply (q : Update) : Table.Edit Nat := do
  let updates ← q.plan (← get)
  Table.Edit.update updates

/-- Removes the rows that satisfy the condition of a `DELETE` statement. -/
def Delete.apply (q : Delete) : Table.Edit Nat := do
  let t ← get
  t.schema.checkCondition q.condition
  let found ← t.matching q.condition
  Table.Edit.delete (found.map (·.2))

end Tabular
