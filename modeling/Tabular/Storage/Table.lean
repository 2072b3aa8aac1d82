import Tabular.Data.Row
import Tabular.Schema.Basic
import Tabular.Storage.Store

/-! Tables: a schema, one store for each of its columns, and the number of rows. Rows are read and
written whole; the checks here refuse those that would break the schema or repeat a value of a
unique column. -/

namespace Tabular

/-- A table. The stores are those of the schema's columns in order, each with `rowCount` cells. -/
structure Table where
  name : String
  schema : Schema
  stores : List Store
  rowCount : Nat
  deriving DecidableEq

namespace Table

def create (name : String) (schema : Schema) : Table :=
  { name, schema, stores := schema.columns.map Store.ofColumn, rowCount := 0 }

def isEmpty (t : Table) : Bool := t.rowCount == 0

/-- The row at a position, if there are so many. -/
def row? (t : Table) (i : Nat) : Except Fault (Option Row) :=
  if i < t.rowCount then
    match t.stores.mapM (·.get? i) with
    | some values => some <$> Row.ofValues t.schema.names values
    | none => .ok none
  else .ok none

def rows (t : Table) : Except Fault (List Row) := do
  return (← (List.range t.rowCount).mapM t.row?).filterMap id

/-- The store of the first column of a name. -/
def store? (t : Table) (name : String) : Option Store := t.stores.find? (·.name == name)

/-- The stores after one write to each of them, with the value that a row has for it. -/
def writeAll (write : Store → Value → Except Fault Store) :
    List Store → List Value → Except Fault (List Store)
  | s :: stores, v :: values => return (← write s v) :: (← writeAll write stores values)
  | stores, _ => .ok stores

/-- Checks that no unique column holds the value that a new row has for it already. -/
def checkNew : List Column → List Store → List Value → Except Error Unit
  | c :: columns, s :: stores, v :: values =>
    match c.uniqueness with
    | some rule =>
      if s.contains v then .error (.notUnique c.name rule v) else checkNew columns stores values
    | none => checkNew columns stores values
  | _, _, _ => .ok ()

/-- The values that a list of updates gives to the row at a position. Of several for one position
the last counts. -/
def updateFor? (updates : List (Nat × List Value)) (i : Nat) : Option (List Value) :=
  updates.reverse.lookup i

/-- The value of column `k`, whose store is `s`, in the row at a position after `updates`. There is
none where the store does not reach. -/
def valueAfter (k : Nat) (s : Store) (updates : List (Nat × List Value)) (i : Nat) :
    Except Fault (Option Value) :=
  match updateFor? updates i with
  | some values =>
    match values[k]? with
    | some v => .ok (some v)
    | none => .error .outOfRange
  | none => .ok (s.get? i)

/-- The values of column `k`, whose store is `s`, in the first `rowCount` rows after `updates`. -/
def columnAfter (rowCount k : Nat) (s : Store) (updates : List (Nat × List Value)) :
    Except Fault (List Value) := do
  return (← (List.range rowCount).mapM (valueAfter k s updates)).filterMap id

/-- The first value of a list that is among those before it, or in `earlier`. -/
def firstRepeated? (earlier : List Value) : List Value → Option Value
  | [] => none
  | v :: rest => if v ∈ earlier then some v else firstRepeated? (v :: earlier) rest

/-- Checks that no unique column repeats a value after `updates`. The columns given are those from
position `k` on. -/
def checkAfter (rowCount : Nat) (updates : List (Nat × List Value)) (k : Nat) :
    List Column → List Store → Except (Failure Error) Unit
  | [], _ => .ok ()
  | c :: columns, s :: stores =>
    match c.uniqueness with
    | some rule => do
      match firstRepeated? [] (← columnAfter rowCount k s updates) with
      | some v => throw (.error (.notUnique c.name rule v))
      | none => checkAfter rowCount updates (k + 1) columns stores
    | none => checkAfter rowCount updates (k + 1) columns stores
  | c :: columns, [] =>
    if c.isUnique then .error (.fault .outOfRange)
    else checkAfter rowCount updates (k + 1) columns []

def checkRows (s : Schema) (updates : List (Nat × List Value)) : Except Error Unit :=
  updates.forM fun (_, values) => s.checkRow values

/-- A position in its place among positions from last to first. -/
def insertDescending (i : Nat) : List Nat → List Nat
  | [] => [i]
  | j :: rest => if j ≤ i then i :: j :: rest else j :: insertDescending i rest

/-- Positions from last to first. A scan finds them the other way round, and then each is put in
front of those before it. -/
def descending (positions : List Nat) : List Nat :=
  positions.foldl (fun sorted i => insertDescending i sorted) []

/-- The positions of rows that a deletion removes, from last to first. Those past the end count for
nothing, and one is left of equal ones, which stand next to one another by then. -/
def doomed (t : Table) (positions : List Nat) : List Nat :=
  (descending (positions.filter (· < t.rowCount))).eraseReps

/-- The number of rows deleted and the table without the rows at the given positions. -/
def delete (t : Table) (positions : List Nat) : Except Fault (Nat × Table) := do
  let doomed := t.doomed positions
  let stores ← t.stores.mapM (·.remove doomed)
  return (doomed.length, { t with stores, rowCount := t.rowCount - doomed.length })

end Table

end Tabular
