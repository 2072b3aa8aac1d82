import Tabular.Storage.Table

/-! Edits: writes to a table in place. What an edit has written stays when it fails, so that a
refused edit leaves the table as it was only because its checks come before its writes. -/

namespace Tabular.Table

/-- A step of a write to a table. -/
abbrev Edit := ExceptT (Failure Error) (StateM Table)

namespace Edit

def writeStores (write : List Store → Except Fault (List Store)) : Edit Unit := do
  let stores ← write (← get).stores
  modify fun t => { t with stores }

def insert (values : List Value) : Edit Unit := do
  let t ← get
  t.schema.checkRow values
  checkNew t.schema.columns t.stores values
  writeStores (writeAll Store.push · values)
  modify fun t => { t with rowCount := t.rowCount + 1 }

/-- Writes whole rows one after another, each at its position. -/
def writeRows (updates : List (Nat × List Value)) : Edit Unit :=
  updates.forM fun (i, values) => writeStores (writeAll (·.set i ·) · values)

/-- Replaces whole rows, each update being a position and the row's new values, and gives the number
of updates. Unique columns are judged on the table as it would be after all updates, so rows may
trade their values. -/
def update (updates : List (Nat × List Value)) : Edit Nat := do
  let t ← get
  checkRows t.schema updates
  checkAfter t.rowCount updates 0 t.schema.columns t.stores
  writeRows updates
  return updates.length

/-- Removes the rows at the given positions and gives the number of rows removed. -/
def delete (positions : List Nat) : Edit Nat := do
  let (n, t) ← (← get).delete positions
  set t
  return n

/-- What an edit gives on a table and the table after it, unless the edit fails. -/
def on {α : Type} (edit : Edit α) (t : Table) : Except (Failure Error) (α × Table) :=
  let (result, after) := edit.run.run t
  return (← result, after)

end Edit

/-- The table with a row added at the end. -/
def insert (t : Table) (values : List Value) : Except (Failure Error) Table := do
  return (← (Edit.insert values).on t).2

/-- The number of updates and the table with whole rows replaced. -/
def update (t : Table) (updates : List (Nat × List Value)) :
    Except (Failure Error) (Nat × Table) :=
  (Edit.update updates).on t

end Tabular.Table
