import Tabular.Config
import Tabular.Engine.Change
import Tabular.Storage.Catalog

/-! Running statements. An action works on a session, which is the catalog and the log so far, and
what it has written to them, or to a table of the catalog, stays when it fails. That a failed
statement has written nothing to the catalog is thus a law of the statements and not of the way they
are run. -/

namespace Tabular

/-- What a running statement works on: the tables, and the records logged so far. -/
structure Session where
  catalog : Catalog
  records : List Log.Record
  deriving DecidableEq

/-- A step of a running statement. -/
abbrev Action := ExceptT (Failure Error) (StateM Session)

/-- What a statement did. -/
inductive Outcome where
  | created (table : String)
  | dropped (table : String)
  | inserted (rows : Nat)
  | updated (rows : Nat)
  | deleted (rows : Nat)
  | selected (result : ResultSet)
  deriving DecidableEq, Repr

/-- The number of rows that a statement wrote, if it writes rows. -/
def Outcome.affected? : Outcome → Option Nat
  | inserted n => some n
  | updated n => some n
  | deleted n => some n
  | _ => none

namespace Action

def log (level : Log.Level) (text : String) : Action Unit :=
  modify fun s => { s with records := s.records ++ [{ level, text }] }

def setCatalog (catalog : Catalog) : Action Unit := modify fun s => { s with catalog }

/-- The table of a name, which must be there. -/
def table (name : String) : Action Table := do
  let c := (← get).catalog
  c.find name

/-- Edits the table of a name, which must be there. What the edit has written stays when it fails.
-/
def change (name : String) (edit : Table.Edit Nat) : Action Nat := do
  let (result, edited) := edit.run.run (← table name)
  setCatalog ((← get).catalog.replace name edited)
  result

end Action

def CreateTable.run (config : Config) (q : CreateTable) : Action Outcome := do
  let c := (← get).catalog
  if (c.lookup? q.table).isSome then
    throw (.error (.tableAlreadyExists q.table))
  let schema : Schema := { columns := q.columns }
  schema.validate q.table config.maxVarcharSize
  let created ← c.create q.table schema
  Action.setCatalog created
  Action.log .info ("created table " ++ q.table)
  return .created q.table

def DropTable.run (q : DropTable) : Action Outcome := do
  let (t, rest) ← (← get).catalog.drop q.table
  Action.setCatalog rest
  Action.log .info ("dropped table " ++ q.table ++ " (" ++ t.rowCount.repr ++ " rows)")
  return .dropped q.table

def Select.run (q : Select) : Action ResultSet := do
  let t ← Action.table q.table
  t.select q

def Statement.run (config : Config) : Statement → Action Outcome
  | create q => q.run config
  | select q => .selected <$> q.run
  | insert q => .inserted <$> Action.change q.table q.apply
  | update q => .updated <$> Action.change q.table q.apply
  | delete q => .deleted <$> Action.change q.table q.apply
  | drop q => q.run

end Tabular
