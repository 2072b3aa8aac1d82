import Tabular.Engine.Database

/-! Runs of statements. A run starts from a database whose catalog may hold tables already, and goes
on with the next statement whatever became of the one before it. -/

namespace Tabular

/-- The catalog with tables without rows under names, registered one after another. Nothing is
checked of their schemas, and a name that is taken keeps its table. -/
def Catalog.preload (c : Catalog) (tables : List (String × Schema)) : Catalog :=
  tables.foldl (fun c (name, schema) =>
    match c.create name schema with
    | .ok created => created
    | .error _ => c) c

namespace Database

/-- A new database whose catalog has tables without rows from the start. -/
def preloaded (config : Config) (tables : List (String × Schema)) : Database :=
  { catalog := Catalog.empty.preload tables, config }

def run (db : Database) (history : List Statement) : Database :=
  history.foldl (fun db s => (db.execute s).database) db

/-- The database is what statements make of a new database, with tables from the start or
without. -/
def Reachable (db : Database) : Prop :=
  ∃ config tables history, db = (preloaded config tables).run history

end Database

end Tabular
