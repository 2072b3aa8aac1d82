import Tabular.Engine.Database

/-! A database that several users hold. Each statement runs on the whole database before the next
one does. -/

namespace Tabular

/-- A handle on a database that others may hold too. -/
structure SharedDatabase where
  cell : IO.Ref Database

namespace SharedDatabase

def create (db : Database) : BaseIO SharedDatabase := return { cell := ← IO.mkRef db }

def execute (shared : SharedDatabase) (s : Statement) : BaseIO (Reply Outcome) :=
  shared.cell.modifyGet fun db =>
    let reply := db.execute s
    (reply, reply.database)

def read {α : Type} (shared : SharedDatabase) (f : Database → α) : BaseIO α :=
  return f (← shared.cell.get)

end SharedDatabase

end Tabular
