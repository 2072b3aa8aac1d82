import Tabular.Engine.Session

/-! Databases: a catalog of tables, and the settings. `Database.execute` runs one statement, and
`Database.query` reads without writing. -/

namespace Tabular

/-- A database. -/
structure Database where
  catalog : Catalog := {}
  config : Config := {}
  deriving DecidableEq

/-- The error of a statement of a kind. -/
structure StatementError where
  verb : Verb
  cause : Error
  deriving DecidableEq, Repr

def StatementError.message (e : StatementError) : String :=
  e.verb.sql ++ " failed: " ++ e.cause.message

def Failure.inStatement (verb : Verb) : Failure Error → Failure StatementError
  | error cause => .error { verb, cause }
  | fault cause => .fault cause

/-- What became of a statement: its result, the database after it, and the records it logged. -/
structure Reply (α : Type) where
  result : Except (Failure StatementError) α
  database : Database
  records : List Log.Record

namespace Database

def table? (db : Database) (name : String) : Option Table := db.catalog.lookup? name

/-- The names of the tables, in the order of text. -/
def tableNames (db : Database) : List String := Text.sorted db.catalog.names

/-- Runs an action on the database, as a statement of a kind. -/
def perform {α : Type} (db : Database) (verb : Verb) (action : Action α) : Reply α :=
  let (result, final) := action.run.run { catalog := db.catalog, records := [] }
  { result := result.mapError (·.inStatement verb),
    database := { db with catalog := final.catalog },
    records := final.records }

/-- Runs a statement. Its text is logged first and its error, if it has one, last. -/
def execute (db : Database) (s : Statement) : Reply Outcome :=
  let reply := db.perform s.verb do
    Action.log .debug ("executing: " ++ s.sql)
    s.run db.config
  match reply.result with
  | .error (.error e) =>
    { reply with records := reply.records ++ [{ level := .debug, text := e.message }] }
  | _ => reply

/-- Runs a `SELECT` statement on a database that stays as it is. Its text is logged. -/
def query (db : Database) (q : Select) : Reply ResultSet :=
  let reply := db.perform .select do
    Action.log .debug ("querying: " ++ q.sql)
    q.run
  { reply with database := db }

end Database

end Tabular
