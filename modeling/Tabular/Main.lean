import Tabular.Log.Console
import Tabular.Shared

/-! A demonstration: statements on a table of users, with what each of them shows on standard output
and the log on standard error. -/

namespace Tabular.Demonstration

/-- The statements. The third row repeats a key, so it is refused. -/
def statements : List Statement :=
  let name (s : String) : Expr := .column s
  let number (n : Int64) : Expr := .literal (.number n)
  let text (s : String) : Expr := .literal (.string s)
  [.create
      { table := "users",
        columns :=
          [{ name := "id", type := .int, uniqueness := some .primaryKey },
            { name := "name", type := .varchar 16 },
            { name := "age", type := .int }] },
    .insert { table := "users", values := [number 1, text "Alice", number 30] },
    .insert
      { table := "users",
        columns := ["age", "id", "name"],
        values := [number 17, number 2, text "Bob"] },
    .insert { table := "users", values := [number 1, text "Mallory", number 40] },
    .update
      { table := "users",
        assignments := [⟨"age", .binary (name "age") (.arithmetic .add) (number 1)⟩],
        condition := some (.binary (name "name") (.comparison .eq) (text "Bob")) },
    .select
      { projection := [.wildcard],
        table := "users",
        order := [{ expr := name "age", descending := true }] },
    .delete
      { table := "users",
        condition := some (.binary (name "age") (.comparison .lt) (number 18)) },
    .select
      { projection := [name "name", .binary (name "age") (.arithmetic .mul) (number 12)],
        table := "users" }]

/-- What an outcome shows. -/
def shown : Outcome → String
  | .created table => "Created(" ++ Text.quoted table ++ ")"
  | .dropped table => "Dropped(" ++ Text.quoted table ++ ")"
  | .inserted n => "Inserted(" ++ n.repr ++ ")"
  | .updated n => "Updated(" ++ n.repr ++ ")"
  | .deleted n => "Deleted(" ++ n.repr ++ ")"
  | .selected result =>
    let lines := result.labels :: result.rows.map (·.map Value.sql)
    "\n".intercalate (lines.map (" | ".intercalate ·))

/-- What the log shows of records. -/
def logged (config : Config) (records : List Log.Record) : String :=
  let console := (Log.Console.init {} config).2
  (records.foldl Log.Console.write console).output

end Tabular.Demonstration

open Tabular Tabular.Demonstration in
/-- Runs the statements one after another on a new database. -/
def main : IO Unit := do
  let config : Config := { threshold := .upTo .debug }
  let shared ← SharedDatabase.create { config }
  for s in statements do
    IO.println ("> " ++ s.sql)
    let reply ← shared.execute s
    IO.eprint (logged config reply.records)
    match reply.result with
    | .ok outcome => IO.println (shown outcome)
    | .error (.error e) => IO.eprint (logged config [{ level := .error, text := e.message }])
    | .error (.fault _) => IO.eprint (logged config [{ level := .error, text := "internal fault" }])
