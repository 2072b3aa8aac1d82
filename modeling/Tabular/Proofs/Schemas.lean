import Tabular.Proofs.Steps

/-! Schemas that `CREATE TABLE` statements declare. A table that a statement makes has a valid
schema, and no statement changes the schema of a table. So in a database that had no tables at first
all schemas are valid; tables that are there from the start have whatever schemas they are given. -/

namespace Tabular

/-- A statement leaves a valid schema valid, and gives a new table one. -/
theorem Statement.Step.valid {config : Config} {s : Statement} {before after : Option Table}
    {result : Except (Failure StatementError) Outcome} (h : s.Step config before result after)
    (hbefore : ∀ t ∈ before, t.schema.Valid config.maxVarcharSize) :
    ∀ t ∈ after, t.schema.Valid config.maxVarcharSize := by
  cases h with
  | created q valid =>
    rintro t ⟨⟩
    exact valid
  | dropped => nofun
  | inserted q schema | updated q schema | deleted q schema =>
    rintro t ⟨⟩
    exact schema ▸ hbefore _ rfl
  | selected | missing | taken | invalid | refused => exact hbefore

namespace Database

variable {db : Database} {name : String} {t : Table}

/-- The tables of the database have valid schemas. -/
def Declared (db : Database) : Prop :=
  ∀ name t, db.table? name = some t → t.schema.Valid db.config.maxVarcharSize

/-- The database is what statements make of a new database without tables. -/
def Grown (db : Database) : Prop := ∃ config history, db = ({ config } : Database).run history

theorem Grown.reachable (h : db.Grown) : db.Reachable := by
  obtain ⟨config, history, rfl⟩ := h
  exact ⟨config, [], history, rfl⟩

theorem declared_execute (h : db.catalog.WellFormed) (hv : db.Declared) (s : Statement) :
    (db.execute s).database.Declared := by
  intro name t ht
  rw [config_execute]
  by_cases hname : name = s.table
  · subst hname
    exact (execute_step h s).valid (hv s.table) t ht
  · rw [table?_execute_of_ne db hname] at ht
    exact hv name t ht

theorem declared_run (h : db.catalog.WellFormed) (hv : db.Declared) (history : List Statement) :
    (db.run history).Declared := by
  induction history generalizing db with
  | nil => exact hv
  | cons s rest ih => exact ih (wellFormed_execute h s) (declared_execute h hv s)

/-- In a database that started without tables all schemas are valid. -/
theorem Grown.declared (h : db.Grown) : db.Declared := by
  obtain ⟨config, history, rfl⟩ := h
  have hnone : ({ config } : Database).Declared := by
    intro name t ht
    cases ht
  exact declared_run .empty hnone history

end Database

end Tabular
