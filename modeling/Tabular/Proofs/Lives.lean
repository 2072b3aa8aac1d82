import Tabular.Proofs.Schemas

/-! The lives of tables. Along a run a table is created and dropped by turns, and in between it has
the columns that it was created with. Statements are told apart by this alone whether they find it:
creating a table fails for its name when it is there, and all else when it is not. -/

namespace Tabular

/-- A statement of a run with its result. -/
abbrev Entry := Statement × Except (Failure StatementError) Outcome

/-- A turning point in the life of a table: it was created, with its columns, or dropped. -/
inductive Turn where
  | created (columns : List Column)
  | dropped
  deriving DecidableEq, Repr

namespace Turn

def isCreation : Turn → Bool
  | created _ => true
  | dropped => false

/-- The schema that a table has from a turning point on, if it is there. -/
def schema? : Turn → Option Schema
  | created columns => some ⟨columns⟩
  | dropped => none

/-- The turning point of the table of a name that a statement is with its result, if it is one. -/
def of? (name : String) (entry : Entry) : Option Turn :=
  if entry.1.table = name then
    match entry with
    | (.create q, .ok _) => some (.created q.columns)
    | (.drop _, .ok _) => some .dropped
    | _ => none
  else none

theorem of?_of_ne {name : String} {entry : Entry} (h : entry.1.table ≠ name) :
    of? name entry = none := if_neg h

/-- A table's turning points are creations and droppings by turns, a creation first, and the table
is as the last of them has left it. -/
structure Lead (turns : List Turn) (table : Option Table) : Prop where
  alternate : ∀ i turn, turns[i]? = some turn → (turn.isCreation = true ↔ i % 2 = 0)
  present : table.isSome = true ↔ turns.length % 2 = 1
  schema : table.map (·.schema) = turns.getLast?.bind schema?

end Turn

section Step

variable {config : Config} {s : Statement} {q : CreateTable} {before after : Option Table}
  {result : Except (Failure StatementError) Outcome}

/-- A statement is no turning point of its table and leaves the schema, or it creates the table, or
it drops the table. -/
theorem Statement.Step.turn (h : s.Step config before result after) :
    Turn.of? s.table (s, result) = none ∧ after.map (·.schema) = before.map (·.schema) ∨
    (∃ columns, Turn.of? s.table (s, result) = some (.created columns) ∧
      before = none ∧ after.map (·.schema) = some ⟨columns⟩) ∨
    Turn.of? s.table (s, result) = some .dropped ∧ before.isSome = true ∧ after = none := by
  cases h with
  | created q => exact .inr (.inl ⟨q.columns, if_pos rfl, rfl, rfl⟩)
  | dropped q t => exact .inr (.inr ⟨if_pos rfl, rfl, rfl⟩)
  | inserted q schema | updated q schema | deleted q schema =>
    exact .inl ⟨if_pos rfl, congrArg some schema⟩
  | selected | taken | invalid => exact .inl ⟨if_pos rfl, rfl⟩
  | missing s | refused s =>
    refine .inl ⟨?_, rfl⟩
    cases s <;> exact if_pos rfl

/-- A table that a statement has made has no rows. -/
theorem Statement.Step.eq_create {outcome : Outcome}
    (h : (Statement.create q).Step config before (.ok outcome) after) :
    after = some (Table.create q.table ⟨q.columns⟩) := by
  cases h
  rfl

theorem Statement.Step.unknownTable_iff (h : s.Step config before result after)
    (hverb : s.verb ≠ .create) :
    result = .error (.error ⟨s.verb, .unknownTable s.table⟩) ↔ before = none := by
  cases h with
  | created q | taken q t | invalid q => exact absurd rfl hverb
  | missing => simp
  | refused s t verb cause =>
    constructor
    · rintro ⟨⟩
      cases cause
    · nofun
  | _ => constructor <;> nofun

theorem Statement.Step.tableAlreadyExists_iff
    (h : (Statement.create q).Step config before result after) :
    result = .error (.error ⟨.create, .tableAlreadyExists q.table⟩) ↔ before.isSome = true := by
  cases h with
  | created => constructor <;> nofun
  | taken => simp
  | invalid q cause =>
    constructor
    · rintro ⟨⟩
      cases cause
    · nofun
  | missing s verb | refused s t verb => exact absurd rfl verb

end Step

namespace Turn.Lead

variable {turns : List Turn} {before after : Option Table}

theorem append_one {turn : Turn} (h : Lead turns before)
    (halternate : turn.isCreation = true ↔ turns.length % 2 = 0)
    (hpresent : after.isSome = true ↔ turn.isCreation = true)
    (hschema : after.map (·.schema) = turn.schema?) : Lead (turns ++ [turn]) after := by
  constructor
  · intro i turn' hi
    rw [List.getElem?_append] at hi
    split at hi
    · exact h.alternate i turn' hi
    · next hlt =>
      rw [List.getElem?_singleton] at hi
      split at hi
      · cases hi
        rw [halternate]
        omega
      · cases hi
  · rw [hpresent, halternate, List.length_append, List.length_singleton]
    omega
  · rw [hschema, List.getLast?_concat, Option.bind_some]

/-- A statement on the table adds a turning point to those that have led up to it, or none. -/
theorem step {config : Config} {s : Statement} {result : Except (Failure StatementError) Outcome}
    (h : Lead turns before) (hs : s.Step config before result after) :
    Lead (turns ++ (of? s.table (s, result)).toList) after := by
  obtain ⟨hturn, hschema⟩ | ⟨columns, hturn, rfl, hschema⟩ | ⟨hturn, hsome, rfl⟩ := hs.turn
  · rw [hturn, Option.toList_none, List.append_nil]
    refine ⟨h.alternate, ?_, hschema.trans h.schema⟩
    rw [← h.present, ← Option.isSome_map, hschema, Option.isSome_map]
  · have heven : ¬turns.length % 2 = 1 := fun hodd => nomatch h.present.mpr hodd
    rw [hturn]
    refine h.append_one (iff_of_true rfl (by omega)) (iff_of_true ?_ rfl) hschema
    rw [← Option.isSome_map, hschema]
    rfl
  · have hodd : turns.length % 2 = 1 := h.present.mp hsome
    rw [hturn]
    exact h.append_one (iff_of_false nofun (by omega)) (iff_of_false nofun nofun) rfl

end Turn.Lead

namespace Database

theorem run_concat (db : Database) (history : List Statement) (s : Statement) :
    db.run (history ++ [s]) = ((db.run history).execute s).database := by
  rw [run, run, List.foldl_append]
  rfl

theorem outcomes_concat (db : Database) (history : List Statement) (s : Statement) :
    db.outcomes (history ++ [s]) =
      db.outcomes history ++ [(s, ((db.run history).execute s).result)] := by
  induction history generalizing db with
  | nil => rfl
  | cons s' rest ih =>
    rw [List.cons_append, outcomes, ih, outcomes, List.cons_append, run_cons]

theorem config_run (db : Database) (history : List Statement) :
    (db.run history).config = db.config := by
  induction history generalizing db with
  | nil => rfl
  | cons s rest ih => rw [run_cons, ih, config_execute]

/-- The turning points of the table of a name in a run, in order. -/
def turns (db : Database) (history : List Statement) (name : String) : List Turn :=
  (db.outcomes history).filterMap (Turn.of? name)

theorem turns_concat (db : Database) (history : List Statement) (s : Statement) (name : String) :
    db.turns (history ++ [s]) name = db.turns history name ++
      (Turn.of? name (s, ((db.run history).execute s).result)).toList := by
  rw [turns, outcomes_concat, List.filterMap_append, List.filterMap_cons, List.filterMap_nil]
  cases Turn.of? name (s, ((db.run history).execute s).result) <;> rfl

/-- In a run from a database without tables the turning points of a table lead up to what it is. -/
theorem lead_turns (config : Config) (history : List Statement) (name : String) :
    Turn.Lead (({ config } : Database).turns history name)
      ((({ config } : Database).run history).table? name) := by
  induction history using List.reverseRecOn with
  | nil => exact ⟨nofun, iff_of_false nofun nofun, rfl⟩
  | append_singleton history s ih =>
    rw [turns_concat, run_concat]
    by_cases hname : name = s.table
    · subst hname
      exact ih.step (execute_step (wellFormed_run .empty history) s)
    · rw [table?_execute_of_ne _ hname, Turn.of?_of_ne (Ne.symm hname), Option.toList_none,
        List.append_nil]
      exact ih

/-- In a run from a database without tables the successful `CREATE TABLE` and `DROP TABLE`
statements of a name come by turns, a `CREATE TABLE` first, and the table is there when the last of
them was that. It then has the columns given there, which are valid, and it starts without rows. A
statement finds no table exactly when it is not there, and one that creates it finds it exactly when
it is. -/
theorem table_life (config : Config) (history : List Statement) (name : String) :
    let db := ({ config } : Database).run history
    let turns := ({ config } : Database).turns history name
    (∀ i turn, turns[i]? = some turn → (turn.isCreation = true ↔ i % 2 = 0)) ∧
    ((db.table? name).isSome = true ↔ ∃ columns, turns.getLast? = some (.created columns)) ∧
    (∀ columns, turns.getLast? = some (.created columns) →
      ∃ t, db.table? name = some t ∧ t.schema = ⟨columns⟩ ∧
        Schema.Valid ⟨columns⟩ config.maxVarcharSize) ∧
    (∀ columns outcome, (db.execute (.create ⟨name, columns⟩)).result = .ok outcome →
      ∃ t, (db.execute (.create ⟨name, columns⟩)).database.table? name = some t ∧
        t.schema = ⟨columns⟩ ∧ t.rowCount = 0 ∧ t.rows = .ok []) ∧
    (∀ s : Statement, s.table = name → s.verb ≠ .create →
      ((db.execute s).result = .error (.error ⟨s.verb, .unknownTable name⟩) ↔
        db.table? name = none)) ∧
    ∀ columns, (db.execute (.create ⟨name, columns⟩)).result =
        .error (.error ⟨.create, .tableAlreadyExists name⟩) ↔
      (db.table? name).isSome = true := by
  intro db turns
  have hlead : Turn.Lead turns (db.table? name) := lead_turns config history name
  have hgrown : db.Grown := ⟨config, history, rfl⟩
  have hwf : db.catalog.WellFormed := hgrown.reachable.wellFormed
  have hcreate (columns : List Column) := execute_step hwf (.create ⟨name, columns⟩)
  refine ⟨hlead.alternate, ?_, ?_, ?_, ?_, fun columns => (hcreate columns).tableAlreadyExists_iff⟩
  · rw [← Option.isSome_map, hlead.schema]
    cases turns.getLast? with
    | none => simp
    | some turn => cases turn <;> simp [Turn.schema?]
  · intro columns hlast
    have hschema := hlead.schema
    rw [hlast, Option.bind_some] at hschema
    obtain ⟨t, ht, hcolumns⟩ := Option.map_eq_some_iff.mp hschema
    have hvalid := hgrown.declared name t ht
    rw [hcolumns, config_run] at hvalid
    exact ⟨t, ht, hcolumns, hvalid⟩
  · intro columns outcome hok
    have hstep := hcreate columns
    rw [hok] at hstep
    exact ⟨_, hstep.eq_create, rfl, rfl, rfl⟩
  · rintro s rfl hverb
    exact (execute_step hwf s).unknownTable_iff hverb

/-- Statements that fail are no turning points. -/
example :
    let create (type : ColumnType) : Statement := .create ⟨"t", [⟨"a", type, none⟩]⟩
    ({} : Database).turns [create .int, create .bool, .drop ⟨"t"⟩, .drop ⟨"t"⟩, create .bool] "t" =
      [.created [⟨"a", .int, none⟩], .dropped, .created [⟨"a", .bool, none⟩]] := by
  decide +kernel

end Database

end Tabular
