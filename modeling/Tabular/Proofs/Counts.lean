import Mathlib.Data.List.DropRight
import Tabular.Proofs.Conditions
import Tabular.Proofs.Lives

/-! The number of rows of a table as a balance. Since the table is there it has as many rows as
`INSERT` statements have reported, less those that `DELETE` statements have reported, and a query of
all its rows shows that many. -/

namespace Tabular

/-- The number of rows by which a statement has made its table longer. -/
def Outcome.added : Outcome → Nat
  | inserted n => n
  | _ => 0

/-- The number of rows by which a statement has made its table shorter. -/
def Outcome.removed : Outcome → Nat
  | deleted n => n
  | _ => 0

open Outcome (added removed)

/-- The statements of a run with their results, in order. -/
abbrev Entries := List Entry

namespace Entries

/-- What a measure of outcomes sums up to over the statements on a table that succeed. -/
def total (measure : Outcome → Nat) (name : String) (entries : Entries) : Nat :=
  (entries.map fun
    | (s, .ok outcome) => if s.table = name then measure outcome else 0
    | (_, .error _) => 0).sum

/-- The part of a run after the last statement that created the table of a name, or all of it if
none did. -/
def sinceCreation (name : String) (entries : Entries) : Entries :=
  entries.rtakeWhile fun entry => !(Turn.of? name entry).any Turn.isCreation

section Total

variable {measure : Outcome → Nat} {name : String} {s : Statement}
  {result : Except (Failure StatementError) Outcome}

theorem total_append (entries later : Entries) : total measure name (entries ++ later) =
    total measure name entries + total measure name later := by
  simp [total]

theorem total_singleton_of_ne (h : s.table ≠ name) : total measure name [(s, result)] = 0 := by
  cases result <;> simp [total, h]

@[simp] theorem total_singleton_ok {outcome : Outcome} :
    total measure s.table [(s, .ok outcome)] = measure outcome := by
  simp [total]

@[simp] theorem total_singleton_error {e : Failure StatementError} :
    total measure name [(s, .error e)] = 0 := by
  simp [total]

end Total

/-- What a statement makes of the number of rows of a table: the table is there before and after it
and changes by the rows reported, or it is not there after it, and none are reported. -/
def Counts (name : String) (before : Option Table) (entry : Entry) (after : Option Table) : Prop :=
  (∃ t t', before = some t ∧ after = some t' ∧
    t'.rowCount + total removed name [entry] = t.rowCount + total added name [entry]) ∨
  after = none ∧ total removed name [entry] = 0 ∧ total added name [entry] = 0

/-- The table has the rows that were added to it and not removed, and no rows were removed before
they were added. -/
structure Balances (name : String) (entries : Entries) (table : Option Table) : Prop where
  count : ∀ t ∈ table, t.rowCount + total removed name entries = total added name entries
  covered : ∀ k, total removed name (entries.take k) ≤ total added name (entries.take k)

theorem Balances.nil {name : String} {table : Option Table} (h : ∀ t ∈ table, t.rowCount = 0) :
    Balances name [] table :=
  ⟨h, fun k => by simp [total]⟩

theorem Balances.append_one {name : String} {entries : Entries} {before after : Option Table}
    {entry : Entry} (h : Balances name entries before) (hentry : Counts name before entry after) :
    Balances name (entries ++ [entry]) after := by
  have hcovered := h.covered entries.length
  rw [List.take_length] at hcovered
  constructor
  · rintro t' rfl
    obtain ⟨t, _, rfl, ⟨⟩, hcount⟩ | ⟨⟨⟩, -⟩ := hentry
    have hbefore := h.count t rfl
    rw [total_append, total_append]
    omega
  · intro k
    obtain hk | hk := Nat.lt_or_ge entries.length k
    · rw [List.take_of_length_le (by simpa using hk), total_append, total_append]
      obtain ⟨t, t', rfl, -, hcount⟩ | ⟨-, hremoved, hadded⟩ := hentry
      · have hbefore := h.count t rfl
        omega
      · omega
    · rw [List.take_append_of_le_length hk]
      exact h.covered k

end Entries

section Step

variable {config : Config} {s : Statement} {before after : Option Table}
  {result : Except (Failure StatementError) Outcome}

/-- A statement that does not create its table changes the number of its rows by those that it
reports. -/
theorem Statement.Step.counts (h : s.Step config before result after)
    (hturn : (Turn.of? s.table (s, result)).any Turn.isCreation = false) :
    Entries.Counts s.table before (s, result) after := by
  cases h with
  | created q => simp [Turn.of?, Turn.isCreation] at hturn
  | inserted q schema rowCount | updated q schema rowCount | deleted q schema rowCount =>
    refine .inl ⟨_, _, rfl, rfl, ?_⟩
    simpa [Outcome.added, Outcome.removed] using rowCount
  | selected q t | taken q t | refused s t =>
    refine .inl ⟨t, t, rfl, rfl, ?_⟩
    simp [Outcome.added, Outcome.removed]
  | dropped q => exact .inr ⟨rfl, Entries.total_singleton_ok, Entries.total_singleton_ok⟩
  | missing | invalid =>
    exact .inr ⟨rfl, Entries.total_singleton_error, Entries.total_singleton_error⟩

/-- A statement that reports no rows as inserted or deleted leaves their number, and so does one
that fails. -/
theorem Statement.Step.rowCount_eq (h : s.Step config before result after)
    (hinserted : ∀ n, result ≠ .ok (.inserted n)) (hdeleted : ∀ n, result ≠ .ok (.deleted n)) :
    ∀ t ∈ before, ∀ t' ∈ after, t'.rowCount = t.rowCount := by
  cases h with
  | created | dropped | missing | invalid => nofun
  | inserted => exact absurd rfl (hinserted 1)
  | updated q schema rowCount =>
    rintro t ⟨⟩ t' ⟨⟩
    exact rowCount
  | deleted => exact absurd rfl (hdeleted _)
  | selected | taken | refused =>
    rintro t ⟨⟩ t' ⟨⟩
    rfl

theorem Statement.Step.rowCount_eq_zero (h : s.Step config before result after)
    (hturn : (Turn.of? s.table (s, result)).any Turn.isCreation = true) :
    ∀ t ∈ after, t.rowCount = 0 := by
  cases h with
  | created q =>
    rintro t ⟨⟩
    rfl
  | missing s | refused s => cases s <;> simp [Turn.of?] at hturn
  | _ => simp [Turn.of?, Turn.isCreation] at hturn

end Step

theorem Catalog.rowCount_preload {c : Catalog} {name : String}
    (h : ∀ t ∈ c.lookup? name, t.rowCount = 0) (tables : List (String × Schema)) :
    ∀ t ∈ (c.preload tables).lookup? name, t.rowCount = 0 := by
  induction tables generalizing c with
  | nil => exact h
  | cons entry rest ih =>
    rw [preload, List.foldl_cons]
    refine ih ?_
    obtain ⟨other, schema⟩ := entry
    cases hc : c.create other schema with
    | error e =>
      simp only [hc]
      exact h
    | ok created =>
      simp only [hc, lookup?_create hc]
      split
      · rintro t ⟨⟩
        rfl
      · exact h

namespace Database

variable {db : Database} {name : String} {t : Table}

theorem execute_counts (h : db.catalog.WellFormed) {s : Statement}
    (hturn : (Turn.of? name (s, (db.execute s).result)).any Turn.isCreation = false) :
    Entries.Counts name (db.table? name) (s, (db.execute s).result)
      ((db.execute s).database.table? name) := by
  by_cases hname : s.table = name
  · subst hname
    exact (execute_step h s).counts hturn
  · rw [table?_execute_of_ne db (Ne.symm hname)]
    have hzero {measure : Outcome → Nat} :
        Entries.total measure name [(s, (db.execute s).result)] = 0 :=
      Entries.total_singleton_of_ne hname
    cases db.table? name with
    | none => exact .inr ⟨rfl, hzero, hzero⟩
    | some t => exact .inl ⟨t, t, rfl, rfl, by rw [hzero, hzero]⟩

theorem rowCount_execute_creation (h : db.catalog.WellFormed) {s : Statement}
    (hturn : (Turn.of? name (s, (db.execute s).result)).any Turn.isCreation = true) :
    ∀ t ∈ (db.execute s).database.table? name, t.rowCount = 0 := by
  by_cases hname : s.table = name
  · subst hname
    exact (execute_step h s).rowCount_eq_zero hturn
  · rw [Turn.of?_of_ne hname] at hturn
    cases hturn

theorem balances_run (config : Config) (tables : List (String × Schema))
    (history : List Statement) (name : String) :
    Entries.Balances name (Entries.sinceCreation name ((preloaded config tables).outcomes history))
      (((preloaded config tables).run history).table? name) := by
  induction history using List.reverseRecOn with
  | nil =>
    exact .nil (Catalog.rowCount_preload (c := .empty) nofun tables)
  | append_singleton history s ih =>
    have hwf := wellFormed_run (wellFormed_preloaded config tables) history
    rw [outcomes_concat, run_concat, Entries.sinceCreation, List.rtakeWhile_concat]
    cases hturn : (Turn.of? name
        (s, (((preloaded config tables).run history).execute s).result)).any Turn.isCreation with
    | true => exact .nil (rowCount_execute_creation hwf hturn)
    | false => exact ih.append_one (execute_counts hwf hturn)

/-- A query of all columns and rows shows each row of its table, in order. -/
theorem result_query_everything (h : db.catalog.WellFormed) (ht : db.table? name = some t) :
    (db.query (.everything name none)).result =
      .ok ⟨t.schema.names, t.contents.map (·.values)⟩ := by
  have hfound : Row.found t.schema none t.contents = .ok t.contents :=
    Row.found_eq_ok_iff.mpr ⟨nofun, fun _ _ => ⟨true, rfl⟩,
      (List.filter_eq_self (p := Row.matches none)).mpr fun _ _ => rfl |>.symm⟩
  rw [result_query (q := .everything name none) h ht, Select.answer_everything, hfound]
  rfl

/-- In a run from a new database, with tables from the start or without, a table has at each moment
as many rows as were reported to be inserted since it is there, less those reported to be deleted,
and these have never been more. Statements that report neither, or fail, do not change the number.
A query of all columns and rows shows so many rows, each as it is read at its position. -/
theorem row_balance (config : Config) (tables : List (String × Schema)) (history : List Statement)
    (ht : ((preloaded config tables).run history).table? name = some t) :
    let db := (preloaded config tables).run history
    let since := Entries.sinceCreation name ((preloaded config tables).outcomes history)
    t.rowCount + Entries.total removed name since = Entries.total added name since ∧
    (∀ k, Entries.total removed name (since.take k) ≤ Entries.total added name (since.take k)) ∧
    (∀ s after, (∀ n, (db.execute s).result ≠ .ok (.inserted n)) →
      (∀ n, (db.execute s).result ≠ .ok (.deleted n)) →
        (db.execute s).database.table? name = some after → after.rowCount = t.rowCount) ∧
    ∃ result, (db.query (.everything name none)).result = .ok result ∧
      (db.execute (.select (.everything name none))).result = .ok (.selected result) ∧
      result.labels = t.schema.names ∧ result.rows.length = t.rowCount ∧
      ∀ i < t.rowCount, ∃ r, t.row? i = .ok (some r) ∧ result.rows[i]? = some r.values := by
  intro db since
  have hwf : db.catalog.WellFormed :=
    wellFormed_run (wellFormed_preloaded config tables) history
  have htable : t.WellFormed := (hwf.of_lookup? ht).2
  have hbalances := balances_run config tables history name
  have hquery : (db.query (.everything name none)).result =
      .ok ⟨t.schema.names, t.contents.map (·.values)⟩ := result_query_everything hwf ht
  refine ⟨hbalances.count t ht, hbalances.covered, ?_, _, hquery, ?_, rfl, ?_, ?_⟩
  · intro s after hinserted hdeleted hafter
    by_cases hname : s.table = name
    · subst hname
      exact (execute_step hwf s).rowCount_eq hinserted hdeleted t ht after hafter
    · rw [table?_execute_of_ne db (Ne.symm hname)] at hafter
      rw [Option.some.inj (hafter.symm.trans ht)]
  · exact result_execute_select_eq_ok_iff.mpr hquery
  · rw [List.length_map, t.length_contents]
  · intro i hi
    refine ⟨t.row i, htable.row?_eq hi, ?_⟩
    simp [Table.contents, hi]

/-- The numbers that were there before the table was dropped do not count, nor does the one that is
refused. -/
theorem row_balance_numbers :
    let columns : List Column := [⟨"n", .int, some .primaryKey⟩]
    let add (n : Int64) : Statement := .insert ⟨"numbers", [], [.literal (.number n)]⟩
    let remove (n : Int64) : Statement :=
      .delete ⟨"numbers", some (.binary (.column "n") (.comparison .lt) (.literal (.number n)))⟩
    let start := preloaded {} [("numbers", ⟨columns⟩)]
    let history := [add 1, remove 2, add 3, .drop ⟨"numbers"⟩, .create ⟨"numbers", columns⟩,
      add 1, add 2, add 2, add 3, remove 2]
    let since := Entries.sinceCreation "numbers" (start.outcomes history)
    ∃ t, (start.run history).table? "numbers" = some t ∧ t.rowCount = 2 ∧
      Entries.total added "numbers" since = 3 ∧ Entries.total removed "numbers" since = 1 := by
  intro columns add remove start history since
  let t : Table := ⟨"numbers", ⟨columns⟩, [⟨"n", .int, #[2, 3]⟩], 2⟩
  have ht : (start.run history).table? "numbers" = some t := by decide +kernel
  have hadded : Entries.total added "numbers" since = 3 := by decide +kernel
  have hcount : t.rowCount + Entries.total removed "numbers" since =
      Entries.total added "numbers" since :=
    (row_balance {} [("numbers", ⟨columns⟩)] history ht).1
  refine ⟨t, ht, rfl, hadded, ?_⟩
  have hrows : t.rowCount = 2 := rfl
  omega

end Database

end Tabular
