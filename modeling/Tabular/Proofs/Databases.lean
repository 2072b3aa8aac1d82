import Tabular.Proofs.Deleting
import Tabular.Proofs.Dispatch
import Tabular.Proofs.Sessions

/-! Databases that statements have made. The tables of such a database are well formed, whatever it
started with and whatever became of its statements: registering tables without rows keeps that, and
so does each statement. A statement on it ends without a fault, and one that fails changes
nothing. -/

namespace Tabular

variable {α : Type} {c : Catalog} {db : Database}

theorem NoFault.inStatement {x : Except (Failure Error) α} (h : NoFault x) (verb : Verb) :
    NoFault (x.mapError (·.inStatement verb)) := by
  obtain ⟨a, rfl⟩ | ⟨e, rfl⟩ := h.cases
  · exact .ok a
  · exact .error _

namespace Database

/-! ### One statement -/

/-- The session that a statement or a query starts from, in which its text is logged. -/
def session (db : Database) (text : String) : Session :=
  { catalog := db.catalog, records := [{ level := .debug, text }] }

theorem result_execute (db : Database) (s : Statement) : (db.execute s).result =
    ((s.run db.config).run.run (db.session ("executing: " ++ s.sql))).1.mapError
      (·.inStatement s.verb) := by
  unfold execute
  dsimp only
  split <;> rfl

theorem database_execute (db : Database) (s : Statement) : (db.execute s).database =
    { db with
      catalog := ((s.run db.config).run.run (db.session ("executing: " ++ s.sql))).2.catalog } := by
  unfold execute
  dsimp only
  split <;> rfl

theorem wellFormed_session (h : db.catalog.WellFormed) (text : String) :
    (db.session text).WellFormed := h

theorem wellFormed_execute (h : db.catalog.WellFormed) (s : Statement) :
    (db.execute s).database.catalog.WellFormed := by
  rw [database_execute]
  exact (s.sound_run db.config (wellFormed_session h _)).holds

theorem execute_unchanged (h : db.catalog.WellFormed) {s : Statement} {e : Failure StatementError}
    (he : (db.execute s).result = .error e) : (db.execute s).database = db := by
  have hsound := s.sound_run db.config (wellFormed_session h ("executing: " ++ s.sql))
  rw [result_execute] at he
  rw [database_execute]
  cases hrun : ((s.run db.config).run.run (db.session ("executing: " ++ s.sql))).1 with
  | ok o =>
    rw [hrun] at he
    cases he
  | error e' =>
    rw [hsound.unchanged e' hrun]
    rfl

theorem noFault_execute (h : db.catalog.WellFormed) (s : Statement) :
    NoFault (db.execute s).result := by
  rw [result_execute]
  exact (s.sound_run db.config (wellFormed_session h _)).noFault.inStatement s.verb

theorem noFault_query (h : db.catalog.WellFormed) (q : Select) : NoFault (db.query q).result :=
  (q.sound_run (wellFormed_session h ("querying: " ++ q.sql))).noFault.inStatement .select

/-! ### Runs -/

theorem wellFormed_preload (h : c.WellFormed) (tables : List (String × Schema)) :
    (c.preload tables).WellFormed := by
  induction tables generalizing c with
  | nil => exact h
  | cons entry rest ih =>
    rw [Catalog.preload, List.foldl_cons]
    refine ih ?_
    obtain ⟨name, schema⟩ := entry
    cases hc : c.create name schema with
    | ok created =>
      simp only [hc]
      exact h.create hc
    | error e =>
      simp only [hc]
      exact h

theorem wellFormed_run (h : db.catalog.WellFormed) (history : List Statement) :
    (db.run history).catalog.WellFormed := by
  induction history generalizing db with
  | nil => exact h
  | cons s rest ih => exact ih (wellFormed_execute h s)

theorem wellFormed_preloaded (config : Config) (tables : List (String × Schema)) :
    (preloaded config tables).catalog.WellFormed :=
  wellFormed_preload .empty tables

theorem Reachable.wellFormed (h : db.Reachable) : db.catalog.WellFormed := by
  obtain ⟨config, tables, history, rfl⟩ := h
  exact wellFormed_run (wellFormed_preloaded config tables) history

/-- A database with a table of three users, whose numbers are a primary key, beside tables that no
`CREATE TABLE` statement makes. -/
def sample : Database :=
  (preloaded {} [("nothing", ⟨[]⟩), ("twice", ⟨[⟨"a", .int, none⟩, ⟨"a", .bool, none⟩]⟩)]).run
    [.create ⟨"users", [⟨"id", .int, some .primaryKey⟩, ⟨"name", .varchar 3, some .unique⟩]⟩,
      .insert ⟨"users", [], [.literal (.number 1), .literal (.string "Ann")]⟩,
      .insert ⟨"users", [], [.literal (.number 2), .literal (.string "Bob")]⟩,
      .insert ⟨"users", [], [.literal (.number 3), .literal (.string "Eve")]⟩]

theorem sample_reachable : sample.Reachable := ⟨_, _, _, rfl⟩

/-- Whatever tables a database starts with, and whatever statements it is given, its tables are well
formed in the end. -/
theorem wellFormed_run_preloaded (config : Config) (tables : List (String × Schema))
    (history : List Statement) : ((preloaded config tables).run history).catalog.WellFormed :=
  wellFormed_run (wellFormed_preloaded config tables) history

/-- A statement that fails leaves the database as it was, wherever in the statement the failure
arises. -/
theorem Reachable.execute_error_unchanged (h : db.Reachable) {s : Statement} {e : StatementError}
    (he : (db.execute s).result = .error (.error e)) : (db.execute s).database = db :=
  execute_unchanged h.wellFormed he

/-- A division that fails on the last row only comes too late for the rows before it to be changed.
-/
theorem execute_error_unchanged_last_row :
    let s : Statement := .update ⟨"users",
      [⟨"id", .binary (.literal (.number 6)) (.arithmetic .div)
        (.group (.binary (.literal (.number 3)) (.arithmetic .sub) (.column "id")))⟩], none⟩
    (sample.execute s).result = .error (.error ⟨.update, .divisionByZero⟩) ∧
      (sample.execute s).database = sample := by
  intro s
  have he : (sample.execute s).result = .error (.error ⟨.update, .divisionByZero⟩) := by
    decide +kernel
  exact ⟨he, sample_reachable.execute_error_unchanged he⟩

/-- Every statement and every query ends in what it gives or in an error of its own, so no part of
the engine ever breaks what another relies on. Nor does evaluation by dispatch, on the rows of the
tables or on no row. -/
theorem Reachable.ends_without_fault (h : db.Reachable) :
    (∀ s, (∃ outcome, (db.execute s).result = .ok outcome) ∨
      ∃ e, (db.execute s).result = .error (.error e)) ∧
    (∀ q, (∃ result, (db.query q).result = .ok result) ∨
      ∃ e, (db.query q).result = .error (.error e)) ∧
    (∀ name t i, db.table? name = some t → i < t.rowCount →
      ∃ r, t.row? i = .ok (some r) ∧ Row.ofValues t.schema.names r.values = .ok r ∧
        ∀ e : Expr, NoFault (e.dispatch t.schema.names r.values)) ∧
    ∀ e : Expr, NoFault (e.dispatch [] []) := by
  refine ⟨?_, ?_, ?_, ?_⟩
  · intro s
    exact (noFault_execute h.wellFormed s).cases
  · intro q
    exact (noFault_query h.wellFormed q).cases
  · intro name t i ht hi
    obtain ⟨-, hwf⟩ := h.wellFormed.of_lookup? ht
    have hrow := hwf.ofValues_row hi
    refine ⟨t.row i, hwf.row?_eq hi, hrow, ?_⟩
    intro e
    rw [Expr.dispatch_eq hrow]
    exact .lift _
  · intro e
    rw [Expr.dispatch_eq (r := Row.empty) rfl]
    exact .lift _

/-- A query whose condition is no truth value ends in an error. -/
theorem ends_without_fault_sample :
    let q : Select :=
      { projection := [.wildcard], table := "users", condition := some (.column "id") }
    (∃ result, (sample.query q).result = .ok result) ∨
      ∃ e, (sample.query q).result = .error (.error e) := by
  intro q
  exact sample_reachable.ends_without_fault.2.1 q

/-! ### Writes -/

/-- A statement that changes a table gives what the edit of the table gives, and the table is then
what the edit leaves behind. -/
theorem execute_change {s : Statement} {name : String} {edit : Table.Edit Nat} {f : Nat → Outcome}
    {t : Table} (hs : s.run db.config = f <$> Action.change name edit)
    (ht : db.table? name = some t) :
    (db.execute s).result = (f <$> (edit.run.run t).1).mapError (·.inStatement s.verb) ∧
      (db.execute s).database.table? name = some (edit.run.run t).2 := by
  have hsession : (db.session ("executing: " ++ s.sql)).catalog.lookup? name = some t := ht
  rw [result_execute, database_execute, hs, run_map, Action.run_change hsession]
  refine ⟨rfl, ?_⟩
  show (db.catalog.replace name (edit.run.run t).2).lookup? name = _
  rw [Catalog.lookup?_replace, if_pos rfl, show db.catalog.lookup? name = some t from ht]
  rfl

theorem mapError_inStatement_eq_error_iff {x : Except (Failure Error) α} {verb : Verb}
    {e : StatementError} :
    x.mapError (·.inStatement verb) = .error (.error e) ↔
      verb = e.verb ∧ x = .error (.error e.cause) := by
  obtain ⟨verb', cause⟩ := e
  match x with
  | .ok a => simp [Except.mapError]
  | .error (.error e') => simp [Except.mapError, Failure.inStatement]
  | .error (.fault f) => simp [Except.mapError, Failure.inStatement]

theorem execute_change_eq_error_iff {s : Statement} {name : String} {edit : Table.Edit Nat}
    {f : Nat → Outcome} {t : Table} {e : StatementError}
    (hs : s.run db.config = f <$> Action.change name edit) (ht : db.table? name = some t) :
    (db.execute s).result = .error (.error e) ↔
      s.verb = e.verb ∧ (edit.run.run t).1 = .error (.error e.cause) := by
  rw [(execute_change hs ht).1, mapError_inStatement_eq_error_iff, map_eq_error_iff]

theorem execute_change_missing {s : Statement} {name : String} {edit : Table.Edit Nat}
    {f : Nat → Outcome} (hs : s.run db.config = f <$> Action.change name edit)
    (ht : db.table? name = none) :
    (db.execute s).result = .error (.error ⟨s.verb, .unknownTable name⟩) := by
  have hsession : (db.session ("executing: " ++ s.sql)).catalog.lookup? name = none := ht
  rw [result_execute, hs, run_map, Action.run_change_missing hsession]
  rfl

theorem database_execute_change {s : Statement} {name : String} {edit : Table.Edit Nat}
    {f : Nat → Outcome} {t : Table}
    (hs : s.run db.config = f <$> Action.change name edit) (ht : db.table? name = some t) :
    (db.execute s).database =
      { db with catalog := db.catalog.replace name (edit.run.run t).2 } := by
  have hsession : (db.session ("executing: " ++ s.sql)).catalog.lookup? name = some t := ht
  rw [database_execute, hs, run_map, Action.run_change hsession]
  rfl

theorem execute_change_run {s : Statement} {name : String} {edit : Table.Edit Nat}
    {f : Nat → Outcome} {t after : Table} {n : Nat}
    (hs : s.run db.config = f <$> Action.change name edit) (ht : db.table? name = some t)
    (hrun : edit.run.run t = (.ok n, after)) :
    (db.execute s).result = .ok (f n) ∧
      (db.execute s).database = { db with catalog := db.catalog.replace name after } ∧
      (db.execute s).database.table? name = some after := by
  obtain ⟨hresult, hafter⟩ := execute_change hs ht
  have hdatabase := database_execute_change hs ht
  rw [hrun] at hresult hafter hdatabase
  exact ⟨hresult, hdatabase, hafter⟩

/-- A statement that changes a table succeeds when the table is there and the edit is accepted. -/
theorem exists_execute_change_iff {s : Statement} {name : String} {edit : Table.Edit Nat}
    {f : Nat → Outcome} {P : Table → Prop} (hs : s.run db.config = f <$> Action.change name edit)
    (haccepted : ∀ t, db.table? name = some t → P t → ∃ n after, edit.run.run t = (.ok n, after))
    (hrefused : ∀ t, db.table? name = some t → ¬P t →
      ∃ e, edit.run.run t = (.error (.error e), t)) :
    (∃ outcome, (db.execute s).result = .ok outcome) ↔ ∃ t, db.table? name = some t ∧ P t := by
  constructor
  · rintro ⟨outcome, hok⟩
    cases ht : db.table? name with
    | none =>
      rw [execute_change_missing hs ht] at hok
      cases hok
    | some t =>
      refine ⟨t, rfl, ?_⟩
      by_contra hnot
      obtain ⟨e, hrun⟩ := hrefused t ht hnot
      rw [(execute_change hs ht).1, hrun] at hok
      cases hok
  · rintro ⟨t, ht, hp⟩
    obtain ⟨n, after, hrun⟩ := haccepted t ht hp
    exact ⟨f n, (execute_change_run hs ht hrun).1⟩

/-- Two edits that succeed one after the other leave the table behind that the second one does. -/
theorem execute_change_run_twice (s s' : Statement) {name : String} {edit edit' : Table.Edit Nat}
    {f f' : Nat → Outcome} {t between after : Table} {n n' : Nat}
    (hs : ∀ config, s.run config = f <$> Action.change name edit)
    (hs' : ∀ config, s'.run config = f' <$> Action.change name edit')
    (ht : db.table? name = some t) (hrun : edit.run.run t = (.ok n, between))
    (hrun' : edit'.run.run between = (.ok n', after)) :
    (db.execute s).result = .ok (f n) ∧
      ((db.execute s).database.execute s').result = .ok (f' n') ∧
      ((db.execute s).database.execute s').database =
        { db with catalog := db.catalog.replace name after } := by
  obtain ⟨hresult, hdatabase, hbetween⟩ := execute_change_run (hs _) ht hrun
  obtain ⟨hresult', hdatabase', -⟩ := execute_change_run (hs' _) hbetween hrun'
  refine ⟨hresult, hresult', ?_⟩
  rw [hdatabase', hdatabase]
  exact congrArg (fun c => { db with catalog := c }) Catalog.replace_replace

theorem execute_update_run {q : Update} {t after : Table} {n : Nat}
    (ht : db.table? q.table = some t) (hrun : q.apply.run.run t = (.ok n, after)) :
    (db.execute (.update q)).result = .ok (.updated n) ∧
      (db.execute (.update q)).database =
        { db with catalog := db.catalog.replace q.table after } ∧
      (db.execute (.update q)).database.table? q.table = some after :=
  execute_change_run (s := .update q) (f := .updated) rfl ht hrun

/-- An accepted statement replaces the rows of its table and counts those that satisfy its
condition. -/
theorem execute_update {q : Update} {t : Table} (h : db.catalog.WellFormed)
    (ht : db.table? q.table = some t) (hq : q.Accepted t.schema t.contents) :
    (db.execute (.update q)).result =
        .ok (.updated (t.contents.countP (·.matches q.condition))) ∧
      ∃ after, (db.execute (.update q)).database.table? q.table = some after ∧
        after.name = t.name ∧ after.schema = t.schema ∧ after.rowCount = t.rowCount ∧
        after.rows = .ok (t.contents.map (q.replaced t.schema)) := by
  obtain ⟨after, hrun, hwf, hname, hschema, hcount, hcontents⟩ :=
    q.run_apply (h.of_lookup? ht).2 hq
  obtain ⟨hresult, hafter⟩ := execute_change (s := .update q) (f := .updated) rfl ht
  rw [hrun] at hresult hafter
  exact ⟨hresult, after, hafter, hname, hschema, hcount, hwf.rows_eq.trans (by rw [hcontents])⟩

theorem execute_update_refused {q : Update} {t : Table} (h : db.catalog.WellFormed)
    (ht : db.table? q.table = some t) (hq : ¬q.Accepted t.schema t.contents) :
    ∃ e, (db.execute (.update q)).result = .error (.error e) := by
  obtain ⟨e, hrun⟩ := q.run_apply_refused (h.of_lookup? ht).2 hq
  obtain ⟨hresult, -⟩ := execute_change (s := .update q) (f := .updated) rfl ht
  rw [hrun] at hresult
  exact ⟨_, hresult⟩

theorem exists_execute_update_iff {q : Update} (h : db.catalog.WellFormed) :
    (∃ outcome, (db.execute (.update q)).result = .ok outcome) ↔
      ∃ t, db.table? q.table = some t ∧ q.Accepted t.schema t.contents := by
  refine exists_execute_change_iff (s := .update q) (f := .updated) rfl (fun t ht hq => ?_) ?_
  · obtain ⟨after, hrun, -⟩ := q.run_apply (h.of_lookup? ht).2 hq
    exact ⟨_, after, hrun⟩
  · exact fun t ht hq => q.run_apply_refused (h.of_lookup? ht).2 hq

/-- An accepted statement leaves the rows of its table that do not satisfy its condition and counts
those that do. -/
theorem execute_delete {q : Delete} {t : Table} (h : db.catalog.WellFormed)
    (ht : db.table? q.table = some t) (hq : q.Accepted t.schema t.contents) :
    (db.execute (.delete q)).result =
        .ok (.deleted (t.contents.countP (·.matches q.condition))) ∧
      ∃ after, (db.execute (.delete q)).database.table? q.table = some after ∧
        after.WellFormed ∧ after.schema = t.schema ∧
        after.contents = t.contents.filter fun r => !r.matches q.condition := by
  obtain ⟨after, hrun, hwf, -, hschema, hcontents⟩ := q.run_apply (h.of_lookup? ht).2 hq
  obtain ⟨hresult, hafter⟩ := execute_change (s := .delete q) (f := .deleted) rfl ht
  rw [hrun] at hresult hafter
  exact ⟨hresult, after, hafter, hwf, hschema, hcontents⟩

theorem exists_execute_delete_iff {d : Delete} (h : db.catalog.WellFormed) :
    (∃ outcome, (db.execute (.delete d)).result = .ok outcome) ↔
      ∃ t, db.table? d.table = some t ∧ d.Accepted t.schema t.contents := by
  refine exists_execute_change_iff (s := .delete d) (f := .deleted) rfl (fun t ht hd => ?_) ?_
  · obtain ⟨after, hrun, -⟩ := d.run_apply (h.of_lookup? ht).2 hd
    exact ⟨_, after, hrun⟩
  · exact fun t ht hd => d.run_apply_refused (h.of_lookup? ht).2 hd

theorem accepted_of_execute_delete {q : Delete} {outcome : Outcome} (h : db.catalog.WellFormed)
    (hok : (db.execute (.delete q)).result = .ok outcome) :
    ∃ t, db.table? q.table = some t ∧ q.Accepted t.schema t.contents :=
  (exists_execute_delete_iff h).mp ⟨outcome, hok⟩

/-- An `UPDATE` statement succeeds exactly when its table is there and it is accepted on the table's
rows. It counts the rows that satisfy its condition and replaces them all at once, so that rows may
trade the values of a unique column. -/
theorem Reachable.update_spec (h : db.Reachable) (q : Update) :
    ((∃ outcome, (db.execute (.update q)).result = .ok outcome) ↔
      ∃ t rows, db.table? q.table = some t ∧ t.rows = .ok rows ∧ q.Accepted t.schema rows) ∧
    ∀ t rows, db.table? q.table = some t → t.rows = .ok rows →
      (q.Accepted t.schema rows →
        (db.execute (.update q)).result =
          .ok (.updated (rows.countP (·.matches q.condition))) ∧
        ∃ after, (db.execute (.update q)).database.table? q.table = some after ∧
          after.name = t.name ∧ after.schema = t.schema ∧ after.rowCount = t.rowCount ∧
          after.rows = .ok (rows.map (q.replaced t.schema))) ∧
      ∀ (k : Nat) (c : Column), t.schema.columns[k]? = some c → c.isUnique = true →
        (rows.map fun r => (q.replaced t.schema r).values[k]?).Perm (rows.map (·.values[k]?)) →
        (rows.map fun r => (q.replaced t.schema r).values[k]?).Nodup := by
  constructor
  · constructor
    · rintro ⟨outcome, hok⟩
      cases ht : db.table? q.table with
      | none =>
        rw [execute_change_missing (s := .update q) (f := .updated) rfl ht] at hok
        cases hok
      | some t =>
        refine ⟨t, t.contents, rfl, (h.wellFormed.of_lookup? ht).2.rows_eq, ?_⟩
        by_contra hq
        obtain ⟨e, he⟩ := execute_update_refused h.wellFormed ht hq
        rw [he] at hok
        cases hok
    · rintro ⟨t, rows, ht, hrows, hq⟩
      obtain rfl : t.contents = rows :=
        Except.ok.inj ((h.wellFormed.of_lookup? ht).2.rows_eq.symm.trans hrows)
      exact ⟨_, (execute_update h.wellFormed ht hq).1⟩
  · intro t rows ht hrows
    have hwf := (h.wellFormed.of_lookup? ht).2
    obtain rfl : t.contents = rows := Except.ok.inj (hwf.rows_eq.symm.trans hrows)
    refine ⟨execute_update h.wellFormed ht, ?_⟩
    intro k c hc hu hperm
    have hbefore := hwf.nodup_column hc hu
    exact hperm.nodup_iff.mpr hbefore

/-- The users of the sample trade their numbers. -/
theorem update_spec_trade :
    let q : Update := ⟨"users",
      [⟨"id", .binary (.literal (.number 4)) (.arithmetic .sub) (.column "id")⟩], none⟩
    (sample.execute (.update q)).result = .ok (.updated 3) ∧
      ∃ t rows, sample.table? q.table = some t ∧ t.rows = .ok rows ∧ q.Accepted t.schema rows := by
  intro q
  have hok : (sample.execute (.update q)).result = .ok (.updated 3) := by decide +kernel
  exact ⟨hok, (sample_reachable.update_spec q).1.mp ⟨_, hok⟩⟩

end Database

end Tabular
