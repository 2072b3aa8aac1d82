import Tabular.Proofs.Answers
import Tabular.Proofs.Kinds
import Tabular.Proofs.Queries
import Tabular.Proofs.Scopes

/-! Statements with one condition. A query of all columns, a deletion, and an update that assigns to
columns the values that they have work on the same rows, those that `Row.found` gives, and fail for
the same reason when it fails. The update writes each row as it is, so it leaves its table the same
and is never refused for a value that a row has already. -/

namespace Tabular

variable {s : Schema} {t : Table} {r : Row} {condition : Option Expr}

/-- The statement `SELECT * FROM table` with a condition. -/
def Select.everything (table : String) (condition : Option Expr) : Select :=
  { projection := [.wildcard], table, condition }

theorem Select.labels_everything (table : String) (condition : Option Expr) (s : Schema) :
    (everything table condition).labels s = (fun _ => s.names) <$> s.checkCondition condition := by
  unfold labels everything
  cases s.checkCondition condition <;>
    simp [Expr.labels, bind, Except.bind, pure, Except.pure, Functor.map, Except.map]

theorem Select.answer_everything (table : String) (condition : Option Expr) (s : Schema)
    (rows : List Row) : (everything table condition).answer s rows =
      (fun found => ⟨s.names, found.map (·.values)⟩) <$> Row.found s condition rows := by
  have hpresent (found : List Row) : (everything table condition).present found =
      .ok (found.map (·.values)) := by
    refine mapM_eq_ok_map fun r _ => ?_
    show (do return [r.values].flatten : Except Error (List Value)) = _
    simp [pure, Except.pure]
  unfold answer Row.found
  rw [labels_everything]
  cases s.checkCondition condition with
  | error e => rfl
  | ok _ =>
    show (Row.among condition rows >>= fun found => _) = _ <$> Row.among condition rows
    cases Row.among condition rows with
    | error e => rfl
    | ok found =>
      show ((everything table condition).present found >>= _) = _
      rw [hpresent]
      rfl

/-- The statement `UPDATE table SET c = c`, for each of the columns, with a condition. -/
def Update.identity (table : String) (columns : List String) (condition : Option Expr) : Update :=
  { table, assignments := columns.map fun name => ⟨name, .column name⟩, condition }

section Identity

variable {table : String} {columns : List String}

theorem Row.Fits.eval_column (hr : r.Fits s) {name : String} {k : Nat} {v : Value}
    (hk : s.index? name = some k) (hv : r.values[k]? = some v) :
    (Expr.column name).eval r = .ok v := by
  rw [Expr.eval_column_eq_ok_iff, hr.get?_eq, hk, Option.bind_some, hv]

theorem Update.newValue_identity (hr : r.Fits s) {k : Nat} {v : Value}
    (hv : r.values[k]? = some v) : (identity table columns condition).newValue s r k v = v := by
  unfold newValue
  split
  · next a ha =>
    obtain ⟨name, -, rfl⟩ := List.mem_map.mp (List.mem_of_find?_eq_some ha)
    have hk : s.index? name = some k := by simpa using List.find?_some ha
    rw [hr.eval_column hk hv]
    rfl
  · rfl

theorem Update.replaced_identity (hr : r.Fits s) :
    (identity table columns condition).replaced s r = r := by
  unfold replaced
  split
  · have hvalues : r.values.mapIdx ((identity table columns condition).newValue s r) =
        r.values := by
      refine List.ext_getElem? fun k => ?_
      rw [List.getElem?_mapIdx]
      cases hv : r.values[k]? with
      | none => rfl
      | some v => rw [Option.map_some, newValue_identity hr hv]
    rw [hvalues, r.zip_names_values]
  · rfl

theorem Update.exists_targets_identity (table : String) (condition : Option Expr)
    (hn : columns.Nodup) (hcolumns : ∀ name ∈ columns, name ∈ s.names) :
    ∃ targets, s.targets [] (identity table columns condition).assignments = .ok targets := by
  refine exists_targets_iff.mpr ⟨List.forall_mem_map.mpr hcolumns, ?_, ?_⟩
  · rw [identity, List.map_map]
    exact Schema.nodup_map_index? hn hcolumns
  · exact List.forall_mem_map.mpr fun name hname => Expr.scoped_column_iff.mpr (hcolumns name hname)

theorem Update.accepted_identity (table : String) (h : t.WellFormed) (hn : columns.Nodup)
    (hcolumns : ∀ name ∈ columns, name ∈ t.schema.names) (hscopes : t.schema.Scopes condition)
    (hdecides : ∀ r ∈ t.contents, ∃ b, r.satisfies condition = .ok b) :
    (identity table columns condition).Accepted t.schema t.contents := by
  obtain ⟨hnames, hdistinct, hvalues⟩ :=
    exists_targets_iff.mp (exists_targets_identity table condition hn hcolumns)
  refine ⟨⟨hnames, hdistinct, hvalues, hscopes, hdecides, ?_⟩, ?_, ?_⟩
  · intro r hr _
    refine List.forall_mem_map.mpr fun name hname => ?_
    have hmem : name ∈ r.names := (h.fits_of_mem hr).names ▸ hcolumns name hname
    obtain ⟨v, hv⟩ := Option.isSome_iff_exists.mp (Row.get?_isSome_iff.mpr hmem)
    exact ⟨v, Expr.eval_column_eq_ok_iff.mpr hv⟩
  · intro r hr _
    refine List.forall_mem_map.mpr fun name _ c v hc hv => ?_
    obtain ⟨c', hc', hadmits⟩ := (h.fits_of_mem hr).of_get? (Expr.eval_column_eq_ok_iff.mp hv)
    obtain rfl : c' = c := Option.some.inj (hc'.symm.trans hc)
    exact hadmits
  · intro k c hc hu
    have hsame : (t.contents.map fun r =>
        ((identity table columns condition).replaced t.schema r).values[k]?) =
          t.contents.map (·.values[k]?) :=
      List.map_congr_left fun r hr => by rw [replaced_identity (h.fits_of_mem hr)]
    rw [hsame]
    exact h.nodup_column hc hu

/-- When its assignments have targets, an update that finds no rows fails for that reason. -/
theorem Update.run_apply_error {q : Update} (h : t.WellFormed) {e : Error}
    (htargets : ∃ targets, t.schema.targets [] q.assignments = .ok targets)
    (he : Row.found t.schema q.condition t.contents = .error e) :
    q.apply.run.run t = (.error (.error e), t) := by
  obtain ⟨targets, htargets⟩ := htargets
  have hplan : q.plan t = .error (.error e) := by
    unfold plan
    rw [htargets]
    obtain hscopes | ⟨⟨⟩, hscopes, hamong⟩ := bind_eq_error_iff.mp he
    · rw [hscopes]
      rfl
    · rw [hscopes, h.matching_eq_error hamong]
      rfl
  unfold apply
  rw [run_bind_ok (run_get t), hplan]
  exact run_bind_error (run_lift _ t)

/-- An update of columns with their own values leaves the table as it is, and counts the rows that
it has found. -/
theorem Update.run_identity (table : String) (condition : Option Expr) (h : t.WellFormed)
    (hn : columns.Nodup)
    (hcolumns : ∀ name ∈ columns, name ∈ t.schema.names) :
    (identity table columns condition).apply.run.run t =
      (liftM (List.length <$> Row.found t.schema condition t.contents), t) := by
  cases hfound : Row.found t.schema condition t.contents with
  | ok found =>
    obtain ⟨hscopes, hdecides, rfl⟩ := Row.found_eq_ok_iff.mp hfound
    obtain ⟨after, hrun, hwf, hname, hschema, hcount, hcontents⟩ :=
      run_apply h (accepted_identity table h hn hcolumns hscopes hdecides)
    have hsame : t.contents.map ((identity table columns condition).replaced t.schema) =
        t.contents :=
      (List.map_congr_left fun r hr => replaced_identity (h.fits_of_mem hr)).trans (List.map_id _)
    rw [hrun, h.ext hwf hname hschema hcount (hcontents.trans hsame), List.countP_eq_length_filter]
    rfl
  | error e =>
    exact run_apply_error h (exists_targets_identity table condition hn hcolumns) hfound

end Identity

namespace Database

variable {db : Database} {name : String}

/-- A query of all columns, a deletion and an update of columns with their own values, all with one
condition and each run on the same database, fail for the same reason or succeed on the same rows.
The query shows these rows, the deletion removes and counts them and leaves the others in order, and
the update counts them and leaves the database as it was. -/
theorem Reachable.statements_agree (h : db.Reachable) (name : String) (condition : Option Expr)
    (columns : List String) (hn : columns.Nodup)
    (hcolumns : ∀ t, db.table? name = some t → ∀ c ∈ columns, c ∈ t.schema.names) :
    let query := db.execute (.select (.everything name condition))
    let deletion := db.execute (.delete ⟨name, condition⟩)
    let update := db.execute (.update (.identity name columns condition))
    (∃ e, query.result = .error (.error ⟨.select, e⟩) ∧
      deletion.result = .error (.error ⟨.delete, e⟩) ∧
      update.result = .error (.error ⟨.update, e⟩)) ∨
    ∃ t after rows, db.table? name = some t ∧ t.rows = .ok rows ∧
      let found := rows.filter (·.matches condition)
      query.result = .ok (.selected ⟨t.schema.names, found.map (·.values)⟩) ∧
      deletion.result = .ok (.deleted found.length) ∧
      deletion.database.table? name = some after ∧ after.schema = t.schema ∧
      after.rows = .ok (rows.filter fun r => !r.matches condition) ∧
      update.result = .ok (.updated found.length) ∧ update.database = db := by
  intro query deletion update
  have hquery : query.result =
      .selected <$> (db.query (.everything name condition)).result := result_execute_select db _
  cases ht : db.table? name with
  | none =>
    refine .inl ⟨.unknownTable name, ?_, ?_, ?_⟩
    · rw [hquery, result_query_missing (q := .everything name condition) ht]
      rfl
    · exact execute_change_missing (s := .delete ⟨name, condition⟩) (f := .deleted) rfl ht
    · exact execute_change_missing (s := .update (.identity name columns condition))
        (f := .updated) rfl ht
  | some t =>
    have hwf := (h.wellFormed.of_lookup? ht).2
    rw [result_query h.wellFormed (q := .everything name condition) ht,
      Select.answer_everything] at hquery
    have hrun := Update.run_identity name condition hwf hn (hcolumns t ht)
    have hdelete := (execute_change (s := .delete ⟨name, condition⟩) (f := .deleted) rfl ht).1
    rw [Delete.result_apply hwf, Delete.answer] at hdelete
    cases hfound : Row.found t.schema condition t.contents with
    | error e =>
      have hupdate := (execute_change (s := .update (.identity name columns condition))
        (f := .updated) rfl ht).1
      rw [hrun, hfound] at hupdate
      rw [hfound] at hquery hdelete
      exact .inl ⟨e, hquery, hdelete, hupdate⟩
    | ok found =>
      rw [hfound] at hquery hdelete hrun
      obtain ⟨hscopes, hdecides, rfl⟩ := Row.found_eq_ok_iff.mp hfound
      obtain ⟨-, after, hafter, hwf', hschema, hcontents⟩ :=
        execute_delete (q := ⟨name, condition⟩) h.wellFormed ht ⟨hscopes, hdecides⟩
      obtain ⟨hupdate, hdatabase, -⟩ :=
        execute_update_run (q := .identity name columns condition) ht hrun
      have hcatalog : db.catalog.replace name t = db.catalog := h.wellFormed.replace_self ht
      have hsame : update.database = db :=
        hdatabase.trans (congrArg (fun c => { db with catalog := c }) hcatalog)
      exact .inr ⟨t, after, t.contents, rfl, hwf.rows_eq, hquery, hdelete, hafter, hschema,
        hwf'.rows_eq.trans (by rw [hcontents]), hupdate, hsame⟩

/-- The users with a number above 1 are two. They are shown, removed, or written as they are. -/
theorem statements_agree_users :
    let condition : Option Expr :=
      some (.binary (.column "id") (.comparison .gt) (.literal (.number 1)))
    let query := sample.execute (.select (.everything "users" condition))
    let deletion := sample.execute (.delete ⟨"users", condition⟩)
    let update := sample.execute (.update (.identity "users" ["name", "id"] condition))
    query.result = .ok (.selected ⟨["id", "name"],
      [[.number 2, .string "Bob"], [.number 3, .string "Eve"]]⟩) ∧
      deletion.result = .ok (.deleted 2) ∧ update.result = .ok (.updated 2) ∧
      update.database = sample := by
  intro condition query deletion update
  have hcolumns : ∀ t, sample.table? "users" = some t →
      ∀ c ∈ ["name", "id"], c ∈ t.schema.names := by
    intro t ht
    obtain rfl : sampleUsers = t := Option.some.inj (table?_sample.symm.trans ht)
    decide
  have hquery : query.result = .ok (.selected ⟨["id", "name"],
      [[.number 2, .string "Bob"], [.number 3, .string "Eve"]]⟩) := by decide +kernel
  have hdeletion : deletion.result = .ok (.deleted 2) := by decide +kernel
  have hupdate : update.result = .ok (.updated 2) := by decide +kernel
  obtain ⟨e, he, -⟩ | ⟨-, -, -, -, -, -, -, -, -, -, -, hsame⟩ :=
    sample_reachable.statements_agree "users" condition ["name", "id"] (by decide) hcolumns
  · rw [he] at hquery
    cases hquery
  · exact ⟨hquery, hdeletion, hupdate, hsame⟩

end Database

end Tabular
