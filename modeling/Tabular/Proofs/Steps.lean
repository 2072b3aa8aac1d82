import Tabular.Proofs.Inserting
import Tabular.Proofs.Locality
import Tabular.Proofs.Structural
import Tabular.Proofs.Validation

/-! What one statement can do to the table that it names. `Statement.Step` lists the cases, each
with the table before and after it and with what the statement gives, and `execute_step` says that
there are no others. Laws of runs follow from it case by case. -/

namespace Tabular

variable {α β : Type} {s : Schema} {t : Table}

/-! ### Errors -/

theorem Error.isOfTable_of_isStructural {e : Error} (h : e.isStructural = true) :
    e.isOfTable = false := by
  cases e <;> first | rfl | cases h

theorem Expr.failsOnly_checkScope (s : Schema) (e : Expr) :
    FailsOnly (·.isStructural = true) (e.checkScope s) := by
  unfold checkScope
  split
  · exact .error rfl
  · split
    · exact .error rfl
    · exact .ok ()

theorem Schema.failsOnly_checkCondition (s : Schema) (condition : Option Expr) :
    FailsOnly (·.isStructural = true) (s.checkCondition condition) := by
  cases condition with
  | none => exact .ok ()
  | some e => exact e.failsOnly_checkScope s

theorem Select.failsOnly_labels (q : Select) (s : Schema) :
    FailsOnly (·.isStructural = true) (q.labels s) := by
  refine FailsOnly.bind (.mapM fun e _ => ?_) fun _ _ => ?_
  · cases e with
    | wildcard => exact .ok s.names
    | _ => exact (Expr.failsOnly_checkScope s _).bind fun _ _ => .ok _
  · refine (s.failsOnly_checkCondition q.condition).bind fun _ _ => ?_
    exact (FailsOnly.forM fun k _ => k.expr.failsOnly_checkScope s).bind fun _ _ => .ok _

theorem Schema.failsOnly_targets (s : Schema) (earlier : List Nat)
    (assignments : List Assignment) :
    FailsOnly (·.isStructural = true) (s.targets earlier assignments) := by
  induction assignments generalizing earlier with
  | nil => exact .ok []
  | cons a rest ih =>
    rw [targets]
    split
    · exact .error rfl
    · split
      · exact .error rfl
      · refine (a.value.failsOnly_checkScope s).bind fun _ _ => ?_
        exact (ih _).bind fun _ _ => .ok _

theorem Update.failsOnly_resolve (q : Update) (s : Schema) :
    FailsOnly (·.isStructural = true) (q.resolve s) := by
  refine (s.failsOnly_targets [] q.assignments).bind fun _ _ => ?_
  exact (s.failsOnly_checkCondition q.condition).bind fun _ _ => .ok _

/-- The errors that the table itself causes by being there or not are none of those found on it. -/
theorem Expr.failsOnly_eval_row (r : Row) (e : Expr) :
    FailsOnly (·.isOfTable = false) (e.eval r) := by
  induction e with
  | column name =>
    rw [eval]
    split
    · exact .ok _
    · exact .error rfl
  | literal v => exact .ok v
  | wildcard => exact .error rfl
  | binary left op right ihl ihr =>
    refine ihl.bind fun a _ => ihr.bind fun b _ => ?_
    exact fun e he => (Bool.or_eq_false_iff.mp (op.failsOnly_apply a b e he)).2
  | signed sign operand ih =>
    refine ih.bind fun v _ => ?_
    exact fun e he => (Bool.or_eq_false_iff.mp (sign.failsOnly_apply v e he)).2
  | group inner ih => exact ih

theorem Schema.failsOnly_checkNames (s : Schema) (earlier names : List String) :
    FailsOnly (·.isStructural = true) (s.checkNames earlier names) := by
  induction names generalizing earlier with
  | nil => exact .ok ()
  | cons name rest ih =>
    rw [checkNames]
    split
    · exact .error rfl
    · split
      · exact .error rfl
      · exact ih _

theorem InsertRow.failsOnly_arranged (names : List String) (given : List (String × Value)) :
    FailsOnly (·.isOfTable = false) (arranged names given) := by
  induction names generalizing given with
  | nil => exact .ok []
  | cons name rest ih =>
    rw [arranged]
    split
    · exact (ih _).bind fun _ _ => .ok _
    · exact .error rfl

theorem InsertRow.failsOnly_row (q : InsertRow) (s : Schema) :
    FailsOnly (·.isOfTable = false) (q.row s) := by
  have hvalues : FailsOnly (·.isOfTable = false) (q.values.mapM (·.evalAlone)) := by
    refine .mapM fun e _ => ?_
    unfold Expr.evalAlone
    split
    · exact .error rfl
    · exact e.failsOnly_eval_row Row.empty
  unfold row
  dsimp only
  generalize (if q.columns.isEmpty then s.length else q.columns.length) = expected
  split
  · exact .error rfl
  · refine hvalues.bind fun values _ => ?_
    split
    · exact .ok values
    · have hnames : FailsOnly (·.isOfTable = false) (s.checkNames [] q.columns) :=
        fun e he => Error.isOfTable_of_isStructural (s.failsOnly_checkNames [] q.columns e he)
      exact hnames.bind fun _ _ => failsOnly_arranged _ _

theorem InsertRow.failsOnly_answer (q : InsertRow) (t : Table) :
    FailsOnly (·.isOfTable = false) (q.answer t) := by
  refine (q.failsOnly_row t.schema).bind fun values _ => ?_
  refine FailsOnly.bind (fun e he => ?_) fun _ _ => FailsOnly.bind (fun e he => ?_) fun _ _ => .ok 1
  · exact (Bool.or_eq_false_iff.mp (t.schema.failsOnly_checkRow values e he)).2
  · have hrepeated := Table.failsOnly_checkNew _ _ _ e he
    cases e <;> first | rfl | cases hrepeated

/-- An error that no row causes is one of the names and wildcards, when it is found with them. -/
theorem Error.isOfTable_of_check {check : Except Error α} {e : Error}
    (hcheck : FailsOnly (·.isStructural = true) check) (h : ¬e.OfData → check = .error e) :
    e.isOfTable = false := by
  by_contra hnot
  have hdata : ¬e.OfData := not_ofData_of_isOfTable (Bool.not_eq_false _ ▸ hnot)
  exact hnot (isOfTable_of_isStructural (hcheck e (h hdata)))

theorem Schema.failsOnly_checkColumns (max : Nat) (earlier : List String)
    (columns : List Column) :
    FailsOnly (·.isOfTable = false) (checkColumns max earlier columns) := by
  induction columns generalizing earlier with
  | nil => exact .ok ()
  | cons c rest ih =>
    rw [checkColumns]
    split
    · exact .error rfl
    · split
      · split
        · exact .error rfl
        · exact ih _
      · exact ih _

theorem Schema.failsOnly_validate (s : Schema) (table : String) (max : Nat) :
    FailsOnly (·.isOfTable = false) (s.validate table max) := by
  unfold validate
  dsimp only
  split
  · exact .error rfl
  · refine (failsOnly_checkColumns max [] s.columns).bind fun _ _ => ?_
    split
    · exact .error rfl
    · exact .ok ()

/-! ### Steps -/

/-- What a statement can do to the table that it names: the table before it, its result, and the
table after it. -/
inductive Statement.Step (config : Config) : Statement → Option Table →
    Except (Failure StatementError) Outcome → Option Table → Prop where
  | created (q : CreateTable) (valid : Schema.Valid ⟨q.columns⟩ config.maxVarcharSize) :
      Step config (.create q) none (.ok (.created q.table))
        (some (Table.create q.table ⟨q.columns⟩))
  | dropped (q : DropTable) (t : Table) :
      Step config (.drop q) (some t) (.ok (.dropped q.table)) none
  | inserted (q : InsertRow) {t after : Table} (schema : after.schema = t.schema)
      (rowCount : after.rowCount = t.rowCount + 1) :
      Step config (.insert q) (some t) (.ok (.inserted 1)) (some after)
  | updated (q : Update) {t after : Table} {n : Nat} (schema : after.schema = t.schema)
      (rowCount : after.rowCount = t.rowCount) :
      Step config (.update q) (some t) (.ok (.updated n)) (some after)
  | deleted (q : Delete) {t after : Table} {n : Nat} (schema : after.schema = t.schema)
      (rowCount : after.rowCount + n = t.rowCount) :
      Step config (.delete q) (some t) (.ok (.deleted n)) (some after)
  | selected (q : Select) (t : Table) (result : ResultSet) :
      Step config (.select q) (some t) (.ok (.selected result)) (some t)
  | missing (s : Statement) (verb : s.verb ≠ .create) :
      Step config s none (.error (.error ⟨s.verb, .unknownTable s.table⟩)) none
  | taken (q : CreateTable) (t : Table) :
      Step config (.create q) (some t) (.error (.error ⟨.create, .tableAlreadyExists q.table⟩))
        (some t)
  | invalid (q : CreateTable) {e : Error} (cause : e.isOfTable = false) :
      Step config (.create q) none (.error (.error ⟨.create, e⟩)) none
  | refused (s : Statement) (t : Table) {e : Error} (verb : s.verb ≠ .create)
      (cause : e.isOfTable = false) :
      Step config s (some t) (.error (.error ⟨s.verb, e⟩)) (some t)

theorem CreateTable.step_run (config : Config) (q : CreateTable) (session : Session) :
    (Statement.create q).Step config (session.catalog.lookup? q.table)
      (((q.run config).run.run session).1.mapError (·.inStatement .create))
      (((q.run config).run.run session).2.catalog.lookup? q.table) := by
  cases ht : session.catalog.lookup? q.table with
  | some t =>
    rw [run_run_taken config ht, ht]
    exact .taken q t
  | none =>
    cases hvalid : Schema.validate ⟨q.columns⟩ q.table config.maxVarcharSize with
    | error e =>
      rw [run_run_refused ht hvalid, ht]
      exact .invalid q (Schema.failsOnly_validate _ _ _ e hvalid)
    | ok _ =>
      obtain ⟨hresult, hcreated⟩ := run_run ht hvalid
      rw [hresult, Catalog.lookup?_create hcreated, if_pos rfl]
      exact .created q (Schema.validate_eq_ok_iff.mp hvalid)

theorem DropTable.step_run (config : Config) (q : DropTable) (session : Session) :
    (Statement.drop q).Step config (session.catalog.lookup? q.table)
      ((q.run.run.run session).1.mapError (·.inStatement .drop))
      ((q.run.run.run session).2.catalog.lookup? q.table) := by
  cases ht : session.catalog.lookup? q.table with
  | none =>
    rw [run_run_missing ht, ht]
    exact .missing (.drop q) nofun
  | some t =>
    obtain ⟨hresult, hdropped⟩ := run_run ht
    rw [hresult, Catalog.lookup?_drop hdropped, if_pos rfl]
    exact .dropped q t

namespace Database

variable {db : Database}

/-- A statement that edits its table does to it what the edit does, unless the edit is refused. -/
theorem step_change {s : Statement} {edit : Table.Edit Nat} {f : Nat → Outcome}
    (hs : s.run db.config = f <$> Action.change s.table edit) (hverb : s.verb ≠ .create)
    (h : db.catalog.WellFormed)
    (hedit : ∀ t, t.WellFormed →
      (∃ n after, edit.run.run t = (.ok n, after) ∧
        s.Step db.config (some t) (.ok (f n)) (some after)) ∨
      ∃ e, edit.run.run t = (.error (.error e), t) ∧ e.isOfTable = false) :
    s.Step db.config (db.table? s.table) (db.execute s).result
      ((db.execute s).database.table? s.table) := by
  cases ht : db.table? s.table with
  | none =>
    have hresult := execute_change_missing hs ht
    rw [hresult, execute_unchanged h hresult, ht]
    exact .missing s hverb
  | some t =>
    obtain ⟨hresult, hafter⟩ := execute_change hs ht
    rw [hresult, hafter]
    obtain ⟨n, after, hrun, hstep⟩ | ⟨e, hrun, he⟩ := hedit t (h.of_lookup? ht).2
    · rw [hrun]
      exact hstep
    · rw [hrun]
      exact .refused s t hverb he

theorem step_insert (h : db.catalog.WellFormed) (q : InsertRow) :
    (Statement.insert q).Step db.config (db.table? q.table) (db.execute (.insert q)).result
      ((db.execute (.insert q)).database.table? q.table) := by
  refine step_change (s := .insert q) (f := .inserted) rfl nofun h fun t hwf => ?_
  by_cases hq : ∃ values, q.Adds t values
  · obtain ⟨values, hq⟩ := hq
    obtain ⟨after, hrun, -, -, hschema, hcount, -⟩ := q.run_apply hwf hq
    exact .inl ⟨1, after, hrun, .inserted q hschema hcount⟩
  · obtain ⟨e, hrun⟩ := q.run_apply_refused t (not_exists.mp hq)
    have hanswer := q.result_apply hwf
    rw [hrun] at hanswer
    exact .inr ⟨e, hrun, q.failsOnly_answer t e (lift_eq_error_iff.mp hanswer.symm)⟩

theorem step_update (h : db.catalog.WellFormed) (q : Update) :
    (Statement.update q).Step db.config (db.table? q.table) (db.execute (.update q)).result
      ((db.execute (.update q)).database.table? q.table) := by
  refine step_change (s := .update q) (f := .updated) rfl nofun h fun t hwf => ?_
  by_cases hq : q.Accepted t.schema t.contents
  · obtain ⟨after, hrun, -, -, hschema, hcount, -⟩ := q.run_apply hwf hq
    exact .inl ⟨_, after, hrun, .updated q hschema hcount⟩
  · obtain ⟨e, hrun⟩ := q.run_apply_refused hwf hq
    have hanswer := q.result_apply hwf
    rw [hrun] at hanswer
    exact .inr ⟨e, hrun, Error.isOfTable_of_check (q.failsOnly_resolve t.schema) fun hdata =>
      (q.answer_eq_error_iff hwf hdata).mp hanswer.symm⟩

theorem step_delete (h : db.catalog.WellFormed) (q : Delete) :
    (Statement.delete q).Step db.config (db.table? q.table) (db.execute (.delete q)).result
      ((db.execute (.delete q)).database.table? q.table) := by
  refine step_change (s := .delete q) (f := .deleted) rfl nofun h fun t hwf => ?_
  by_cases hq : q.Accepted t.schema t.contents
  · obtain ⟨after, hrun, -, -, hschema, hcontents⟩ := q.run_apply hwf hq
    refine .inl ⟨_, after, hrun, .deleted q hschema ?_⟩
    rw [← after.length_contents, hcontents, ← t.length_contents, ← List.countP_eq_length_filter,
      Nat.add_comm, List.length_eq_countP_add_countP (·.matches q.condition)]
    simp
  · obtain ⟨e, hrun⟩ := q.run_apply_refused hwf hq
    have hanswer := q.result_apply hwf
    rw [hrun] at hanswer
    refine .inr ⟨e, hrun, Error.isOfTable_of_check
      (t.schema.failsOnly_checkCondition q.condition) fun hdata => ?_⟩
    exact (q.answer_eq_error_iff (fun r hr => (hwf.fits_of_mem hr).names) hdata).mp
      (lift_eq_error_iff.mp hanswer.symm)

/-- A query leaves the tables as they are. -/
theorem table?_execute_select (db : Database) (q : Select) (name : String) :
    (db.execute (.select q)).database.table? name = db.table? name := by
  rw [database_execute]
  show ((Outcome.selected <$> q.run).run.run _).2.catalog.lookup? name = _
  rw [run_map]
  cases ht : db.catalog.lookup? q.table with
  | none =>
    rw [q.run_run_missing (show (db.session _).catalog.lookup? q.table = none from ht)]
    rfl
  | some t =>
    rw [q.run_run (show (db.session _).catalog.lookup? q.table = some t from ht)]
    rfl

theorem step_select (h : db.catalog.WellFormed) (q : Select) :
    (Statement.select q).Step db.config (db.table? q.table) (db.execute (.select q)).result
      ((db.execute (.select q)).database.table? q.table) := by
  rw [table?_execute_select, result_execute_select]
  cases ht : db.table? q.table with
  | none =>
    rw [result_query_missing ht]
    exact .missing (.select q) nofun
  | some t =>
    have hwf := (h.of_lookup? ht).2
    rw [result_query h ht]
    cases hanswer : q.answer t.schema t.contents with
    | ok result => exact .selected q t result
    | error e =>
      refine .refused (.select q) t nofun (Error.isOfTable_of_check (q.failsOnly_labels t.schema)
        fun hdata => ?_)
      exact (q.answer_eq_error_iff (fun r hr => (hwf.fits_of_mem hr).names) hdata).mp hanswer

theorem execute_step (h : db.catalog.WellFormed) (s : Statement) :
    s.Step db.config (db.table? s.table) (db.execute s).result
      ((db.execute s).database.table? s.table) := by
  cases s with
  | create q =>
    rw [result_execute, database_execute]
    exact q.step_run db.config (db.session _)
  | select q => exact step_select h q
  | insert q => exact step_insert h q
  | update q => exact step_update h q
  | delete q => exact step_delete h q
  | drop q =>
    rw [result_execute, database_execute]
    exact q.step_run db.config (db.session _)

end Database

end Tabular
