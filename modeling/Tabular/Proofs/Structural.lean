import Tabular.Proofs.Answers
import Tabular.Proofs.Queries
import Tabular.Proofs.Scopes

/-! Errors that the schema decides. Before a statement looks at a row it checks its names and its
wildcards, and once it has done so no row makes it fail for one of these. So a statement fails with
such an error on a table exactly when it does on any other table with the same schema. Of the errors
of an insertion, all but a repeated value are of this kind. -/

namespace Tabular

variable {s : Schema} {t t' : Table} {e : Error}

/-! ### Queries -/

section Queries

variable {q : Select} {order : List SortKey} {rows : List Row} {r : Row}

theorem SortKey.failsOnly_values (hr : r.names = s.names) (ho : ∀ k ∈ order, k.expr.Scoped s) :
    FailsOnly Error.OfData (SortKey.values order r) :=
  .mapM fun k hk => Expr.failsOnly_eval hr (ho k hk)

theorem SortKey.failsOnly_checkAgree (keys : List (List Value)) :
    FailsOnly Error.OfData (SortKey.checkAgree keys) := by
  cases keys with
  | nil => exact .ok ()
  | cons first rest =>
    exact .forM fun later _ => .forM fun p _ => (Value.failsOnly_compare p.1 p.2).map _

theorem Row.failsOnly_sorted (hrows : ∀ r ∈ rows, r.names = s.names)
    (ho : ∀ k ∈ order, k.expr.Scoped s) : FailsOnly Error.OfData (Row.sorted order rows) := by
  refine FailsOnly.bind (.mapM fun r hr => ?_) fun keyed _ => ?_
  · exact (SortKey.failsOnly_values (hrows r hr) ho).bind fun _ _ => .ok _
  · exact (SortKey.failsOnly_checkAgree _).bind fun _ _ => .ok _

/-- Sorted rows are the rows that there were. -/
theorem Row.perm_of_sorted {sorted : List Row} (h : Row.sorted order rows = .ok sorted) :
    sorted.Perm rows := by
  obtain ⟨keyed, hkeyed, h⟩ := bind_eq_ok_iff.mp h
  obtain ⟨⟨⟩, -, hsorted⟩ := bind_eq_ok_iff.mp h
  cases hsorted
  have hrows : keyed.map (·.2) = rows := by
    rw [← List.forall₂_eq_eq_eq, List.forall₂_map_left_iff]
    refine (mapM_eq_ok_iff.mp hkeyed).flip.imp fun p r hp => ?_
    obtain ⟨as, -, hpair⟩ := bind_eq_ok_iff.mp hp
    cases hpair
    rfl
  rw [← hrows]
  exact (List.mergeSort_perm keyed _).map _

theorem Row.failsOnly_project {projection : List Expr} (hr : r.names = s.names)
    (hp : ∀ e ∈ projection, e = .wildcard ∨ e.Scoped s) :
    FailsOnly Error.OfData (Row.project projection r) := by
  refine FailsOnly.bind (.mapM fun e he => ?_) fun _ _ => .ok _
  obtain rfl | hscoped := hp e he
  · exact .ok r.values
  · cases e with
    | wildcard => exact .ok r.values
    | _ => exact (Expr.failsOnly_eval hr hscoped).bind fun _ _ => .ok _

theorem Select.mem_of_mem_limited (h : r ∈ q.limited rows) : r ∈ rows := by
  unfold limited at h
  split at h
  · exact List.mem_of_mem_take h
  · exact h

/-- The rows that a query shows, before its limit: sorted if it has sort keys. -/
def Select.ordered (q : Select) (rows : List Row) : Except Error (List Row) :=
  if q.order.isEmpty then .ok rows else Row.sorted q.order rows

theorem Select.present_eq_ordered (q : Select) (rows : List Row) : q.present rows =
    (do (q.limited (← q.ordered rows)).mapM (Row.project q.projection)) := by
  unfold present ordered
  split <;> rfl

theorem Select.perm_of_ordered {ordered : List Row} (h : q.ordered rows = .ok ordered) :
    ordered.Perm rows := by
  unfold Select.ordered at h
  split at h
  · cases h
    exact .refl rows
  · exact Row.perm_of_sorted h

theorem Select.failsOnly_present (hq : q.Scoped s) (hrows : ∀ r ∈ rows, r.names = s.names) :
    FailsOnly Error.OfData (q.present rows) := by
  have hsort : FailsOnly Error.OfData (q.ordered rows) := by
    unfold Select.ordered
    split
    · exact .ok rows
    · exact Row.failsOnly_sorted hrows hq.order
  rw [q.present_eq_ordered]
  refine hsort.bind fun ordered hordered => .mapM fun r hr => ?_
  have hmem : r ∈ rows := (perm_of_ordered hordered).mem_iff.mp (mem_of_mem_limited hr)
  exact Row.failsOnly_project (hrows r hmem) hq.projection

theorem Row.failsOnly_among {condition : Option Expr} (hrows : ∀ r ∈ rows, r.names = s.names)
    (hscopes : s.Scopes condition) : FailsOnly Error.OfData (Row.among condition rows) := by
  refine FailsOnly.bind (Row.failsOnly_satisfying (fun p hp => ?_) hscopes) fun _ _ => .ok _
  exact hrows p.1 (List.fst_mem_of_mem_zipIdx hp)

/-- The errors of a query that no row causes are found with its labels. -/
theorem Select.answer_eq_error_iff (hrows : ∀ r ∈ rows, r.names = s.names) (he : ¬e.OfData) :
    q.answer s rows = .error e ↔ q.labels s = .error e := by
  refine bind_eq_error_iff_of_failsOnly (P := Error.OfData) (fun labels hlabels => ?_) he
  have hq : q.Scoped s := exists_labels_iff.mp ⟨labels, hlabels⟩
  refine (Row.failsOnly_among hrows hq.condition).bind fun found hfound => ?_
  obtain ⟨-, rfl⟩ := Row.among_eq_ok_iff.mp hfound
  refine (failsOnly_present hq fun r hr => ?_).bind fun _ _ => .ok _
  exact hrows r (List.mem_filter.mp hr).1

end Queries

/-! ### Edits -/

theorem Delete.answer_eq_error_iff {q : Delete} {rows : List Row}
    (hrows : ∀ r ∈ rows, r.names = s.names) (he : ¬e.OfData) :
    q.answer s rows = .error e ↔ s.checkCondition q.condition = .error e := by
  unfold answer
  rw [map_eq_error_iff]
  refine bind_eq_error_iff_of_failsOnly (P := Error.OfData) (fun _ hscopes => ?_) he
  exact Row.failsOnly_among hrows (Schema.checkCondition_eq_ok_iff.mp hscopes)

section Update

theorem Column.failsOnly_check (c : Column) (v : Value) :
    FailsOnly Error.OfData (c.check v) := by
  unfold check
  split
  · exact .ok ()
  · split <;> exact .error rfl

theorem Schema.failsOnly_checkValues (columns : List Column) (values : List Value) :
    FailsOnly Error.OfData (checkValues columns values) := by
  induction columns generalizing values with
  | nil => exact .ok ()
  | cons c columns ih =>
    cases values with
    | nil => exact .ok ()
    | cons v values => exact (c.failsOnly_check v).bind fun _ _ => ih values

theorem Schema.failsOnly_checkRow (s : Schema) (values : List Value) :
    FailsOnly Error.OfData (s.checkRow values) := by
  unfold checkRow
  split
  · exact .error rfl
  · have hvalues := failsOnly_checkValues s.columns values
    exact hvalues

theorem Table.failsOnly_checkAfter (rowCount : Nat) (updates : List (Nat × List Value)) (k : Nat)
    (columns : List Column) (stores : List Store) :
    FailsOnly (Failure.Errors Error.OfData) (checkAfter rowCount updates k columns stores) := by
  induction columns generalizing k stores with
  | nil => exact .ok ()
  | cons c columns ih =>
    cases stores with
    | nil =>
      rw [checkAfter]
      split
      · exact .error trivial
      · exact ih _ _
    | cons store stores =>
      rw [checkAfter]
      split
      · refine (FailsOnly.lift_fault _).bind fun values _ => ?_
        split
        · exact .error rfl
        · exact ih _ _
      · exact ih _ _

/-- The targets of the assignments of an `UPDATE` statement, when its names and wildcards are as the
schema has them. -/
def Update.resolve (q : Update) (s : Schema) : Except Error (List (Nat × Expr)) := do
  let targets ← s.targets [] q.assignments
  s.checkCondition q.condition
  return targets

theorem Update.plan_eq_resolve (q : Update) (t : Table) : q.plan t = (do
    let targets ← q.resolve t.schema
    let found ← t.matching q.condition
    Row.updates targets found) := by
  unfold plan resolve
  cases t.schema.targets [] q.assignments with
  | error e => rfl
  | ok targets => cases t.schema.checkCondition q.condition <;> rfl

theorem Schema.scoped_of_mem_targets {earlier : List Nat} {assignments : List Assignment}
    {targets : List (Nat × Expr)} (h : s.targets earlier assignments = .ok targets)
    {p : Nat × Expr} (hp : p ∈ targets) : p.2.Scoped s := by
  obtain ⟨hf, -⟩ := targets_eq_ok_iff.mp h
  obtain ⟨a, -, ha⟩ := exists_of_forall₂_of_mem hf hp
  rw [ha.value]
  exact ha.scope

theorem Row.failsOnly_foldlM_assignTo {r : Row} {values : List Value} {targets : List (Nat × Expr)}
    (hr : r.names = s.names) (ht : ∀ p ∈ targets, p.2.Scoped s) :
    FailsOnly (Failure.Errors Error.OfData) (targets.foldlM r.assignTo values) := by
  induction targets generalizing values with
  | nil => exact .ok values
  | cons p rest ih =>
    rw [List.forall_mem_cons] at ht
    rw [List.foldlM_cons]
    refine FailsOnly.bind ?_ fun _ _ => ih ht.2
    exact (Expr.failsOnly_eval hr ht.1).lift.bind fun v _ => .lift_fault _

theorem Row.failsOnly_updates {targets : List (Nat × Expr)} {found : List (Row × Nat)}
    (hfound : ∀ p ∈ found, p.1.names = s.names) (ht : ∀ p ∈ targets, p.2.Scoped s) :
    FailsOnly (Failure.Errors Error.OfData) (Row.updates targets found) := by
  refine .mapM fun p hp => ?_
  exact (failsOnly_foldlM_assignTo (hfound p hp) ht).bind fun _ _ => .ok _

theorem Table.WellFormed.failsOnly_matching {condition : Option Expr} (h : t.WellFormed)
    (hscopes : t.schema.Scopes condition) :
    FailsOnly (Failure.Errors Error.OfData) (t.matching condition) := by
  rw [h.matching_eq]
  refine FailsOnly.lift (Row.failsOnly_satisfying (fun p hp => ?_) hscopes)
  obtain ⟨i, hi, rfl⟩ := List.mem_map.mp hp
  exact h.names_row (List.mem_range.mp hi)

/-- The errors of an `UPDATE` statement that no row causes are found with its targets. -/
theorem Update.answer_eq_error_iff {q : Update} (h : t.WellFormed) (he : ¬e.OfData) :
    q.answer t = .error (.error e) ↔ q.resolve t.schema = .error e := by
  have hnot : ¬Failure.Errors Error.OfData (.error e) := he
  have hplan : q.answer t = .error (.error e) ↔ q.plan t = .error (.error e) := by
    refine bind_eq_error_iff_of_failsOnly (fun updates _ => ?_) hnot
    refine FailsOnly.bind ?_ fun _ _ => (Table.failsOnly_checkAfter _ _ _ _ _).bind fun _ _ => .ok _
    exact FailsOnly.lift (.forM fun u _ => t.schema.failsOnly_checkRow u.2)
  rw [hplan, plan_eq_resolve]
  refine (bind_eq_error_iff_of_failsOnly (fun targets htargets => ?_) hnot).trans lift_eq_error_iff
  obtain ⟨found, hfound, hpure⟩ := bind_eq_ok_iff.mp (lift_eq_ok_iff.mp htargets)
  obtain ⟨⟨⟩, hscopes, hpure⟩ := bind_eq_ok_iff.mp hpure
  cases hpure
  have hscopes := Schema.checkCondition_eq_ok_iff.mp hscopes
  refine (h.failsOnly_matching hscopes).bind fun found' hfound' => ?_
  refine Row.failsOnly_updates (fun p hp => ?_) fun p hp => Schema.scoped_of_mem_targets hfound hp
  obtain ⟨hi, hrow⟩ := h.of_mem_matching hfound' hp
  rw [hrow, h.names_row hi]

end Update

/-- The error is that of a value that a unique column would repeat. -/
def Error.isNotUnique : Error → Bool
  | notUnique .. => true
  | _ => false

theorem Table.failsOnly_checkNew (columns : List Column) (stores : List Store)
    (values : List Value) :
    FailsOnly (·.isNotUnique = true) (checkNew columns stores values) := by
  intro e he
  obtain ⟨-, c, rule, v, -, -, -, rfl⟩ := exists_repeats_of_checkNew he
  rfl

/-- The row that an `INSERT` statement adds to a table with the given schema, when the schema admits
its values. -/
def InsertRow.admitted (q : InsertRow) (s : Schema) : Except Error (List Value) := do
  let values ← q.row s
  s.checkRow values
  return values

/-- All errors of an insertion but a repeated value are found with the row. -/
theorem InsertRow.answer_eq_error_iff {q : InsertRow} (he : e.isNotUnique = false) :
    q.answer t = .error e ↔ q.admitted t.schema = .error e := by
  have hanswer : q.answer t = (do
      let values ← q.admitted t.schema
      Table.checkNew t.schema.columns t.stores values
      return 1) := by
    unfold answer admitted
    cases q.row t.schema with
    | error e => rfl
    | ok values =>
      show (t.schema.checkRow values >>= _) = (t.schema.checkRow values >>= _) >>= _
      cases t.schema.checkRow values <;> rfl
  rw [hanswer]
  refine bind_eq_error_iff_of_failsOnly (P := (·.isNotUnique = true)) (fun values _ => ?_)
    (by simp [he])
  exact (Table.failsOnly_checkNew _ _ _).bind fun _ _ => .ok _

/-! ### Databases -/

namespace Database

variable {α β : Type} {db db' : Database} {name : String} {e : StatementError}

theorem query_eq_error_iff {q : Select} (h : db.catalog.WellFormed)
    (ht : db.table? q.table = some t) (he : e.cause.isStructural = true) :
    (db.query q).result = .error (.error e) ↔
      .select = e.verb ∧ q.labels t.schema = .error e.cause := by
  have hwf := (h.of_lookup? ht).2
  have hanswer : (db.query q).result =
      (liftM (q.answer t.schema t.contents) : Except (Failure Error) _).mapError
        (·.inStatement .select) := by
    rw [result_query h ht]
    cases q.answer t.schema t.contents <;> rfl
  rw [hanswer, mapError_inStatement_eq_error_iff, lift_eq_error_iff,
    Select.answer_eq_error_iff (fun r hr => (hwf.fits_of_mem hr).names)
      (Error.not_ofData_of_isStructural he)]

theorem execute_update_eq_error_iff {q : Update} (h : db.catalog.WellFormed)
    (ht : db.table? q.table = some t) (he : e.cause.isStructural = true) :
    (db.execute (.update q)).result = .error (.error e) ↔
      .update = e.verb ∧ q.resolve t.schema = .error e.cause := by
  have hwf := (h.of_lookup? ht).2
  rw [execute_change_eq_error_iff (s := .update q) (f := .updated) rfl ht, q.result_apply hwf,
    Update.answer_eq_error_iff hwf (Error.not_ofData_of_isStructural he)]
  rfl

theorem execute_delete_eq_error_iff {q : Delete} (h : db.catalog.WellFormed)
    (ht : db.table? q.table = some t) (he : e.cause.isStructural = true) :
    (db.execute (.delete q)).result = .error (.error e) ↔
      .delete = e.verb ∧ t.schema.checkCondition q.condition = .error e.cause := by
  have hwf := (h.of_lookup? ht).2
  rw [execute_change_eq_error_iff (s := .delete q) (f := .deleted) rfl ht, q.result_apply hwf,
    lift_eq_error_iff,
    Delete.answer_eq_error_iff (fun r hr => (hwf.fits_of_mem hr).names)
      (Error.not_ofData_of_isStructural he)]
  rfl

theorem execute_insert_eq_error_iff {q : InsertRow} (h : db.catalog.WellFormed)
    (ht : db.table? q.table = some t) (he : e.cause.isNotUnique = false) :
    (db.execute (.insert q)).result = .error (.error e) ↔
      .insert = e.verb ∧ q.admitted t.schema = .error e.cause := by
  rw [execute_change_eq_error_iff (s := .insert q) (f := .inserted) rfl ht,
    q.result_apply (h.of_lookup? ht).2, lift_eq_error_iff, InsertRow.answer_eq_error_iff he]
  rfl

/-- Where two databases have a table with one schema, its rows make no difference to the errors that
are about names and wildcards: a statement or a query fails with such an error on the one table when
it does on the other. Nor do they to an insertion that fails for another reason than a repeated
value. -/
theorem Reachable.structural_error_iff (h : db.Reachable) (h' : db'.Reachable)
    (ht : db.table? name = some t) (ht' : db'.table? name = some t')
    (hschema : t.schema = t'.schema) (e : StatementError) :
    (e.cause.isStructural = true →
      (∀ s : Statement, s.table = name → s.verb ∈ [.select, .update, .delete] →
        ((db.execute s).result = .error (.error e) ↔
          (db'.execute s).result = .error (.error e))) ∧
      ∀ q : Select, q.table = name →
        ((db.query q).result = .error (.error e) ↔ (db'.query q).result = .error (.error e))) ∧
    (e.cause.isNotUnique = false → ∀ q : InsertRow, q.table = name →
      ((db.execute (.insert q)).result = .error (.error e) ↔
        (db'.execute (.insert q)).result = .error (.error e))) := by
  have hquery (he : e.cause.isStructural = true) (q : Select) (hname : q.table = name) :
      (db.query q).result = .error (.error e) ↔ (db'.query q).result = .error (.error e) := by
    subst hname
    rw [query_eq_error_iff h.wellFormed ht he, query_eq_error_iff h'.wellFormed ht' he, hschema]
  refine ⟨fun he => ⟨fun s hname hverb => ?_, hquery he⟩, fun he q hname => ?_⟩
  · subst hname
    cases s with
    | select q =>
      rw [result_execute_select, result_execute_select, map_eq_error_iff, map_eq_error_iff]
      exact hquery he q rfl
    | update q =>
      rw [execute_update_eq_error_iff h.wellFormed ht he,
        execute_update_eq_error_iff h'.wellFormed ht' he, hschema]
    | delete q =>
      rw [execute_delete_eq_error_iff h.wellFormed ht he,
        execute_delete_eq_error_iff h'.wellFormed ht' he, hschema]
    | create q => simp [Statement.verb] at hverb
    | insert q => simp [Statement.verb] at hverb
    | drop q => simp [Statement.verb] at hverb
  · subst hname
    rw [execute_insert_eq_error_iff h.wellFormed ht he,
      execute_insert_eq_error_iff h'.wellFormed ht' he, hschema]

/-- The users of the sample before there are any. -/
def vacant : Database :=
  (preloaded {} []).run
    [.create ⟨"users", [⟨"id", .int, some .primaryKey⟩, ⟨"name", .varchar 3, some .unique⟩]⟩]

/-- An unknown column is found before a condition that is no truth value on any row, and a name that
is too long before a number that is taken. -/
theorem structural_error_vacant :
    let u : Statement :=
      .update ⟨"users", [⟨"id", .column "number"⟩], some (.column "name")⟩
    let i : InsertRow := ⟨"users", [], [.literal (.number 1), .literal (.string "Johanna")]⟩
    (sample.execute u).result = .error (.error ⟨.update, .unknownColumn "number"⟩) ∧
      (vacant.execute u).result = .error (.error ⟨.update, .unknownColumn "number"⟩) ∧
      (sample.execute (.insert i)).result =
        .error (.error ⟨.insert, .valueTooLong "name" 7 3⟩) ∧
      (vacant.execute (.insert i)).result =
        .error (.error ⟨.insert, .valueTooLong "name" 7 3⟩) := by
  intro u i
  have hreach : vacant.Reachable := ⟨_, _, _, rfl⟩
  let t : Table := { sampleUsers with
    stores := [⟨"id", .int, #[]⟩, ⟨"name", .varchar, #[]⟩], rowCount := 0 }
  have ht : vacant.table? "users" = some t := by decide +kernel
  have hu : (sample.execute u).result = .error (.error ⟨.update, .unknownColumn "number"⟩) := by
    decide +kernel
  have hi : (sample.execute (.insert i)).result =
      .error (.error ⟨.insert, .valueTooLong "name" 7 3⟩) := by
    decide +kernel
  have hsame := sample_reachable.structural_error_iff hreach table?_sample ht rfl
  exact ⟨hu, ((hsame _).1 rfl).1 u rfl (by decide) |>.mp hu, hi, (hsame _).2 rfl i rfl |>.mp hi⟩

end Database

end Tabular
