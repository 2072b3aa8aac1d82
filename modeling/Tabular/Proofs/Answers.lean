import Tabular.Proofs.Deleting
import Tabular.Proofs.Selecting
import Tabular.Proofs.Updating

/-! What `INSERT`, `UPDATE` and `DELETE` statements give on well-formed tables: a number of rows, or
the error of the first check that fails. It is computed here without any write, because writes that
have passed their checks do not fail. -/

namespace Tabular

variable {t : Table}

/-- The values of a row to insert repeat, at place `k`, what a unique column holds already. -/
structure Table.Repeats (columns : List Column) (stores : List Store) (values : List Value)
    (k : Nat) (c : Column) (v : Value) : Prop where
  column : columns[k]? = some c
  unique : c.isUnique = true
  value : values[k]? = some v
  stored : ∃ store, stores[k]? = some store ∧ v ∈ store.values

section CheckNew

variable {k : Nat} {c c' : Column} {v v' : Value} {columns : List Column} {store : Store}
  {stores : List Store} {values : List Value}

theorem Table.repeats_zero_iff :
    Repeats (c :: columns) (store :: stores) (v :: values) 0 c' v' ↔
      c = c' ∧ v = v' ∧ c.isUnique = true ∧ v ∈ store.values := by
  constructor
  · rintro ⟨hc, hu, hv, stored, hs, hmem⟩
    simp only [List.getElem?_cons_zero, Option.some.injEq] at hc hv hs
    subst hc hv hs
    exact ⟨rfl, rfl, hu, hmem⟩
  · rintro ⟨rfl, rfl, hu, hmem⟩
    exact ⟨rfl, hu, rfl, store, rfl, hmem⟩

theorem Table.repeats_succ_iff :
    Repeats (c :: columns) (store :: stores) (v :: values) (k + 1) c' v' ↔
      Repeats columns stores values k c' v' :=
  ⟨fun ⟨hc, hu, hv, hs⟩ => ⟨hc, hu, hv, hs⟩, fun ⟨hc, hu, hv, hs⟩ => ⟨hc, hu, hv, hs⟩⟩

/-- The check for repeated values passes when there are none. -/
theorem Table.checkNew_eq_ok_iff : checkNew columns stores values = .ok () ↔
    ∀ k c v, ¬Repeats columns stores values k c v := by
  induction columns generalizing stores values with
  | nil => exact iff_of_true rfl fun k c v hr => by simpa using hr.column
  | cons c columns ih =>
    cases stores with
    | nil =>
      refine iff_of_true rfl fun k c v hr => ?_
      obtain ⟨store, hs, -⟩ := hr.stored
      simp at hs
    | cons store stores =>
      cases values with
      | nil => exact iff_of_true rfl fun k c v hr => by simpa using hr.value
      | cons v values =>
        rw [checkNew_cons, ih]
        constructor
        · rintro ⟨hfirst, hrest⟩ k c' v' hr
          cases k with
          | zero =>
            obtain ⟨-, -, hu, hv⟩ := repeats_zero_iff.mp hr
            exact hfirst hu hv
          | succ k => exact hrest k c' v' (repeats_succ_iff.mp hr)
        · intro h
          refine ⟨fun hu hv => ?_, fun k c' v' hr => ?_⟩
          · exact h 0 c v (repeats_zero_iff.mpr ⟨rfl, rfl, hu, hv⟩)
          · exact h (k + 1) c' v' (repeats_succ_iff.mpr hr)

theorem Table.checkNew_cons_eq_error {e : Error}
    (he : checkNew (c :: columns) (store :: stores) (v :: values) = .error e) :
    (∃ rule, c.uniqueness = some rule ∧ v ∈ store.values ∧ e = .notUnique c.name rule v) ∨
      (c.isUnique = true → v ∉ store.values) ∧ checkNew columns stores values = .error e := by
  rw [checkNew] at he
  rw [Column.isUnique]
  cases hrule : c.uniqueness with
  | none =>
    rw [hrule] at he
    refine .inr ⟨fun hu => ?_, he⟩
    cases hu
  | some rule =>
    simp only [hrule] at he
    by_cases hv : v ∈ store.values
    · rw [if_pos (Store.contains_iff.mpr hv)] at he
      exact .inl ⟨rule, rfl, hv, (Except.error.inj he).symm⟩
    · rw [if_neg fun hin => hv (Store.contains_iff.mp hin)] at he
      exact .inr ⟨fun _ => hv, he⟩

/-- When it fails, it is for the first place that has a repeated value. -/
theorem Table.exists_repeats_of_checkNew {e : Error}
    (he : checkNew columns stores values = .error e) :
    ∃ k c rule v, Repeats columns stores values k c v ∧
      (∀ j < k, ∀ c' v', ¬Repeats columns stores values j c' v') ∧
        c.uniqueness = some rule ∧ e = .notUnique c.name rule v := by
  induction columns generalizing stores values with
  | nil => cases he
  | cons c columns ih =>
    cases stores with
    | nil => cases he
    | cons store stores =>
      cases values with
      | nil => cases he
      | cons v values =>
        obtain ⟨rule, hrule, hv, rfl⟩ | ⟨hfirst, hrest⟩ := checkNew_cons_eq_error he
        · have hu : c.isUnique = true := Option.isSome_of_mem hrule
          exact ⟨0, c, rule, v, repeats_zero_iff.mpr ⟨rfl, rfl, hu, hv⟩, nofun, hrule, rfl⟩
        · obtain ⟨k, c', rule, v', hr, hbefore, hrule, rfl⟩ := ih hrest
          refine ⟨k + 1, c', rule, v', repeats_succ_iff.mpr hr, ?_, hrule, rfl⟩
          intro j hj c'' v'' hj'
          cases j with
          | zero =>
            obtain ⟨-, -, hu, hv⟩ := repeats_zero_iff.mp hj'
            exact hfirst hu hv
          | succ j => exact hbefore j (by omega) c'' v'' (repeats_succ_iff.mp hj')

end CheckNew

/-- Two rows differ in every unique column. -/
def Schema.Apart (s : Schema) (a b : List Value) : Prop :=
  ∀ (k : Nat) (c : Column) (v : Value), s.columns[k]? = some c → c.isUnique = true →
    a[k]? = some v → b[k]? ≠ some v

/-- No value of a row is repeated when the row differs from those that the table has. -/
theorem Table.WellFormed.checkNew_eq_ok_iff (h : t.WellFormed) {values : List Value} :
    checkNew t.schema.columns t.stores values = .ok () ↔
      ∀ r ∈ t.contents, t.schema.Apart r.values values := by
  rw [Table.checkNew_eq_ok_iff]
  constructor
  · intro hnone r hr k c v hc hu hrv hv
    have hlt : k < t.stores.length := by
      rw [← h.fits.length_eq]
      exact (List.getElem?_eq_some_iff.mp hc).1
    have hs := List.getElem?_eq_getElem hlt
    exact hnone k c v ⟨hc, hu, hv, _, hs, (h.mem_values_iff hs).mpr ⟨r, hr, hrv⟩⟩
  · rintro hapart k c v ⟨hc, hu, hv, store, hs, hmem⟩
    obtain ⟨r, hr, hrv⟩ := (h.mem_values_iff hs).mp hmem
    exact hapart r hr k c v hc hu hrv hv

/-- What an `INSERT` statement gives on a table. -/
def InsertRow.answer (q : InsertRow) (t : Table) : Except Error Nat := do
  let values ← q.row t.schema
  t.schema.checkRow values
  Table.checkNew t.schema.columns t.stores values
  return 1

theorem Table.Edit.result_insert (h : t.WellFormed) (values : List Value) :
    ((insert values).run.run t).1 = liftM (do
      t.schema.checkRow values
      checkNew t.schema.columns t.stores values) := by
  cases hrow : t.schema.checkRow values with
  | error e =>
    unfold insert
    rw [run_bind_ok (run_get t), hrow, run_bind_error (run_lift_error _ t)]
    rfl
  | ok _ =>
    cases hnew : checkNew t.schema.columns t.stores values with
    | error e =>
      unfold insert
      rw [run_bind_ok (run_get t), hrow, run_bind_ok (run_lift_error _ t), hnew,
        run_bind_error (run_lift_error _ t)]
      rfl
    | ok _ =>
      obtain ⟨after, hrun, -⟩ := run_insert h hrow hnew
      rw [hrun]
      rfl

theorem InsertRow.result_apply (h : t.WellFormed) (q : InsertRow) :
    (q.apply.run.run t).1 = liftM (q.answer t) := by
  unfold apply answer
  rw [run_bind_ok (run_get t)]
  cases hrow : q.row t.schema with
  | error e =>
    rw [run_bind_error (run_lift_error _ t)]
    rfl
  | ok values =>
    rw [run_bind_ok (run_lift_error _ t), bind_pure_comp, run_map, Table.Edit.result_insert h]
    show (fun _ => 1) <$> liftM (do
      t.schema.checkRow values
      Table.checkNew t.schema.columns t.stores values) = liftM (do
        t.schema.checkRow values
        Table.checkNew t.schema.columns t.stores values
        return 1)
    cases t.schema.checkRow values with
    | error e => rfl
    | ok _ => cases Table.checkNew t.schema.columns t.stores values <;> rfl

/-- What an `UPDATE` statement gives on a table. -/
def Update.answer (q : Update) (t : Table) : Except (Failure Error) Nat := do
  let updates ← q.plan t
  Table.checkRows t.schema updates
  Table.checkAfter t.rowCount updates 0 t.schema.columns t.stores
  return updates.length

theorem Table.Edit.result_update {updates : List (Nat × List Value)} (h : t.WellFormed)
    (hpos : ∀ u ∈ updates, u.1 < t.rowCount) : ((update updates).run.run t).1 = (do
      checkRows t.schema updates
      checkAfter t.rowCount updates 0 t.schema.columns t.stores
      return updates.length) := by
  cases hrows : checkRows t.schema updates with
  | error e =>
    unfold update
    rw [run_bind_ok (run_get t), hrows, run_bind_error (run_lift_error _ t)]
    rfl
  | ok _ =>
    have hspec := h.checkAfter_spec (checkRows_eq_ok_iff.mp hrows)
    cases hafter : checkAfter t.rowCount updates 0 t.schema.columns t.stores with
    | error e =>
      unfold update
      rw [run_bind_ok (run_get t), hrows, run_bind_ok (run_lift_error _ t), hafter,
        run_bind_error (run_lift _ t)]
      rfl
    | ok _ =>
      obtain ⟨stores, hrun, -⟩ := run_update h (.inr hpos) (hspec.2.mp hafter)
      rw [hrun]
      rfl

theorem Update.result_apply (h : t.WellFormed) (q : Update) :
    (q.apply.run.run t).1 = q.answer t := by
  unfold apply answer
  rw [run_bind_ok (run_get t)]
  cases hplan : q.plan t with
  | error e =>
    rw [run_bind_error (run_lift _ t)]
    rfl
  | ok updates =>
    rw [run_bind_ok (run_lift _ t)]
    refine Table.Edit.result_update h fun u hu => ?_
    obtain ⟨-, rfl⟩ := (plan_eq_ok_iff h).mp hplan
    obtain ⟨i, hi, -, rfl⟩ := mem_replacements_iff.mp hu
    exact hi

/-- The rows that a statement with a condition works on: those that satisfy the condition, once it
is known to be in scope. -/
def Row.found (s : Schema) (condition : Option Expr) (rows : List Row) :
    Except Error (List Row) := do
  s.checkCondition condition
  Row.among condition rows

theorem Row.found_eq_ok_iff {s : Schema} {condition : Option Expr} {rows found : List Row} :
    Row.found s condition rows = .ok found ↔ s.Scopes condition ∧
      (∀ r ∈ rows, ∃ b, r.satisfies condition = .ok b) ∧
        rows.filter (·.matches condition) = found := by
  rw [Row.found, bind_eq_ok_iff, ← Schema.checkCondition_eq_ok_iff, ← Row.among_eq_ok_iff]
  exact ⟨fun ⟨_, hscopes, hfound⟩ => ⟨hscopes, hfound⟩, fun ⟨hscopes, hfound⟩ =>
    ⟨(), hscopes, hfound⟩⟩

theorem Table.WellFormed.matching_eq_error (h : t.WellFormed) {condition : Option Expr} {e : Error}
    (he : Row.among condition t.contents = .error e) :
    t.matching condition = .error (.error e) := by
  have hrows : Row.satisfying condition t.contents.zipIdx = .error e := by
    obtain hrows | ⟨found, -, hpure⟩ := bind_eq_error_iff.mp he
    · exact hrows
    · cases hpure
  unfold matching
  rw [h.rows_eq]
  exact lift_eq_error_iff.mpr hrows

/-- What a `DELETE` statement gives on the rows of a table. -/
def Delete.answer (q : Delete) (s : Schema) (rows : List Row) : Except Error Nat :=
  List.length <$> Row.found s q.condition rows

theorem Delete.result_apply (h : t.WellFormed) (q : Delete) :
    (q.apply.run.run t).1 = liftM (q.answer t.schema t.contents) := by
  unfold answer
  cases hfound : Row.found t.schema q.condition t.contents with
  | ok found =>
    obtain ⟨hscopes, hdecides, rfl⟩ := Row.found_eq_ok_iff.mp hfound
    obtain ⟨after, hrun, -⟩ := q.run_apply h ⟨hscopes, hdecides⟩
    rw [hrun, List.countP_eq_length_filter]
    rfl
  | error e =>
    unfold apply
    rw [run_bind_ok (run_get t)]
    obtain hscopes | ⟨⟨⟩, hscopes, hamong⟩ := bind_eq_error_iff.mp hfound
    · rw [hscopes, run_bind_error (run_lift_error _ t)]
      rfl
    · rw [hscopes, run_bind_ok (run_lift_error _ t), h.matching_eq_error hamong,
        run_bind_error (run_lift _ t)]
      rfl

end Tabular
