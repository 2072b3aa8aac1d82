import Tabular.Proofs.Answers

/-! `INSERT` statements on well-formed tables. A statement adds one row at the end, or it is refused
and adds none: which row it would be depends on the schema only, and whether it may be added on the
values that unique columns hold. -/

namespace Tabular

variable {q : InsertRow} {t : Table} {values : List Value}

/-- The statement gives the table's columns values that they admit, and no unique column holds its
value already. -/
structure InsertRow.Adds (q : InsertRow) (t : Table) (values : List Value) : Prop where
  row : q.row t.schema = .ok values
  admits : List.Forall₂ (fun c v => c.type.admits v = true) t.schema.columns values
  fresh : Table.checkNew t.schema.columns t.stores values = .ok ()

/-- A statement that adds values makes a row of them at the end of its table. -/
theorem InsertRow.run_apply (h : t.WellFormed) (hq : q.Adds t values) :
    ∃ after, q.apply.run.run t = (.ok 1, after) ∧ after.WellFormed ∧ after.name = t.name ∧
      after.schema = t.schema ∧ after.rowCount = t.rowCount + 1 ∧
      after.contents = t.contents ++ [⟨t.schema.names.zip values⟩] := by
  obtain ⟨after, hrun, hafter⟩ :=
    Table.Edit.run_insert h (Schema.checkRow_eq_ok_iff.mpr hq.admits) hq.fresh
  refine ⟨after, ?_, hafter⟩
  unfold apply
  rw [run_bind_ok (run_get t), hq.row, run_bind_ok (run_lift_error _ t), run_bind_ok hrun]
  rfl

theorem InsertRow.run_apply_refused (q : InsertRow) (t : Table)
    (hq : ∀ values, ¬q.Adds t values) : ∃ e, q.apply.run.run t = (.error (.error e), t) := by
  unfold apply
  rw [run_bind_ok (run_get t)]
  cases hrow : q.row t.schema with
  | error e => exact ⟨e, run_bind_error (run_lift_error _ t)⟩
  | ok values =>
    rw [run_bind_ok (run_lift_error _ t)]
    have hrefused : ¬(t.schema.checkRow values = .ok () ∧
        Table.checkNew t.schema.columns t.stores values = .ok ()) := fun ⟨hadmits, hfresh⟩ =>
      hq values ⟨hrow, Schema.checkRow_eq_ok_iff.mp hadmits, hfresh⟩
    obtain ⟨e, hrun⟩ := Table.Edit.run_insert_refused hrefused
    exact ⟨e, run_bind_error hrun⟩

end Tabular
