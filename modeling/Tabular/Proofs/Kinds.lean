import Tabular.Engine.Evaluation
import Tabular.Proofs.WellFormed

/-! Kinds of expressions. A schema gives a kind to an expression before any row is looked at, and
`Expr.kind?_of_eval` says that on a row of the schema's columns the expression has values of that
kind only. So one expression has values of one kind on all rows of a table. -/

namespace Tabular

variable {s : Schema} {r : Row} {name : String} {v w : Value}

/-- The row's values stand under the names of the schema's columns, which admit them. -/
structure Row.Fits (s : Schema) (r : Row) : Prop where
  names : r.names = s.names
  admits : List.Forall₂ (fun c v => c.type.admits v = true) s.columns r.values

theorem Table.WellFormed.fits_row {t : Table} {i : Nat} (h : t.WellFormed) (hi : i < t.rowCount) :
    (t.row i).Fits t.schema := by
  refine ⟨h.names_row hi, ?_⟩
  rw [h.values_row hi]
  exact Store.admits_across h.fits hi

theorem Table.WellFormed.fits_of_mem {t : Table} (h : t.WellFormed) (hr : r ∈ t.contents) :
    r.Fits t.schema := by
  obtain ⟨i, hi, rfl⟩ := Table.mem_contents.mp hr
  exact h.fits_row hi

theorem Row.get?_eq_index? (h : r.names = s.names) (name : String) :
    r.get? name = (s.index? name).bind (r.values[·]?) := by
  rw [r.get?_eq, h, Schema.names, List.findIdx?_map]
  rfl

theorem Row.Fits.get?_eq (h : r.Fits s) (name : String) :
    r.get? name = (s.index? name).bind (r.values[·]?) :=
  Row.get?_eq_index? h.names name

theorem Row.Fits.of_get? (h : r.Fits s) (hv : r.get? name = some v) :
    ∃ c, s.column? name = some c ∧ c.type.admits v = true := by
  rw [h.get?_eq, Option.bind_eq_some_iff] at hv
  obtain ⟨k, hk, hv⟩ := hv
  obtain ⟨c, hc, hadmits⟩ := exists_getElem?_of_forall₂ h.admits hv
  refine ⟨c, ?_, hadmits⟩
  rw [Schema.column?, List.find?_eq_bind_findIdx?_getElem?]
  exact Option.bind_eq_some_iff.mpr ⟨k, hk, hc⟩

/-- The kind of what a binary operator makes of values of two kinds, if it takes them. -/
def BinaryOp.kind? : BinaryOp → Kind → Kind → Option Kind
  | comparison _, a, b => if a = b then some .bool else none
  | arithmetic _, .int, .int => some .int
  | connective _, .bool, .bool => some .bool
  | _, _, _ => none

/-- The kind that a schema gives to an expression. There is none if the expression names no column
of the schema or has an operator that does not take its operands. -/
def Expr.kind? (s : Schema) : Expr → Option Kind
  | column name => (s.column? name).map (·.type.kind)
  | literal v => some v.kind
  | wildcard => none
  | binary left op right => do
    let a ← left.kind? s
    let b ← right.kind? s
    op.kind? a b
  | signed _ operand => (operand.kind? s).filter (· = .int)
  | group inner => inner.kind? s

theorem BinaryOp.kind?_of_apply {op : BinaryOp} {a b : Value} (h : op.apply a b = .ok v) :
    op.kind? a.kind b.kind = some v.kind := by
  cases op with
  | comparison c =>
    rw [apply] at h
    split at h
    · next o ho =>
      cases h
      exact if_pos (Value.kind_eq_of_compare? ho)
    · cases h
  | arithmetic c =>
    cases a <;> cases b <;> try cases h
    next m n =>
      rw [apply] at h
      cases hn : c.apply m n with
      | ok k =>
        rw [hn] at h
        cases h
        rfl
      | error e =>
        rw [hn] at h
        cases h
  | connective c =>
    cases a <;> cases b <;> cases h
    rfl

theorem Sign.kind_of_apply {sign : Sign} {a : Value} (h : sign.apply a = .ok v) :
    a.kind = .int ∧ v.kind = .int := by
  cases a with
  | number n =>
    cases sign with
    | plus =>
      cases h
      exact ⟨rfl, rfl⟩
    | minus =>
      rw [apply] at h
      split at h <;> cases h
      exact ⟨rfl, rfl⟩
  | _ => cases sign <;> cases h

theorem Expr.kind?_of_eval (hr : r.Fits s) {e : Expr} (h : e.eval r = .ok v) :
    e.kind? s = some v.kind := by
  induction e generalizing v with
  | column name =>
    rw [eval] at h
    split at h
    · next w hw =>
      cases h
      obtain ⟨c, hc, hadmits⟩ := hr.of_get? hw
      rw [kind?, hc, Option.map_some, ColumnType.kind_of_admits hadmits]
    · cases h
  | literal w =>
    cases h
    rfl
  | wildcard => cases h
  | binary left op right ihl ihr =>
    obtain ⟨a, ha, h⟩ := bind_eq_ok_iff.mp h
    obtain ⟨b, hb, happly⟩ := bind_eq_ok_iff.mp h
    rw [kind?, ihl ha, ihr hb]
    exact BinaryOp.kind?_of_apply happly
  | signed sign operand ih =>
    obtain ⟨a, ha, happly⟩ := bind_eq_ok_iff.mp h
    obtain ⟨hint, hv⟩ := Sign.kind_of_apply happly
    rw [kind?, ih ha, hint, hv]
    rfl
  | group inner ih => exact ih h

end Tabular
