import Tabular.Engine.Change
import Tabular.Proofs.WellFormed

/-! Reading a well-formed table. Finding the rows that satisfy a condition does not fault; it
succeeds when the condition has a truth value on every row, and then gives the rows on which that
value is true, in order. -/

namespace Tabular

/-- The expression has no wildcard and names columns of the schema only. -/
def Expr.Scoped (s : Schema) (e : Expr) : Prop :=
  e.hasWildcard = false ∧ ∀ name ∈ e.columns, name ∈ s.names

/-- The condition, if there is one, names columns of the schema only. -/
def Schema.Scopes (s : Schema) (condition : Option Expr) : Prop := ∀ e ∈ condition, e.Scoped s

theorem Schema.index?_isSome_iff {s : Schema} {name : String} :
    (s.index? name).isSome = true ↔ name ∈ s.names := by
  simp [index?, names, List.findIdx?_isSome]

theorem Expr.checkScope_eq_ok_iff {s : Schema} {e : Expr} :
    e.checkScope s = .ok () ↔ e.Scoped s := by
  unfold checkScope Scoped
  by_cases hw : e.hasWildcard = true
  · simp [hw]
  · rw [if_neg hw]
    have hfind : (e.columns.find? fun name => (s.index? name).isNone) = none ↔
        ∀ name ∈ e.columns, name ∈ s.names := by
      simp only [List.find?_eq_none, Option.isNone_iff_eq_none, ← s.index?_isSome_iff,
        Option.isSome_iff_ne_none, ne_eq]
    rw [← hfind]
    cases e.columns.find? fun name => (s.index? name).isNone <;> simp [hw]

theorem Schema.checkCondition_eq_ok_iff {s : Schema} {condition : Option Expr} :
    s.checkCondition condition = .ok () ↔ s.Scopes condition := by
  cases condition with
  | none => simp [checkCondition, Scopes]
  | some e => simp [checkCondition, Scopes, Expr.checkScope_eq_ok_iff]

/-- Whether a row satisfies a condition that has a truth value on it. -/
def Row.matches (condition : Option Expr) (r : Row) : Bool :=
  match r.satisfies condition with
  | .ok b => b
  | .error _ => false

theorem Row.satisfying_eq_ok_iff {condition : Option Expr} {rows found : List (Row × Nat)} :
    Row.satisfying condition rows = .ok found ↔
      (∀ p ∈ rows, ∃ b, p.1.satisfies condition = .ok b) ∧
        found = rows.filter (·.1.matches condition) := by
  induction rows generalizing found with
  | nil => simp [satisfying, eq_comm]
  | cons p rest ih =>
    obtain ⟨r, i⟩ := p
    simp only [satisfying, bind_eq_ok_iff, ih, pure, Except.pure, Except.ok.injEq,
      List.forall_mem_cons, List.filter_cons]
    constructor
    · rintro ⟨keep, hkeep, kept, ⟨hrest, rfl⟩, rfl⟩
      exact ⟨⟨⟨keep, hkeep⟩, hrest⟩, by simp [Row.matches, hkeep]⟩
    · rintro ⟨⟨⟨keep, hkeep⟩, hrest⟩, rfl⟩
      exact ⟨keep, hkeep, _, ⟨hrest, rfl⟩, by simp [Row.matches, hkeep]⟩

namespace Table.WellFormed

variable {t : Table} {condition : Option Expr} {found : List (Row × Nat)}

theorem matching_eq (h : t.WellFormed) (condition : Option Expr) :
    t.matching condition =
      liftM (Row.satisfying condition ((List.range t.rowCount).map fun i => (t.row i, i))) := by
  unfold matching
  rw [h.rows_eq, ← zipIdx_contents]
  rfl

theorem noFault_matching (h : t.WellFormed) : NoFault (t.matching condition) := by
  rw [h.matching_eq]
  exact .lift _

theorem matching_eq_ok_iff (h : t.WellFormed) : t.matching condition = .ok found ↔
    (∀ i < t.rowCount, ∃ b, (t.row i).satisfies condition = .ok b) ∧
      found = ((List.range t.rowCount).filter fun i => (t.row i).matches condition).map
        fun i => (t.row i, i) := by
  rw [h.matching_eq, lift_eq_ok_iff, Row.satisfying_eq_ok_iff, List.filter_map]
  simp [Function.comp_def]

theorem of_mem_matching (h : t.WellFormed) (hfound : t.matching condition = .ok found)
    {p : Row × Nat} (hp : p ∈ found) : p.2 < t.rowCount ∧ p.1 = t.row p.2 := by
  obtain ⟨-, rfl⟩ := h.matching_eq_ok_iff.mp hfound
  obtain ⟨i, hi, rfl⟩ := List.mem_map.mp hp
  exact ⟨List.mem_range.mp (List.mem_filter.mp hi).1, rfl⟩

theorem noFault_select (h : t.WellFormed) (q : Select) : NoFault (t.select q) := by
  unfold select
  refine (NoFault.lift _).bind fun labels _ => ?_
  refine h.noFault_matching.bind fun found _ => ?_
  exact (NoFault.lift _).bind fun rows _ => .ok _

end Table.WellFormed

end Tabular
