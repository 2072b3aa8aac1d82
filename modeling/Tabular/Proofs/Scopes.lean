import Tabular.Proofs.Kinds
import Tabular.Proofs.Reading

/-! Expressions in scope. An expression reads a row under the names of its columns only, so it has
the same value on rows that agree under these names. On a row that has all of them it fails as its
operators do: a name without a column and a wildcard are errors of the schema, not of the row. -/

namespace Tabular

variable {s : Schema} {r r' : Row} {name : String}

namespace Expr

variable {left right operand inner : Expr}

@[simp] theorem scoped_column_iff : (column name).Scoped s ↔ name ∈ s.names := by
  simp [Scoped, hasWildcard, columns]

@[simp] theorem scoped_literal (v : Value) : (literal v).Scoped s := by
  simp [Scoped, hasWildcard, columns]

@[simp] theorem not_scoped_wildcard : ¬wildcard.Scoped s := by
  simp [Scoped, hasWildcard]

@[simp] theorem scoped_binary_iff {op : BinaryOp} :
    (binary left op right).Scoped s ↔ left.Scoped s ∧ right.Scoped s := by
  simp only [Scoped, hasWildcard, columns, Bool.or_eq_false_iff, List.forall_mem_append]
  exact and_and_and_comm

end Expr

theorem Row.ext_names_values (hnames : r.names = r'.names) (hvalues : r.values = r'.values) :
    r = r' := by
  rw [← r.zip_names_values, ← r'.zip_names_values, hnames, hvalues]

theorem Row.get?_isSome_iff : (r.get? name).isSome = true ↔ name ∈ r.names := by
  have hlen : r.names.length = r.values.length := by simp [names, values]
  rw [r.get?_eq]
  cases hk : r.names.findIdx? (· == name) with
  | none =>
    have hnot : name ∉ r.names := fun hmem => by
      simpa using List.findIdx?_eq_none_iff.mp hk name hmem
    simp [hnot]
  | some k =>
    obtain ⟨hlt, hname, -⟩ := List.findIdx?_eq_some_iff_getElem.mp hk
    have hmem : r.names[k] ∈ r.names := List.getElem_mem hlt
    rw [beq_iff_eq.mp hname] at hmem
    exact iff_of_true (by simp [List.getElem?_eq_getElem (hlen ▸ hlt)]) hmem

/-- An expression has one value on rows that agree under the names that it mentions. -/
theorem Expr.eval_congr {e : Expr} (h : ∀ name ∈ e.columns, r.get? name = r'.get? name) :
    e.eval r = e.eval r' := by
  induction e with
  | column name => rw [eval, eval, h name (by simp [columns])]
  | literal v => rfl
  | wildcard => rfl
  | binary left op right ihl ihr =>
    rw [columns, List.forall_mem_append] at h
    rw [eval, eval, ihl h.1, ihr h.2]
  | signed sign operand ih => rw [eval, eval, ih h]
  | group inner ih => exact ih h

theorem Row.satisfies_congr {condition : Option Expr}
    (h : ∀ e ∈ condition, ∀ name ∈ e.columns, r.get? name = r'.get? name) :
    r.satisfies condition = r'.satisfies condition := by
  cases condition with
  | none => rfl
  | some e => rw [satisfies, satisfies, Expr.holds, Expr.holds, Expr.eval_congr (h e rfl)]

/-- The error is that of a statement which names a column that is not there or names one twice, or
has a wildcard where none may stand. -/
def Error.isStructural : Error → Bool
  | unknownColumn _ => true
  | duplicateColumn _ => true
  | misplacedWildcard => true
  | _ => false

/-- The error is that of a statement whose table is not there, or is there already. -/
def Error.isOfTable : Error → Bool
  | unknownTable _ => true
  | tableAlreadyExists _ => true
  | _ => false

/-- The errors that values on rows may cause. -/
abbrev Error.OfData (e : Error) : Prop := (e.isStructural || e.isOfTable) = false

theorem Error.not_ofData_of_isStructural {e : Error} (h : e.isStructural = true) : ¬e.OfData := by
  simp [OfData, h]

theorem Error.not_ofData_of_isOfTable {e : Error} (h : e.isOfTable = true) : ¬e.OfData := by
  simp [OfData, h]

theorem Value.failsOnly_compare (a b : Value) : FailsOnly Error.OfData (a.compare b) := by
  unfold compare
  split
  · exact .ok _
  · exact .error rfl

theorem Arithmetic.failsOnly_apply (op : Arithmetic) (a b : Int64) :
    FailsOnly Error.OfData (op.apply a b) := by
  unfold apply
  split
  · exact .error rfl
  · split
    · exact .ok _
    · exact .error rfl

theorem BinaryOp.failsOnly_apply (op : BinaryOp) (a b : Value) :
    FailsOnly Error.OfData (op.apply a b) := by
  cases op with
  | comparison c =>
    rw [apply]
    split
    · exact .ok _
    · exact .error rfl
  | arithmetic c =>
    cases a with
    | number m =>
      cases b with
      | number n => exact (c.failsOnly_apply m n).map _
      | _ => exact .error rfl
    | _ => exact .error rfl
  | connective c =>
    cases a with
    | bool p =>
      cases b with
      | bool q => exact .ok _
      | _ => exact .error rfl
    | _ => exact .error rfl

theorem Sign.failsOnly_apply (sign : Sign) (v : Value) : FailsOnly Error.OfData (sign.apply v) := by
  cases v with
  | number n =>
    cases sign with
    | plus => exact .ok _
    | minus =>
      rw [apply]
      split
      · exact .ok _
      · exact .error rfl
  | _ => cases sign <;> exact .error rfl

/-- On a row of the schema's columns an expression in scope fails as its operators do only. -/
theorem Expr.failsOnly_eval {e : Expr} (hr : r.names = s.names) (he : e.Scoped s) :
    FailsOnly Error.OfData (e.eval r) := by
  induction e with
  | column name =>
    have hname : name ∈ r.names := hr ▸ scoped_column_iff.mp he
    obtain ⟨v, hv⟩ := Option.isSome_iff_exists.mp (Row.get?_isSome_iff.mpr hname)
    rw [eval, hv]
    exact .ok v
  | literal v => exact .ok v
  | wildcard => exact absurd he not_scoped_wildcard
  | binary left op right ihl ihr =>
    obtain ⟨hl, hr⟩ := scoped_binary_iff.mp he
    exact (ihl hl).bind fun a _ => (ihr hr).bind fun b _ => op.failsOnly_apply a b
  | signed sign operand ih => exact (ih he).bind fun v _ => sign.failsOnly_apply v
  | group inner ih => exact ih he

theorem Row.failsOnly_satisfies {condition : Option Expr} (hr : r.names = s.names)
    (hscopes : s.Scopes condition) : FailsOnly Error.OfData (r.satisfies condition) := by
  cases condition with
  | none => exact .ok true
  | some e =>
    refine (Expr.failsOnly_eval hr (hscopes e rfl)).bind fun v _ => ?_
    cases v with
    | bool b => exact .ok b
    | _ => exact .error rfl

theorem Row.failsOnly_satisfying {condition : Option Expr} {rows : List (Row × Nat)}
    (hrows : ∀ p ∈ rows, p.1.names = s.names) (hscopes : s.Scopes condition) :
    FailsOnly Error.OfData (Row.satisfying condition rows) := by
  induction rows with
  | nil => exact .ok []
  | cons p rest ih =>
    rw [List.forall_mem_cons] at hrows
    refine (failsOnly_satisfies hrows.1 hscopes).bind fun keep _ => ?_
    exact (ih hrows.2).bind fun kept _ => .ok _

/-- Every expression of the statement is in scope, but that one to project may be a wildcard. -/
structure Select.Scoped (q : Select) (s : Schema) : Prop where
  projection : ∀ e ∈ q.projection, e = .wildcard ∨ e.Scoped s
  condition : s.Scopes q.condition
  order : ∀ k ∈ q.order, k.expr.Scoped s

theorem Expr.exists_labels_iff {e : Expr} :
    (∃ labels, e.labels s = .ok labels) ↔ e = .wildcard ∨ e.Scoped s := by
  by_cases hw : e = .wildcard
  · subst hw
    simp [labels]
  · have hlabels : e.labels s = do
        e.checkScope s
        return [e.sql] := by
      cases e with
      | wildcard => exact absurd rfl hw
      | _ => rfl
    simp only [hlabels, bind_eq_ok_iff, hw, false_or, ← checkScope_eq_ok_iff]
    constructor
    · rintro ⟨-, ⟨⟩, hscope, -⟩
      exact hscope
    · intro hscope
      exact ⟨_, (), hscope, rfl⟩

/-- A statement has labels when its expressions are in scope. -/
theorem Select.exists_labels_iff {q : Select} :
    (∃ labels, q.labels s = .ok labels) ↔ q.Scoped s := by
  have horder : q.order.forM (·.expr.checkScope s) = .ok () ↔ ∀ k ∈ q.order, k.expr.Scoped s := by
    simp only [forM_eq_ok_iff, Expr.checkScope_eq_ok_iff]
  simp only [labels, bind_eq_ok_iff]
  constructor
  · rintro ⟨-, shown, hshown, ⟨⟩, hcondition, ⟨⟩, hkeys, -⟩
    refine ⟨fun e he => ?_, Schema.checkCondition_eq_ok_iff.mp hcondition, horder.mp hkeys⟩
    exact Expr.exists_labels_iff.mp (exists_mapM_eq_ok_iff.mp ⟨shown, hshown⟩ e he)
  · intro hq
    obtain ⟨shown, hshown⟩ := exists_mapM_eq_ok_iff.mpr fun e he =>
      Expr.exists_labels_iff.mpr (hq.projection e he)
    exact ⟨_, shown, hshown, (), Schema.checkCondition_eq_ok_iff.mpr hq.condition, (),
      horder.mpr hq.order, rfl⟩

end Tabular
