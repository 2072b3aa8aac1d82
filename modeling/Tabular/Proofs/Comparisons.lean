import Tabular.Proofs.Ordering

/-! Comparisons of values. Values of one kind are totally ordered and values of two kinds do not
compare. Each of the six operators asks one question of that order, so the comparisons of two
operands agree with one another, also when the operands change places. -/

namespace Tabular

theorem then_of_ne_gt {α : Type} {cmp : α → α → Ordering} [Std.TransCmp cmp] {a b c : α}
    (hab : cmp a b ≠ .gt) (hbc : cmp b c ≠ .gt) : cmp a c = (cmp a b).then (cmp b c) := by
  cases h : cmp a b with
  | lt => exact Std.TransCmp.lt_of_lt_of_isLE h (Ordering.isLE_iff_ne_gt.mpr hbc)
  | eq => exact Std.TransCmp.congr_left h
  | gt => exact absurd h hab

namespace Value

variable {a b c : Value} {o o' : Ordering}

theorem compare_eq_ok_iff : a.compare b = .ok o ↔ a.kind = b.kind ∧ a.order b = o := by
  unfold compare
  by_cases hk : a.kind = b.kind
  · simp [compare?_eq_order hk, hk]
  · simp [compare?_eq_none_iff.mpr hk, hk]

theorem compare_eq_error_iff {e : Error} : a.compare b = .error e ↔
    a.kind ≠ b.kind ∧ e = .typeMismatch (.comparison a b) := by
  unfold compare
  by_cases hk : a.kind = b.kind
  · simp [compare?_eq_order hk, hk]
  · simp [compare?_eq_none_iff.mpr hk, hk, eq_comm]

theorem compare_swap (h : a.compare b = .ok o) : b.compare a = .ok o.swap := by
  obtain ⟨hk, rfl⟩ := compare_eq_ok_iff.mp h
  exact compare_eq_ok_iff.mpr ⟨hk.symm, Std.OrientedCmp.eq_swap⟩

/-- Where neither step goes down, the two of them together go up if one of them does. -/
theorem compare_then (hab : a.compare b = .ok o) (hbc : b.compare c = .ok o') (ho : o ≠ .gt)
    (ho' : o' ≠ .gt) : a.compare c = .ok (o.then o') := by
  obtain ⟨hk, rfl⟩ := compare_eq_ok_iff.mp hab
  obtain ⟨hk', rfl⟩ := compare_eq_ok_iff.mp hbc
  exact compare_eq_ok_iff.mpr ⟨hk.trans hk', then_of_ne_gt ho ho'⟩

end Value

namespace Comparison

/-- The comparison that says of two operands what this one says of them in the other order. -/
def mirrored : Comparison → Comparison
  | eq => eq
  | ne => ne
  | lt => gt
  | le => ge
  | gt => lt
  | ge => le

theorem holds_mirrored (c : Comparison) (o : Ordering) : c.mirrored.holds o.swap = c.holds o := by
  cases c <;> cases o <;> rfl

/-- What the comparisons say of two operands is what the order of the operands makes of them: one of
`<`, `=` and `>` holds, and the others deny one of these. -/
structure Consistent (o : Ordering) (truth : Comparison → Bool) : Prop where
  less : truth .lt = true ↔ o = .lt
  equal : truth .eq = true ↔ o = .eq
  greater : truth .gt = true ↔ o = .gt
  one : [truth .lt, truth .eq, truth .gt].count true = 1
  ne : truth .ne = !truth .eq
  le : truth .le = !truth .gt
  ge : truth .ge = !truth .lt

theorem consistent_holds (o : Ordering) : Consistent o (·.holds o) := by
  cases o <;> constructor <;> decide

end Comparison

theorem BinaryOp.apply_comparison_of_ne (c : Comparison) {a b : Value} (h : a.kind ≠ b.kind) :
    apply (.comparison c) a b = .error (.typeMismatch (.operands (.comparison c) a.kind a b)) := by
  simp only [apply, Value.compare?_eq_none_iff.mpr h]

theorem BinaryOp.apply_mirrored (c : Comparison) {a b : Value} (h : a.kind = b.kind) :
    apply (.comparison c.mirrored) b a = .ok (.bool (c.holds (a.order b))) := by
  have hswap : b.order a = (a.order b).swap := Std.OrientedCmp.eq_swap
  rw [apply_comparison _ h.symm, hswap, c.holds_mirrored]

theorem Expr.eval_binary {left right : Expr} {r : Row} {a b : Value} (op : BinaryOp)
    (hl : left.eval r = .ok a) (hr : right.eval r = .ok b) :
    (binary left op right).eval r = op.apply a b := by
  rw [eval, hl, hr]
  rfl

/-- Values compare when they are of one kind, and their order is then a total one in which only
equal values are equal. On every row the comparisons of two expressions are what the order of their
values makes of them, and they fail when the values are of two kinds. -/
theorem Value.comparisons_agree :
    (∀ a b : Value, (∃ e, a.compare b = .error e) ↔ a.kind ≠ b.kind) ∧
    (∀ a b : Value, a.kind = b.kind →
      ∃ o, a.compare b = .ok o ∧ b.compare a = .ok o.swap ∧ (o = .eq ↔ a = b)) ∧
    (∀ (a b c : Value) (o o' : Ordering), a.compare b = .ok o → b.compare c = .ok o' →
      o ≠ .gt → o' ≠ .gt → a.compare c = .ok (o.then o')) ∧
    ∀ (r : Row) (left right : Expr) (a b : Value), left.eval r = .ok a → right.eval r = .ok b →
      (a.kind = b.kind → ∃ o truth, a.compare b = .ok o ∧ Comparison.Consistent o truth ∧
        ∀ c, (Expr.binary left (.comparison c) right).eval r = .ok (.bool (truth c)) ∧
          (Expr.binary right (.comparison c.mirrored) left).eval r = .ok (.bool (truth c))) ∧
      (a.kind ≠ b.kind → ∀ c, (Expr.binary left (.comparison c) right).eval r =
        .error (.typeMismatch (.operands (.comparison c) a.kind a b))) := by
  refine ⟨fun a b => ?_, fun a b hk => ?_, fun a b c o o' => compare_then,
    fun r left right a b hl hr => ⟨fun hk => ?_, fun hk c => ?_⟩⟩
  · simp [compare_eq_error_iff]
  · have hab : a.compare b = .ok (a.order b) := compare_eq_ok_iff.mpr ⟨hk, rfl⟩
    exact ⟨_, hab, compare_swap hab, order_eq_iff⟩
  · refine ⟨a.order b, _, compare_eq_ok_iff.mpr ⟨hk, rfl⟩, Comparison.consistent_holds _,
      fun c => ⟨?_, ?_⟩⟩
    · rw [Expr.eval_binary _ hl hr, BinaryOp.apply_comparison c hk]
    · rw [Expr.eval_binary _ hr hl, BinaryOp.apply_mirrored c hk]
  · rw [Expr.eval_binary _ hl hr, BinaryOp.apply_comparison_of_ne c hk]

/-- A string comes before another that goes on after it, also when the one stands in a column. -/
theorem comparisons_agree_prefix : ∃ truth, Comparison.Consistent .lt truth ∧
    ∀ c, (Expr.binary (.column "s") (.comparison c) (.literal (.string "ab"))).eval
        ⟨[("s", .string "a")]⟩ = .ok (.bool (truth c)) ∧
      (Expr.binary (.literal (.string "ab")) (.comparison c.mirrored) (.column "s")).eval
        ⟨[("s", .string "a")]⟩ = .ok (.bool (truth c)) := by
  obtain ⟨-, -, -, heval⟩ := Value.comparisons_agree
  obtain ⟨o, truth, ho, hc, htruth⟩ := (heval ⟨[("s", .string "a")]⟩ (.column "s")
    (.literal (.string "ab")) (.string "a") (.string "ab") rfl rfl).1 rfl
  have hlt : (Value.string "a").compare (.string "ab") = .ok .lt := by decide +kernel
  obtain rfl : o = .lt := Except.ok.inj (ho.symm.trans hlt)
  exact ⟨truth, hc, htruth⟩

end Tabular
