import Tabular.Proofs.Queries
import Tabular.Proofs.Scopes

/-! What expressions with a kind can end in. The kind that a schema gives to an expression is that
of its values, and it says also that there is a value, unless a calculation has no result: no
operator meets operands that it does not take, and no name is missing. An expression without a kind
has no value on any row, because both operands of an operator are always evaluated. -/

namespace Tabular

variable {s : Schema} {t : Table} {r : Row} {k : Kind} {name : String}

/-- The error is that of a calculation without a result. -/
def Error.isOfCalculation : Error → Bool
  | divisionByZero => true
  | overflow _ => true
  | _ => false

theorem Arithmetic.failsOnly_calculation (op : Arithmetic) (a b : Int64) :
    FailsOnly (·.isOfCalculation = true) (op.apply a b) := by
  unfold apply
  split
  · exact .error rfl
  · split
    · exact .ok _
    · exact .error rfl

/-- On values of kinds that it takes, an operator fails as calculations do only. -/
theorem BinaryOp.failsOnly_of_kind? {op : BinaryOp} {a b : Value}
    (h : op.kind? a.kind b.kind = some k) :
    FailsOnly (·.isOfCalculation = true) (op.apply a b) := by
  cases op with
  | comparison c =>
    have hkind : a.kind = b.kind := by
      by_contra hne
      simp [kind?, hne] at h
    rw [apply]
    split
    · exact .ok _
    · next hnone => exact absurd hkind (Value.compare?_eq_none_iff.mp hnone)
  | arithmetic c =>
    cases a <;> cases b <;> try cases h
    next m n => exact (c.failsOnly_calculation m n).map _
  | connective c =>
    cases a <;> cases b <;> try cases h
    next p q => exact .ok _

theorem Sign.failsOnly_of_kind_eq {sign : Sign} {v : Value} (h : v.kind = .int) :
    FailsOnly (·.isOfCalculation = true) (sign.apply v) := by
  cases v with
  | number n =>
    cases sign with
    | plus => exact .ok _
    | minus =>
      rw [apply]
      split
      · exact .ok _
      · exact .error rfl
  | _ => cases h

theorem Row.Fits.exists_get? {c : Column} (hr : r.Fits s) (hc : s.column? name = some c) :
    ∃ v, r.get? name = some v := by
  have hname : name ∈ r.names := by
    obtain rfl : c.name = name := by simpa using List.find?_some hc
    rw [hr.names]
    exact List.mem_map_of_mem (List.mem_of_find?_eq_some hc)
  exact Option.isSome_iff_exists.mp (Row.get?_isSome_iff.mpr hname)

/-- On a row of the schema's columns an expression with a kind fails as calculations do only. -/
theorem Expr.failsOnly_of_kind? (hr : r.Fits s) {e : Expr} (h : e.kind? s = some k) :
    FailsOnly (·.isOfCalculation = true) (e.eval r) := by
  induction e generalizing k with
  | column name =>
    obtain ⟨c, hc, -⟩ := Option.map_eq_some_iff.mp h
    obtain ⟨v, hv⟩ := hr.exists_get? hc
    rw [eval, hv]
    exact .ok v
  | literal v => exact .ok v
  | wildcard => cases h
  | binary left op right ihl ihr =>
    obtain ⟨a, ha, h⟩ := Option.bind_eq_some_iff.mp h
    obtain ⟨b, hb, hop⟩ := Option.bind_eq_some_iff.mp h
    refine (ihl ha).bind fun v hv => (ihr hb).bind fun w hw => ?_
    -- the operands have values of the kinds that the schema gives to them
    obtain rfl : a = v.kind := Option.some.inj (ha.symm.trans (kind?_of_eval hr hv))
    obtain rfl : b = w.kind := Option.some.inj (hb.symm.trans (kind?_of_eval hr hw))
    exact BinaryOp.failsOnly_of_kind? hop
  | signed sign operand ih =>
    obtain ⟨ha, hint⟩ := Option.filter_eq_some_iff.mp h
    refine (ih ha).bind fun v hv => Sign.failsOnly_of_kind_eq ?_
    rw [kind?_of_eval hr hv] at ha
    rw [Option.some.inj ha]
    simpa using hint
  | group inner ih => exact ih h

/-- On every row of a well-formed table an expression with a kind has a value of that kind, or it
fails for a division by zero or for a result that is out of range. One without a kind fails on every
row. So an expression never has values of two kinds on the rows of a table. -/
theorem Table.WellFormed.eval_has_kind (h : t.WellFormed) {rows : List Row}
    (hrows : t.rows = .ok rows) (e : Expr) :
    (∀ k, e.kind? t.schema = some k → ∀ r ∈ rows,
      (∃ v, e.eval r = .ok v ∧ v.kind = k) ∨ e.eval r = .error .divisionByZero ∨
        ∃ calculation, e.eval r = .error (.overflow calculation)) ∧
    (e.kind? t.schema = none → ∀ r ∈ rows, ∃ error, e.eval r = .error error) ∧
    ∀ r ∈ rows, ∀ r' ∈ rows, ∀ v v', e.eval r = .ok v → e.eval r' = .ok v' → v.kind = v'.kind := by
  obtain rfl := h.contents_eq hrows
  refine ⟨fun k hk r hr => ?_, fun hnone r hr => ?_, fun r hr r' hr' v v' hv hv' => ?_⟩
  · have hfails := Expr.failsOnly_of_kind? (h.fits_of_mem hr) hk
    cases heval : e.eval r with
    | ok v =>
      rw [Expr.kind?_of_eval (h.fits_of_mem hr) heval] at hk
      exact .inl ⟨v, rfl, Option.some.inj hk⟩
    | error error =>
      have hcalculation := hfails error heval
      cases error with
      | divisionByZero => exact .inr (.inl rfl)
      | overflow calculation => exact .inr (.inr ⟨calculation, rfl⟩)
      | _ => cases hcalculation
  · cases heval : e.eval r with
    | ok v =>
      rw [Expr.kind?_of_eval (h.fits_of_mem hr) heval] at hnone
      cases hnone
    | error error => exact ⟨error, rfl⟩
  · have hkind := Expr.kind?_of_eval (h.fits_of_mem hr) hv
    rw [Expr.kind?_of_eval (h.fits_of_mem hr') hv'] at hkind
    exact (Option.some.inj hkind).symm

namespace Database

/-- A quotient of the users' numbers is a number where it has a value. A condition that its first
operand would decide has no value all the same, since the other one is no truth value. -/
theorem eval_has_kind_users :
    let id : Expr := .column "id"
    let quotient : Expr := .binary (.literal (.number 6)) (.arithmetic .div)
      (.group (.binary id (.arithmetic .sub) (.literal (.number 1))))
    let condition : Expr := .binary (.literal (.bool true)) (.connective .or) id
    ∃ rows, sampleUsers.rows = .ok rows ∧ rows.map quotient.eval =
        [.error .divisionByZero, .ok (.number 6), .ok (.number 3)] ∧
      (∀ r ∈ rows, ∀ v, quotient.eval r = .ok v → v.kind = .int) ∧
      ∀ r ∈ rows, ∃ error, condition.eval r = .error error := by
  intro id quotient condition
  have hwf : sampleUsers.WellFormed := (sample_reachable.wellFormed.of_lookup? table?_sample).2
  have hkind : quotient.kind? sampleUsers.schema = some .int := by decide
  have hnone : condition.kind? sampleUsers.schema = none := by decide
  refine ⟨_, hwf.rows_eq, by decide +kernel, fun r hr v hv => ?_,
    (hwf.eval_has_kind hwf.rows_eq condition).2.1 hnone⟩
  obtain ⟨w, hw, hint⟩ | hdivision | ⟨c, hoverflow⟩ :=
    (hwf.eval_has_kind hwf.rows_eq quotient).1 .int hkind r hr
  · rw [Except.ok.inj (hv.symm.trans hw), hint]
  · rw [hdivision] at hv
    cases hv
  · rw [hoverflow] at hv
    cases hv

end Database

end Tabular
