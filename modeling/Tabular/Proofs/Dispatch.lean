import Tabular.Engine.Evaluation
import Tabular.Proofs.Results

/-! Evaluation by dispatch. Here an operator's family is asked for before its operands are looked
at, and a column's value is the one at the position of its name, so there are operators and
positions at which an evaluator has nothing to give. `Expr.dispatch` makes these cases faults, and
`Expr.dispatch_eq` says that none of them occurs: on a row it is `Expr.eval`. -/

namespace Tabular

namespace BinaryOp

/-- The truth value of a comparison whose operands are in an order. -/
def decided (op : BinaryOp) (o : Ordering) : Except Fault Bool :=
  match op with
  | comparison c => .ok (c.holds o)
  | _ => .error .foreignOperator

/-- The number that arithmetic makes of two. -/
def calculated (op : BinaryOp) (a b : Int64) : Except (Failure Error) Int64 :=
  match op with
  | arithmetic c => c.apply a b
  | _ => .error (.fault .foreignOperator)

/-- The result of a binary operator, whose family decides what it is taken for. -/
def dispatch (op : BinaryOp) (a b : Value) : Except (Failure Error) Value :=
  if op.isComparison then do
    if a.kind ≠ b.kind then
      throw (.error (.typeMismatch (.operands op a.kind a b)))
    return .bool (← op.decided (← a.compare b))
  else match op, a, b with
    | arithmetic _, .number m, .number n => .number <$> op.calculated m n
    | connective c, .bool p, .bool q => .ok (.bool (c.apply p q))
    | _, _, _ =>
      let expected := if op.isConnective then .bool else .int
      .error (.error (.typeMismatch (.operands op expected a b)))

theorem dispatch_eq (op : BinaryOp) (a b : Value) : op.dispatch a b = liftM (op.apply a b) := by
  cases op with
  | comparison c =>
    unfold dispatch
    rw [if_pos (show (comparison c).isComparison = true from rfl)]
    dsimp only
    cases ho : a.compare? b with
    | some o =>
      have hkind := Value.kind_eq_of_compare? ho
      have happly : (comparison c).apply a b = .ok (.bool (c.holds o)) := by
        simp only [apply, ho]
      have hcompare : a.compare b = .ok o := by rw [Value.compare, ho]
      rw [if_neg (by simpa using hkind), happly, hcompare]
      rfl
    | none =>
      have happly : (comparison c).apply a b =
          .error (.typeMismatch (.operands (comparison c) a.kind a b)) := by
        simp only [apply, ho]
      rw [if_pos (Value.compare?_eq_none_iff.mp ho), happly]
      rfl
  | arithmetic c =>
    cases a with
    | number m =>
      cases b with
      | number n =>
        show Value.number <$> (liftM (c.apply m n) : Except (Failure Error) Int64) =
          liftM (Value.number <$> c.apply m n)
        cases c.apply m n <;> rfl
      | _ => rfl
    | _ => rfl
  | connective c => cases a <;> cases b <;> rfl

end BinaryOp

/-- The value at the position of the first name that is the given one. -/
def Row.indexed (names : List String) (values : List Value) (name : String) :
    Except Fault (Option Value) :=
  match names.findIdx? (· == name) with
  | some k =>
    match values[k]? with
    | some v => .ok (some v)
    | none => .error .outOfRange
  | none => .ok none

theorem Row.indexed_eq {names : List String} {values : List Value} {r : Row}
    (h : Row.ofValues names values = .ok r) (name : String) :
    Row.indexed names values name = .ok (r.get? name) := by
  have hlen : r.names.length = r.values.length := by simp [Row.names, Row.values]
  rw [names_ofValues h, values_ofValues h] at hlen
  rw [get?_eq, names_ofValues h, values_ofValues h]
  unfold indexed
  cases hk : names.findIdx? (· == name) with
  | none => rfl
  | some k =>
    obtain ⟨hlt, -⟩ := List.findIdx?_eq_some_iff_getElem.mp hk
    simp [List.getElem?_eq_getElem (hlen ▸ hlt)]

namespace Expr

/-- The value of an expression on a row that is given by its names and its values. -/
def dispatch (names : List String) (values : List Value) : Expr → Except (Failure Error) Value
  | column name => do
    match ← Row.indexed names values name with
    | some v => return v
    | none => throw (.error (.unknownColumn name))
  | literal v => .ok v
  | wildcard => .error (.error .misplacedWildcard)
  | binary left op right => do
    let a ← left.dispatch names values
    let b ← right.dispatch names values
    op.dispatch a b
  | signed sign operand => do
    let v ← operand.dispatch names values
    sign.apply v
  | group inner => inner.dispatch names values

theorem dispatch_eq {names : List String} {values : List Value} {r : Row}
    (h : Row.ofValues names values = .ok r) (e : Expr) :
    e.dispatch names values = liftM (e.eval r) := by
  induction e with
  | column name =>
    rw [dispatch, Row.indexed_eq h, eval]
    cases r.get? name <;> rfl
  | literal v => rfl
  | wildcard => rfl
  | binary left op right ihl ihr =>
    rw [dispatch, ihl, ihr, eval]
    simp only [op.dispatch_eq]
    cases left.eval r <;> cases right.eval r <;> rfl
  | signed sign operand ih =>
    rw [dispatch, ih, eval]
    cases operand.eval r <;> rfl
  | group inner ih => exact ih

end Expr

end Tabular
