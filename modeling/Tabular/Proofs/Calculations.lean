import Tabular.Proofs.Nodes

/-! Calculations without limits. An expression has an exact value, computed with integers of any
size, and `Expr.failure?` says why a calculation on signed 64-bit numbers stops at a node whose
operands it has computed. The evaluator agrees with this: the first node that fails decides the
error, and if none does, the value is the exact one. -/

namespace Tabular

variable {r : Row}

/-! ### Exact values -/

/-- A value whose numbers may be of any size. -/
inductive Exact where
  | number (n : Int)
  | bool (b : Bool)
  | string (s : String)
  deriving DecidableEq, Repr

def Value.exact : Value → Exact
  | number n => .number n.toInt
  | bool b => .bool b
  | string s => .string s

namespace Exact

def kind : Exact → Kind
  | number _ => .int
  | bool _ => .bool
  | string _ => .varchar

/-- The value that errors show for an exact one whose number is in range. -/
def value : Exact → Value
  | number n => .number (.ofInt n)
  | bool b => .bool b
  | string s => .string s

def compare? : Exact → Exact → Option Ordering
  | number a, number b => some (compare a b)
  | bool a, bool b => some (compare a b)
  | string a, string b => some (Text.compareBytes a b)
  | _, _ => none

/-- The integers that a signed 64-bit number can be. -/
abbrev Bounded (n : Int) : Prop := -9223372036854775808 ≤ n ∧ n ≤ 9223372036854775807

end Exact

/-- The exact result of arithmetic. A quotient is rounded toward zero. -/
def Arithmetic.exact : Arithmetic → Int → Int → Int
  | add, a, b => a + b
  | sub, a, b => a - b
  | mul, a, b => a * b
  | div, a, b => a.tdiv b

/-- The exact result of a binary operator, if it takes the operands. -/
def BinaryOp.exactResult? : BinaryOp → Exact → Exact → Option Exact
  | comparison op, a, b => (a.compare? b).map fun o => .bool (op.holds o)
  | arithmetic op, .number a, .number b =>
    if op = .div ∧ b = 0 then none else some (.number (op.exact a b))
  | connective op, .bool a, .bool b => some (.bool (op.apply a b))
  | _, _, _ => none

/-- Why a binary operator has no result for exact operands, if it has none. -/
def BinaryOp.failure? : BinaryOp → Exact → Exact → Option Error
  | comparison op, a, b =>
    if a.kind = b.kind then none
    else some (.typeMismatch (.operands (comparison op) a.kind a.value b.value))
  | arithmetic op, .number a, .number b =>
    if op = .div ∧ b = 0 then some .divisionByZero
    else if Exact.Bounded (op.exact a b) then none
    else some (.overflow (.binary (.ofInt a) op (.ofInt b)))
  | arithmetic op, a, b => some (.typeMismatch (.operands (arithmetic op) .int a.value b.value))
  | connective _, .bool _, .bool _ => none
  | connective op, a, b => some (.typeMismatch (.operands (connective op) .bool a.value b.value))

/-- The exact result of a sign, if it takes the operand. -/
def Sign.exactResult? : Sign → Exact → Option Exact
  | plus, .number n => some (.number n)
  | minus, .number n => some (.number (-n))
  | _, _ => none

/-- Why a sign has no result for an exact operand, if it has none. -/
def Sign.failure? : Sign → Exact → Option Error
  | plus, .number _ => none
  | minus, .number n =>
    if Exact.Bounded (-n) then none else some (.overflow (.negation (.ofInt n)))
  | sign, v => some (.typeMismatch (.operand sign v.value))

namespace Expr

/-- The exact value of an expression on a row, if it has one. No number on the way to it is too
large. -/
def exactValue? (r : Row) : Expr → Option Exact
  | column name => (r.get? name).map Value.exact
  | literal v => some v.exact
  | wildcard => none
  | binary left op right => do
    let a ← left.exactValue? r
    let b ← right.exactValue? r
    op.exactResult? a b
  | signed sign operand => do
    let v ← operand.exactValue? r
    sign.exactResult? v
  | group inner => inner.exactValue? r

/-- Why a calculation stops at a node whose operands have exact values, if it does. -/
def failure? (r : Row) : Expr → Option Error
  | column name => if (r.get? name).isNone then some (.unknownColumn name) else none
  | literal _ => none
  | wildcard => some .misplacedWildcard
  | binary left op right => do
    let a ← left.exactValue? r
    let b ← right.exactValue? r
    op.failure? a b
  | signed sign operand => do
    let v ← operand.exactValue? r
    sign.failure? v
  | group _ => none

/-- What an expression's calculation ends in: the error of the first node that fails, or else the
exact value. -/
def calculation (r : Row) (e : Expr) : Except Error (Option Exact) :=
  match e.nodes.findSome? (·.failure? r) with
  | some error => .error error
  | none => .ok (e.exactValue? r)

end Expr

/-! ### Operators -/

theorem Number.bmod_of_bounded {n : Int} (h : Exact.Bounded n) :
    n.bmod 18446744073709551616 = n := by
  obtain ⟨hlow, hhigh⟩ := h
  exact Int.bmod_eq_of_le (by omega) (by omega)

namespace Arithmetic

variable {op : Arithmetic} {a b : Int64}

theorem exists_apply?_of_bounded (h : Exact.Bounded (op.exact a.toInt b.toInt)) :
    ∃ n, op.apply? a b = some n ∧ n.toInt = op.exact a.toInt b.toInt := by
  cases op with
  | add => exact ⟨_, if_pos h, (Int64.toInt_add a b).trans (Number.bmod_of_bounded h)⟩
  | sub => exact ⟨_, if_pos h, (Int64.toInt_sub a b).trans (Number.bmod_of_bounded h)⟩
  | mul => exact ⟨_, if_pos h, (Int64.toInt_mul a b).trans (Number.bmod_of_bounded h)⟩
  | div => exact ⟨_, if_pos h, (Int64.toInt_div a b).trans (Number.bmod_of_bounded h)⟩

theorem apply?_of_not_bounded (h : ¬Exact.Bounded (op.exact a.toInt b.toInt)) :
    op.apply? a b = none := by
  cases op <;> exact if_neg h

end Arithmetic

theorem Number.exists_neg?_of_bounded {a : Int64} (h : Exact.Bounded (-a.toInt)) :
    ∃ n, Number.neg? a = some n ∧ n.toInt = -a.toInt :=
  ⟨_, if_pos h, (Int64.toInt_neg a).trans (Number.bmod_of_bounded h)⟩

theorem Number.neg?_of_not_bounded {a : Int64} (h : ¬Exact.Bounded (-a.toInt)) :
    Number.neg? a = none := if_neg h

theorem Number.compare_toInt (a b : Int64) : compare a.toInt b.toInt = compare a b := by
  simp only [compare, compareOfLessAndEq, Int64.lt_iff_toInt_lt, ← Int64.toInt_inj]

namespace Exact

@[simp] theorem value_exact (v : Value) : v.exact.value = v := by
  cases v <;> simp [Value.exact, value]

@[simp] theorem kind_exact (v : Value) : v.exact.kind = v.kind := by
  cases v <;> rfl

theorem compare?_exact (a b : Value) : a.exact.compare? b.exact = a.compare? b := by
  cases a <;> cases b <;> simp [Value.exact, compare?, Value.compare?, Number.compare_toInt]

/-- A result is the failure that a calculation finds, or else the calculation's exact value. -/
inductive Agrees : Except Error Value → Option Error → Option Exact → Prop
  | value (v : Value) : Agrees (.ok v) none (some v.exact)
  | failure (error : Error) (value? : Option Exact) : Agrees (.error error) (some error) value?

theorem Agrees.cases {result : Except Error Value} {failure? : Option Error}
    {value? : Option Exact} (h : Agrees result failure? value?) :
    (∃ v, result = .ok v ∧ failure? = none ∧ value? = some v.exact) ∨
      ∃ error, result = .error error ∧ failure? = some error := by
  cases h with
  | value v => exact .inl ⟨v, rfl, rfl, rfl⟩
  | failure error => exact .inr ⟨error, rfl, rfl⟩

theorem Agrees.operands {op : BinaryOp} {k : Kind} {a b : Value} {value? : Option Exact} :
    Agrees (.error (.typeMismatch (.operands op k a b)))
      (some (.typeMismatch (.operands op k a.exact.value b.exact.value))) value? := by
  rw [value_exact, value_exact]
  exact .failure _ _

theorem Agrees.operand {sign : Sign} {v : Value} {value? : Option Exact} :
    Agrees (.error (.typeMismatch (.operand sign v)))
      (some (.typeMismatch (.operand sign v.exact.value))) value? := by
  rw [value_exact]
  exact .failure _ _

end Exact

theorem Arithmetic.agrees (op : Arithmetic) (a b : Int64) :
    Exact.Agrees (Value.number <$> op.apply a b)
      ((BinaryOp.arithmetic op).failure? (.number a.toInt) (.number b.toInt))
      ((BinaryOp.arithmetic op).exactResult? (.number a.toInt) (.number b.toInt)) := by
  have hzero : b = 0 ↔ b.toInt = 0 := Int64.toInt_inj.symm
  rw [apply, BinaryOp.failure?, BinaryOp.exactResult?]
  by_cases hdivision : op = .div ∧ b = 0
  · have hdivision' : op = .div ∧ b.toInt = 0 := hdivision.imp_right hzero.mp
    rw [if_pos hdivision, if_pos hdivision']
    exact .failure _ _
  · have hdivision' : ¬(op = .div ∧ b.toInt = 0) := hdivision ∘ And.imp_right hzero.mpr
    rw [if_neg hdivision, if_neg hdivision', if_neg hdivision']
    by_cases hbounded : Exact.Bounded (op.exact a.toInt b.toInt)
    · obtain ⟨n, hn, hexact⟩ := exists_apply?_of_bounded hbounded
      rw [hn, if_pos hbounded, ← hexact]
      exact .value (.number n)
    · rw [apply?_of_not_bounded hbounded, if_neg hbounded, Int64.ofInt_toInt, Int64.ofInt_toInt]
      exact .failure _ _

theorem BinaryOp.agrees (op : BinaryOp) (a b : Value) :
    Exact.Agrees (op.apply a b) (op.failure? a.exact b.exact)
      (op.exactResult? a.exact b.exact) := by
  cases op with
  | comparison c =>
    rw [apply, failure?, exactResult?, Exact.compare?_exact, Exact.kind_exact,
      Exact.kind_exact]
    cases ho : a.compare? b with
    | some o =>
      rw [if_pos (Value.kind_eq_of_compare? ho)]
      exact .value (.bool (c.holds o))
    | none =>
      rw [if_neg (Value.compare?_eq_none_iff.mp ho)]
      exact .operands
  | arithmetic c =>
    cases a with
    | number m =>
      cases b with
      | number n => exact c.agrees m n
      | _ => exact .operands
    | _ => exact .operands
  | connective c =>
    cases a with
    | bool p =>
      cases b with
      | bool q => exact .value (.bool (c.apply p q))
      | _ => exact .operands
    | _ => exact .operands

theorem Sign.agrees (sign : Sign) (v : Value) :
    Exact.Agrees (sign.apply v) (sign.failure? v.exact) (sign.exactResult? v.exact) := by
  cases v with
  | number n =>
    cases sign with
    | plus => exact .value (.number n)
    | minus =>
      show Exact.Agrees _ (if Exact.Bounded (-n.toInt) then none else _) (some (.number (-n.toInt)))
      rw [apply]
      by_cases hbounded : Exact.Bounded (-n.toInt)
      · obtain ⟨m, hm, hexact⟩ := Number.exists_neg?_of_bounded hbounded
        rw [hm, if_pos hbounded, ← hexact]
        exact .value (.number m)
      · rw [Number.neg?_of_not_bounded hbounded, if_neg hbounded, Int64.ofInt_toInt]
        exact .failure _ _
  | _ => cases sign <;> exact .operand

/-- A binary operator fails on operands of other kinds than it takes, at a division by zero, and
where the exact result is out of range. -/
theorem BinaryOp.failure?_cases {op : BinaryOp} {a b : Exact} {error : Error}
    (h : op.failure? a b = some error) :
    (∃ mismatch, error = .typeMismatch mismatch) ∨
    ∃ c m n, op = .arithmetic c ∧ a = .number m ∧ b = .number n ∧
      (c = .div ∧ n = 0 ∧ error = .divisionByZero ∨
        ¬(c = .div ∧ n = 0) ∧ ¬Exact.Bounded (c.exact m n) ∧
          error = .overflow (.binary (.ofInt m) c (.ofInt n))) := by
  cases op with
  | comparison c =>
    rw [failure?] at h
    split at h
    · cases h
    · exact .inl ⟨_, (Option.some.inj h).symm⟩
  | arithmetic c =>
    cases a with
    | number m =>
      cases b with
      | number n =>
        refine .inr ⟨c, m, n, rfl, rfl, rfl, ?_⟩
        rw [failure?] at h
        split_ifs at h with hdivision hbounded
        · exact .inl ⟨hdivision.1, hdivision.2, (Option.some.inj h).symm⟩
        · exact .inr ⟨hdivision, hbounded, (Option.some.inj h).symm⟩
      | _ => exact .inl ⟨_, (Option.some.inj h).symm⟩
    | _ => exact .inl ⟨_, (Option.some.inj h).symm⟩
  | connective c =>
    cases a with
    | bool p =>
      cases b with
      | bool q => cases h
      | _ => exact .inl ⟨_, (Option.some.inj h).symm⟩
    | _ => exact .inl ⟨_, (Option.some.inj h).symm⟩

/-- A sign fails on what is no number, and where the exact result is out of range. -/
theorem Sign.failure?_cases {sign : Sign} {v : Exact} {error : Error}
    (h : sign.failure? v = some error) :
    (∃ mismatch, error = .typeMismatch mismatch) ∨
    ∃ n, sign = .minus ∧ v = .number n ∧ ¬Exact.Bounded (-n) ∧
      error = .overflow (.negation (.ofInt n)) := by
  cases v with
  | number n =>
    cases sign with
    | plus => cases h
    | minus =>
      rw [failure?] at h
      split at h
      · cases h
      · next hbounded => exact .inr ⟨n, rfl, rfl, hbounded, (Option.some.inj h).symm⟩
  | _ => cases sign <;> exact .inl ⟨_, (Option.some.inj h).symm⟩

/-! ### Expressions -/

namespace Expr

theorem agrees (r : Row) (e : Expr) :
    Exact.Agrees (e.eval r) (e.nodes.findSome? (·.failure? r)) (e.exactValue? r) := by
  induction e with
  | column name =>
    rw [nodes, List.findSome?_singleton, failure?, exactValue?, eval]
    cases r.get? name with
    | some v => exact .value v
    | none => exact .failure _ _
  | literal v => exact .value v
  | wildcard => exact .failure _ _
  | binary left op right ihl ihr =>
    rw [nodes, List.findSome?_append, List.findSome?_append, List.findSome?_singleton, failure?,
      exactValue?, eval]
    obtain ⟨a, ha, hleft, hexact⟩ | ⟨error, he, hleft⟩ := ihl.cases
    · obtain ⟨b, hb, hright, hexact'⟩ | ⟨error, he, hright⟩ := ihr.cases
      · rw [ha, hb, hleft, hright, hexact, hexact']
        exact op.agrees a b
      · rw [ha, he, hleft, hright]
        exact .failure _ _
    · rw [he, hleft]
      exact .failure _ _
  | signed sign operand ih =>
    rw [nodes, List.findSome?_append, List.findSome?_singleton, failure?, exactValue?, eval]
    obtain ⟨v, hv, hbelow, hexact⟩ | ⟨error, he, hbelow⟩ := ih.cases
    · rw [hv, hbelow, hexact]
      exact sign.agrees v
    · rw [he, hbelow]
      exact .failure _ _
  | group inner ih =>
    rw [nodes, List.findSome?_append, List.findSome?_singleton, failure?, exactValue?, eval,
      Option.or_none]
    exact ih

theorem exactValue?_of_eval {e : Expr} {v : Value} (h : e.eval r = .ok v) :
    e.exactValue? r = some v.exact := by
  obtain ⟨w, hw, -, hexact⟩ | ⟨error, herror, -⟩ := (agrees r e).cases
  · rw [hexact, Except.ok.inj (h.symm.trans hw)]
  · rw [h] at herror
    cases herror

/-- A node fails by itself if it names what cannot be read, and otherwise where its operator does on
the exact values of the operands. -/
theorem failure?_cases {node : Expr} {error : Error} (h : node.failure? r = some error) :
    (∃ name, error = .unknownColumn name) ∨ error = .misplacedWildcard ∨
    (∃ left op right a b, node = binary left op right ∧ left.exactValue? r = some a ∧
      right.exactValue? r = some b ∧ op.failure? a b = some error) ∨
    ∃ sign operand v, node = signed sign operand ∧ operand.exactValue? r = some v ∧
      sign.failure? v = some error := by
  cases node with
  | column name =>
    rw [failure?] at h
    split at h
    · exact .inl ⟨name, (Option.some.inj h).symm⟩
    · cases h
  | literal v => cases h
  | wildcard => exact .inr (.inl (Option.some.inj h).symm)
  | binary left op right =>
    obtain ⟨a, ha, h⟩ := Option.bind_eq_some_iff.mp h
    obtain ⟨b, hb, h⟩ := Option.bind_eq_some_iff.mp h
    exact .inr (.inr (.inl ⟨left, op, right, a, b, rfl, ha, hb, h⟩))
  | signed sign operand =>
    obtain ⟨v, hv, h⟩ := Option.bind_eq_some_iff.mp h
    exact .inr (.inr (.inr ⟨sign, operand, v, rfl, hv, h⟩))
  | group inner => cases h

theorem division_of_failure? {node : Expr} (h : node.failure? r = some .divisionByZero) :
    ∃ left right a, node = binary left (.arithmetic .div) right ∧
      left.exactValue? r = some (.number a) ∧ right.exactValue? r = some (.number 0) := by
  obtain ⟨_, h⟩ | h | ⟨left, op, right, a, b, rfl, ha, hb, h⟩ | ⟨sign, operand, v, rfl, hv, h⟩ :=
    failure?_cases h
  · cases h
  · cases h
  · obtain ⟨_, h⟩ | ⟨c, m, n, rfl, rfl, rfl, ⟨rfl, rfl, -⟩ | ⟨-, -, h⟩⟩ := BinaryOp.failure?_cases h
    · cases h
    · exact ⟨left, right, m, rfl, ha, hb⟩
    · cases h
  · obtain ⟨_, h⟩ | ⟨n, rfl, rfl, -, h⟩ := Sign.failure?_cases h
    · cases h
    · cases h

theorem exactValue?_of_failure? {node : Expr} {c : Overflow}
    (h : node.failure? r = some (.overflow c)) :
    ∃ n, node.exactValue? r = some (.number n) ∧ ¬Exact.Bounded n := by
  obtain ⟨_, h⟩ | h | ⟨left, op, right, a, b, rfl, ha, hb, h⟩ | ⟨sign, operand, v, rfl, hv, h⟩ :=
    failure?_cases h
  · cases h
  · cases h
  · rw [exactValue?, ha, hb]
    obtain ⟨_, h⟩ | ⟨c, m, n, rfl, rfl, rfl, ⟨-, -, h⟩ | ⟨hdivision, hbounded, -⟩⟩ :=
      BinaryOp.failure?_cases h
    · cases h
    · cases h
    · exact ⟨c.exact m n, if_neg hdivision, hbounded⟩
  · rw [exactValue?, hv]
    obtain ⟨_, h⟩ | ⟨n, rfl, rfl, hbounded, -⟩ := Sign.failure?_cases h
    · cases h
    · exact ⟨-n, rfl, hbounded⟩

/-- The evaluator gives what an exact calculation does that stops at the first node that fails. So a
number that it gives is the exact value of the expression, and none of the numbers on the way to it
has wrapped. A division by zero is one of exact values, and an overflow is an exact value that is
out of range. -/
theorem eval_calculates (r : Row) (e : Expr) :
    (some ·.exact) <$> e.eval r = e.calculation r ∧
    (∀ n, e.eval r = .ok (.number n) → e.exactValue? r = some (.number n.toInt)) ∧
    (∀ v, e.eval r = .ok v →
      ∀ node ∈ e.nodes, ∃ w, node.eval r = .ok w ∧ node.exactValue? r = some w.exact) ∧
    (e.eval r = .error .divisionByZero →
      ∃ left right a, binary left (.arithmetic .div) right ∈ e.nodes ∧
        left.exactValue? r = some (.number a) ∧ right.exactValue? r = some (.number 0)) ∧
    ∀ c, e.eval r = .error (.overflow c) →
      ∃ node ∈ e.nodes, ∃ n, node.exactValue? r = some (.number n) ∧ ¬Exact.Bounded n := by
  have hfirst {error : Error} (h : e.eval r = .error error) :
      ∃ node ∈ e.nodes, node.failure? r = some error := by
    obtain ⟨v, hv, -, -⟩ | ⟨error', herror, hfailure⟩ := (agrees r e).cases
    · rw [h] at hv
      cases hv
    · obtain rfl : error = error' := Except.error.inj (h.symm.trans herror)
      exact List.exists_of_findSome?_eq_some hfailure
  refine ⟨?_, fun n hn => exactValue?_of_eval hn, fun v hv node hnode => ?_, fun h => ?_,
    fun c h => ?_⟩
  · rw [calculation]
    obtain ⟨v, hv, hnone, hexact⟩ | ⟨error, herror, hfailure⟩ := (agrees r e).cases
    · rw [hv, hnone, hexact]
      rfl
    · rw [herror, hfailure]
      rfl
  · obtain ⟨w, hw⟩ := exists_eval_of_mem_nodes hv hnode
    exact ⟨w, hw, exactValue?_of_eval hw⟩
  · obtain ⟨node, hnode, hfailure⟩ := hfirst h
    obtain ⟨left, right, a, rfl, ha, hzero⟩ := division_of_failure? hfailure
    exact ⟨left, right, a, hnode, ha, hzero⟩
  · obtain ⟨node, hnode, hfailure⟩ := hfirst h
    exact ⟨node, hnode, exactValue?_of_failure? hfailure⟩

/-- The first failure in the order of evaluation is the one that counts: the quotient of the lowest
number by -1 is out of range before the division by zero is reached. -/
example :
    let quotient : Expr := .binary (.literal (.number Int64.minValue)) (.arithmetic .div)
      (.literal (.number (-1)))
    (binary quotient (.arithmetic .div) (.literal (.number 0))).eval Row.empty =
        .error (.overflow (.binary Int64.minValue .div (-1))) ∧
      quotient.exactValue? Row.empty = some (.number 9223372036854775808) := by
  decide

end Expr

end Tabular
