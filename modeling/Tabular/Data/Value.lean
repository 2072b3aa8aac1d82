import Tabular.Text.ByteOrder
import Tabular.Text.Quoted

/-! Values and their kinds. A value is a number, a truth value or a string; its kind decides which
values it compares with and which columns can hold it. `Kind.Carrier` is what a cell of one kind
holds, and `Kind.value` and `Kind.cell?` pass between cells and values. -/

namespace Tabular

/-- The kinds of values. -/
inductive Kind where
  | int
  | bool
  | varchar
  deriving DecidableEq, Repr

namespace Kind

def sql : Kind → String
  | int => "INT"
  | bool => "BOOL"
  | varchar => "VARCHAR"

/-- What a cell of a kind holds. -/
abbrev Carrier : Kind → Type
  | int => Int64
  | bool => Bool
  | varchar => String

instance : (k : Kind) → DecidableEq k.Carrier
  | int => inferInstanceAs (DecidableEq Int64)
  | bool => inferInstanceAs (DecidableEq Bool)
  | varchar => inferInstanceAs (DecidableEq String)

end Kind

/-- A value: a signed 64-bit number, a truth value or a string. -/
inductive Value where
  | number (n : Int64)
  | bool (b : Bool)
  | string (s : String)
  deriving DecidableEq, Repr

namespace Value

def kind : Value → Kind
  | number _ => .int
  | bool _ => .bool
  | string _ => .varchar

/-- The number that a value is, if it is one. -/
def number? : Value → Option Int64
  | number n => some n
  | _ => none

/-- The truth value that a value is, if it is one. -/
def bool? : Value → Option Bool
  | bool b => some b
  | _ => none

/-- The string that a value is, if it is one. -/
def string? : Value → Option String
  | string s => some s
  | _ => none

/-- A value as a literal: a decimal number, `TRUE` or `FALSE`, or a quoted string. -/
def sql : Value → String
  | number n => n.toInt.repr
  | bool true => "TRUE"
  | bool false => "FALSE"
  | string s => Text.quoted s

/-- A value after its kind, as messages name it. -/
def described (v : Value) : String := v.kind.sql ++ " " ++ v.sql

/-- Compares two values of one kind: numbers by size, `FALSE` before `TRUE`, strings by their
bytes. Values of two kinds do not compare. -/
def compare? : Value → Value → Option Ordering
  | number a, number b => some (compare a b)
  | bool a, bool b => some (compare a b)
  | string a, string b => some (Text.compareBytes a b)
  | _, _ => none

/-- Values of two kinds, and no others, have no order. -/
theorem compare?_eq_none_iff {a b : Value} : a.compare? b = none ↔ a.kind ≠ b.kind := by
  cases a <;> cases b <;> simp [compare?, kind]

theorem kind_eq_of_compare? {a b : Value} {o : Ordering} (h : a.compare? b = some o) :
    a.kind = b.kind := by
  cases a <;> cases b <;> first | rfl | cases h

end Value

namespace Kind

def value : (k : Kind) → k.Carrier → Value
  | int, n => .number n
  | bool, b => .bool b
  | varchar, s => .string s

/-- The cell that holds a value, if the value is of the cell's kind. -/
def cell? : (k : Kind) → Value → Option k.Carrier
  | int, v => v.number?
  | bool, v => v.bool?
  | varchar, v => v.string?

@[simp] theorem kind_value (k : Kind) (c : k.Carrier) : (k.value c).kind = k := by
  cases k <;> rfl

@[simp] theorem cell?_value (k : Kind) (c : k.Carrier) : k.cell? (k.value c) = some c := by
  cases k <;> rfl

theorem value_inj {k : Kind} {c d : k.Carrier} : k.value c = k.value d ↔ c = d := by
  constructor
  · intro h
    have := congrArg k.cell? h
    simpa using this
  · rintro rfl
    rfl

/-- A cell holds exactly one value. -/
theorem cell?_eq_some_iff {k : Kind} {v : Value} {c : k.Carrier} :
    k.cell? v = some c ↔ v = k.value c := by
  cases k <;> cases v <;>
    simp [cell?, value, Value.number?, Value.bool?, Value.string?]

/-- Values of other kinds, and no others, have no cell. -/
theorem cell?_eq_none_iff {k : Kind} {v : Value} : k.cell? v = none ↔ v.kind ≠ k := by
  cases k <;> cases v <;>
    simp [cell?, Value.kind, Value.number?, Value.bool?, Value.string?]

end Kind

end Tabular
