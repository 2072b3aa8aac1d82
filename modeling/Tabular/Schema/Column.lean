import Tabular.Data.Value

/-! Columns: a name, the type of the values, and whether no two rows may share a value. -/

namespace Tabular

/-- The type of a column. A `varchar` column holds strings of at most `size` characters. -/
inductive ColumnType where
  | int
  | bool
  | varchar (size : Nat)
  deriving DecidableEq, Repr

namespace ColumnType

/-- The kind of the values in a column of a type. -/
def kind : ColumnType → Kind
  | int => .int
  | bool => .bool
  | varchar _ => .varchar

/-- The most characters that a string of the type may have, for the types that hold strings. -/
def size? : ColumnType → Option Nat
  | varchar size => some size
  | _ => none

def sql : ColumnType → String
  | int => "INT"
  | bool => "BOOL"
  | varchar size => "VARCHAR(" ++ size.repr ++ ")"

/-- Whether a value belongs to a type: a value of its kind, and a string only if it is short
enough. -/
def admits : ColumnType → Value → Bool
  | int, .number _ => true
  | bool, .bool _ => true
  | varchar size, .string s => s.length ≤ size
  | _, _ => false

/-- A type admits values of its own kind only. -/
theorem kind_of_admits {t : ColumnType} {v : Value} (h : t.admits v = true) : v.kind = t.kind := by
  cases t <;> cases v <;> simp_all [admits, Value.kind, kind]

end ColumnType

/-- A rule that makes the values of a column differ from row to row. -/
inductive Uniqueness where
  | primaryKey
  | unique
  deriving DecidableEq, Repr

def Uniqueness.sql : Uniqueness → String
  | primaryKey => "PRIMARY KEY"
  | unique => "UNIQUE"

/-- A column of a table. -/
structure Column where
  name : String
  type : ColumnType
  uniqueness : Option Uniqueness := none
  deriving DecidableEq, Repr

namespace Column

def isPrimaryKey (c : Column) : Bool := c.uniqueness == some .primaryKey

/-- Whether the values of the column differ from row to row, which those of a primary key do. -/
def isUnique (c : Column) : Bool := c.uniqueness.isSome

/-- The column as a `CREATE TABLE` statement declares it. -/
def sql (c : Column) : String :=
  c.name ++ " " ++ c.type.sql ++
    match c.uniqueness with
    | none => ""
    | some u => " " ++ u.sql

end Column

end Tabular
