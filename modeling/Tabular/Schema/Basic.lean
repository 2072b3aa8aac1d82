import Tabular.Error

/-! Schemas: the columns of a table in order. A name means the first column that has it. -/

namespace Tabular

def Column.check (c : Column) (value : Value) : Except Error Unit :=
  if c.type.admits value then .ok ()
  else match c.type, value with
    | .varchar max, .string s => .error (.valueTooLong c.name s.length max)
    | type, value => .error (.typeMismatch (.column c.name type value))

/-- The columns of a table in order. -/
structure Schema where
  columns : List Column
  deriving DecidableEq, Repr

namespace Schema

def length (s : Schema) : Nat := s.columns.length

def isEmpty (s : Schema) : Bool := s.columns.isEmpty

def names (s : Schema) : List String := s.columns.map (·.name)

/-- The position of the first column of a name. -/
def index? (s : Schema) (name : String) : Option Nat := s.columns.findIdx? (·.name == name)

def column? (s : Schema) (name : String) : Option Column := s.columns.find? (·.name == name)

def primaryKey? (s : Schema) : Option Column := s.columns.find? (·.isPrimaryKey)

/-- Checks that no column repeats the name of an earlier one, or one of `earlier`, and that every
string column has a size from 1 to `max`. The first column in order that fails decides the error,
and its name comes before its size. -/
def checkColumns (max : Nat) (earlier : List String) : List Column → Except Error Unit
  | [] => .ok ()
  | c :: rest =>
    if c.name ∈ earlier then .error (.duplicateColumn c.name)
    else match c.type.size? with
      | some size =>
        if size = 0 ∨ max < size then .error (.varcharSize c.name size max)
        else checkColumns max (c.name :: earlier) rest
      | none => checkColumns max (c.name :: earlier) rest

/-- Checks that a schema may be given to a table: it has a column, its columns are sound, and one
of them at most is a primary key. -/
def validate (s : Schema) (table : String) (max : Nat) : Except Error Unit := do
  if s.isEmpty then
    throw (.emptySchema table)
  checkColumns max [] s.columns
  if 1 < s.columns.countP (·.isPrimaryKey) then
    throw (.multiplePrimaryKeys table)

/-- Checks the values of a row one by one against the columns they are for. -/
def checkValues : List Column → List Value → Except Error Unit
  | c :: columns, v :: values => do
    c.check v
    checkValues columns values
  | _, _ => .ok ()

/-- Checks that a row fits the schema: as many values as columns, and each one admitted by its
column. -/
def checkRow (s : Schema) (values : List Value) : Except Error Unit := do
  if values.length ≠ s.length then
    throw (.valueCount s.length values.length)
  checkValues s.columns values

end Schema

end Tabular
