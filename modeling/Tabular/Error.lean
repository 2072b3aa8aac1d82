import Tabular.Schema.Column
import Tabular.Sql.Expr

/-! What can go wrong. An `Error` is a statement's own fault and says so in its message. A `Fault`
is a broken promise between parts of the engine, such as a cell written past the end of a store;
no statement leads to one. `Failure` is either. -/

namespace Tabular

/-- A value of a kind that its place does not take. -/
inductive Mismatch where
  /-- A value compared with one of another kind. -/
  | comparison (left right : Value)
  /-- A value written to a column of another type. -/
  | column (name : String) (type : ColumnType) (value : Value)
  /-- Operands that a binary operator does not take. -/
  | operands (op : BinaryOp) (expected : Kind) (left right : Value)
  /-- An operand that a sign does not take. -/
  | operand (sign : Sign) (value : Value)
  /-- A condition that is not a truth value. -/
  | condition (expr : Expr) (value : Value)
  deriving DecidableEq, Repr

namespace Mismatch

def expected : Mismatch → String
  | comparison left _ => left.kind.sql
  | column name type _ => type.sql ++ " for column " ++ name
  | operands op expected _ _ => expected.sql ++ " operands for " ++ op.sql
  | operand sign _ => Kind.int.sql ++ " operand for unary " ++ sign.sql
  | condition expr _ => Kind.bool.sql ++ " condition in " ++ expr.sql

def found : Mismatch → String
  | comparison _ right => right.described
  | column _ _ value => value.described
  | operands op _ left right =>
    left.kind.sql ++ " " ++ left.sql ++ " " ++ op.sql ++ " " ++ right.kind.sql ++ " " ++ right.sql
  | operand _ value => value.described
  | condition _ value => value.described

end Mismatch

/-- A calculation whose result is out of the range of numbers. -/
inductive Overflow where
  | binary (left : Int64) (op : Arithmetic) (right : Int64)
  | negation (n : Int64)
  deriving DecidableEq, Repr

def Overflow.sql : Overflow → String
  | binary left op right => left.toInt.repr ++ " " ++ op.sql ++ " " ++ right.toInt.repr
  | negation n => "-" ++ n.toInt.repr

/-- Why a statement fails. -/
inductive Error where
  | unknownTable (table : String)
  | tableAlreadyExists (table : String)
  | duplicateColumn (column : String)
  | unknownColumn (column : String)
  | multiplePrimaryKeys (table : String)
  | emptySchema (table : String)
  | varcharSize (column : String) (size max : Nat)
  | typeMismatch (mismatch : Mismatch)
  | valueTooLong (column : String) (length max : Nat)
  | valueCount (columns values : Nat)
  | missingValue (column : String)
  | notUnique (column : String) (rule : Uniqueness) (value : Value)
  | divisionByZero
  | overflow (calculation : Overflow)
  | misplacedWildcard
  deriving DecidableEq, Repr

def Error.message : Error → String
  | unknownTable table => "Table not found: " ++ table
  | tableAlreadyExists table => "Table already exists: " ++ table
  | duplicateColumn column => "Column already exists: " ++ column
  | unknownColumn column => "Column not found: " ++ column
  | multiplePrimaryKeys table => "Table " ++ table ++ " declares more than one PRIMARY KEY column"
  | emptySchema table => "Table " ++ table ++ " must have at least one column"
  | varcharSize column size max =>
    "Invalid data type for column " ++ column ++ ": VARCHAR size must be in 1..=" ++ max.repr ++
      ", got " ++ size.repr
  | typeMismatch mismatch =>
    "Type mismatch: expected " ++ mismatch.expected ++ ", found " ++ mismatch.found
  | valueTooLong column length max =>
    "Value too long for column " ++ column ++ ": " ++ length.repr ++ " characters, maximum is " ++
      max.repr
  | valueCount columns values =>
    "Expected " ++ columns.repr ++ " values, got " ++ values.repr
  | missingValue column => "No value provided for column " ++ column
  | notUnique column rule value =>
    rule.sql ++ " violation on column " ++ column ++ ": duplicate value " ++ value.sql
  | divisionByZero => "Division by zero"
  | overflow calculation => "Arithmetic overflow in " ++ calculation.sql
  | misplacedWildcard => "Wildcard is only allowed as a SELECT projection"

/-- A broken promise between parts of the engine. -/
inductive Fault where
  /-- A value of another kind than the store's. -/
  | wrongKind
  /-- A position past the end. -/
  | outOfRange
  /-- Positions to remove that are not in descending order. -/
  | notDescending
  /-- A row whose names and values differ in number. -/
  | unevenRow
  /-- An operator of another family than the one it is taken for. -/
  | foreignOperator
  deriving DecidableEq, Repr

/-- Why an operation gives no result: an error of type `ε`, or a fault. -/
inductive Failure (ε : Type) where
  | error (cause : ε)
  | fault (cause : Fault)
  deriving DecidableEq, Repr

instance {ε : Type} : MonadLift (Except ε) (Except (Failure ε)) where
  monadLift x := x.mapError .error

instance {ε : Type} : MonadLift (Except Fault) (Except (Failure ε)) where
  monadLift x := x.mapError .fault

end Tabular
