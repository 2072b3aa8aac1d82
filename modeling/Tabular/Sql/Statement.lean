import Tabular.Schema.Column
import Tabular.Sql.Expr

/-! Statements, and the text of each. A statement works on one table, which it names. -/

namespace Tabular

/-- Items of a list, one after another with commas between them. -/
def listed (items : List String) : String := ", ".intercalate items

/-- The `WHERE` clause of a statement, if it has one. -/
def whereClause : Option Expr → String
  | some condition => " WHERE " ++ condition.sql
  | none => ""

/-- Makes a table with the given columns. -/
structure CreateTable where
  table : String
  columns : List Column
  deriving DecidableEq, Repr

def CreateTable.sql (s : CreateTable) : String :=
  "CREATE TABLE " ++ s.table ++ " (" ++ listed (s.columns.map (·.sql)) ++ ")"

/-- An expression to sort rows by, from small to large or the other way round. -/
structure SortKey where
  expr : Expr
  descending : Bool := false
  deriving DecidableEq, Repr

def SortKey.sql (k : SortKey) : String := k.expr.sql ++ if k.descending then " DESC" else ""

/-- Reads the rows that satisfy a condition: sorts them, takes the first ones up to a limit, and
shows the projected expressions of each. -/
structure Select where
  projection : List Expr
  table : String
  condition : Option Expr := none
  order : List SortKey := []
  limit : Option Nat := none
  deriving DecidableEq, Repr

def Select.sql (s : Select) : String :=
  "SELECT " ++ listed (s.projection.map (·.sql)) ++ " FROM " ++ s.table ++
    whereClause s.condition ++
    (if s.order.isEmpty then "" else " ORDER BY " ++ listed (s.order.map (·.sql))) ++
    match s.limit with
    | some n => " LIMIT " ++ n.repr
    | none => ""

/-- Adds a row. Without column names the values are those of all columns in order. -/
structure InsertRow where
  table : String
  columns : List String := []
  values : List Expr
  deriving DecidableEq, Repr

def InsertRow.sql (s : InsertRow) : String :=
  "INSERT INTO " ++ s.table ++ " " ++
    (if s.columns.isEmpty then "" else "(" ++ listed s.columns ++ ") ") ++
    "VALUES (" ++ listed (s.values.map (·.sql)) ++ ")"

/-- A new value for a column. -/
structure Assignment where
  column : String
  value : Expr
  deriving DecidableEq, Repr

def Assignment.sql (a : Assignment) : String := a.column ++ " = " ++ a.value.sql

/-- Changes the rows that satisfy a condition. -/
structure Update where
  table : String
  assignments : List Assignment
  condition : Option Expr := none
  deriving DecidableEq, Repr

def Update.sql (s : Update) : String :=
  "UPDATE " ++ s.table ++ " SET " ++ listed (s.assignments.map (·.sql)) ++ whereClause s.condition

/-- Removes the rows that satisfy a condition. -/
structure Delete where
  table : String
  condition : Option Expr := none
  deriving DecidableEq, Repr

def Delete.sql (s : Delete) : String := "DELETE FROM " ++ s.table ++ whereClause s.condition

/-- Removes a table with its rows. -/
structure DropTable where
  table : String
  deriving DecidableEq, Repr

def DropTable.sql (s : DropTable) : String := "DROP TABLE " ++ s.table

/-- The kinds of statements. -/
inductive Verb where
  | create
  | select
  | insert
  | update
  | delete
  | drop
  deriving DecidableEq, Repr

/-- The keyword that a statement of a kind begins with. -/
def Verb.sql : Verb → String
  | create => "CREATE"
  | select => "SELECT"
  | insert => "INSERT"
  | update => "UPDATE"
  | delete => "DELETE"
  | drop => "DROP"

/-- A statement. -/
inductive Statement where
  | create (s : CreateTable)
  | select (s : Select)
  | insert (s : InsertRow)
  | update (s : Update)
  | delete (s : Delete)
  | drop (s : DropTable)
  deriving DecidableEq, Repr

namespace Statement

def verb : Statement → Verb
  | create _ => .create
  | select _ => .select
  | insert _ => .insert
  | update _ => .update
  | delete _ => .delete
  | drop _ => .drop

/-- The name of the table that a statement works on. -/
def table : Statement → String
  | create s => s.table
  | select s => s.table
  | insert s => s.table
  | update s => s.table
  | delete s => s.table
  | drop s => s.table

def sql : Statement → String
  | create s => s.sql
  | select s => s.sql
  | insert s => s.sql
  | update s => s.sql
  | delete s => s.sql
  | drop s => s.sql

end Statement

end Tabular
