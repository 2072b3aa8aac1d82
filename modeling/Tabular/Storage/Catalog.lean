import Tabular.Storage.Table

/-! Catalogs: tables under their names, at most one under each. -/

namespace Tabular

/-- The tables of a database, each under the name it was created with. -/
structure Catalog where
  tables : List (String × Table) := []
  deriving DecidableEq

namespace Catalog

def empty : Catalog := {}

def lookup? (c : Catalog) (name : String) : Option Table := c.tables.lookup name

def names (c : Catalog) : List String := c.tables.map (·.1)

/-- The catalog with a new table without rows. The schema is taken as it is. -/
def create (c : Catalog) (name : String) (schema : Schema) : Except Error Catalog :=
  match c.lookup? name with
  | some _ => .error (.tableAlreadyExists name)
  | none => .ok { c with tables := c.tables ++ [(name, Table.create name schema)] }

/-- The table of a name and the catalog without it. -/
def drop (c : Catalog) (name : String) : Except Error (Table × Catalog) :=
  match c.lookup? name with
  | some t => .ok (t, { c with tables := c.tables.filter (·.1 != name) })
  | none => .error (.unknownTable name)

/-- The table of a name, which must be there. -/
def find (c : Catalog) (name : String) : Except Error Table :=
  match c.lookup? name with
  | some t => .ok t
  | none => .error (.unknownTable name)

/-- The catalog with another table under a name that is in use. -/
def replace (c : Catalog) (name : String) (table : Table) : Catalog :=
  { c with tables := c.tables.map fun (n, t) => if n = name then (n, table) else (n, t) }

end Catalog

end Tabular
