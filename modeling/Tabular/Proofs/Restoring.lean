import Tabular.Proofs.Keys
import Tabular.Proofs.Ordering

/-! Making a database anew. The script of a table creates it and inserts its rows one after another.
In a new database with the same settings the scripts of all tables succeed, in whatever order they
are run, and give the same tables: each row can be inserted after those before it, because together
they are part of a table already. -/

namespace Tabular

/-- The statement that inserts the values of a row into a table. -/
def Row.insertion (table : String) (r : Row) : Statement :=
  .insert ⟨table, [], r.values.map .literal⟩

/-- The statements that make a table anew: one that creates it with its columns, and one for each
row in order that inserts its values. -/
def Table.script (t : Table) : Except Fault (List Statement) := do
  return .create ⟨t.name, t.schema.columns⟩ :: (← t.rows).map (Row.insertion t.name)

/-- The script of a table that has the rows of its contents. -/
def Table.statements (t : Table) : List Statement :=
  .create ⟨t.name, t.schema.columns⟩ :: t.contents.map (Row.insertion t.name)

theorem Table.WellFormed.script_eq {t : Table} (h : t.WellFormed) :
    t.script = .ok t.statements := by
  rw [Table.script, h.rows_eq]
  rfl

theorem Table.table_of_mem_statements {t : Table} {s : Statement} (h : s ∈ t.statements) :
    s.table = t.name := by
  obtain rfl | h := List.mem_cons.mp h
  · rfl
  · obtain ⟨r, -, rfl⟩ := List.mem_map.mp h
    rfl

section Insertions

variable {t u : Table} {r : Row} {rest : List Row}

/-- The row that a table has next can be inserted into the part of the table before it. -/
theorem InsertRow.adds_next (ht : t.WellFormed) (hu : u.WellFormed) (hschema : u.schema = t.schema)
    (hcontents : u.contents ++ r :: rest = t.contents) :
    (InsertRow.mk t.name [] (r.values.map .literal)).Adds u r.values := by
  have hr : r ∈ t.contents := by
    rw [← hcontents]
    simp
  have hadmits := (ht.fits_of_mem hr).admits
  rw [← hschema] at hadmits
  refine ⟨row_literals t.name hadmits.length_eq.symm, hadmits, ?_⟩
  refine hu.checkNew_eq_ok_iff.mpr fun r' hr' k c v hc hunique hv' hv => ?_
  -- a row before it would have its value in a unique column of the whole table
  have hdistinct := ht.nodup_column (hschema ▸ hc) hunique
  rw [← hcontents, List.map_append, List.map_cons, List.nodup_append] at hdistinct
  exact hdistinct.2.2 _ (List.mem_map_of_mem hr') _ List.mem_cons_self (hv'.trans hv.symm)

end Insertions

namespace Database

variable {db db' : Database} {t u : Table} {name : String}

/-- All statements of a run succeed. -/
def Succeeds (db : Database) (history : List Statement) : Prop :=
  ∀ entry ∈ db.outcomes history, ∃ outcome, entry.2 = .ok outcome

theorem succeeds_nil (db : Database) : db.Succeeds [] := List.forall_mem_nil _

theorem succeeds_cons {s : Statement} {rest : List Statement} {outcome : Outcome}
    (hs : (db.execute s).result = .ok outcome) (hrest : (db.execute s).database.Succeeds rest) :
    db.Succeeds (s :: rest) :=
  List.forall_mem_cons.mpr ⟨⟨outcome, hs⟩, hrest⟩

/-- From a table with the first rows of another, insertions of the others lead to that one. -/
theorem run_insertions (ht : t.WellFormed) (rows : List Row) (hu : u.WellFormed)
    (hname : u.name = t.name) (hschema : u.schema = t.schema)
    (hcontents : u.contents ++ rows = t.contents) (hdb : db.table? t.name = some u) :
    db.Succeeds (rows.map (Row.insertion t.name)) ∧
      (db.run (rows.map (Row.insertion t.name))).table? t.name = some t := by
  induction rows generalizing db u with
  | nil =>
    rw [List.append_nil] at hcontents
    have hcount : u.rowCount = t.rowCount := by
      rw [← u.length_contents, hcontents, t.length_contents]
    obtain rfl : u = t := ht.ext hu hname hschema hcount hcontents
    exact ⟨db.succeeds_nil, hdb⟩
  | cons r rest ih =>
    have hadds := InsertRow.adds_next ht hu hschema hcontents
    obtain ⟨after, hrun, hwf, hname', hschema', -, hafter⟩ := InsertRow.run_apply hu hadds
    obtain ⟨hresult, htable⟩ :=
      execute_change (s := r.insertion t.name) (f := .inserted) rfl hdb
    rw [hrun] at hresult htable
    have hr : r ∈ t.contents := by
      rw [← hcontents]
      simp
    rw [hschema, ← (ht.fits_of_mem hr).names, r.zip_names_values] at hafter
    have hnext := ih hwf (hname'.trans hname) (hschema'.trans hschema)
      (by rw [hafter, List.append_assoc]; exact hcontents) htable
    exact ⟨succeeds_cons hresult hnext.1, hnext.2⟩

theorem execute_create {q : CreateTable} (hdb : db.table? q.table = none)
    (hvalid : Schema.Valid ⟨q.columns⟩ db.config.maxVarcharSize) :
    (db.execute (.create q)).result = .ok (.created q.table) ∧
      (db.execute (.create q)).database.table? q.table = some (.create q.table ⟨q.columns⟩) := by
  have hsession : (db.session ("executing: " ++ q.sql)).catalog.lookup? q.table = none := hdb
  obtain ⟨hresult, hcreated⟩ :=
    CreateTable.run_run hsession (Schema.validate_eq_ok_iff.mpr hvalid)
  rw [result_execute, database_execute]
  refine ⟨congrArg (Except.mapError (·.inStatement .create)) hresult, ?_⟩
  exact (Catalog.lookup?_create hcreated).trans (if_pos rfl)

/-- Where there is no table of its name, the statements of a valid table make it. -/
theorem run_statements (ht : t.WellFormed) (hvalid : t.schema.Valid db.config.maxVarcharSize)
    (hdb : db.table? t.name = none) :
    db.Succeeds t.statements ∧ (db.run t.statements).table? t.name = some t := by
  obtain ⟨hresult, hcreated⟩ := execute_create (q := ⟨t.name, t.schema.columns⟩) hdb hvalid
  have hrows := run_insertions ht t.contents (Table.wellFormed_create t.name t.schema) rfl rfl rfl
    hcreated
  exact ⟨succeeds_cons hresult hrows.1, hrows.2⟩

variable {tables : List Table}

theorem filter_statements_of_notMem (h : name ∉ tables.map (·.name)) :
    (tables.flatMap Table.statements).filter (·.table = name) = [] := by
  refine List.filter_eq_nil_iff.mpr fun s hs => ?_
  obtain ⟨t, ht, hs⟩ := List.mem_flatMap.mp hs
  rw [Table.table_of_mem_statements hs, decide_eq_true_iff]
  rintro rfl
  exact h (List.mem_map_of_mem ht)

/-- Of the statements of tables with different names, those on one table are its own. -/
theorem filter_statements (hn : (tables.map (·.name)).Nodup) (ht : t ∈ tables) :
    (tables.flatMap Table.statements).filter (·.table = t.name) = t.statements := by
  obtain ⟨before, after, rfl⟩ := List.append_of_mem ht
  rw [List.map_append, List.map_cons, List.nodup_append, List.nodup_cons] at hn
  have hbefore : t.name ∉ before.map (·.name) := fun hmem =>
    hn.2.2 _ hmem _ List.mem_cons_self rfl
  have hown : t.statements.filter (·.table = t.name) = t.statements :=
    List.filter_eq_self.mpr fun s hs => decide_eq_true (Table.table_of_mem_statements hs)
  rw [List.flatMap_append, List.flatMap_cons, List.filter_append, List.filter_append,
    filter_statements_of_notMem hbefore, filter_statements_of_notMem hn.2.1.1, hown,
    List.nil_append, List.append_nil]

/-- The statements of valid tables with different names make these tables and no others. -/
theorem run_flatMap_statements (config : Config) (hn : (tables.map (·.name)).Nodup)
    (htables : ∀ t ∈ tables, t.WellFormed ∧ t.schema.Valid config.maxVarcharSize) :
    let fresh : Database := { config }
    let history := tables.flatMap Table.statements
    fresh.Succeeds history ∧ (∀ t ∈ tables, (fresh.run history).table? t.name = some t) ∧
      ∀ name ∉ tables.map (·.name), (fresh.run history).table? name = none := by
  intro fresh history
  have hown (name : String) : (fresh.outcomes history).filter (·.1.table = name) =
        fresh.outcomes (history.filter (·.table = name)) ∧
      (fresh.run history).table? name =
        (fresh.run (history.filter (·.table = name))).table? name :=
    outcomes_filter history rfl rfl
  have hone (t : Table) (ht : t ∈ tables) :
      fresh.Succeeds t.statements ∧ (fresh.run t.statements).table? t.name = some t :=
    run_statements (htables t ht).1 (htables t ht).2 rfl
  refine ⟨?_, ?_, ?_⟩
  · intro entry hentry
    have hmem : entry ∈ (fresh.outcomes history).filter (·.1.table = entry.1.table) :=
      List.mem_filter.mpr ⟨hentry, decide_eq_true rfl⟩
    rw [(hown entry.1.table).1] at hmem
    by_cases hname : entry.1.table ∈ tables.map (·.name)
    · obtain ⟨t, ht, heq⟩ := List.mem_map.mp hname
      rw [← heq, filter_statements hn ht] at hmem
      exact (hone t ht).1 entry hmem
    · rw [filter_statements_of_notMem hname] at hmem
      cases hmem
  · intro t ht
    rw [(hown t.name).2, filter_statements hn ht]
    exact (hone t ht).2
  · intro name hname
    rw [(hown name).2, filter_statements_of_notMem hname]
    rfl

end Database

instance : Std.TransCmp Text.compareBytes :=
  inferInstanceAs (Std.TransCmp (compareOn Text.bytes))

theorem Text.sorted_eq_of_perm {names names' : List String} (h : names.Perm names') :
    sorted names = sorted names' :=
  mergeSort_eq_of_perm h fun _ _ _ _ heq => compareBytes_eq_iff.mp heq

namespace Database

variable {db db' : Database} {tables : List Table}

/-- Databases with the same tables list the same names. -/
theorem tableNames_eq (h : db.catalog.WellFormed) (h' : db'.catalog.WellFormed)
    (htables : ∀ name, db.table? name = db'.table? name) : db.tableNames = db'.tableNames := by
  refine Text.sorted_eq_of_perm ((List.perm_ext_iff_of_nodup h.names h'.names).mpr fun name => ?_)
  rw [← not_iff_not, ← Catalog.lookup?_eq_none_iff, ← Catalog.lookup?_eq_none_iff]
  exact iff_of_eq (congrArg (· = none) (htables name))

/-- The scripts of the tables of a database that started without tables can be run in a new database
with its settings, those of different tables in any order. All their statements succeed, and in the
end the new database has the same tables. -/
theorem Grown.restore (h : db.Grown) (htables : tables.Perm (db.catalog.tables.map (·.2))) :
    ∃ scripts, tables.mapM Table.script = .ok scripts ∧
      let fresh : Database := { config := db.config }
      let history := scripts.flatten
      (∀ entry ∈ fresh.outcomes history, ∃ outcome, entry.2 = .ok outcome) ∧
      (fresh.run history).tableNames = db.tableNames ∧
      ∀ name, (fresh.run history).table? name = db.table? name := by
  have hwf := h.reachable.wellFormed
  have hmem : ∀ t ∈ tables, db.table? t.name = some t := by
    intro t ht
    obtain ⟨⟨name, _⟩, hp, rfl⟩ := List.mem_map.mp (htables.mem_iff.mp ht)
    obtain ⟨rfl, -⟩ := hwf.tables _ _ hp
    exact hwf.lookup?_eq_some_iff.mpr hp
  have hnames : (tables.map (·.name)).Perm db.catalog.names := by
    refine (htables.map _).trans (.of_eq ?_)
    rw [List.map_map]
    exact List.map_congr_left fun p hp => (hwf.tables p.1 p.2 hp).1
  obtain ⟨hsucceeds, hthere, hnone⟩ := run_flatMap_statements db.config
    (hnames.nodup_iff.mpr hwf.names) fun t ht =>
      ⟨(hwf.of_lookup? (hmem t ht)).2, h.declared t.name t (hmem t ht)⟩
  have hsame (name : String) : (({ config := db.config } : Database).run
      (tables.flatMap Table.statements)).table? name = db.table? name := by
    cases hname : db.table? name with
    | none =>
      refine hnone name fun hin => ?_
      exact Catalog.lookup?_eq_none_iff.mp hname (hnames.mem_iff.mp hin)
    | some t =>
      have hin : t ∈ tables := htables.mem_iff.mpr
        (List.mem_map_of_mem (f := (·.2)) (hwf.lookup?_eq_some_iff.mp hname))
      have hown : t.name = name := (hwf.of_lookup? hname).1
      exact hown ▸ hthere t hin
  have hscripts : tables.mapM Table.script = .ok (tables.map Table.statements) :=
    mapM_eq_ok_map fun t ht => (hwf.of_lookup? (hmem t ht)).2.script_eq
  refine ⟨_, hscripts, hsucceeds, ?_, hsame⟩
  exact tableNames_eq (wellFormed_run .empty _) hwf hsame

/-- A database with two tables, of which one has traded the values of its unique column and lost a
row, and the other has been made a second time. -/
def traded : Database :=
  let column : Expr := .column "n"
  let word (w : String) : Statement := .insert ⟨"words", [], [.literal (.string w)]⟩
  ({} : Database).run
    [.create ⟨"numbers", [⟨"n", .int, some .primaryKey⟩]⟩,
      .create ⟨"words", [⟨"w", .bool, none⟩]⟩,
      .insert ⟨"numbers", [], [.literal (.number 1)]⟩,
      .insert ⟨"numbers", [], [.literal (.number 2)]⟩,
      .insert ⟨"numbers", [], [.literal (.number 3)]⟩,
      .update ⟨"numbers", [⟨"n", .binary (.literal (.number 4)) (.arithmetic .sub) column⟩], none⟩,
      .delete ⟨"numbers", some (.binary column (.comparison .eq) (.literal (.number 2)))⟩,
      word "no", .drop ⟨"words"⟩, .create ⟨"words", [⟨"w", .varchar 4, some .unique⟩]⟩,
      word "here", word "here"]

/-- The tables are made again in the other order, each with its rows as it stores them. -/
theorem restore_traded :
    let numbers : Table :=
      ⟨"numbers", ⟨[⟨"n", .int, some .primaryKey⟩]⟩, [⟨"n", .int, #[3, 1]⟩], 2⟩
    let words : Table :=
      ⟨"words", ⟨[⟨"w", .varchar 4, some .unique⟩]⟩, [⟨"w", .varchar, #["here"]⟩], 1⟩
    ∃ scripts, [words, numbers].mapM Table.script = .ok scripts ∧
      let restored := ({ config := traded.config } : Database).run scripts.flatten
      restored.tableNames = traded.tableNames ∧ restored.table? "numbers" = some numbers ∧
        restored.table? "words" = some words := by
  intro numbers words
  have hgrown : traded.Grown := ⟨{}, _, rfl⟩
  have htables : traded.catalog.tables = [("numbers", numbers), ("words", words)] := by
    decide +kernel
  have hperm : [words, numbers].Perm (traded.catalog.tables.map (·.2)) :=
    htables ▸ List.Perm.swap numbers words []
  obtain ⟨scripts, hscripts, -, hnames, hsame⟩ := hgrown.restore hperm
  refine ⟨scripts, hscripts, hnames, (hsame "numbers").trans ?_, (hsame "words").trans ?_⟩
  · rw [table?, Catalog.lookup?, htables]
    rfl
  · rw [table?, Catalog.lookup?, htables]
    rfl

end Database

end Tabular
