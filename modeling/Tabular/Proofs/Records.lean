import Mathlib.Data.List.DropRight
import Tabular.Proofs.Databases

/-! The log of a database. Each request is announced, then comes the change of the table names that
it makes, if it makes one, and last the error of a statement that fails. The texts of changes can be
read back, so the log alone tells which tables there are: the names at the start, changed as the log
says, are the names at the end. -/

namespace Tabular

/-- A change of the table names. A dropped table had a number of rows. -/
inductive Change where
  | created (table : String)
  | dropped (table : String) (rows : Nat)
  deriving DecidableEq, Repr

namespace Change

def text : Change → String
  | created table => "created table " ++ table
  | dropped table rows => "dropped table " ++ table ++ " (" ++ rows.repr ++ " rows)"

def record (change : Change) : Log.Record := { level := .info, text := change.text }

/-- The change that a text tells of. A dropped table's name may end in anything, so its number of
rows is read from the end of the text. -/
def ofText? (text : String) : Option Change :=
  match "created table ".toList.isPrefixOf? text.toList with
  | some table => some (created (String.ofList table))
  | none => do
    let rest ← "dropped table ".toList.isPrefixOf? text.toList
    let counted ← " rows)".toList.isSuffixOf? rest
    let table ← " (".toList.isSuffixOf? (counted.rdropWhile Char.isDigit)
    return dropped (String.ofList table)
      (Nat.ofDigitChars 10 (counted.rtakeWhile Char.isDigit) 0)

/-- The names after a change. A created table must not have been there, and a dropped one must. -/
def after? (names : List String) : Change → Option (List String)
  | created table => if table ∈ names then none else some (names ++ [table])
  | dropped table _ => if table ∈ names then some (names.filter (· != table)) else none

/-- The names after the changes that the records of a log tell of. -/
def replay? (names : List String) (log : List Log.Record) : Option (List String) :=
  (log.filter (·.level == .info)).foldlM (fun names r => do (← ofText? r.text).after? names) names

/-- The change that a statement makes to a catalog when it ends in a result. -/
def of? {ε : Type} (c : Catalog) : Statement → Except ε Outcome → Option Change
  | .create q, .ok _ => some (created q.table)
  | .drop q, .ok _ => (c.lookup? q.table).map fun t => dropped q.table t.rowCount
  | _, _ => none

theorem text_created (table : String) : (created table).text = "created table " ++ table := rfl

theorem text_dropped (table : String) (rows : Nat) : (dropped table rows).text =
    "dropped table " ++ table ++ " (" ++ rows.repr ++ " rows)" := rfl

theorem digits_at_end (before : List Char) {c : Char} {digits : List Char}
    (hc : c.isDigit = false) (hdigits : ∀ d ∈ digits, d.isDigit = true) :
    (before ++ c :: digits).rdropWhile Char.isDigit = before ++ [c] ∧
      (before ++ c :: digits).rtakeWhile Char.isDigit = digits := by
  have hreverse : (before ++ c :: digits).reverse = digits.reverse ++ c :: before.reverse := by simp
  have hall : ∀ d ∈ digits.reverse, d.isDigit = true :=
    fun d hd => hdigits d (List.mem_reverse.mp hd)
  rw [List.rdropWhile, List.rtakeWhile, hreverse, List.dropWhile_append_of_pos hall,
    List.takeWhile_append_of_pos hall]
  simp [hc]

theorem ofText?_created (table : String) :
    ofText? (created table).text = some (created table) := by
  have hprefix : "created table ".toList.isPrefixOf? (created table).text.toList =
      some table.toList := by
    rw [List.isPrefixOf?_eq_some_iff_append_eq]
    simp [text_created]
  rw [ofText?, hprefix]
  simp

theorem ofText?_dropped (table : String) (rows : Nat) :
    ofText? (dropped table rows).text = some (dropped table rows) := by
  let counted : List Char := table.toList ++ ' ' :: '(' :: Nat.toDigits 10 rows
  have hcreated : "created table ".toList.isPrefixOf? (dropped table rows).text.toList = none := by
    simp [text_dropped, List.isPrefixOf?]
  have hdropped : "dropped table ".toList.isPrefixOf? (dropped table rows).text.toList =
      some (counted ++ " rows)".toList) := by
    rw [List.isPrefixOf?_eq_some_iff_append_eq]
    simp [text_dropped, counted]
  have hcounted : " rows)".toList.isSuffixOf? (counted ++ " rows)".toList) = some counted :=
    List.isSuffixOf?_eq_some_iff_append_eq.mpr rfl
  have hdigits : ∀ d ∈ Nat.toDigits 10 rows, d.isDigit = true :=
    fun d hd => Nat.isDigit_of_mem_toDigits (by decide) (by decide) hd
  have hsplit : counted = (table.toList ++ [' ']) ++ '(' :: Nat.toDigits 10 rows := by
    simp [counted]
  have hparenthesis : '('.isDigit = false := rfl
  obtain ⟨hdrop, htake⟩ := digits_at_end (table.toList ++ [' ']) hparenthesis hdigits
  rw [← hsplit] at hdrop htake
  have htable : " (".toList.isSuffixOf? (table.toList ++ [' '] ++ ['(']) = some table.toList :=
    List.isSuffixOf?_eq_some_iff_append_eq.mpr (by simp)
  simp only [ofText?, hcreated, hdropped, Option.bind_eq_bind, Option.bind_some, hcounted, hdrop,
    htake, htable]
  rw [Nat.ofDigitChars_ten_toDigits, String.ofList_toList]
  rfl

/-- The text of a change tells which change it is. -/
theorem ofText?_text (change : Change) : ofText? change.text = some change := by
  cases change with
  | created table => exact ofText?_created table
  | dropped table rows => exact ofText?_dropped table rows

/-- A table's name may itself end like a number of rows. -/
example : ofText? "dropped table a (2 rows) (10 rows)" = some (dropped "a (2 rows)" 10) := by
  decide +kernel

theorem replay?_append (names : List String) (log log' : List Log.Record) :
    replay? names (log ++ log') = (replay? names log).bind (replay? · log') := by
  rw [replay?, List.filter_append, List.foldlM_append]
  rfl

theorem replay?_changed (names : List String) (change : Option Change) :
    replay? names (change.map record).toList = change.elim (some names) (·.after? names) := by
  cases change with
  | none => rfl
  | some change =>
    show ((ofText? change.text).bind (·.after? names)).bind some = change.after? names
    rw [ofText?_text, Option.bind_some, Option.bind_fun_some]

end Change

/-! ### Statements -/

theorem Catalog.names_create {c created : Catalog} {name : String} {schema : Schema}
    (h : c.create name schema = .ok created) :
    name ∉ c.names ∧ created.names = c.names ++ [name] := by
  unfold create at h
  split at h
  · cases h
  · next hnone =>
    cases h
    exact ⟨lookup?_eq_none_iff.mp hnone, List.map_append⟩

theorem Catalog.names_drop {c rest : Catalog} {name : String} {t : Table}
    (h : c.drop name = .ok (t, rest)) :
    name ∈ c.names ∧ rest.names = c.names.filter (· != name) := by
  unfold drop at h
  split at h
  · next ht =>
    cases h
    refine ⟨List.mem_map_of_mem (mem_of_lookup? ht), ?_⟩
    rw [names, names, List.filter_map]
    rfl
  · cases h

/-- From one session to a later one a change has been logged and made, or nothing has. -/
structure Session.Logs (before after : Session) (change : Option Change) : Prop where
  records : after.records = before.records ++ (change.map Change.record).toList
  names : change.elim (some before.catalog.names) (·.after? before.catalog.names) =
    some after.catalog.names

variable {session after : Session}

theorem Session.Logs.none (hrecords : after.records = session.records)
    (hnames : after.catalog.names = session.catalog.names) : session.Logs after none :=
  ⟨hrecords.trans (List.append_nil _).symm, congrArg some hnames.symm⟩

theorem CreateTable.logs_run (config : Config) (q : CreateTable) (session : Session) :
    session.Logs ((q.run config).run.run session).2
      (Change.of? session.catalog (.create q) ((q.run config).run.run session).1) := by
  cases ht : session.catalog.lookup? q.table with
  | some t =>
    rw [run_run_taken config ht]
    exact .none rfl rfl
  | none =>
    cases hvalid : Schema.validate ⟨q.columns⟩ q.table config.maxVarcharSize with
    | error e =>
      rw [run_run_refused ht hvalid]
      exact .none rfl rfl
    | ok _ =>
      obtain ⟨hresult, hcreated⟩ := run_run ht hvalid
      obtain ⟨hnew, hnames⟩ := Catalog.names_create hcreated
      rw [hresult]
      refine ⟨?_, ?_⟩
      · unfold run
        rw [run_bind_ok (run_get session)]
        dsimp only
        rw [if_neg (by simp [ht]), hvalid, hcreated]
        rfl
      · rw [hnames]
        exact if_neg hnew

theorem DropTable.logs_run (q : DropTable) (session : Session) :
    session.Logs (q.run.run.run session).2
      (Change.of? session.catalog (.drop q) (q.run.run.run session).1) := by
  cases ht : session.catalog.lookup? q.table with
  | none =>
    rw [run_run_missing ht]
    exact .none rfl rfl
  | some t =>
    obtain ⟨hresult, hdropped⟩ := run_run ht
    obtain ⟨hmem, hnames⟩ := Catalog.names_drop hdropped
    have hchange : Change.of? session.catalog (.drop q) (q.run.run.run session).1 =
        some (.dropped q.table t.rowCount) := by
      rw [hresult, Change.of?, ht]
      rfl
    rw [hchange]
    refine ⟨?_, ?_⟩
    · unfold run
      rw [run_bind_ok (run_get session), hdropped]
      rfl
    · rw [hnames]
      exact if_pos hmem

theorem Action.logs_change (f : Nat → Outcome) (name : String) (edit : Table.Edit Nat)
    (session : Session) : session.Logs ((f <$> change name edit).run.run session).2 none := by
  rw [run_map]
  cases ht : session.catalog.lookup? name with
  | none =>
    rw [run_change_missing ht]
    exact .none rfl rfl
  | some t =>
    rw [run_change ht]
    exact .none rfl Catalog.names_replace

theorem Select.logs_run (q : Select) (session : Session) :
    session.Logs (q.run.run.run session).2 none := by
  cases ht : session.catalog.lookup? q.table with
  | none =>
    rw [q.run_run_missing ht]
    exact .none rfl rfl
  | some t =>
    rw [q.run_run ht]
    exact .none rfl rfl

/-- A statement logs the change that it makes and nothing else, whatever it does and wherever it
fails. -/
theorem Statement.logs_run (config : Config) (s : Statement) (session : Session) :
    session.Logs ((s.run config).run.run session).2
      (Change.of? session.catalog s ((s.run config).run.run session).1) := by
  cases s with
  | create q => exact q.logs_run config session
  | select q =>
    rw [run, run_map]
    exact q.logs_run session
  | insert q => exact Action.logs_change .inserted q.table q.apply session
  | update q => exact Action.logs_change .updated q.table q.apply session
  | delete q => exact Action.logs_change .deleted q.table q.apply session
  | drop q => exact q.logs_run session

/-! ### Requests -/

/-- What a database is asked: to run a statement, or to answer a query. -/
inductive Request where
  | execute (s : Statement)
  | query (q : Select)
  deriving DecidableEq, Repr

namespace Request

def announcement : Request → Log.Record
  | execute s => { level := .debug, text := "executing: " ++ s.sql }
  | query q => { level := .debug, text := "querying: " ++ q.sql }

/-- The change that a request makes to a catalog when it ends in a result. -/
def change? {ε : Type} (c : Catalog) : Request → Except ε Outcome → Option Change
  | execute s, result => Change.of? c s result
  | query _, _ => none

/-- The record of the error that a statement ends in. The error of a query has none. -/
def failure? : Request → Except (Failure StatementError) Outcome → Option Log.Record
  | execute _, .error (.error e) => some { level := .debug, text := e.message }
  | _, _ => none

end Request

namespace Change

theorem of?_mapError {ε δ : Type} (f : ε → δ) (c : Catalog) (s : Statement)
    (result : Except ε Outcome) : of? c s (result.mapError f) = of? c s result := by
  cases s <;> cases result <;> rfl

theorem replay?_announcement (names : List String) (request : Request) :
    replay? names [request.announcement] = some names := by
  cases request <;> rfl

theorem replay?_failure (names : List String) (request : Request)
    (result : Except (Failure StatementError) Outcome) :
    replay? names (request.failure? result).toList = some names := by
  unfold Request.failure?
  split <;> rfl

end Change

namespace Database

variable {db : Database}

/-- What becomes of a request. -/
def serve (db : Database) : Request → Reply Outcome
  | .execute s => db.execute s
  | .query q =>
    let reply := db.query q
    { reply with result := .selected <$> reply.result }

/-- The database after requests. -/
def served (db : Database) (requests : List Request) : Database :=
  requests.foldl (fun db request => (db.serve request).database) db

/-- The records of requests, one request after another. -/
def log (db : Database) : List Request → List Log.Record
  | [] => []
  | request :: rest => (db.serve request).records ++ (db.serve request).database.log rest

theorem records_execute (db : Database) (s : Statement) : (db.execute s).records =
    ((s.run db.config).run.run (db.session ("executing: " ++ s.sql))).2.records ++
      ((Request.execute s).failure? (db.execute s).result).toList := by
  unfold execute Request.failure?
  dsimp only
  split
  · next he =>
    rw [he]
    rfl
  · next he =>
    split
    · next he' => exact absurd he' (he _)
    · exact (List.append_nil _).symm

/-- A request is announced, then comes the record of its change, and then that of its error. -/
theorem records_serve (db : Database) (request : Request) : (db.serve request).records =
    request.announcement ::
      (((request.change? db.catalog (db.serve request).result).map Change.record).toList ++
        (request.failure? (db.serve request).result).toList) := by
  cases request with
  | execute s =>
    have hlogs := s.logs_run db.config (db.session ("executing: " ++ s.sql))
    show (db.execute s).records = _
    rw [records_execute, hlogs.records, List.append_assoc, serve, Request.change?,
      result_execute, Change.of?_mapError]
    rfl
  | query q => exact (q.logs_run (db.session ("querying: " ++ q.sql))).records

theorem names_serve (db : Database) (request : Request) :
    (request.change? db.catalog (db.serve request).result).elim (some db.catalog.names)
      (·.after? db.catalog.names) = some (db.serve request).database.catalog.names := by
  cases request with
  | execute s =>
    rw [serve, Request.change?, result_execute, Change.of?_mapError, database_execute]
    exact (s.logs_run db.config (db.session ("executing: " ++ s.sql))).names
  | query q => rfl

/-- The records of a request tell how the names change. -/
theorem replay?_serve (db : Database) (request : Request) :
    Change.replay? db.catalog.names (db.serve request).records =
      some (db.serve request).database.catalog.names := by
  rw [records_serve, ← List.singleton_append, Change.replay?_append,
    Change.replay?_announcement, Option.bind_some, Change.replay?_append,
    Change.replay?_changed, names_serve, Option.bind_some, Change.replay?_failure]

theorem wellFormed_serve (h : db.catalog.WellFormed) (request : Request) :
    (db.serve request).database.catalog.WellFormed := by
  cases request with
  | execute s => exact wellFormed_execute h s
  | query q => exact h

theorem noFault_serve (h : db.catalog.WellFormed) (request : Request) :
    NoFault (db.serve request).result := by
  cases request with
  | execute s => exact noFault_execute h s
  | query q =>
    show NoFault (Outcome.selected <$> (db.query q).result)
    obtain ⟨result, hresult⟩ | ⟨e, he⟩ := (noFault_query h q).cases
    · rw [hresult]
      exact .ok _
    · rw [he]
      exact .error e

theorem exists_table_of_execute_drop {q : DropTable} {outcome : Outcome}
    (hok : (db.execute (.drop q)).result = .ok outcome) : ∃ t, db.table? q.table = some t := by
  cases ht : db.table? q.table with
  | some t => exact ⟨t, rfl⟩
  | none =>
    have hmissing : (db.session ("executing: " ++ q.sql)).catalog.lookup? q.table = none := ht
    rw [result_execute, Statement.run, Statement.sql, DropTable.run_run_missing hmissing] at hok
    cases hok

theorem wellFormed_served (h : db.catalog.WellFormed) (requests : List Request) :
    (db.served requests).catalog.WellFormed := by
  induction requests generalizing db with
  | nil => exact h
  | cons request rest ih => exact ih (wellFormed_serve h request)

theorem replay?_log (db : Database) (requests : List Request) :
    Change.replay? db.catalog.names (db.log requests) =
      some (db.served requests).catalog.names := by
  induction requests generalizing db with
  | nil => rfl
  | cons request rest ih =>
    rw [log, Change.replay?_append, replay?_serve, Option.bind_some]
    exact ih (db.serve request).database

/-- Each request of a run logs its announcement, then its change of the table names if it is a
statement that creates or drops a table and succeeds, then its error if it is a statement that
fails, and nothing else. A dropped table is logged with the number of rows that it had. So the log
of the run, replayed on the names of the tables at the start, gives those at the end: no table is
logged as created that is there, and none as dropped that is not. -/
theorem log_tells_names (config : Config) (tables : List (String × Schema))
    (requests : List Request) :
    let start := preloaded config tables
    (∀ earlier request later, requests = earlier ++ request :: later →
      let db := start.served earlier
      let reply := db.serve request
      let change := request.change? db.catalog reply.result
      ((∃ outcome, reply.result = .ok outcome) ∨ ∃ e, reply.result = .error (.error e)) ∧
      reply.records = request.announcement ::
        ((change.map Change.record).toList ++ (request.failure? reply.result).toList) ∧
      ∀ q outcome, request = .execute (.drop q) → reply.result = .ok outcome →
        ∃ t, db.table? q.table = some t ∧ change = some (.dropped q.table t.rowCount)) ∧
    Change.replay? start.catalog.names (start.log requests) =
      some (start.served requests).catalog.names ∧
    ∀ change : Change, Change.ofText? change.text = some change := by
  intro start
  refine ⟨?_, replay?_log start requests, Change.ofText?_text⟩
  intro earlier request later _ db reply change
  have hwf : db.catalog.WellFormed := wellFormed_served (wellFormed_preloaded config tables) earlier
  refine ⟨(noFault_serve hwf request).cases, records_serve db request, ?_⟩
  rintro q outcome rfl hok
  obtain ⟨t, ht⟩ := exists_table_of_execute_drop (q := q) hok
  refine ⟨t, ht, ?_⟩
  show Change.of? db.catalog (.drop q) reply.result = _
  rw [hok, Change.of?, show db.catalog.lookup? q.table = some t from ht]
  rfl

end Database

end Tabular
