import Tabular.Proofs.Databases

/-! What a statement reads and writes. It reads the settings and the table that it names, and it
writes that table only, when it creates or drops the table too. So the statements of a run that name
one table fare as they would alone, and statements on different tables may change places. -/

namespace Tabular

variable {α β : Type} {name other : String} {session : Session} {db db' : Database}

/-- The action leaves all tables but one as they are, and what it gives and what it leaves of this
one depend on no other. -/
structure Action.Local (name : String) (action : Action α) : Prop where
  others : ∀ (session : Session) (other : String), other ≠ name →
    (action.run.run session).2.catalog.lookup? other = session.catalog.lookup? other
  result : ∀ session session' : Session,
    session.catalog.lookup? name = session'.catalog.lookup? name →
      (action.run.run session).1 = (action.run.run session').1
  own : ∀ session session' : Session,
    session.catalog.lookup? name = session'.catalog.lookup? name →
      (action.run.run session).2.catalog.lookup? name =
        (action.run.run session').2.catalog.lookup? name

namespace Action.Local

/-- An action is local when the table that it finds decides what it gives and leaves. -/
theorem of_run {action : Action α} (result : Option Table → Except (Failure Error) α)
    (after : Option Table → Option Table)
    (h : ∀ session : Session,
      (action.run.run session).1 = result (session.catalog.lookup? name) ∧
        ∀ other, (action.run.run session).2.catalog.lookup? other =
          if other = name then after (session.catalog.lookup? name)
          else session.catalog.lookup? other) :
    Action.Local name action := by
  constructor
  · intro session other hne
    rw [(h session).2, if_neg hne]
  · intro session session' heq
    rw [(h session).1, (h session').1, heq]
  · intro session session' heq
    rw [(h session).2, (h session').2, if_pos rfl, if_pos rfl, heq]

theorem map {action : Action α} (h : Action.Local name action) (f : α → β) :
    Action.Local name (f <$> action) := by
  constructor
  · intro session other hne
    rw [run_map]
    exact h.others session other hne
  · intro session session' heq
    rw [run_map, run_map, h.result session session' heq]
  · intro session session' heq
    rw [run_map, run_map]
    exact h.own session session' heq

end Action.Local

theorem Catalog.lookup?_same {c : Catalog} {found : Option Table} (h : c.lookup? name = found) :
    c.lookup? other = if other = name then found else c.lookup? other := by
  split
  · next ho => rw [ho, h]
  · rfl

theorem Action.local_change (name : String) (edit : Table.Edit Nat) :
    Action.Local name (change name edit) := by
  refine .of_run
    (fun found => found.elim (.error (.error (.unknownTable name))) fun t => (edit.run.run t).1)
    (fun found => found.map fun t => (edit.run.run t).2) fun session => ?_
  cases ht : session.catalog.lookup? name with
  | none =>
    rw [run_change_missing ht]
    exact ⟨rfl, fun other => Catalog.lookup?_same ht⟩
  | some t =>
    rw [run_change ht]
    refine ⟨rfl, fun other => ?_⟩
    simp only [Catalog.lookup?_replace, ht, Option.map_some]

theorem Select.local_run (q : Select) : Action.Local q.table q.run := by
  refine .of_run
    (fun found => found.elim (.error (.error (.unknownTable q.table))) fun t => t.select q)
    id fun session => ?_
  cases ht : session.catalog.lookup? q.table with
  | none =>
    rw [q.run_run_missing ht]
    exact ⟨rfl, fun other => Catalog.lookup?_same ht⟩
  | some t =>
    rw [q.run_run ht]
    exact ⟨rfl, fun other => Catalog.lookup?_same ht⟩

theorem CreateTable.local_run (config : Config) (q : CreateTable) :
    Action.Local q.table (q.run config) := by
  -- the check reads the settings only, so it comes out the same in all sessions
  cases hvalid : Schema.validate ⟨q.columns⟩ q.table config.maxVarcharSize with
  | error e =>
    refine .of_run
      (fun found => found.elim (.error (.error e)) fun _ =>
        .error (.error (.tableAlreadyExists q.table)))
      id fun session => ?_
    cases ht : session.catalog.lookup? q.table with
    | some t =>
      rw [run_run_taken config ht]
      exact ⟨rfl, fun other => Catalog.lookup?_same ht⟩
    | none =>
      rw [run_run_refused ht hvalid]
      exact ⟨rfl, fun other => Catalog.lookup?_same ht⟩
  | ok _ =>
    refine .of_run
      (fun found => found.elim (.ok (.created q.table)) fun _ =>
        .error (.error (.tableAlreadyExists q.table)))
      (fun found => some (found.getD (Table.create q.table ⟨q.columns⟩))) fun session => ?_
    cases ht : session.catalog.lookup? q.table with
    | some t =>
      rw [run_run_taken config ht]
      exact ⟨rfl, fun other => Catalog.lookup?_same ht⟩
    | none =>
      obtain ⟨hresult, hcreated⟩ := run_run ht hvalid
      exact ⟨hresult, fun other => Catalog.lookup?_create hcreated⟩

theorem DropTable.local_run (q : DropTable) : Action.Local q.table q.run := by
  refine .of_run
    (fun found => found.elim (.error (.error (.unknownTable q.table))) fun _ =>
      .ok (.dropped q.table))
    (fun _ => none) fun session => ?_
  cases ht : session.catalog.lookup? q.table with
  | none =>
    rw [run_run_missing ht]
    exact ⟨rfl, fun other => Catalog.lookup?_same ht⟩
  | some t =>
    obtain ⟨hresult, hdropped⟩ := run_run ht
    exact ⟨hresult, fun other => Catalog.lookup?_drop hdropped⟩

theorem Statement.local_run (config : Config) (s : Statement) :
    Action.Local s.table (s.run config) := by
  cases s with
  | create q => exact q.local_run config
  | select q => exact q.local_run.map _
  | insert q => exact (Action.local_change q.table q.apply).map _
  | update q => exact (Action.local_change q.table q.apply).map _
  | delete q => exact (Action.local_change q.table q.apply).map _
  | drop q => exact q.local_run

namespace Database

theorem table?_execute_of_ne (db : Database) {s : Statement} (h : name ≠ s.table) :
    (db.execute s).database.table? name = db.table? name := by
  rw [database_execute]
  exact (s.local_run db.config).others _ _ h

theorem config_execute (db : Database) (s : Statement) :
    (db.execute s).database.config = db.config := by
  rw [database_execute]

theorem result_execute_congr (hconfig : db.config = db'.config) {s : Statement}
    (htable : db.table? s.table = db'.table? s.table) :
    (db.execute s).result = (db'.execute s).result := by
  rw [result_execute, result_execute, hconfig]
  have hlocal := s.local_run db'.config
  rw [hlocal.result (db.session ("executing: " ++ s.sql)) (db'.session _) htable]

theorem table?_execute_congr (hconfig : db.config = db'.config) {s : Statement}
    (htable : db.table? s.table = db'.table? s.table) :
    (db.execute s).database.table? s.table = (db'.execute s).database.table? s.table := by
  rw [database_execute, database_execute, hconfig]
  exact (s.local_run db'.config).own _ _ htable

/-- What becomes of the statements of a run, one after another. -/
def outcomes (db : Database) :
    List Statement → List (Statement × Except (Failure StatementError) Outcome)
  | [] => []
  | s :: rest => (s, (db.execute s).result) :: (db.execute s).database.outcomes rest

theorem run_cons (db : Database) (s : Statement) (rest : List Statement) :
    db.run (s :: rest) = (db.execute s).database.run rest := rfl

/-- Two databases with the same table of a name still have the same one after runs that differ only
in statements on other tables, and the statements on it fare alike in both. -/
theorem outcomes_filter (history : List Statement) (hconfig : db.config = db'.config)
    (htable : db.table? name = db'.table? name) :
    (db.outcomes history).filter (·.1.table = name) =
        db'.outcomes (history.filter (·.table = name)) ∧
      (db.run history).table? name = (db'.run (history.filter (·.table = name))).table? name := by
  -- a statement on the table is run by both databases, and any other by the first one only
  induction history generalizing db db' with
  | nil => exact ⟨rfl, htable⟩
  | cons s rest ih =>
    by_cases hs : s.table = name
    · subst hs
      have hnext := ih ((config_execute db s).trans (hconfig.trans (config_execute db' s).symm))
        (table?_execute_congr hconfig htable)
      simp only [outcomes, run_cons, List.filter_cons, decide_true, if_true]
      rw [result_execute_congr hconfig htable, hnext.1]
      exact ⟨rfl, hnext.2⟩
    · have hnext := ih ((config_execute db s).trans hconfig)
        ((table?_execute_of_ne db (Ne.symm hs)).trans htable)
      simp only [outcomes, run_cons, List.filter_cons, hs, decide_false, Bool.false_eq_true,
        if_false]
      exact hnext

theorem table?_execute_comm (db : Database) {s s' : Statement} (h : s.table ≠ s'.table)
    (name : String) : ((db.execute s).database.execute s').database.table? name =
      ((db.execute s').database.execute s).database.table? name := by
  by_cases hs : name = s.table
  · subst hs
    rw [table?_execute_of_ne _ h]
    exact table?_execute_congr (config_execute db s').symm (table?_execute_of_ne db h).symm
  · rw [table?_execute_of_ne _ hs]
    by_cases hs' : name = s'.table
    · subst hs'
      exact table?_execute_congr (config_execute db s) (table?_execute_of_ne db hs)
    · rw [table?_execute_of_ne _ hs', table?_execute_of_ne _ hs', table?_execute_of_ne _ hs]

/-- The statements of a run that name one table give what they give when they are run alone, and the
table ends the same: both runs leave it with the same contents or both leave none. No statement
touches the table of another, and statements on different tables may change places. -/
theorem outcomes_on_table (config : Config) (tables : List (String × Schema))
    (history : List Statement) (name : String) :
    let db := preloaded config tables
    let own := history.filter (·.table = name)
    (db.outcomes history).filter (·.1.table = name) = db.outcomes own ∧
    (db.run history).table? name = (db.run own).table? name ∧
    (∀ s : Statement, s.table ≠ name →
      ((db.run history).execute s).database.table? name = (db.run history).table? name) ∧
    ∀ s s' : Statement, s.table ≠ s'.table →
      ((db.run history).execute s).result =
        (((db.run history).execute s').database.execute s).result ∧
      ((db.run history).execute s').result =
        (((db.run history).execute s).database.execute s').result ∧
      ∀ name, (((db.run history).execute s).database.execute s').database.table? name =
        (((db.run history).execute s').database.execute s).database.table? name := by
  intro db own
  have hsame : db.table? name = db.table? name := rfl
  obtain ⟨houtcomes, htable⟩ := outcomes_filter history rfl hsame
  refine ⟨houtcomes, htable, ?_, ?_⟩
  · intro s hs
    exact table?_execute_of_ne _ hs.symm
  · intro s s' hne
    have hfirst := table?_execute_of_ne (db.run history) hne
    have hsecond := table?_execute_of_ne (db.run history) hne.symm
    refine ⟨?_, ?_, table?_execute_comm _ hne⟩
    · exact result_execute_congr (config_execute _ s').symm hfirst.symm
    · exact result_execute_congr (config_execute _ s).symm hsecond.symm

/-- Whatever becomes of the words, the first of the two numbers is taken and the second is not. -/
example :
    let db := preloaded {} [("numbers", ⟨[⟨"n", .int, some .unique⟩]⟩)]
    let add (n : Int64) : Statement := .insert ⟨"numbers", [], [.literal (.number n)]⟩
    (db.outcomes [add 1, .create ⟨"words", [⟨"w", .bool, none⟩]⟩, add 1, .drop ⟨"words"⟩]).filter
        (·.1.table = "numbers") = db.outcomes [add 1, add 1] := by
  decide +kernel

end Database

end Tabular
