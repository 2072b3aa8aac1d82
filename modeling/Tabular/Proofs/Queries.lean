import Mathlib
import Tabular.Proofs.Databases
import Tabular.Proofs.Selecting

/-! Queries of databases that statements have made. A query gives what its table's schema and rows
answer. When it has sort keys, its rows come in the order of the keys, and when one of these is a
unique column, the order in which the table stores its rows makes no difference. Rows that its
condition rejects might as well have been deleted before. -/

namespace Tabular

variable {db db' : Database} {q : Select} {t t' : Table}

namespace Database

theorem result_query (h : db.catalog.WellFormed) (ht : db.table? q.table = some t) :
    (db.query q).result = (q.answer t.schema t.contents).mapError (.error ⟨.select, ·⟩) := by
  have hsession : (db.session ("querying: " ++ q.sql)).catalog.lookup? q.table = some t := ht
  show (q.run.run.run (db.session ("querying: " ++ q.sql))).1.mapError (·.inStatement .select) = _
  rw [q.run_run hsession, (h.of_lookup? ht).2.select_eq]
  cases q.answer t.schema t.contents <;> rfl

theorem result_query_eq_ok_iff (h : db.catalog.WellFormed) (ht : db.table? q.table = some t)
    {result : ResultSet} :
    (db.query q).result = .ok result ↔ q.answer t.schema t.contents = .ok result := by
  rw [result_query h ht]
  cases q.answer t.schema t.contents <;> simp [Except.mapError]

theorem result_query_missing (ht : db.table? q.table = none) :
    (db.query q).result = .error (.error ⟨.select, .unknownTable q.table⟩) := by
  have hsession : (db.session ("querying: " ++ q.sql)).catalog.lookup? q.table = none := ht
  show (q.run.run.run (db.session ("querying: " ++ q.sql))).1.mapError (·.inStatement .select) = _
  rw [q.run_run_missing hsession]
  rfl

theorem result_execute_select (db : Database) (q : Select) :
    (db.execute (.select q)).result = .selected <$> (db.query q).result := by
  rw [result_execute]
  show ((Outcome.selected <$> q.run).run.run _).1.mapError (·.inStatement .select) =
    Outcome.selected <$>
      (q.run.run.run (db.session ("querying: " ++ q.sql))).1.mapError (·.inStatement .select)
  rw [run_map]
  cases ht : db.catalog.lookup? q.table with
  | none =>
    rw [q.run_run_missing ht, q.run_run_missing ht]
    rfl
  | some t =>
    rw [q.run_run ht, q.run_run ht]
    cases t.select q <;> rfl

/-! ### Sorted answers -/

/-- A query with sort keys sorts the rows that satisfy its condition. If every key has a value on
each of them, the rows come in the order of the keys, rows with equal values as they are stored, and
are then cut off at the limit and projected. If not, the query fails as the first key without a
value does on the first row that has such a key. The values of the keys always compare, and their
comparison is a total preorder. -/
theorem Reachable.query_sorts (h : db.Reachable) {rows : List Row} {labels : List String}
    (ht : db.table? q.table = some t) (hrows : t.rows = .ok rows)
    (hlabels : q.labels t.schema = .ok labels)
    (hdecides : ∀ r ∈ rows, ∃ b, r.satisfies q.condition = .ok b) (horder : q.order ≠ []) :
    let found := rows.filter (·.matches q.condition)
    ((∀ r ∈ found, ∀ k ∈ q.order, ∃ v, k.expr.eval r = .ok v) →
      ∃ sorted, Row.sorted q.order found = .ok sorted ∧ SortKey.Arranges q.order found sorted ∧
        (db.query q).result = ((fun shown => ⟨labels, shown⟩) <$>
          (q.limited sorted).mapM (Row.project q.projection)).mapError (.error ⟨.select, ·⟩)) ∧
    ((∃ r ∈ found, ∃ k ∈ q.order, ∃ e, k.expr.eval r = .error e) →
      ∃ e before r after, found = before ++ r :: after ∧
        (∀ p ∈ before, ∀ k ∈ q.order, ∃ v, k.expr.eval p = .ok v) ∧
        FirstFailure (fun k => k.expr.eval r) q.order e ∧
        (db.query q).result = .error (.error ⟨.select, e⟩)) ∧
    (∃ cmp : Row → Row → Ordering, Std.TransCmp cmp ∧ ∀ r ∈ found, ∀ r' ∈ found, ∀ as bs,
      SortKey.values q.order r = .ok as → SortKey.values q.order r' = .ok bs →
        SortKey.tryCompare q.order as bs = .ok (cmp r r')) ∧
    (db.execute (.select q)).result = .selected <$> (db.query q).result := by
  intro found
  have hwf := (h.wellFormed.of_lookup? ht).2
  obtain rfl : t.contents = rows := Except.ok.inj (hwf.rows_eq.symm.trans hrows)
  have hfits : ∀ r ∈ found, r.Fits t.schema := fun r hr =>
    hwf.fits_of_mem (List.mem_filter.mp hr).1
  have hresult := result_query h.wellFormed ht
  rw [q.answer_eq hlabels hdecides, q.present_eq horder] at hresult
  refine ⟨?_, ?_, ?_, result_execute_select db q⟩
  · intro hkeyed
    have hsorted := Row.sorted_eq hfits hkeyed
    refine ⟨_, hsorted, SortKey.arranges_sorted hfits hkeyed hsorted, ?_⟩
    rw [hsorted] at hresult
    exact hresult
  · rintro ⟨r, hr, k, hk, e, he⟩
    have hnot : ¬∀ r ∈ found, r.Keyed q.order := by
      intro hkeyed
      obtain ⟨v, hv⟩ := hkeyed r hr k hk
      rw [hv] at he
      cases he
    obtain ⟨e', before, r', after, hsorted, hsplit, hbefore, hfirst⟩ := Row.sorted_eq_error hnot
    rw [hsorted] at hresult
    exact ⟨e', before, r', after, hsplit, hbefore, hfirst, hresult⟩
  · refine ⟨Row.compareBy q.order, inferInstance, fun r hr r' hr' as bs has hbs => ?_⟩
    exact SortKey.tryCompare_eq_compareBy (hfits r hr) (hfits r' hr') has hbs

/-- The users of the sample. -/
def sampleUsers : Table :=
  { name := "users",
    schema := ⟨[⟨"id", .int, some .primaryKey⟩, ⟨"name", .varchar 3, some .unique⟩]⟩,
    stores := [⟨"id", .int, #[1, 2, 3]⟩, ⟨"name", .varchar, #["Ann", "Bob", "Eve"]⟩],
    rowCount := 3 }

theorem table?_sample : sample.table? "users" = some sampleUsers := by decide +kernel

/-- The users with a number above 1 come first, and there are two of them, who stay in the order
that they are stored in. -/
theorem query_sorts_users :
    let q : Select :=
      { projection := [.column "name"], table := "users",
        order := [⟨.binary (.column "id") (.comparison .gt) (.literal (.number 1)), true⟩] }
    sample.table? q.table = some sampleUsers ∧ sampleUsers.rows = .ok sampleUsers.contents ∧
      ∃ sorted, Row.sorted q.order sampleUsers.contents = .ok sorted ∧
        SortKey.Arranges q.order sampleUsers.contents sorted ∧
        (sample.query q).result =
          .ok ⟨["name"], [[.string "Bob"], [.string "Eve"], [.string "Ann"]]⟩ := by
  intro q
  have hrows : sampleUsers.rows = .ok sampleUsers.contents := by decide +kernel
  have hdecides : ∀ r ∈ sampleUsers.contents, ∃ b, r.satisfies q.condition = .ok b :=
    fun _ _ => ⟨true, rfl⟩
  have hkeyed : ∀ r ∈ sampleUsers.contents, r.Keyed q.order := by decide +kernel
  have hlabels : q.labels sampleUsers.schema = .ok ["name"] := by decide +kernel
  obtain ⟨sorted, hsorted, harranges, hresult⟩ := (sample_reachable.query_sorts (q := q)
    table?_sample hrows hlabels hdecides (by decide)).1 hkeyed
  have hfirst : Row.sorted q.order sampleUsers.contents =
      .ok [⟨[("id", .number 2), ("name", .string "Bob")]⟩,
        ⟨[("id", .number 3), ("name", .string "Eve")]⟩,
        ⟨[("id", .number 1), ("name", .string "Ann")]⟩] := by
    cbv
  obtain rfl := Except.ok.inj (hfirst.symm.trans hsorted)
  exact ⟨table?_sample, hrows, _, hsorted, harranges, hresult⟩

end Database

/-! ### Rejected rows -/

namespace Database

theorem result_query_congr (h : db.catalog.WellFormed) (h' : db'.catalog.WellFormed) {q' : Select}
    (ht : db.table? q.table = some t) (ht' : db'.table? q'.table = some t')
    (heq : q.answer t.schema t.contents = q'.answer t'.schema t'.contents) :
    (db.query q).result = (db'.query q').result := by
  rw [result_query h ht, result_query h' ht', heq]

/-- When the rows that a condition rejects can be deleted, a query without the condition gives after
the deletion what the query with it gives before: the same result or the same error. So rejected
rows have no part in the order, the limit or the projection, nor in what fails. -/
theorem Reachable.query_after_delete (h : db.Reachable) (q : Select) (p : Expr) {outcome : Outcome}
    (hok : (db.execute (.delete ⟨q.table,
      some (.binary p (.comparison .eq) (.literal (.bool false)))⟩)).result = .ok outcome) :
    let after := (db.execute (.delete ⟨q.table,
      some (.binary p (.comparison .eq) (.literal (.bool false)))⟩)).database
    (after.query { q with condition := none }).result =
        (db.query { q with condition := some p }).result ∧
      (after.execute (.select { q with condition := none })).result =
        (db.execute (.select { q with condition := some p })).result := by
  intro after
  let d : Delete := ⟨q.table, some p.isFalse⟩
  obtain ⟨t, ht, haccepted⟩ := accepted_of_execute_delete (q := d) h.wellFormed hok
  obtain ⟨-, t', ht', -, hschema, hcontents⟩ := execute_delete (q := d) h.wellFormed ht haccepted
  have hscopes : t.schema.Scopes (some p) := by
    intro e he
    obtain rfl : p = e := by simpa using he
    exact Expr.scoped_isFalse_iff.mp (haccepted.scopes _ rfl)
  have hdecides : ∀ r ∈ t.contents, ∃ b, r.satisfies (some p) = .ok b := by
    intro r hr
    obtain ⟨b, hb⟩ := haccepted.decides r hr
    exact ⟨!b, Row.satisfies_isFalse_iff.mp hb⟩
  have hleft : t'.contents = t.contents.filter (·.matches (some p)) := by
    rw [hcontents]
    refine List.filter_congr fun r hr => ?_
    obtain ⟨b, hb⟩ := hdecides r hr
    rw [Row.matches_isFalse hb, Bool.not_not]
  have hquery : (after.query { q with condition := none }).result =
      (db.query { q with condition := some p }).result := by
    refine result_query_congr (wellFormed_execute h.wellFormed _) h.wellFormed ht' ht ?_
    rw [hschema, hleft]
    exact Select.answer_filter { q with condition := some p } hscopes hdecides
  exact ⟨hquery, by rw [result_execute_select, result_execute_select, hquery]⟩

/-- The first user, for whom the sort key has no value, is rejected before it is evaluated. -/
theorem query_after_delete_users :
    let p : Expr := .binary (.column "id") (.comparison .gt) (.literal (.number 1))
    let q : Select :=
      { projection := [.column "name"], table := "users",
        order := [⟨.binary (.literal (.number 6)) (.arithmetic .div)
          (.group (.binary (.literal (.number 1)) (.arithmetic .sub) (.column "id"))), true⟩] }
    let reply := sample.execute (.delete ⟨q.table,
      some (.binary p (.comparison .eq) (.literal (.bool false)))⟩)
    reply.result = .ok (.deleted 1) ∧
      (sample.query { q with condition := some p }).result =
        .ok ⟨["name"], [[.string "Eve"], [.string "Bob"]]⟩ ∧
      (reply.database.query q).result = .ok ⟨["name"], [[.string "Eve"], [.string "Bob"]]⟩ := by
  intro p q reply
  have hok : reply.result = .ok (.deleted 1) := by decide +kernel
  have hbefore : (sample.query { q with condition := some p }).result =
      .ok ⟨["name"], [[.string "Eve"], [.string "Bob"]]⟩ := by
    rw [result_query_eq_ok_iff sample_reachable.wellFormed table?_sample]
    cbv
  exact ⟨hok, hbefore, (sample_reachable.query_after_delete q p hok).1.trans hbefore⟩

end Database

/-! ### Storage order -/

theorem Schema.index?_of_nodup {s : Schema} (hn : s.names.Nodup) {k : Nat} {c : Column}
    (hc : s.columns[k]? = some c) : s.index? c.name = some k := by
  obtain ⟨hlt, rfl⟩ := List.getElem?_eq_some_iff.mp hc
  refine List.findIdx?_eq_some_iff_getElem.mpr ⟨hlt, by simp, fun j hj => ?_⟩
  have hne : s.columns[j].name ≠ s.columns[k].name := by
    have := List.pairwise_iff_getElem.mp hn j k (by simp [names]; omega) (by simp [names, hlt]) hj
    simpa [names] using this
  simpa using hne

theorem Table.WellFormed.eq_of_get?_eq (h : t.WellFormed) (hn : t.schema.names.Nodup) {c : Column}
    (hc : c ∈ t.schema.columns) (hu : c.isUnique = true) {r r' : Row} (hr : r ∈ t.contents)
    (hr' : r' ∈ t.contents) (heq : r.get? c.name = r'.get? c.name) : r = r' := by
  obtain ⟨k, hk⟩ := List.mem_iff_getElem?.mp hc
  rw [(h.fits_of_mem hr).get?_eq, (h.fits_of_mem hr').get?_eq, Schema.index?_of_nodup hn hk] at heq
  exact List.inj_on_of_nodup_map (h.nodup_column hk hu) hr hr' heq

theorem Expr.eval_column_eq_ok_iff {r : Row} {name : String} {v : Value} :
    (Expr.column name).eval r = .ok v ↔ r.get? name = some v := by
  rw [eval]
  cases r.get? name <;> simp

/-- One of the sort keys is a unique column of the schema, by its name. -/
def SortKey.Identifies (s : Schema) (order : List SortKey) : Prop :=
  ∃ k ∈ order, ∃ c ∈ s.columns, k.expr = .column c.name ∧ c.isUnique = true

theorem SortKey.Identifies.eq_of_values {order : List SortKey} (h : t.WellFormed)
    (hn : t.schema.names.Nodup) (ho : SortKey.Identifies t.schema order) {r r' : Row}
    (hr : r ∈ t.contents) (hr' : r' ∈ t.contents) (hkeyed : r.Keyed order)
    (hkeyed' : r'.Keyed order) (heq : order.map (·.value r) = order.map (·.value r')) : r = r' := by
  obtain ⟨k, hk, c, hc, hexpr, hu⟩ := ho
  obtain ⟨v, hv⟩ := hkeyed k hk
  obtain ⟨v', hv'⟩ := hkeyed' k hk
  have hvalue : k.value r = k.value r' := List.map_inj_left.mp heq k hk
  obtain rfl : v = v' := by simpa [SortKey.value, hv, hv', Except.toOption] using hvalue
  rw [hexpr, Expr.eval_column_eq_ok_iff] at hv hv'
  exact h.eq_of_get?_eq hn hc hu hr hr' (hv.trans hv'.symm)

/-- With a unique column among the sort keys, what a `SELECT` statement gives on the rows of a table
it gives on the same rows in any other order. -/
theorem Select.answer_eq_ok_of_perm (h : t.WellFormed) (hn : t.schema.names.Nodup)
    (ho : SortKey.Identifies t.schema q.order) {rows : List Row} (hperm : t.contents.Perm rows)
    {result : ResultSet} (hok : q.answer t.schema t.contents = .ok result) :
    q.answer t.schema rows = .ok result := by
  obtain ⟨hlabels, hdecides, hshown⟩ := answer_eq_ok_iff.mp hok
  have horder : q.order ≠ [] := by
    obtain ⟨k, hk, -⟩ := ho
    exact List.ne_nil_of_mem hk
  have hmem : ∀ {r}, r ∈ t.contents.filter (·.matches q.condition) → r ∈ t.contents :=
    fun hr => (List.mem_filter.mp hr).1
  -- the sort has succeeded, so every key has a value on every row that was found
  have hkeyed : ∀ r ∈ t.contents.filter (·.matches q.condition), r.Keyed q.order := by
    by_contra hnot
    obtain ⟨e, -, -, -, hsorted, -⟩ := Row.sorted_eq_error hnot
    rw [q.present_eq horder, hsorted] at hshown
    cases hshown
  have hsorted := Row.sorted_eq_of_perm (hperm.filter (·.matches q.condition))
    (fun r hr => h.fits_of_mem (hmem hr)) hkeyed fun r hr r' hr' =>
      ho.eq_of_values h hn (hmem hr) (hmem hr') (hkeyed r hr) (hkeyed r' hr')
  refine answer_eq_ok_iff.mpr ⟨hlabels, fun r hr => hdecides r (hperm.mem_iff.mpr hr), ?_⟩
  rw [q.present_eq horder, ← hsorted, ← q.present_eq horder]
  exact hshown

namespace Database

theorem result_execute_select_eq_ok_iff {result : ResultSet} :
    (db.execute (.select q)).result = .ok (.selected result) ↔
      (db.query q).result = .ok result := by
  rw [result_execute_select]
  cases (db.query q).result <;> simp [Functor.map, Except.map]

/-- With a unique column among its sort keys, a query gives the same on two databases whose tables
hold the same rows, in whatever order they are stored. -/
theorem Reachable.query_eq_of_perm (h : db.Reachable) (h' : db'.Reachable)
    (ht : db.table? q.table = some t) (ht' : db'.table? q.table = some t')
    (hschema : t.schema = t'.schema) (hn : t.schema.names.Nodup) {rows rows' : List Row}
    (hrows : t.rows = .ok rows) (hrows' : t'.rows = .ok rows') (hperm : rows.Perm rows')
    (ho : SortKey.Identifies t.schema q.order) (result : ResultSet) :
    ((db.query q).result = .ok result ↔ (db'.query q).result = .ok result) ∧
      ((db.execute (.select q)).result = .ok (.selected result) ↔
        (db'.execute (.select q)).result = .ok (.selected result)) := by
  have hwf := (h.wellFormed.of_lookup? ht).2
  have hwf' := (h'.wellFormed.of_lookup? ht').2
  obtain rfl : t.contents = rows := Except.ok.inj (hwf.rows_eq.symm.trans hrows)
  obtain rfl : t'.contents = rows' := Except.ok.inj (hwf'.rows_eq.symm.trans hrows')
  have hquery : (db.query q).result = .ok result ↔ (db'.query q).result = .ok result := by
    rw [result_query_eq_ok_iff h.wellFormed ht, result_query_eq_ok_iff h'.wellFormed ht']
    constructor
    · intro hok
      exact hschema ▸ q.answer_eq_ok_of_perm hwf hn ho hperm hok
    · intro hok
      rw [hschema] at hn ho ⊢
      exact q.answer_eq_ok_of_perm hwf' hn ho hperm.symm hok
  exact ⟨hquery, by rw [result_execute_select_eq_ok_iff, result_execute_select_eq_ok_iff, hquery]⟩

/-- The users of the sample, who have come in another order, after one who has left. -/
def shuffled : Database :=
  (preloaded {} []).run
    [.create ⟨"users", [⟨"id", .int, some .primaryKey⟩, ⟨"name", .varchar 3, some .unique⟩]⟩,
      .insert ⟨"users", [], [.literal (.number 4), .literal (.string "Zoe")]⟩,
      .insert ⟨"users", [], [.literal (.number 3), .literal (.string "Eve")]⟩,
      .insert ⟨"users", [], [.literal (.number 1), .literal (.string "Ann")]⟩,
      .delete ⟨"users", some (.binary (.column "id") (.comparison .eq) (.literal (.number 4)))⟩,
      .insert ⟨"users", [], [.literal (.number 2), .literal (.string "Bob")]⟩]

/-- The last two users by number are the same, wherever they are stored. -/
theorem query_eq_of_perm_shuffled :
    let q : Select :=
      { projection := [.column "name"], table := "users",
        order := [⟨.literal (.bool true), false⟩, ⟨.column "id", true⟩], limit := some 2 }
    ∃ t, shuffled.table? q.table = some t ∧ sampleUsers.contents ≠ t.contents ∧
      sampleUsers.contents.Perm t.contents ∧ SortKey.Identifies sampleUsers.schema q.order ∧
      (sample.query q).result = .ok ⟨["name"], [[.string "Eve"], [.string "Bob"]]⟩ ∧
      (shuffled.query q).result = .ok ⟨["name"], [[.string "Eve"], [.string "Bob"]]⟩ := by
  intro q
  have hreach : shuffled.Reachable := ⟨_, _, _, rfl⟩
  let t : Table :=
    { sampleUsers with
      stores := [⟨"id", .int, #[3, 1, 2]⟩, ⟨"name", .varchar, #["Eve", "Ann", "Bob"]⟩] }
  have ht : shuffled.table? q.table = some t := by decide +kernel
  have hperm : sampleUsers.contents.Perm t.contents := by decide +kernel
  have ho : SortKey.Identifies sampleUsers.schema q.order :=
    ⟨_, List.mem_cons_of_mem _ (List.mem_singleton_self _), _, List.mem_cons_self, rfl, rfl⟩
  have hsample : (sample.query q).result =
      .ok ⟨["name"], [[.string "Eve"], [.string "Bob"]]⟩ := by
    rw [result_query_eq_ok_iff sample_reachable.wellFormed table?_sample]
    cbv
  have hshuffled := (sample_reachable.query_eq_of_perm hreach (q := q) table?_sample ht rfl
    (by decide) (by decide +kernel) (by decide +kernel) hperm ho _).1.mp hsample
  exact ⟨t, ht, by decide +kernel, hperm, ho, hsample, hshuffled⟩

end Database

end Tabular
