import Tabular.Proofs.Keys

/-! `INSERT` statements that list columns. A statement is accepted when its values can be computed
without a row and its list, if it has one, names each column of the table once, so that each column
has one expression. The row it adds has in each column the value of that expression, wherever the
list names the column. -/

namespace Tabular

variable {q : InsertRow} {s : Schema} {t : Table} {k : Nat} {v w : Value} {values : List Value}

/-- An expression that has a value without a row mentions no columns. Both operands of a binary
operator are always evaluated, so no part of it is passed over. -/
theorem Expr.mentions_nothing {e : Expr} (h : e.eval Row.empty = .ok v) :
    e.hasWildcard = false ∧ e.columns = [] := by
  induction e generalizing v with
  | column name => cases h
  | literal v => exact ⟨rfl, rfl⟩
  | wildcard => cases h
  | binary left op right ihl ihr =>
    obtain ⟨a, ha, h⟩ := bind_eq_ok_iff.mp h
    obtain ⟨b, hb, -⟩ := bind_eq_ok_iff.mp h
    simp [hasWildcard, columns, ihl ha, ihr hb]
  | signed sign operand ih =>
    obtain ⟨a, ha, -⟩ := bind_eq_ok_iff.mp h
    exact ih ha
  | group inner ih => exact ih h

theorem Expr.evalAlone_eq_ok_iff {e : Expr} :
    e.evalAlone = .ok v ↔ e.eval Row.empty = .ok v := by
  unfold evalAlone
  split
  · next hw =>
    refine ⟨nofun, fun h => ?_⟩
    rw [(mentions_nothing h).1] at hw
    cases hw
  · exact .rfl

theorem Schema.checkNames_eq_ok_iff {earlier names : List String} :
    s.checkNames earlier names = .ok () ↔
      names.Nodup ∧ ∀ name ∈ names, name ∈ s.names ∧ name ∉ earlier := by
  induction names generalizing earlier with
  | nil => simp [checkNames]
  | cons name rest ih =>
    have hknown : (s.index? name).isNone = true ↔ name ∉ s.names := by
      rw [← s.index?_isSome_iff, ← Option.not_isSome]
      simp
    rw [checkNames, List.nodup_cons, List.forall_mem_cons]
    by_cases hs : name ∈ s.names
    · rw [if_neg (fun h => hknown.mp h hs)]
      by_cases he : name ∈ earlier
      · simp [he]
      · rw [if_neg he, ih]
        simp only [List.mem_cons, not_or]
        constructor
        · rintro ⟨hrest, h⟩
          exact ⟨⟨fun hmem => (h name hmem).2.1 rfl, hrest⟩, ⟨hs, he⟩,
            fun n hn => ⟨(h n hn).1, (h n hn).2.2⟩⟩
        · rintro ⟨⟨hname, hrest⟩, -, h⟩
          exact ⟨hrest, fun n hn => ⟨(h n hn).1, fun heq => hname (heq ▸ hn), (h n hn).2⟩⟩
    · rw [if_pos (hknown.mpr hs)]
      simp [hs]

/-- Each name takes the value that is given for it, and no value is taken twice. -/
theorem InsertRow.arranged_eq_ok_iff {names : List String} {given : List (String × Value)} :
    arranged names given = .ok values ↔
      names.Nodup ∧ List.Forall₂ (fun name v => given.lookup name = some v) names values := by
  induction names generalizing given values with
  | nil => simp [arranged, eq_comm]
  | cons name rest ih =>
    rw [arranged, List.nodup_cons, List.forall₂_cons_left_iff]
    cases hname : given.lookup name with
    | none => simp
    | some v =>
      simp only [bind_eq_ok_iff, ih, lookup_filter_eq_some_iff, List.forall₂_and_left, pure,
        Except.pure, Except.ok.injEq, Option.some.injEq]
      -- a value that has been taken is not found again, so the names after it differ from it
      constructor
      · rintro ⟨vs, ⟨hrest, hne, hvs⟩, rfl⟩
        exact ⟨⟨fun hmem => hne name hmem rfl, hrest⟩, v, vs, rfl, hvs, rfl⟩
      · rintro ⟨⟨hnew, hrest⟩, _, vs, rfl, hvs, rfl⟩
        exact ⟨vs, ⟨hrest, fun n hn heq => hnew (heq ▸ hn), hvs⟩, rfl⟩

/-- Lists of equal length that agree place by place are looked up under the same keys alike. -/
theorem exists_lookup_zip {α β γ : Type} [BEq α] {R : β → γ → Prop} {keys : List α} {xs : List β}
    {ys : List γ} (h : List.Forall₂ R xs ys) {key : α} {y : γ}
    (hy : (keys.zip ys).lookup key = some y) : ∃ x, (keys.zip xs).lookup key = some x ∧ R x y := by
  induction h generalizing keys with
  | nil => simp at hy
  | @cons x y' xs ys hr _ ih =>
    cases keys with
    | nil => simp at hy
    | cons k keys =>
      rw [List.zip_cons_cons, List.lookup_cons] at hy ⊢
      cases hk : key == k with
      | true =>
        rw [hk] at hy
        obtain rfl : y' = y := Option.some.inj hy
        exact ⟨x, rfl, hr⟩
      | false =>
        rw [hk] at hy
        exact ih hy

theorem exists_lookup_zip_of_mem {α β : Type} [BEq α] [LawfulBEq α] {keys : List α} {xs : List β}
    (hlen : keys.length = xs.length) {key : α} (hmem : key ∈ keys) :
    ∃ x, (keys.zip xs).lookup key = some x := by
  refine Option.ne_none_iff_exists'.mp fun hnone => ?_
  rw [← List.map_fst_zip (Nat.le_of_eq hlen)] at hmem
  obtain ⟨p, hp, rfl⟩ := List.mem_map.mp hmem
  simpa using List.lookup_eq_none_iff.mp hnone p hp

/-! ### Expressions for columns -/

namespace InsertRow

/-- The expression that a statement has for the column at position `k`: the one listed under the
column's name, or the one at that position if the statement lists no columns. -/
def given? (q : InsertRow) (s : Schema) (k : Nat) : Option Expr :=
  if q.columns = [] then q.values[k]?
  else s.names[k]?.bind fun name => (q.columns.zip q.values).lookup name

/-- The value of the statement's expression for the column at position `k` is `v`. -/
def Gives (q : InsertRow) (s : Schema) (k : Nat) (v : Value) : Prop :=
  ∃ e, q.given? s k = some e ∧ e.eval Row.empty = .ok v

/-- The statement has one expression for each column, and its expressions have values without a row.
-/
structure Covers (q : InsertRow) (s : Schema) : Prop where
  count : q.values.length = if q.columns = [] then s.length else q.columns.length
  closed : ∀ e ∈ q.values,
    e.hasWildcard = false ∧ e.columns = [] ∧ ∃ v, e.eval Row.empty = .ok v
  names : q.columns ≠ [] → q.columns.Nodup ∧ q.columns.Perm s.names

/-- The statement can be carried out on a table with the given schema and rows: it covers the
columns, they admit its values, and no unique column holds its value already. -/
structure Accepted (q : InsertRow) (s : Schema) (rows : List Row) : Prop extends q.Covers s where
  admits : ∀ k c v, s.columns[k]? = some c → q.Gives s k v → c.type.admits v = true
  fresh : ∀ k c v, s.columns[k]? = some c → c.isUnique = true → q.Gives s k v →
    ∀ r ∈ rows, r.values[k]? ≠ some v

theorem Gives.unique (h : q.Gives s k v) (h' : q.Gives s k w) : v = w := by
  obtain ⟨e, he, hv⟩ := h
  obtain ⟨e', he', hw⟩ := h'
  obtain rfl : e = e' := Option.some.inj (he.symm.trans he')
  exact Except.ok.inj (hv.symm.trans hw)

theorem Covers.lt_of_gives (h : q.Covers s) (hg : q.Gives s k v) : k < s.length := by
  obtain ⟨e, he, -⟩ := hg
  unfold given? at he
  split at he
  · next hnil =>
    have hlt := (List.getElem?_eq_some_iff.mp he).1
    rwa [h.count, if_pos hnil] at hlt
  · obtain ⟨name, hname, -⟩ := Option.bind_eq_some_iff.mp he
    have hlt := (List.getElem?_eq_some_iff.mp hname).1
    rwa [Schema.names, List.length_map] at hlt

theorem Covers.exists_gives (h : q.Covers s) (hk : k < s.length) : ∃ v, q.Gives s k v := by
  have hgiven : ∃ e ∈ q.values, q.given? s k = some e := by
    unfold given?
    split
    · next hnil =>
      have hlt : k < q.values.length := by rwa [h.count, if_pos hnil]
      exact ⟨_, List.getElem_mem hlt, List.getElem?_eq_getElem hlt⟩
    · next hne =>
      have hlen : q.columns.length = q.values.length := by rw [h.count, if_neg hne]
      have hlt : k < s.names.length := by rwa [Schema.names, List.length_map]
      have hmem : s.names[k] ∈ q.columns := (h.names hne).2.mem_iff.mpr (List.getElem_mem hlt)
      obtain ⟨e, he⟩ := exists_lookup_zip_of_mem hlen hmem
      refine ⟨e, (List.of_mem_zip (mem_of_lookup he)).2, ?_⟩
      rw [List.getElem?_eq_getElem hlt, Option.bind_some, he]
  obtain ⟨e, hmem, he⟩ := hgiven
  obtain ⟨-, -, v, hv⟩ := h.closed e hmem
  exact ⟨v, e, he, hv⟩

/-! ### Rows -/

/-- Without a list of columns the row is that of the values in order. -/
theorem row_eq_ok_iff_of_nil (hnil : q.columns = []) : q.row s = .ok values ↔
    s.length = q.values.length ∧
      List.Forall₂ (fun e v => e.eval Row.empty = .ok v) q.values values := by
  simp only [← Expr.evalAlone_eq_ok_iff, ← mapM_eq_ok_iff]
  unfold row
  dsimp only
  rw [hnil, List.isEmpty_nil, if_pos rfl]
  by_cases hlen : s.length = q.values.length
  · rw [if_neg (not_not.mpr hlen)]
    simp [hlen, bind_eq_ok_iff, pure, Except.pure]
  · rw [if_pos hlen]
    simp [hlen, bind_eq_ok_iff]

/-- With a list of columns the row is arranged as the schema has them. -/
theorem row_eq_ok_iff_of_ne (hne : q.columns ≠ []) : q.row s = .ok values ↔
    q.columns.length = q.values.length ∧ ∃ given,
      List.Forall₂ (fun e v => e.eval Row.empty = .ok v) q.values given ∧
      (q.columns.Nodup ∧ ∀ name ∈ q.columns, name ∈ s.names) ∧ s.names.Nodup ∧
      List.Forall₂ (fun name v => (q.columns.zip given).lookup name = some v) s.names values := by
  simp only [← Expr.evalAlone_eq_ok_iff, ← mapM_eq_ok_iff]
  unfold row
  dsimp only
  have hlist : ¬q.columns.isEmpty = true := by simpa using hne
  rw [if_neg hlist]
  by_cases hlen : q.columns.length = q.values.length
  · rw [if_neg (not_not.mpr hlen)]
    have hchecked : s.checkNames [] q.columns = .ok () ↔
        q.columns.Nodup ∧ ∀ name ∈ q.columns, name ∈ s.names := by
      simp [Schema.checkNames_eq_ok_iff]
    have hnames : (∃ u, s.checkNames [] q.columns = .ok u) ↔
        q.columns.Nodup ∧ ∀ name ∈ q.columns, name ∈ s.names :=
      ⟨fun ⟨_, h⟩ => hchecked.mp h, fun h => ⟨(), hchecked.mpr h⟩⟩
    simp [hlen, bind_eq_ok_iff, hlist, hnames, arranged_eq_ok_iff]
  · rw [if_pos hlen]
    simp [hlen, bind_eq_ok_iff]

theorem closed_of_forall₂ {given : List Value}
    (h : List.Forall₂ (fun e v => e.eval Row.empty = .ok v) q.values given) :
    ∀ e ∈ q.values, e.hasWildcard = false ∧ e.columns = [] ∧ ∃ v, e.eval Row.empty = .ok v := by
  intro e he
  obtain ⟨v, hv⟩ := exists_forall₂_iff.mp ⟨given, h⟩ e he
  obtain ⟨hwildcard, hcolumns⟩ := Expr.mentions_nothing hv
  exact ⟨hwildcard, hcolumns, v, hv⟩

theorem Covers.exists_forall₂ (h : q.Covers s) :
    ∃ given, List.Forall₂ (fun e v => e.eval Row.empty = .ok v) q.values given :=
  exists_forall₂_iff.mpr fun e he => (h.closed e he).2.2

theorem row_iff_covers_of_nil (hnil : q.columns = []) : q.row s = .ok values ↔
    q.Covers s ∧ values.length = s.length ∧ ∀ k v, values[k]? = some v → q.Gives s k v := by
  have hgiven (k : Nat) : q.given? s k = q.values[k]? := if_pos hnil
  rw [row_eq_ok_iff_of_nil hnil]
  constructor
  · rintro ⟨hlen, hvalues⟩
    refine ⟨⟨?_, closed_of_forall₂ hvalues, fun hne => absurd hnil hne⟩, ?_, fun k v hv => ?_⟩
    · rw [if_pos hnil, hlen]
    · rw [hlen, hvalues.length_eq]
    · obtain ⟨e, he, heval⟩ := exists_getElem?_of_forall₂ hvalues hv
      exact ⟨e, (hgiven k).trans he, heval⟩
  · rintro ⟨hcovers, hlen, hgives⟩
    have hcount : q.values.length = s.length := by rw [hcovers.count, if_pos hnil]
    refine ⟨hcount.symm, forall₂_of_getElem? (hcount.trans hlen.symm) fun k e v he hv => ?_⟩
    obtain ⟨e', he', heval⟩ := hgives k v hv
    rw [hgiven, he] at he'
    exact Option.some.inj he' ▸ heval

theorem row_iff_covers_of_ne (hne : q.columns ≠ []) : q.row s = .ok values ↔
    q.Covers s ∧ values.length = s.length ∧ ∀ k v, values[k]? = some v → q.Gives s k v := by
  have hgiven (k : Nat) : q.given? s k =
      s.names[k]?.bind fun name => (q.columns.zip q.values).lookup name := if_neg hne
  have hlength : s.names.length = s.length := List.length_map ..
  rw [row_eq_ok_iff_of_ne hne]
  constructor
  · rintro ⟨hlen, given, hgivens, ⟨hcolumns, hknown⟩, hnames, hvalues⟩
    have hlisted : ∀ name ∈ s.names, name ∈ q.columns := by
      intro name hmem
      obtain ⟨v, -, hv⟩ := exists_of_forall₂_of_mem hvalues.flip hmem
      exact (List.of_mem_zip (mem_of_lookup hv)).1
    refine ⟨⟨?_, closed_of_forall₂ hgivens, fun _ => ⟨hcolumns, ?_⟩⟩, ?_, fun k v hv => ?_⟩
    · rw [if_neg hne, hlen]
    · exact (List.perm_ext_iff_of_nodup hcolumns hnames).mpr
        fun name => ⟨hknown name, hlisted name⟩
    · rw [← hvalues.length_eq, hlength]
    · obtain ⟨name, hname, hv⟩ := exists_getElem?_of_forall₂ hvalues hv
      obtain ⟨e, he, heval⟩ := exists_lookup_zip hgivens hv
      refine ⟨e, ?_, heval⟩
      rw [hgiven, hname, Option.bind_some, he]
  · rintro ⟨hcovers, hlen, hgives⟩
    obtain ⟨hcolumns, hperm⟩ := hcovers.names hne
    obtain ⟨given, hgivens⟩ := hcovers.exists_forall₂
    have hcount : q.values.length = q.columns.length := by rw [hcovers.count, if_neg hne]
    refine ⟨hcount.symm, given, hgivens, ⟨hcolumns, fun name => hperm.mem_iff.mp⟩,
      hperm.nodup_iff.mp hcolumns, ?_⟩
    refine forall₂_of_getElem? (hlength.trans hlen.symm) fun k name v hname hv => ?_
    obtain ⟨e, he, heval⟩ := hgives k v hv
    rw [hgiven, hname, Option.bind_some] at he
    obtain ⟨w, hw, heval'⟩ := exists_lookup_zip hgivens.flip he
    rw [heval] at heval'
    rw [hw, Except.ok.inj heval']

/-- A statement makes a row when it covers the columns. Each value of the row is the one that the
statement gives for its column. -/
theorem row_eq_ok_iff : q.row s = .ok values ↔
    q.Covers s ∧ values.length = s.length ∧ ∀ k v, values[k]? = some v → q.Gives s k v := by
  by_cases hnil : q.columns = []
  · exact row_iff_covers_of_nil hnil
  · exact row_iff_covers_of_ne hnil

theorem Covers.exists_row (h : q.Covers s) : ∃ values, q.row s = .ok values := by
  obtain ⟨values, hvalues⟩ := exists_forall₂_iff.mpr
    fun k hk => h.exists_gives (List.mem_range.mp hk)
  refine ⟨values, row_eq_ok_iff.mpr ⟨h, ?_, fun k v hv => ?_⟩⟩
  · rw [← hvalues.length_eq, List.length_range]
  · obtain ⟨j, hj, hgives⟩ := exists_getElem?_of_forall₂ hvalues hv
    obtain ⟨-, rfl⟩ : k < s.length ∧ k = j := by simpa [List.getElem?_eq_some_iff] using hj
    exact hgives

theorem gives_iff_of_row (h : q.row s = .ok values) : q.Gives s k v ↔ values[k]? = some v := by
  obtain ⟨hcovers, hlen, hgives⟩ := row_eq_ok_iff.mp h
  refine ⟨fun hg => ?_, hgives k v⟩
  have hlt : k < values.length := hlen ▸ hcovers.lt_of_gives hg
  have hvalue := List.getElem?_eq_getElem hlt
  rw [hvalue, (hgives k _ hvalue).unique hg]

/-- A statement is accepted when it makes a row that can be added. -/
theorem accepted_iff_adds (h : t.WellFormed) :
    q.Accepted t.schema t.contents ↔ ∃ values, q.Adds t values := by
  constructor
  · intro hq
    obtain ⟨values, hrow⟩ := hq.exists_row
    obtain ⟨-, hlen, hgives⟩ := row_eq_ok_iff.mp hrow
    refine ⟨values, hrow, ?_, h.checkNew_eq_ok_iff.mpr fun r hr k c v hc hu hrv hv => ?_⟩
    · exact forall₂_of_getElem? hlen.symm fun k c v hc hv => hq.admits k c v hc (hgives k v hv)
    · exact hq.fresh k c v hc hu (hgives k v hv) r hr hrv
  · rintro ⟨values, hrow, hadmits, hfresh⟩
    refine ⟨(row_eq_ok_iff.mp hrow).1, fun k c v hc hg => ?_, fun k c v hc hu hg r hr hrv => ?_⟩
    · obtain ⟨c', hc', hadmit⟩ := exists_getElem?_of_forall₂ hadmits ((gives_iff_of_row hrow).mp hg)
      obtain rfl : c' = c := Option.some.inj (hc'.symm.trans hc)
      exact hadmit
    · have hv := (gives_iff_of_row hrow).mp hg
      exact h.checkNew_eq_ok_iff.mp hfresh r hr k c v hc hu hrv hv

/-- A statement with other pairs of columns and values. -/
def withPairs (q : InsertRow) (pairs : List (String × Expr)) : InsertRow :=
  { q with columns := pairs.map (·.1), values := pairs.map (·.2) }

/-- The order in which a statement lists columns makes no difference to its row. -/
theorem row_withPairs {pairs : List (String × Expr)} (hne : q.columns ≠ [])
    (hp : pairs.Perm (q.columns.zip q.values)) (h : q.row s = .ok values) :
    (q.withPairs pairs).row s = .ok values := by
  obtain ⟨hcovers, hlen, hgives⟩ := row_eq_ok_iff.mp h
  obtain ⟨hnodup, hnames⟩ := hcovers.names hne
  have hcount : q.values.length = q.columns.length := by rw [hcovers.count, if_neg hne]
  have hcolumns : (pairs.map (·.1)).Perm q.columns := by
    have hmap := hp.map (·.1)
    rwa [List.map_fst_zip (Nat.le_of_eq hcount.symm)] at hmap
  have hvalues : (pairs.map (·.2)).Perm q.values := by
    have hmap := hp.map (·.2)
    rwa [List.map_snd_zip (Nat.le_of_eq hcount)] at hmap
  have hne' : (q.withPairs pairs).columns ≠ [] :=
    fun hnil => hne (hcolumns.symm.trans (.of_eq hnil)).eq_nil
  have hnodup' : (pairs.map (·.1)).Nodup := hcolumns.nodup_iff.mpr hnodup
  have hzip : (pairs.map (·.1)).zip (pairs.map (·.2)) = pairs := (List.zip_of_prod rfl rfl).symm
  -- no name is listed twice, so each finds its expression wherever the pair stands
  have hgiven (k : Nat) : (q.withPairs pairs).given? s k = q.given? s k := by
    rw [given?, given?, if_neg hne', if_neg hne]
    simp only [withPairs, hzip, lookup_eq_of_perm hp hnodup']
  refine row_eq_ok_iff.mpr ⟨⟨?_, ?_, ?_⟩, hlen, fun k v hv => ?_⟩
  · rw [if_neg hne']
    simp [withPairs]
  · exact fun e he => hcovers.closed e (hvalues.mem_iff.mp he)
  · exact fun _ => ⟨hnodup', hcolumns.trans hnames⟩
  · obtain ⟨e, he, heval⟩ := hgives k v hv
    exact ⟨e, (hgiven k).trans he, heval⟩

theorem run_apply_congr {q' : InsertRow} (h : q'.row t.schema = q.row t.schema) :
    q'.apply.run.run t = q.apply.run.run t := by
  unfold apply
  rw [run_bind_ok (run_get t), run_bind_ok (run_get t), h]

end InsertRow

/-! ### Databases -/

namespace Database

variable {db : Database}

theorem execute_insert (h : db.catalog.WellFormed) (ht : db.table? q.table = some t)
    (hq : q.Adds t values) :
    (db.execute (.insert q)).result = .ok (.inserted 1) ∧
      ∃ after, (db.execute (.insert q)).database.table? q.table = some after ∧
        after.name = t.name ∧ after.schema = t.schema ∧
        after.rows = .ok (t.contents ++ [⟨t.schema.names.zip values⟩]) := by
  obtain ⟨after, hrun, hwf, hname, hschema, -, hcontents⟩ := q.run_apply (h.of_lookup? ht).2 hq
  obtain ⟨hresult, -, hafter⟩ := execute_change_run (s := .insert q) (f := .inserted) rfl ht hrun
  exact ⟨hresult, after, hafter, hname, hschema, hwf.rows_eq.trans (congrArg _ hcontents)⟩

theorem execute_insert_refused (ht : db.table? q.table = some t)
    (hq : ∀ values, ¬q.Adds t values) :
    ∃ e, (db.execute (.insert q)).result = .error (.error e) := by
  obtain ⟨e, hrun⟩ := q.run_apply_refused t hq
  obtain ⟨hresult, -⟩ := execute_change (s := .insert q) (f := .inserted) rfl ht
  rw [hrun] at hresult
  exact ⟨_, hresult⟩

theorem exists_execute_insert_iff (h : db.catalog.WellFormed) :
    (∃ outcome, (db.execute (.insert q)).result = .ok outcome) ↔
      ∃ t, db.table? q.table = some t ∧ q.Accepted t.schema t.contents := by
  have hadds (t : Table) (ht : db.table? q.table = some t) :
      q.Accepted t.schema t.contents ↔ ∃ values, q.Adds t values :=
    InsertRow.accepted_iff_adds (h.of_lookup? ht).2
  refine exists_execute_change_iff (s := .insert q) (f := .inserted) rfl (fun t ht hq => ?_)
    fun t ht hq => ?_
  · obtain ⟨values, hvalues⟩ := (hadds t ht).mp hq
    obtain ⟨after, hrun, -⟩ := q.run_apply (h.of_lookup? ht).2 hvalues
    exact ⟨1, after, hrun⟩
  · rw [hadds t ht, not_exists] at hq
    exact q.run_apply_refused t hq

/-- Two statements that make the same row of a table do the same to it. -/
theorem execute_insert_congr (q' : InsertRow) (ht : db.table? q.table = some t)
    (htable : q'.table = q.table) (hrow : q'.row t.schema = q.row t.schema) :
    (db.execute (.insert q')).result = (db.execute (.insert q)).result ∧
      (db.execute (.insert q')).database = (db.execute (.insert q)).database := by
  have ht' : db.table? q'.table = some t := htable ▸ ht
  have hrun := InsertRow.run_apply_congr hrow
  obtain ⟨hresult, -⟩ := execute_change (s := .insert q) (f := .inserted) rfl ht
  obtain ⟨hresult', -⟩ := execute_change (s := .insert q') (f := .inserted) rfl ht'
  refine ⟨?_, ?_⟩
  · rw [hresult, hresult', hrun]
    rfl
  · rw [database_execute_change (s := .insert q) (f := .inserted) rfl ht,
      database_execute_change (s := .insert q') (f := .inserted) rfl ht', hrun, htable]

/-- An `INSERT` statement succeeds exactly when its table is there and it is accepted on the table's
rows. It then adds one row at the end, which has in each column the value that the statement pairs
with the column, and the order of the pairs makes no difference. No statement that lists columns is
accepted on a table that has two of one name. -/
theorem Reachable.insert_spec (h : db.Reachable) (q : InsertRow) :
    ((∃ outcome, (db.execute (.insert q)).result = .ok outcome) ↔
      ∃ t rows, db.table? q.table = some t ∧ t.rows = .ok rows ∧ q.Accepted t.schema rows) ∧
    ∀ t rows, db.table? q.table = some t → t.rows = .ok rows →
      (q.Accepted t.schema rows →
        (db.execute (.insert q)).result = .ok (.inserted 1) ∧
        (∃ after r, (db.execute (.insert q)).database.table? q.table = some after ∧
          after.name = t.name ∧ after.schema = t.schema ∧ after.rows = .ok (rows ++ [r]) ∧
          r.names = t.schema.names ∧ r.values.length = t.schema.length ∧
          ∀ k v, r.values[k]? = some v ↔ q.Gives t.schema k v) ∧
        (q.columns ≠ [] → ∀ pairs, pairs.Perm (q.columns.zip q.values) →
          (db.execute (.insert (q.withPairs pairs))).result = .ok (.inserted 1) ∧
          (db.execute (.insert (q.withPairs pairs))).database =
            (db.execute (.insert q)).database)) ∧
      (q.columns ≠ [] → ¬t.schema.names.Nodup →
        ∃ e, (db.execute (.insert q)).result = .error (.error e)) := by
  refine ⟨?_, fun t rows ht hrows => ?_⟩
  · rw [exists_execute_insert_iff h.wellFormed]
    constructor
    · rintro ⟨t, ht, hq⟩
      exact ⟨t, t.contents, ht, (h.wellFormed.of_lookup? ht).2.rows_eq, hq⟩
    · rintro ⟨t, rows, ht, hrows, hq⟩
      obtain rfl := (h.wellFormed.of_lookup? ht).2.contents_eq hrows
      exact ⟨t, ht, hq⟩
  · have hwf := (h.wellFormed.of_lookup? ht).2
    obtain rfl := hwf.contents_eq hrows
    refine ⟨fun hq => ?_, fun hne hrepeated => ?_⟩
    · obtain ⟨values, hadds⟩ := (q.accepted_iff_adds hwf).mp hq
      obtain ⟨hresult, after, hafter, hname, hschema, hrows'⟩ :=
        execute_insert h.wellFormed ht hadds
      obtain ⟨-, hlen, -⟩ := q.row_eq_ok_iff.mp hadds.row
      have hnames : t.schema.names.length = values.length := by
        rw [hlen, Schema.names, List.length_map, Schema.length]
      have hvalues : (Row.mk (t.schema.names.zip values)).values = values :=
        List.map_snd_zip (Nat.le_of_eq hnames.symm)
      refine ⟨hresult, ⟨after, _, hafter, hname, hschema, hrows', ?_, ?_, fun k v => ?_⟩,
        fun hne pairs hp => ?_⟩
      · exact List.map_fst_zip (Nat.le_of_eq hnames)
      · rw [hvalues, hlen]
      · rw [hvalues, InsertRow.gives_iff_of_row hadds.row]
      · have hsame := (InsertRow.row_withPairs hne hp hadds.row).trans hadds.row.symm
        obtain ⟨hresult', hdatabase⟩ := execute_insert_congr (q.withPairs pairs) ht rfl hsame
        exact ⟨hresult'.trans hresult, hdatabase⟩
    · refine execute_insert_refused ht fun values hadds => hrepeated ?_
      obtain ⟨hnodup, hperm⟩ := (q.row_eq_ok_iff.mp hadds.row).1.names hne
      exact hperm.nodup_iff.mp hnodup

/-- A user is added name first or number first. -/
theorem insert_spec_users :
    let number : Expr := .binary (.literal (.number 2)) (.arithmetic .add) (.literal (.number 2))
    let name : Expr := .literal (.string "Joe")
    let q : InsertRow := ⟨"users", ["name", "id"], [name, number]⟩
    let q' : InsertRow := ⟨"users", ["id", "name"], [number, name]⟩
    (∃ t rows, sample.table? "users" = some t ∧ t.rows = .ok rows ∧ q.Accepted t.schema rows) ∧
      (sample.execute (.insert q)).result = .ok (.inserted 1) ∧
      (sample.execute (.insert q')).result = .ok (.inserted 1) ∧
      (sample.execute (.insert q')).database = (sample.execute (.insert q)).database := by
  intro number name q q'
  have hok : (sample.execute (.insert q)).result = .ok (.inserted 1) := by decide +kernel
  have hspec := sample_reachable.insert_spec q
  obtain ⟨t, rows, ht, hrows, hq⟩ := hspec.1.mp ⟨_, hok⟩
  have hp : [("id", number), ("name", name)].Perm (q.columns.zip q.values) := .swap ..
  obtain ⟨hok', hsame⟩ := ((hspec.2 t rows ht hrows).1 hq).2.2 (by simp [q]) _ hp
  exact ⟨⟨t, rows, ht, hrows, hq⟩, hok, hok', hsame⟩

end Database

end Tabular
