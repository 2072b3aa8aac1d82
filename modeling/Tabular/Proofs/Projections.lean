import Tabular.Proofs.Limits

/-! Projections of queries. Labels come from the schema and values from the rows, each by going over
the projected expressions on its own. Both follow `Select.origins`, which says for every place of a
result what column it shows, so each value stands under the label of its column. What two lists of
expressions show is shown side by side when one query has both lists. -/

namespace Tabular

variable {q : Select} {s : Schema} {r : Row} {e : Expr} {rows : List Row}
  {first second projection : List Expr} {labels : List String} {values : List Value}
  {result a b : ResultSet}

/-- The positions of the columns that a projected expression shows: that of its column for a name,
those of all columns for a wildcard, and none for a value that is computed. -/
def Expr.origins (s : Schema) : Expr → List (Option Nat)
  | column name => [s.index? name]
  | wildcard => (List.range s.length).map some
  | _ => [none]

/-- The positions of the columns that a query shows, one for each of its labels. -/
def Select.origins (q : Select) (s : Schema) : List (Option Nat) :=
  q.projection.flatMap (·.origins s)

/-- The label is the name of the column that it stands for, if it stands for one. -/
def Schema.Heads (s : Schema) (origin : Option Nat) (label : String) : Prop :=
  ∀ k ∈ origin, s.names[k]? = some label

/-- The value is the one that the row has in the column it stands for, if it stands for one. -/
def Row.Fills (r : Row) (origin : Option Nat) (value : Value) : Prop :=
  ∀ k ∈ origin, r.values[k]? = some value

theorem Schema.heads_none (s : Schema) (label : String) : s.Heads none label := by
  simp [Heads]

theorem Row.fills_none (r : Row) (value : Value) : r.Fills none value := by
  simp [Fills]

theorem forall₂_positions {α : Type} {R : Option Nat → α → Prop} {xs : List α} {n : Nat}
    (hn : n = xs.length) (h : ∀ (k : Nat) x, xs[k]? = some x → R (some k) x) :
    List.Forall₂ R ((List.range n).map some) xs := by
  refine forall₂_of_getElem? (by simp [hn]) fun k o x ho hx => ?_
  have hlt : k < n := hn ▸ (List.getElem?_eq_some_iff.mp hx).1
  obtain rfl : some k = o := by simpa [hlt] using ho
  exact h k x hx

theorem forall₂_flatMap {α β γ : Type} {R : β → γ → Prop} {f : α → List β} {xs : List α}
    {parts : List (List γ)} (h : List.Forall₂ (fun x part => List.Forall₂ R (f x) part) xs parts) :
    List.Forall₂ R (xs.flatMap f) parts.flatten := by
  rw [List.flatMap_def]
  exact List.rel_flatten (List.forall₂_map_left_iff.mpr h)

theorem Expr.heads_origins (h : e.labels s = .ok labels) :
    List.Forall₂ s.Heads (e.origins s) labels := by
  cases e with
  | wildcard =>
    cases h
    refine forall₂_positions (by simp [Schema.names, Schema.length]) fun k name hname => ?_
    rintro _ ⟨⟩
    exact hname
  | column name =>
    obtain ⟨-, -, hlabels⟩ := bind_eq_ok_iff.mp h
    cases hlabels
    refine .cons (fun k hk => ?_) .nil
    obtain ⟨hlt, hname, -⟩ := List.findIdx?_eq_some_iff_getElem.mp hk
    simpa [Schema.names, hlt, sql] using hname
  | _ =>
    obtain ⟨-, -, hlabels⟩ := bind_eq_ok_iff.mp h
    cases hlabels
    exact .cons (s.heads_none _) .nil

theorem Expr.fills_origins (hr : r.Fits s) (h : e.shown r = .ok values) :
    List.Forall₂ r.Fills (e.origins s) values := by
  cases e with
  | wildcard =>
    cases h
    refine forall₂_positions hr.admits.length_eq fun k v hv => ?_
    rintro _ ⟨⟩
    exact hv
  | column name =>
    obtain ⟨v, hv, hvalues⟩ := bind_eq_ok_iff.mp h
    cases hvalues
    refine .cons (fun k hk => ?_) .nil
    rw [eval_column_eq_ok_iff, hr.get?_eq, Option.mem_def.mp hk] at hv
    exact hv
  | _ =>
    obtain ⟨v, -, hvalues⟩ := bind_eq_ok_iff.mp h
    cases hvalues
    exact .cons (r.fills_none _) .nil

theorem Row.project_eq_ok_iff : Row.project projection r = .ok values ↔
    ∃ parts, projection.mapM (·.shown r) = .ok parts ∧ parts.flatten = values := by
  simp only [project, bind_eq_ok_iff, pure, Except.pure, Except.ok.injEq]

theorem Select.labels_eq_ok_iff : q.labels s = .ok labels ↔
    s.checkCondition q.condition = .ok () ∧ q.order.forM (·.expr.checkScope s) = .ok () ∧
      ∃ parts, q.projection.mapM (·.labels s) = .ok parts ∧ parts.flatten = labels := by
  simp only [Select.labels, bind_eq_ok_iff, pure, Except.pure, Except.ok.injEq]
  constructor
  · rintro ⟨parts, hparts, ⟨⟩, hcondition, ⟨⟩, horder, hlabels⟩
    exact ⟨hcondition, horder, parts, hparts, hlabels⟩
  · rintro ⟨hcondition, horder, parts, hparts, hlabels⟩
    exact ⟨parts, hparts, (), hcondition, (), horder, hlabels⟩

theorem Select.heads_origins (h : q.labels s = .ok labels) :
    List.Forall₂ s.Heads (q.origins s) labels := by
  obtain ⟨-, -, parts, hparts, rfl⟩ := labels_eq_ok_iff.mp h
  exact forall₂_flatMap ((mapM_eq_ok_iff.mp hparts).imp fun _ _ => Expr.heads_origins)

theorem Select.fills_origins (hr : r.Fits s) (h : Row.project q.projection r = .ok values) :
    List.Forall₂ r.Fills (q.origins s) values := by
  obtain ⟨parts, hparts, rfl⟩ := Row.project_eq_ok_iff.mp h
  exact forall₂_flatMap ((mapM_eq_ok_iff.mp hparts).imp fun _ _ => Expr.fills_origins hr)

theorem Row.project_append_eq_ok_iff : Row.project (first ++ second) r = .ok values ↔
    ∃ as bs, Row.project first r = .ok as ∧ Row.project second r = .ok bs ∧ as ++ bs = values := by
  simp only [project_eq_ok_iff, mapM_append_eq_ok_iff]
  constructor
  · rintro ⟨_, ⟨parts, parts', hparts, hparts', rfl⟩, rfl⟩
    exact ⟨_, _, ⟨parts, hparts, rfl⟩, ⟨parts', hparts', rfl⟩, List.flatten_append.symm⟩
  · rintro ⟨_, _, ⟨parts, hparts, rfl⟩, ⟨parts', hparts', rfl⟩, rfl⟩
    exact ⟨_, ⟨parts, parts', hparts, hparts', rfl⟩, List.flatten_append⟩

theorem Select.labels_append_eq_ok_iff (q : Select) :
    { q with projection := first ++ second }.labels s = .ok labels ↔
      ∃ as bs, { q with projection := first }.labels s = .ok as ∧
        { q with projection := second }.labels s = .ok bs ∧ as ++ bs = labels := by
  simp only [labels_eq_ok_iff, mapM_append_eq_ok_iff]
  constructor
  · rintro ⟨hcondition, horder, _, ⟨parts, parts', hparts, hparts', rfl⟩, rfl⟩
    exact ⟨_, _, ⟨hcondition, horder, parts, hparts, rfl⟩,
      ⟨hcondition, horder, parts', hparts', rfl⟩, List.flatten_append.symm⟩
  · rintro ⟨_, _, ⟨hcondition, horder, parts, hparts, rfl⟩, ⟨-, -, parts', hparts', rfl⟩, rfl⟩
    exact ⟨hcondition, horder, _, ⟨parts, parts', hparts, hparts', rfl⟩, List.flatten_append⟩

/-- The second result to the right of the first. -/
def ResultSet.beside (a b : ResultSet) : ResultSet :=
  { labels := a.labels ++ b.labels, rows := List.zipWith (· ++ ·) a.rows b.rows }

/-- A query with two lists of expressions gives, side by side, what it gives with each of them. -/
theorem Select.answer_append_eq_ok_iff (q : Select) :
    { q with projection := first ++ second }.answer s rows = .ok result ↔
      ∃ a b, { q with projection := first }.answer s rows = .ok a ∧
        { q with projection := second }.answer s rows = .ok b ∧ a.beside b = result := by
  simp only [answer_eq_ok_iff_selected, labels_append_eq_ok_iff,
    mapM_zipWith_eq_ok_iff fun r values => Row.project_append_eq_ok_iff]
  constructor
  · rintro ⟨⟨as, bs, has, hbs, hlabels⟩, chosen, hchosen, xs, ys, hxs, hys, hrows⟩
    refine ⟨⟨as, xs⟩, ⟨bs, ys⟩, ⟨has, chosen, hchosen, hxs⟩, ⟨hbs, chosen, hchosen, hys⟩, ?_⟩
    rw [ResultSet.beside, hlabels, hrows]
  · rintro ⟨a, b, ⟨has, chosen, hchosen, hxs⟩, ⟨hbs, chosen', hchosen', hys⟩, rfl⟩
    -- the selection is the same for both lists, because it does not look at the projection
    obtain rfl : chosen = chosen' := Except.ok.inj (hchosen.symm.trans hchosen')
    exact ⟨⟨_, _, has, hbs, rfl⟩, chosen, hchosen, _, _, hxs, hys, rfl⟩

/-- The number of rows shown does not depend on what is projected. -/
theorem Select.length_rows_eq (q : Select)
    (ha : { q with projection := first }.answer s rows = .ok a)
    (hb : { q with projection := second }.answer s rows = .ok b) :
    a.rows.length = b.rows.length := by
  obtain ⟨-, chosen, hchosen, hxs⟩ := answer_eq_ok_iff_selected.mp ha
  obtain ⟨-, chosen', hchosen', hys⟩ := answer_eq_ok_iff_selected.mp hb
  obtain rfl : chosen = chosen' := Except.ok.inj (hchosen.symm.trans hchosen')
  exact (mapM_eq_ok_iff.mp hxs).length_eq.symm.trans (mapM_eq_ok_iff.mp hys).length_eq

theorem Select.subset_of_selected {chosen : List Row} (h : q.selected rows = .ok chosen) :
    chosen ⊆ rows := by
  obtain ⟨-, ordered, hordered, rfl⟩ := selected_eq_ok_iff.mp h
  intro r hr
  have hfound := (perm_of_ordered hordered).mem_iff.mp (mem_of_mem_limited hr)
  exact (List.mem_filter.mp hfound).1

/-- Of each row that it selects a query shows a value under each label, and under the label of a
column the value of that column. -/
theorem Select.fills_of_answer (hfits : ∀ r ∈ rows, r.Fits s) (h : q.answer s rows = .ok result) :
    ∃ chosen, q.selected rows = .ok chosen ∧ List.Forall₂ (fun r shown =>
      shown.length = result.labels.length ∧ List.Forall₂ r.Fills (q.origins s) shown)
        chosen result.rows := by
  obtain ⟨hlabels, chosen, hchosen, hshown⟩ := answer_eq_ok_iff_selected.mp h
  refine ⟨chosen, hchosen, ?_⟩
  have hheads := heads_origins hlabels
  refine forall₂_of_getElem? (mapM_eq_ok_iff.mp hshown).length_eq fun k r shown hr hk => ?_
  obtain ⟨r', hr', hproject⟩ := exists_getElem?_of_forall₂ (mapM_eq_ok_iff.mp hshown) hk
  obtain rfl : r = r' := Option.some.inj (hr.symm.trans hr')
  have hmem : r ∈ rows := subset_of_selected hchosen (List.mem_of_getElem? hr)
  have hfills := fills_origins (hfits r hmem) hproject
  exact ⟨hfills.length_eq.symm.trans hheads.length_eq, hfills⟩

namespace Database

variable {db : Database}

theorem result_query_append_eq_ok_iff (h : db.catalog.WellFormed) (q : Select)
    (first second : List Expr) :
    (db.query { q with projection := first ++ second }).result = .ok result ↔
      ∃ a b, (db.query { q with projection := first }).result = .ok a ∧
        (db.query { q with projection := second }).result = .ok b ∧ a.beside b = result := by
  cases ht : db.table? q.table with
  | none =>
    rw [result_query_missing (q := { q with projection := first ++ second }) ht,
      result_query_missing (q := { q with projection := first }) ht]
    constructor <;> nofun
  | some t =>
    simp only [result_query_eq_ok_iff (q := { q with projection := first ++ second }) h ht,
      result_query_eq_ok_iff (q := { q with projection := first }) h ht,
      result_query_eq_ok_iff (q := { q with projection := second }) h ht,
      q.answer_append_eq_ok_iff]

/-- A query that projects two lists of expressions succeeds when it does with each of them alone,
and shows the labels and the rows of the one followed by those of the other. In the result of any
query each row has a value for each label, and under the name of a column, which a name or a
wildcard has brought there, stands the value that the selected row has in that column: for a name,
the first column that has it. -/
theorem Reachable.query_projection (h : db.Reachable) (q : Select) (first second : List Expr) :
    let whole : Select := { q with projection := first ++ second }
    let left : Select := { q with projection := first }
    let right : Select := { q with projection := second }
    ((∃ result, (db.query whole).result = .ok result) ↔
      (∃ a, (db.query left).result = .ok a) ∧ ∃ b, (db.query right).result = .ok b) ∧
    (∀ result, (db.query whole).result = .ok result →
      ∃ a b, (db.query left).result = .ok a ∧ (db.query right).result = .ok b ∧
        result.labels = a.labels ++ b.labels ∧ a.rows.length = b.rows.length ∧
        result.rows = List.zipWith (· ++ ·) a.rows b.rows) ∧
    (∀ result, (db.query q).result = .ok result →
      ∃ t rows chosen, db.table? q.table = some t ∧ t.rows = .ok rows ∧
        q.selected rows = .ok chosen ∧ chosen ⊆ rows ∧
        (∀ name, .column name ∈ q.projection → ∃ k, t.schema.index? name = some k) ∧
        List.Forall₂ t.schema.Heads (q.origins t.schema) result.labels ∧
        List.Forall₂ (fun r shown => shown.length = result.labels.length ∧
          List.Forall₂ r.Fills (q.origins t.schema) shown) chosen result.rows) ∧
    ∀ q' ∈ [whole, left, right, q],
      (db.execute (.select q')).result = .selected <$> (db.query q').result := by
  intro whole left right
  have happend {result : ResultSet} : (db.query whole).result = .ok result ↔ _ :=
    result_query_append_eq_ok_iff h.wellFormed q first second
  refine ⟨?_, ?_, ?_, fun q' _ => result_execute_select db q'⟩
  · constructor
    · rintro ⟨result, hresult⟩
      obtain ⟨a, b, ha, hb, -⟩ := happend.mp hresult
      exact ⟨⟨a, ha⟩, b, hb⟩
    · rintro ⟨⟨a, ha⟩, b, hb⟩
      exact ⟨a.beside b, happend.mpr ⟨a, b, ha, hb, rfl⟩⟩
  · intro result hresult
    obtain ⟨a, b, ha, hb, rfl⟩ := happend.mp hresult
    obtain ⟨t, ht, hleft⟩ := exists_answer_of_query h.wellFormed ha
    have hright := (result_query_eq_ok_iff (q := right) h.wellFormed ht).mp hb
    exact ⟨a, b, ha, hb, rfl, q.length_rows_eq hleft hright, rfl⟩
  · intro result hresult
    obtain ⟨t, ht, hanswer⟩ := exists_answer_of_query h.wellFormed hresult
    have hwf := (h.wellFormed.of_lookup? ht).2
    obtain ⟨chosen, hchosen, hshown⟩ := Select.fills_of_answer (fun r => hwf.fits_of_mem) hanswer
    have hlabels := (Select.answer_eq_ok_iff.mp hanswer).1
    refine ⟨t, t.contents, chosen, ht, hwf.rows_eq, hchosen, Select.subset_of_selected hchosen,
      fun name hname => ?_, Select.heads_origins hlabels, hshown⟩
    obtain ⟨⟨⟩⟩ | hscoped := (Select.exists_labels_iff.mp ⟨_, hlabels⟩).projection _ hname
    rw [← Option.isSome_iff_exists, Schema.index?_isSome_iff]
    exact Expr.scoped_column_iff.mp hscoped

/-- Two columns have the same name, which by itself means the first of them. -/
theorem query_projection_twice :
    let schema : Schema := ⟨[⟨"a", .int, none⟩, ⟨"a", .bool, none⟩]⟩
    let db := (preloaded {} [("twice", schema)]).run
      [.insert ⟨"twice", [], [.literal (.number 1), .literal (.bool true)]⟩,
        .insert ⟨"twice", [], [.literal (.number 2), .literal (.bool false)]⟩]
    let q : Select := { projection := [.wildcard, .column "a"], table := "twice" }
    q.origins schema = [some 0, some 1, some 0] ∧
      (db.query { q with projection := [.wildcard] }).result =
        .ok ⟨["a", "a"], [[.number 1, .bool true], [.number 2, .bool false]]⟩ ∧
      (db.query { q with projection := [.column "a"] }).result =
        .ok ⟨["a"], [[.number 1], [.number 2]]⟩ ∧
      (db.query q).result = .ok ⟨["a", "a", "a"],
        [[.number 1, .bool true, .number 1], [.number 2, .bool false, .number 2]]⟩ := by
  intro schema db q
  have hreach : db.Reachable := ⟨_, _, _, rfl⟩
  have hleft : (db.query { q with projection := [.wildcard] }).result =
      .ok ⟨["a", "a"], [[.number 1, .bool true], [.number 2, .bool false]]⟩ := by decide +kernel
  have hright : (db.query { q with projection := [.column "a"] }).result =
      .ok ⟨["a"], [[.number 1], [.number 2]]⟩ := by decide +kernel
  obtain ⟨hiff, hbeside, -⟩ := hreach.query_projection q [.wildcard] [.column "a"]
  obtain ⟨⟨labels, rows⟩, hresult⟩ := hiff.mpr ⟨⟨_, hleft⟩, _, hright⟩
  obtain ⟨a, b, ha, hb, hlabels, -, hrows⟩ := hbeside _ hresult
  obtain rfl := Except.ok.inj (hleft.symm.trans ha)
  obtain rfl := Except.ok.inj (hright.symm.trans hb)
  dsimp only at hlabels hrows
  subst hlabels hrows
  exact ⟨by decide, hleft, hright, hresult⟩

end Database

end Tabular
