import Tabular.Proofs.Limits

/-! What a query sees of the rows of a table: their values under the names that its expressions
mention. Whatever else a row has travels with it through the selection and the order and is dropped
when the row is projected. So without a wildcard a query gives the same on tables whose rows agree
under these names, be it a result or an error. -/

namespace Tabular

variable {q : Select} {r r' : Row} {names : List String}

/-- What is left of a row when it is seen under some names only. -/
def Row.view (names : List String) (r : Row) : Row :=
  ⟨names.filterMap fun name => (r.get? name).map (name, ·)⟩

theorem Row.view_cons (r : Row) (name : String) (names : List String) : r.view (name :: names) =
    ⟨((r.get? name).map (name, ·)).toList ++ (r.view names).cells⟩ := by
  unfold view
  rw [List.filterMap_cons]
  cases r.get? name <;> rfl

theorem Row.get?_view (names : List String) (r : Row) (name : String) :
    (r.view names).get? name = if name ∈ names then r.get? name else none := by
  induction names with
  | nil => rfl
  | cons other rest ih =>
    -- a name that the row does not have leaves no cell, so the tail may decide what it means
    have hcons : (r.view (other :: rest)).get? name =
        (((r.get? other).map (other, ·)).toList.lookup name).or ((r.view rest).get? name) := by
      rw [view_cons]
      exact List.lookup_append
    rw [hcons, ih]
    by_cases hname : name = other
    · subst hname
      cases r.get? name <;> simp
    · have hskip : ((r.get? other).map (other, ·)).toList.lookup name = none := by
        cases r.get? other <;> simp [List.lookup_cons, beq_false_of_ne hname]
      simp [hskip, hname]

theorem Row.view_eq_view (h : ∀ name ∈ names, r.get? name = r'.get? name) :
    r.view names = r'.view names :=
  congrArg Row.mk (List.filterMap_congr fun name hname => by rw [h name hname])

/-- The columns that the expressions of a query mention. -/
def Select.mentioned (q : Select) : List String :=
  q.projection.flatMap (·.columns) ++ q.condition.toList.flatMap (·.columns) ++
    q.order.flatMap (·.expr.columns)

/-- The change of a row makes no difference to the query's expressions. -/
structure Select.Disregards (q : Select) (f : Row → Row) : Prop where
  projection : ∀ r, Row.project q.projection (f r) = Row.project q.projection r
  condition : ∀ r, (f r).satisfies q.condition = r.satisfies q.condition
  order : ∀ r, SortKey.values q.order (f r) = SortKey.values q.order r

section Changes

variable {f : Row → Row}

theorem Row.satisfying_map {condition : Option Expr}
    (hf : ∀ r, (f r).satisfies condition = r.satisfies condition) (rows : List (Row × Nat)) :
    Row.satisfying condition (rows.map (Prod.map f id)) =
      List.map (Prod.map f id) <$> Row.satisfying condition rows := by
  induction rows with
  | nil => rfl
  | cons p rest ih =>
    obtain ⟨r, i⟩ := p
    show (do
      let keep ← (f r).satisfies condition
      let kept ← Row.satisfying condition (rest.map (Prod.map f id))
      return if keep then (f r, i) :: kept else kept) = _
    rw [hf, ih, satisfying]
    cases r.satisfies condition with
    | error e => rfl
    | ok keep =>
      cases Row.satisfying condition rest with
      | error e => rfl
      | ok kept => cases keep <;> rfl

theorem Row.among_map {condition : Option Expr}
    (hf : ∀ r, (f r).satisfies condition = r.satisfies condition) (rows : List Row) :
    Row.among condition (rows.map f) = List.map f <$> Row.among condition rows := by
  unfold among
  rw [List.zipIdx_map, satisfying_map hf, bind_map_left, map_bind]
  refine bind_congr fun found => ?_
  rw [map_pure, List.map_map, List.map_map]
  rfl

/-- Rows are sorted by their keys, and what else they hold goes along. -/
theorem Row.sorted_map {order : List SortKey}
    (hf : ∀ r, SortKey.values order (f r) = SortKey.values order r) (rows : List Row) :
    Row.sorted order (rows.map f) = List.map f <$> Row.sorted order rows := by
  have hkeyed (r : Row) : (do return (← SortKey.values order (f r), f r)) =
      Prod.map id f <$> (do return (← SortKey.values order r, r) : Except Error _) := by
    rw [hf, map_bind]
    rfl
  unfold sorted
  rw [mapM_map_eq hkeyed, bind_map_left, map_bind]
  refine bind_congr fun keyed => ?_
  -- the change of rows leaves the keys as they are, and no comparison looks at anything else
  have hkeys : (keyed.map (Prod.map id f)).map (·.1) = keyed.map (·.1) := by simp
  have hsort : (keyed.map (Prod.map id f)).mergeSort
      (fun a b => (SortKey.compareAll order a.1 b.1).isLE) =
        (keyed.mergeSort fun a b => (SortKey.compareAll order a.1 b.1).isLE).map (Prod.map id f) :=
    (List.map_mergeSort (f := Prod.map id f) fun _ _ _ _ => rfl).symm
  rw [hkeys, hsort, map_bind]
  refine bind_congr fun _ => ?_
  rw [map_pure, List.map_map, List.map_map]
  rfl

theorem Select.limited_map (q : Select) (f : Row → Row) (rows : List Row) :
    q.limited (rows.map f) = (q.limited rows).map f := by
  unfold limited
  split
  · exact List.map_take.symm
  · rfl

namespace Select.Disregards

theorem ordered_map (h : q.Disregards f) (rows : List Row) :
    q.ordered (rows.map f) = List.map f <$> q.ordered rows := by
  unfold ordered
  split
  · rfl
  · exact Row.sorted_map h.order rows

theorem selected_map (h : q.Disregards f) (rows : List Row) :
    q.selected (rows.map f) = List.map f <$> q.selected rows := by
  unfold selected
  rw [Row.among_map h.condition, bind_map_left, map_bind]
  refine bind_congr fun found => ?_
  rw [h.ordered_map, bind_map_left, map_bind]
  refine bind_congr fun ordered => ?_
  rw [limited_map]
  rfl

/-- Rows that a query cannot tell apart may stand for each other. -/
theorem answer_map (h : q.Disregards f) (s : Schema) (rows : List Row) :
    q.answer s (rows.map f) = q.answer s rows := by
  rw [answer_eq_selected, answer_eq_selected, h.selected_map]
  refine bind_congr fun labels => ?_
  rw [bind_map_left]
  refine bind_congr fun chosen => ?_
  rw [List.mapM_map]
  exact congrArg (· >>= _) (mapM_congr fun r _ => h.projection r)

end Select.Disregards

end Changes

theorem Expr.shown_congr {e : Expr} (he : e ≠ .wildcard)
    (h : ∀ name ∈ e.columns, r.get? name = r'.get? name) : e.shown r = e.shown r' := by
  have hshown (r : Row) : e.shown r = (do return [← e.eval r]) := by
    cases e with
    | wildcard => exact absurd rfl he
    | _ => rfl
  rw [hshown, hshown, eval_congr h]

/-- A query without a wildcard sees of each row what the row has in the columns that it mentions. -/
theorem Select.disregards_view (hq : .wildcard ∉ q.projection) :
    q.Disregards (Row.view q.mentioned) := by
  have hview {name : String} (hname : name ∈ q.mentioned) (r : Row) :
      (r.view q.mentioned).get? name = r.get? name := by rw [Row.get?_view, if_pos hname]
  constructor
  · intro r
    unfold Row.project
    refine congrArg (· >>= _) (mapM_congr fun e he => ?_)
    refine Expr.shown_congr (fun hw => hq (hw ▸ he)) fun name hname => hview ?_ r
    simp only [mentioned, List.mem_append, List.mem_flatMap]
    exact .inl (.inl ⟨e, he, hname⟩)
  · intro r
    refine Row.satisfies_congr fun e he name hname => hview ?_ r
    simp only [mentioned, List.mem_append, List.mem_flatMap]
    exact .inl (.inr ⟨e, by simpa using he, hname⟩)
  · intro r
    refine mapM_congr fun k hk => Expr.eval_congr fun name hname => hview ?_ r
    simp only [mentioned, List.mem_append, List.mem_flatMap]
    exact .inr ⟨k, hk, hname⟩

theorem Table.WellFormed.row?_eq_ok_iff {t : Table} (h : t.WellFormed) {i : Nat} :
    t.row? i = .ok (some r) ↔ i < t.rowCount ∧ t.row i = r := by
  by_cases hi : i < t.rowCount
  · simp [h.row?_eq hi, hi]
  · simp [Table.row?, hi]

theorem Table.WellFormed.map_view_eq {t t' : Table} (h : t.WellFormed) (h' : t'.WellFormed)
    (hcount : t.rowCount = t'.rowCount)
    (hagree : ∀ i r r', t.row? i = .ok (some r) → t'.row? i = .ok (some r') →
      ∀ name ∈ names, r.get? name = r'.get? name) :
    t.contents.map (Row.view names) = t'.contents.map (Row.view names) := by
  unfold contents
  rw [hcount, List.map_map, List.map_map]
  refine List.map_congr_left fun i hi => ?_
  have hlt : i < t'.rowCount := List.mem_range.mp hi
  exact Row.view_eq_view (hagree i _ _ (h.row?_eq (hcount ▸ hlt)) (h'.row?_eq hlt))

namespace Database

variable {db db' : Database} {t t' : Table}

/-- A query without a wildcard gives the same result or the same error on two databases whose tables
have one schema, equally many rows, and in each row the same values in the columns that the query
mentions. What stands in other columns makes no difference and does not show. -/
theorem Reachable.query_eq_of_agree (h : db.Reachable) (h' : db'.Reachable)
    (ht : db.table? q.table = some t) (ht' : db'.table? q.table = some t')
    (hschema : t.schema = t'.schema) (hcount : t.rowCount = t'.rowCount)
    (hq : .wildcard ∉ q.projection)
    (hagree : ∀ i r r', t.row? i = .ok (some r) → t'.row? i = .ok (some r') →
      ∀ name ∈ q.mentioned, r.get? name = r'.get? name) :
    (db.query q).result = (db'.query q).result ∧
      (db.execute (.select q)).result = (db'.execute (.select q)).result := by
  have hwf := (h.wellFormed.of_lookup? ht).2
  have hwf' := (h'.wellFormed.of_lookup? ht').2
  have hview := Select.disregards_view hq
  have hquery : (db.query q).result = (db'.query q).result := by
    refine result_query_congr h.wellFormed h'.wellFormed ht ht' ?_
    calc
      q.answer t.schema t.contents
      _ = q.answer t.schema (t.contents.map (Row.view q.mentioned)) := (hview.answer_map _ _).symm
      _ = q.answer t'.schema (t'.contents.map (Row.view q.mentioned)) := by
        rw [hschema, hwf.map_view_eq hwf' hcount hagree]
      _ = q.answer t'.schema t'.contents := hview.answer_map _ _
  exact ⟨hquery, by rw [result_execute_select, result_execute_select, hquery]⟩

/-- Users with the numbers of the sample's, under other names. -/
def renamed : Database :=
  (preloaded {} []).run
    [.create ⟨"users", [⟨"id", .int, some .primaryKey⟩, ⟨"name", .varchar 3, some .unique⟩]⟩,
      .insert ⟨"users", [], [.literal (.number 1), .literal (.string "Zoe")]⟩,
      .insert ⟨"users", [], [.literal (.number 2), .literal (.string "Kim")]⟩,
      .insert ⟨"users", [], [.literal (.number 3), .literal (.string "Ann")]⟩]

/-- Of users who are sorted and cut off by their numbers only, the names do not show. -/
theorem query_eq_of_agree_renamed :
    let q : Select :=
      { projection := [.binary (.column "id") (.arithmetic .mul) (.literal (.number 10))],
        table := "users", order := [⟨.column "id", true⟩], limit := some 2,
        condition := some (.binary (.column "id") (.comparison .ne) (.literal (.number 2))) }
    ∃ t, renamed.table? q.table = some t ∧ t.contents ≠ sampleUsers.contents ∧
      (sample.query q).result = .ok ⟨["id * 10"], [[.number 30], [.number 10]]⟩ ∧
      (renamed.query q).result = .ok ⟨["id * 10"], [[.number 30], [.number 10]]⟩ := by
  intro q
  have hreach : renamed.Reachable := ⟨_, _, _, rfl⟩
  let t : Table :=
    { sampleUsers with
      stores := [⟨"id", .int, #[1, 2, 3]⟩, ⟨"name", .varchar, #["Zoe", "Kim", "Ann"]⟩] }
  have ht : renamed.table? q.table = some t := by decide +kernel
  have hsample : (sample.query q).result =
      .ok ⟨["id * 10"], [[.number 30], [.number 10]]⟩ := by
    rw [result_query_eq_ok_iff sample_reachable.wellFormed table?_sample]
    cbv
  have hagree : ∀ i r r', sampleUsers.row? i = .ok (some r) → t.row? i = .ok (some r') →
      ∀ name ∈ q.mentioned, r.get? name = r'.get? name := by
    intro i r r' hr hr'
    obtain ⟨hi, rfl⟩ :=
      (sample_reachable.wellFormed.of_lookup? table?_sample).2.row?_eq_ok_iff.mp hr
    obtain ⟨-, rfl⟩ := (hreach.wellFormed.of_lookup? ht).2.row?_eq_ok_iff.mp hr'
    revert i
    decide +kernel
  have hsame := (sample_reachable.query_eq_of_agree hreach (q := q) table?_sample ht rfl rfl
    (by decide) hagree).1
  exact ⟨t, ht, by decide +kernel, hsample, hsame.symm.trans hsample⟩

end Database

end Tabular
