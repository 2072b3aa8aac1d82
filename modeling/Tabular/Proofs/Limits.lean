import Tabular.Proofs.Structural

/-! Limits of queries. A query selects rows, which are those that satisfy its condition, in order
and up to its limit, and then projects one after another. So a limit decides how many rows are
projected and nothing else: what a query gives with a smaller limit is a part of what it gives with
a larger one. -/

namespace Tabular

/-- The second result is a part of the first. Where the first has a value, the second has what `cut`
leaves of it, and where the second is an error, so is the first, and the same one. The second may
have a value where the first is an error. -/
structure PartOf {ε α β : Type} (cut : α → β) (whole : Except ε α) (part : Except ε β) : Prop where
  ok : ∀ a, whole = .ok a → part = .ok (cut a)
  error : ∀ e, part = .error e → whole = .error e

namespace PartOf

variable {ε ε' α β γ α' β' : Type} {cut : α → β} {whole : Except ε α} {part : Except ε β}

theorem map (h : PartOf cut whole part) {f : α → α'} {g : β → β'} {cut' : α' → β'}
    (hcut : ∀ a, g (cut a) = cut' (f a)) : PartOf cut' (f <$> whole) (g <$> part) := by
  constructor
  · intro a' ha'
    cases hwhole : whole with
    | error e =>
      rw [hwhole] at ha'
      cases ha'
    | ok a =>
      rw [hwhole] at ha'
      cases ha'
      rw [h.ok a hwhole, ← hcut]
      rfl
  · intro e he
    rw [map_eq_error_iff] at he ⊢
    exact h.error e he

theorem refused (e : ε) : PartOf cut (.error e) (.error e) :=
  ⟨nofun, fun _ he => congrArg Except.error (Except.error.inj he)⟩

/-- A first step that both results have in common may come before them. -/
theorem bind {x : Except ε γ} {f : γ → Except ε α} {g : γ → Except ε β}
    (h : ∀ c, PartOf cut (f c) (g c)) : PartOf cut (x >>= f) (x >>= g) := by
  cases x with
  | error e => exact .refused e
  | ok c => exact h c

theorem mapError (h : PartOf cut whole part) (f : ε → ε') :
    PartOf cut (whole.mapError f) (part.mapError f) := by
  constructor
  · intro a ha
    cases hwhole : whole with
    | error e =>
      rw [hwhole] at ha
      cases ha
    | ok a' =>
      rw [hwhole] at ha
      cases ha
      rw [h.ok a hwhole]
      rfl
  · intro e' he'
    cases hpart : part with
    | ok b =>
      rw [hpart] at he'
      cases he'
    | error e =>
      rw [hpart] at he'
      cases he'
      rw [h.error e hpart]
      rfl

/-- The first of a list of steps give the first of what all of them give, and an error among them is
one of all. -/
theorem mapM_take (f : α → Except ε β) (xs : List α) (n : Nat) :
    PartOf (List.take n) (xs.mapM f) ((xs.take n).mapM f) := by
  constructor
  · intro ys hys
    exact mapM_eq_ok_iff.mpr (List.forall₂_take n (mapM_eq_ok_iff.mp hys))
  · intro e he
    rw [← List.take_append_drop n xs, List.mapM_append, he]
    rfl

end PartOf

variable {q : Select} {s : Schema} {rows chosen : List Row} {result : ResultSet}

/-- The rows of a table that a query shows: those that satisfy its condition, in the order of its
sort keys, up to its limit. -/
def Select.selected (q : Select) (rows : List Row) : Except Error (List Row) := do
  let found ← Row.among q.condition rows
  return q.limited (← q.ordered found)

/-- A query projects the rows that it selects. -/
theorem Select.answer_eq_selected (q : Select) (s : Schema) (rows : List Row) :
    q.answer s rows = (do
    let labels ← q.labels s
    let chosen ← q.selected rows
    return { labels, rows := ← chosen.mapM (Row.project q.projection) }) := by
  unfold answer selected
  simp only [present_eq_ordered, bind_assoc, pure_bind]

theorem Select.selected_eq_ok_iff : q.selected rows = .ok chosen ↔
    (∀ r ∈ rows, ∃ b, r.satisfies q.condition = .ok b) ∧
      ∃ ordered, q.ordered (rows.filter (·.matches q.condition)) = .ok ordered ∧
        q.limited ordered = chosen := by
  simp only [Select.selected, bind_eq_ok_iff, Row.among_eq_ok_iff, pure, Except.pure,
    Except.ok.injEq]
  constructor
  · rintro ⟨_, ⟨hdecides, rfl⟩, ordered, hordered, hlimited⟩
    exact ⟨hdecides, ordered, hordered, hlimited⟩
  · rintro ⟨hdecides, ordered, hordered, hlimited⟩
    exact ⟨_, ⟨hdecides, rfl⟩, ordered, hordered, hlimited⟩

theorem Select.answer_eq_ok_iff_selected : q.answer s rows = .ok result ↔
    q.labels s = .ok result.labels ∧ ∃ chosen, q.selected rows = .ok chosen ∧
      chosen.mapM (Row.project q.projection) = .ok result.rows := by
  simp only [answer_eq_selected, bind_eq_ok_iff, pure, Except.pure, Except.ok.injEq]
  constructor
  · rintro ⟨labels, hlabels, chosen, hchosen, shown, hshown, rfl⟩
    exact ⟨hlabels, chosen, hchosen, hshown⟩
  · rintro ⟨hlabels, chosen, hchosen, hshown⟩
    exact ⟨_, hlabels, chosen, hchosen, _, hshown, rfl⟩

variable {m : Nat} {n : Option Nat}

theorem Select.selected_limit (q : Select) (hmn : ∀ k ∈ n, m ≤ k) (rows : List Row) :
    { q with limit := some m }.selected rows =
      List.take m <$> { q with limit := n }.selected rows := by
  have hlimited (ordered : List Row) : { q with limit := some m }.limited ordered =
      ({ q with limit := n }.limited ordered).take m := by
    cases n with
    | none => rfl
    | some k =>
      show ordered.take m = (ordered.take k).take m
      rw [List.take_take, Nat.min_eq_left (hmn k rfl)]
  unfold selected
  simp only [map_bind, map_pure, ← hlimited]
  rfl

theorem Select.length_selected (h : { q with limit := some m }.selected rows = .ok chosen) :
    chosen.length = min m (rows.countP (·.matches q.condition)) := by
  obtain ⟨-, ordered, hordered, rfl⟩ := selected_eq_ok_iff.mp h
  rw [List.countP_eq_length_filter, ← (perm_of_ordered hordered).length_eq]
  exact List.length_take

/-- The first rows of a result. -/
def ResultSet.take (m : Nat) (result : ResultSet) : ResultSet :=
  { result with rows := result.rows.take m }

theorem Select.partOf_answer (q : Select) (hmn : ∀ k ∈ n, m ≤ k) (s : Schema) (rows : List Row) :
    PartOf (ResultSet.take m) ({ q with limit := n }.answer s rows)
      ({ q with limit := some m }.answer s rows) := by
  rw [answer_eq_selected, answer_eq_selected, selected_limit q hmn]
  refine .bind fun labels => ?_
  rw [bind_map_left]
  refine .bind fun chosen => ?_
  rw [bind_pure_comp, bind_pure_comp]
  exact (PartOf.mapM_take _ chosen m).map fun _ => rfl

namespace Database

variable {db : Database}

/-- A query that succeeds answers on the rows of its table. -/
theorem exists_answer_of_query (h : db.catalog.WellFormed)
    (hok : (db.query q).result = .ok result) :
    ∃ t, db.table? q.table = some t ∧ q.answer t.schema t.contents = .ok result := by
  cases ht : db.table? q.table with
  | none =>
    rw [result_query_missing ht] at hok
    cases hok
  | some t => exact ⟨t, rfl, (result_query_eq_ok_iff h ht).mp hok⟩

theorem partOf_query (h : db.catalog.WellFormed) (q : Select) (hmn : ∀ k ∈ n, m ≤ k) :
    PartOf (ResultSet.take m) (db.query { q with limit := n }).result
      (db.query { q with limit := some m }).result := by
  cases ht : db.table? q.table with
  | none =>
    rw [result_query_missing (q := { q with limit := n }) ht,
      result_query_missing (q := { q with limit := some m }) ht]
    exact .refused _
  | some t =>
    rw [result_query (q := { q with limit := n }) h ht,
      result_query (q := { q with limit := some m }) h ht]
    exact (q.partOf_answer hmn t.schema t.contents).mapError _

/-- With a smaller limit a query that succeeds shows the first rows of what it shows with a larger
limit or without one, under the same labels. If it fails with the smaller limit, it fails with the
larger one too, and for the same reason. A query with a limit that succeeds shows as many rows as
the limit allows of those that satisfy its condition. -/
theorem Reachable.query_limit (h : db.Reachable) (q : Select) (hmn : ∀ k ∈ n, m ≤ k) :
    let narrow : Select := { q with limit := some m }
    let wide : Select := { q with limit := n }
    (∀ result, (db.query wide).result = .ok result →
      (db.query narrow).result = .ok ⟨result.labels, result.rows.take m⟩) ∧
    (∀ e, (db.query narrow).result = .error e → (db.query wide).result = .error e) ∧
    (∀ result, (db.query narrow).result = .ok result →
      ∃ t rows, db.table? q.table = some t ∧ t.rows = .ok rows ∧
        result.rows.length = min m (rows.countP (·.matches q.condition))) ∧
    ∀ q ∈ [narrow, wide], (db.execute (.select q)).result = .selected <$> (db.query q).result := by
  intro narrow wide
  have hpart := partOf_query h.wellFormed q hmn
  refine ⟨hpart.ok, hpart.error, ?_, fun q _ => result_execute_select db q⟩
  intro result hresult
  obtain ⟨t, ht, hanswer⟩ := exists_answer_of_query h.wellFormed hresult
  obtain ⟨-, chosen, hchosen, hshown⟩ := Select.answer_eq_ok_iff_selected.mp hanswer
  refine ⟨t, t.contents, ht, (h.wellFormed.of_lookup? ht).2.rows_eq, ?_⟩
  rw [← (mapM_eq_ok_iff.mp hshown).length_eq]
  exact Select.length_selected (q := q) hchosen

/-- The user with the least number comes last, and the query has no value to show of that one. -/
theorem query_limit_users :
    let q : Select :=
      { projection := [.binary (.literal (.number 6)) (.arithmetic .div)
          (.group (.binary (.column "id") (.arithmetic .sub) (.literal (.number 1))))],
        table := "users", order := [⟨.column "name", true⟩] }
    (sample.query { q with limit := some 1 }).result = .ok ⟨["6 / (id - 1)"], [[.number 3]]⟩ ∧
      (sample.query { q with limit := some 2 }).result =
        .ok ⟨["6 / (id - 1)"], [[.number 3], [.number 6]]⟩ ∧
      (sample.query { q with limit := some 3 }).result =
        .error (.error ⟨.select, .divisionByZero⟩) ∧
      (sample.query { q with limit := none }).result =
        .error (.error ⟨.select, .divisionByZero⟩) := by
  intro q
  have htwo : (sample.query { q with limit := some 2 }).result =
      .ok ⟨["6 / (id - 1)"], [[.number 3], [.number 6]]⟩ := by
    rw [result_query_eq_ok_iff sample_reachable.wellFormed table?_sample]
    cbv
  have hthree : (sample.query { q with limit := some 3 }).result =
      .error (.error ⟨.select, .divisionByZero⟩) := by
    rw [result_query sample_reachable.wellFormed table?_sample]
    cbv
  have hone := (sample_reachable.query_limit (n := some 2) (m := 1) q (by simp)).1 _ htwo
  have hall := (sample_reachable.query_limit (n := none) (m := 3) q (by simp)).2.1 _ hthree
  exact ⟨hone, htwo, hthree, hall⟩

end Database

end Tabular
