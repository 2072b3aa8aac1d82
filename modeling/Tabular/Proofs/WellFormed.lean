import Tabular.Proofs.Results
import Tabular.Storage.Catalog

/-! Well-formed tables: each column has its own store, all stores reach equally far, every cell
holds a value that its column admits, and unique columns repeat none. Such a table is also a list of
rows, its `contents`, and reading it gives that list. -/

namespace Tabular

/-- The store is that of the column and holds `n` values, all of which the column's type admits. -/
structure Store.Fits (n : Nat) (c : Column) (s : Store) : Prop where
  name : s.name = c.name
  kind : s.kind = c.type.kind
  size : s.size = n
  admits : ∀ v ∈ s.values, c.type.admits v = true

/-- The store repeats no value if the column is unique. -/
def Store.Distinct (c : Column) (s : Store) : Prop := c.isUnique = true → s.values.Nodup

/-- The stores are those of the schema's columns in order, each with a value for every row that its
column's type admits, and no two rows share a value of a unique column. -/
structure Table.WellFormed (t : Table) : Prop where
  fits : List.Forall₂ (Store.Fits t.rowCount) t.schema.columns t.stores
  distinct : List.Forall₂ Store.Distinct t.schema.columns t.stores

/-- Each table is well formed and stands under its own name, and under no name stand two. -/
structure Catalog.WellFormed (c : Catalog) : Prop where
  names : c.names.Nodup
  tables : ∀ name t, (name, t) ∈ c.tables → t.name = name ∧ t.WellFormed

theorem filterMap_range_getElem? {α : Type} (xs : List α) :
    (List.range xs.length).filterMap (xs[·]?) = xs := by
  induction xs with
  | nil => rfl
  | cons x xs ih => simpa [List.range_succ_eq_map, List.filterMap_map, Function.comp_def] using ih

theorem forall₂_of_getElem? {α β : Type} {R : α → β → Prop} {xs : List α} {ys : List β}
    (hlen : xs.length = ys.length)
    (h : ∀ (k : Nat) x y, xs[k]? = some x → ys[k]? = some y → R x y) : List.Forall₂ R xs ys := by
  rw [List.forall₂_iff_get]
  refine ⟨hlen, fun k hx hy => h k _ _ ?_ ?_⟩ <;> simp

theorem forall₂_and {α β : Type} {R S : α → β → Prop} {xs : List α} {ys : List β}
    (hr : List.Forall₂ R xs ys) (hs : List.Forall₂ S xs ys) :
    List.Forall₂ (fun x y => R x y ∧ S x y) xs ys := by
  induction hr with
  | nil => exact .nil
  | cons hr _ ih =>
    cases hs with
    | cons hs hrest => exact .cons ⟨hr, hs⟩ (ih hrest)

theorem exists_getElem?_of_forall₂ {α β : Type} {R : α → β → Prop} {xs : List α} {ys : List β}
    (h : List.Forall₂ R xs ys) {k : Nat} {y : β} (hy : ys[k]? = some y) :
    ∃ x, xs[k]? = some x ∧ R x y := by
  induction h generalizing k with
  | nil => simp at hy
  | @cons x _ _ _ hr _ ih =>
    cases k with
    | zero =>
      obtain rfl : _ = y := by simpa using hy
      exact ⟨x, rfl, hr⟩
    | succ k => simpa using ih (by simpa using hy)

theorem exists_of_forall₂_of_mem {α β : Type} {R : α → β → Prop} {xs : List α} {ys : List β}
    (h : List.Forall₂ R xs ys) {y : β} (hy : y ∈ ys) : ∃ x ∈ xs, R x y := by
  obtain ⟨k, hk⟩ := List.mem_iff_getElem?.mp hy
  obtain ⟨x, hx, hr⟩ := exists_getElem?_of_forall₂ h hk
  exact ⟨x, List.mem_of_getElem? hx, hr⟩

section Entries

variable {α β : Type} [BEq α] [LawfulBEq α] {entries entries' : List (α × β)} {key other : α}
  {b : β}

theorem mem_of_lookup (h : entries.lookup key = some b) : (key, b) ∈ entries := by
  obtain ⟨before, after, hsplit, -⟩ := List.lookup_eq_some_iff.mp h
  rw [hsplit]
  simp

theorem lookup_eq_some_iff_mem (h : (entries.map (·.1)).Nodup) :
    entries.lookup key = some b ↔ (key, b) ∈ entries := by
  refine ⟨mem_of_lookup, ?_⟩
  intro hmem
  obtain ⟨before, behind, hsplit⟩ := List.append_of_mem hmem
  refine List.lookup_eq_some_iff.mpr ⟨before, behind, hsplit, ?_⟩
  intro p hp
  rw [hsplit, List.map_append, List.nodup_append] at h
  have hne : p.1 ≠ key := h.2.2 p.1 (List.mem_map_of_mem hp) key (by simp)
  simpa using hne.symm

/-- Where no key is repeated, the order of entries makes no difference. -/
theorem lookup_eq_of_perm (hp : entries.Perm entries') (h : (entries.map (·.1)).Nodup) (key : α) :
    entries.lookup key = entries'.lookup key := by
  ext b
  rw [lookup_eq_some_iff_mem h, lookup_eq_some_iff_mem ((hp.map _).nodup_iff.mp h), hp.mem_iff]

theorem lookup_filter_of_ne (h : other ≠ key) :
    (entries.filter (·.1 != key)).lookup other = entries.lookup other := by
  induction entries with
  | nil => rfl
  | cons p rest ih =>
    by_cases hp : p.1 = key
    · have hskip : ¬(p.1 != key) = true := by simp [hp]
      have hne : (other == p.1) = false := by simpa [hp] using h
      rw [List.filter_cons, if_neg hskip, ih, List.lookup_cons, hne]
    · have hkeep : (p.1 != key) = true := by simpa using hp
      rw [List.filter_cons, if_pos hkeep, List.lookup_cons, List.lookup_cons, ih]

theorem lookup_filter_self : (entries.filter (·.1 != key)).lookup key = none := by
  refine List.lookup_eq_none_iff.mpr fun p hp => ?_
  have hne : p.1 ≠ key := by simpa using (List.mem_filter.mp hp).2
  simpa using hne.symm

theorem lookup_filter_eq_some_iff : (entries.filter (·.1 != key)).lookup other = some b ↔
    other ≠ key ∧ entries.lookup other = some b := by
  by_cases ho : other = key
  · simp [ho, lookup_filter_self]
  · simp [ho, lookup_filter_of_ne]

end Entries

/-- The values at a position across stores, one from each store that reaches so far. -/
def Store.across (stores : List Store) (i : Nat) : List Value := stores.filterMap (·.get? i)

section Across

variable {n i k : Nat} {c : Column} {s : Store} {columns : List Column} {stores : List Store}

theorem Store.get?_of_lt (h : i < s.size) : ∃ v ∈ s.values, s.get? i = some v := by
  rw [← s.length_values] at h
  exact ⟨s.values[i], List.getElem_mem h, by rw [s.get?_eq, List.getElem?_eq_getElem h]⟩

theorem Store.Fits.get? (h : s.Fits n c) (hi : i < n) :
    ∃ v, s.get? i = some v ∧ c.type.admits v = true := by
  obtain ⟨v, hv, hg⟩ := s.get?_of_lt (h.size ▸ hi)
  exact ⟨v, hg, h.admits v hv⟩

theorem Store.mapM_get? (h : List.Forall₂ (Fits n) columns stores) (hi : i < n) :
    stores.mapM (·.get? i) = some (across stores i) := by
  induction h with
  | nil => rfl
  | cons hs _ ih =>
    obtain ⟨v, hv, -⟩ := hs.get? hi
    simp [across, hv, ih]

theorem Store.admits_across (h : List.Forall₂ (Fits n) columns stores) (hi : i < n) :
    List.Forall₂ (fun c v => c.type.admits v = true) columns (across stores i) := by
  induction h with
  | nil => exact .nil
  | cons hs _ ih =>
    obtain ⟨v, hv, hadmits⟩ := hs.get? hi
    simpa [across, hv] using ⟨hadmits, ih⟩

theorem Store.length_across (h : List.Forall₂ (Fits n) columns stores) (hi : i < n) :
    (across stores i).length = columns.length := (admits_across h hi).length_eq.symm

theorem Store.getElem?_across (h : List.Forall₂ (Fits n) columns stores) (hi : i < n) :
    (across stores i)[k]? = stores[k]?.bind (·.get? i) := by
  induction h generalizing k with
  | nil => simp [across]
  | cons hs _ ih =>
    obtain ⟨v, hv, -⟩ := hs.get? hi
    cases k with
    | zero => simp [across, hv]
    | succ k => simpa [across, hv] using ih

/-- A store holds what the rows have at its place. -/
theorem Store.values_eq (h : List.Forall₂ (Fits n) columns stores) (hs : stores[k]? = some s) :
    s.values = (List.range n).filterMap fun i => (across stores i)[k]? := by
  obtain ⟨c, -, hc⟩ := exists_getElem?_of_forall₂ h hs
  calc
    s.values = (List.range s.values.length).filterMap (s.values[·]?) :=
      (filterMap_range_getElem? _).symm
    _ = (List.range n).filterMap (s.values[·]?) := by rw [s.length_values, hc.size]
    _ = _ := List.filterMap_congr fun i hi => by
      rw [getElem?_across h (List.mem_range.mp hi), hs, Option.bind_some, s.get?_eq]

end Across

namespace Table

/-- The row at a position of a table, whose stores reach that far. -/
def row (t : Table) (i : Nat) : Row := ⟨t.schema.names.zip (Store.across t.stores i)⟩

/-- The rows of a table in order, as many as it counts. -/
def contents (t : Table) : List Row := (List.range t.rowCount).map t.row

theorem mem_contents {t : Table} {r : Row} : r ∈ t.contents ↔ ∃ i < t.rowCount, t.row i = r := by
  simp [contents]

theorem length_contents (t : Table) : t.contents.length = t.rowCount := by
  simp [contents]

theorem zipIdx_contents (t : Table) :
    t.contents.zipIdx = (List.range t.rowCount).map fun i => (t.row i, i) := by
  apply List.ext_getElem <;> simp [contents]

namespace WellFormed

variable {t : Table} {i : Nat}

theorem length_across (h : t.WellFormed) (hi : i < t.rowCount) :
    (Store.across t.stores i).length = t.schema.names.length := by
  rw [Store.length_across h.fits hi, Schema.names, List.length_map]

theorem values_row (h : t.WellFormed) (hi : i < t.rowCount) :
    (t.row i).values = Store.across t.stores i :=
  List.map_snd_zip (Nat.le_of_eq (h.length_across hi))

theorem ofValues_row (h : t.WellFormed) (hi : i < t.rowCount) :
    Row.ofValues t.schema.names (t.row i).values = .ok (t.row i) := by
  rw [h.values_row hi]
  exact if_pos (h.length_across hi).symm

theorem names_row (h : t.WellFormed) (hi : i < t.rowCount) : (t.row i).names = t.schema.names :=
  List.map_fst_zip (Nat.le_of_eq (h.length_across hi).symm)

theorem row?_eq (h : t.WellFormed) (hi : i < t.rowCount) : t.row? i = .ok (some (t.row i)) := by
  unfold Table.row?
  rw [if_pos hi, Store.mapM_get? h.fits hi]
  show some <$> Row.ofValues t.schema.names (Store.across t.stores i) = _
  rw [← h.values_row hi, h.ofValues_row hi]
  rfl

/-- Reading a well-formed table gives all its rows. -/
theorem rows_eq (h : t.WellFormed) : t.rows = .ok t.contents := by
  have hrows : (List.range t.rowCount).mapM t.row? =
      .ok ((List.range t.rowCount).map fun i => some (t.row i)) :=
    mapM_eq_ok_map fun i hi => h.row?_eq (List.mem_range.mp hi)
  unfold Table.rows
  rw [hrows, contents]
  simp [bind, Except.bind, pure, Except.pure, List.filterMap_map]

theorem contents_eq (h : t.WellFormed) {rows : List Row} (hrows : t.rows = .ok rows) :
    t.contents = rows :=
  Except.ok.inj (h.rows_eq.symm.trans hrows)

/-- A store holds the values that the rows have at its place. -/
theorem mem_values_iff (h : t.WellFormed) {k : Nat} {store : Store} {v : Value}
    (hs : t.stores[k]? = some store) :
    v ∈ store.values ↔ ∃ r ∈ t.contents, r.values[k]? = some v := by
  rw [Store.values_eq h.fits hs, List.mem_filterMap]
  constructor
  · rintro ⟨i, hi, hv⟩
    have hi := List.mem_range.mp hi
    exact ⟨t.row i, mem_contents.mpr ⟨i, hi, rfl⟩, by rwa [h.values_row hi]⟩
  · rintro ⟨r, hr, hv⟩
    obtain ⟨i, hi, rfl⟩ := mem_contents.mp hr
    exact ⟨i, List.mem_range.mpr hi, by rwa [h.values_row hi] at hv⟩

/-- A table is what it is called, its schema and its rows. -/
theorem ext {t' : Table} (h : t.WellFormed) (h' : t'.WellFormed) (hname : t'.name = t.name)
    (hschema : t'.schema = t.schema) (hcount : t'.rowCount = t.rowCount)
    (hcontents : t'.contents = t.contents) : t' = t := by
  have hacross : ∀ i < t.rowCount, Store.across t'.stores i = Store.across t.stores i := by
    intro i hi
    have hrow : t'.row i = t.row i := by
      rw [contents, contents, hcount] at hcontents
      exact List.map_inj_left.mp hcontents i (List.mem_range.mpr hi)
    rw [← h.values_row hi, ← h'.values_row (hcount ▸ hi), hrow]
  have hstores : List.Forall₂ (· = ·) t'.stores t.stores := by
    have hlen : t'.stores.length = t.stores.length := by
      rw [← h'.fits.length_eq, ← h.fits.length_eq, hschema]
    refine forall₂_of_getElem? hlen fun k s' s hs' hs => ?_
    obtain ⟨c', hc', hfits'⟩ := exists_getElem?_of_forall₂ h'.fits hs'
    obtain ⟨c, hc, hfits⟩ := exists_getElem?_of_forall₂ h.fits hs
    obtain rfl : c' = c := by
      rw [hschema, hc] at hc'
      exact (Option.some.inj hc').symm
    refine Store.ext_values (hfits'.name.trans hfits.name.symm)
      (hfits'.kind.trans hfits.kind.symm) ?_
    rw [Store.values_eq h'.fits hs', Store.values_eq h.fits hs, hcount]
    exact List.filterMap_congr fun i hi => by rw [hacross i (List.mem_range.mp hi)]
  obtain ⟨name, schema, stores, rowCount⟩ := t
  obtain ⟨name', schema', stores', rowCount'⟩ := t'
  cases hname
  cases hschema
  cases hcount
  cases List.forall₂_eq_eq_eq ▸ hstores
  rfl

end WellFormed

end Table

end Tabular
