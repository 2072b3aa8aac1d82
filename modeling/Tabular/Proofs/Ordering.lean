import Tabular.Engine.Selection
import Tabular.Proofs.Kinds

/-! The order of rows. Under sort keys that have values on them, the rows of a table are ordered
lexicographically by these values, each key in its own direction. This is a total preorder, because
the values of one key are of one kind on all rows. `Row.sorted_eq` says that sorting puts rows in
this order, and `filter_mergeSort` that rows with equal values stay as they were. -/

namespace Tabular

section Lists

variable {α : Type} {cmp : α → α → Ordering} [Std.TransCmp cmp]

theorem isLE_total (a b : α) : ((cmp a b).isLE || (cmp b a).isLE) = true := by
  have hswap : cmp b a = (cmp a b).swap := Std.OrientedCmp.eq_swap
  rw [hswap]
  cases cmp a b <;> rfl

theorem pairwise_mergeSort (xs : List α) :
    (xs.mergeSort fun a b => (cmp a b).isLE).Pairwise fun a b => (cmp a b).isLE = true :=
  List.pairwise_mergeSort (fun _ _ _ => Std.TransCmp.isLE_trans) isLE_total xs

/-- Sorting does not depend on the order of elements of which no two are equal in the order. -/
theorem mergeSort_eq_of_perm {xs ys : List α} (hperm : xs.Perm ys)
    (hinj : ∀ a ∈ xs, ∀ b ∈ xs, cmp a b = .eq → a = b) :
    (xs.mergeSort fun a b => (cmp a b).isLE) = ys.mergeSort fun a b => (cmp a b).isLE := by
  let le (a b : α) : Bool := (cmp a b).isLE
  have hsorted : (xs.mergeSort le).Perm (ys.mergeSort le) :=
    ((List.mergeSort_perm xs le).trans hperm).trans (List.mergeSort_perm ys le).symm
  refine hsorted.eq_of_pairwise ?_ (pairwise_mergeSort xs) (pairwise_mergeSort ys)
  intro a b ha hb hle hge
  -- each comes before the other, so they are equal in the order
  exact hinj a (List.mem_mergeSort.mp ha) b (hperm.mem_iff.mpr (List.mem_mergeSort.mp hb))
    (Std.OrientedCmp.isLE_antisymm hle hge)

/-- Elements that are equal in the order keep the order that they have in the list. -/
theorem filter_mergeSort {p : α → Bool} (hp : ∀ a b, p a = true → p b = true → cmp a b = .eq)
    (xs : List α) : (xs.mergeSort fun a b => (cmp a b).isLE).filter p = xs.filter p := by
  have hpairwise : (xs.filter p).Pairwise fun a b => (cmp a b).isLE = true :=
    List.pairwise_of_forall_mem_list fun a ha b hb => by
      rw [hp a b (List.mem_filter.mp ha).2 (List.mem_filter.mp hb).2]
      rfl
  have hsub : (xs.filter p).Sublist (xs.mergeSort fun a b => (cmp a b).isLE) :=
    List.sublist_mergeSort (fun _ _ _ => Std.TransCmp.isLE_trans) isLE_total hpairwise
      List.filter_sublist
  have hfilter : (xs.filter p).Sublist ((xs.mergeSort fun a b => (cmp a b).isLE).filter p) := by
    simpa using hsub.filter p
  have hlength := ((List.mergeSort_perm xs fun a b => (cmp a b).isLE).filter p).length_eq
  exact (hfilter.eq_of_length hlength.symm).symm

end Lists

/-! ### Values and sort keys -/

/-- An order of all values, in which values of one kind stand as `Value.compare?` has them. -/
def Value.order : Value → Value → Ordering :=
  compareLex (compareOn number?)
    (compareLex (compareOn bool?) (compareOn fun v => v.string?.map Text.bytes))

instance : Std.TransCmp Value.order :=
  inferInstanceAs (Std.TransCmp (compareLex _ (compareLex _ _)))

theorem Value.compare?_eq_order {a b : Value} (h : a.kind = b.kind) :
    a.compare? b = some (a.order b) := by
  cases a <;> cases b <;> cases h <;>
    simp [compare?, order, compareLex, compareOn, number?, bool?, string?, Text.compareBytes] <;>
    rfl

theorem BinaryOp.apply_comparison (c : Comparison) {a b : Value} (h : a.kind = b.kind) :
    BinaryOp.apply (.comparison c) a b = .ok (.bool (c.holds (a.order b))) := by
  simp only [apply, Value.compare?_eq_order h]

theorem Value.order_eq_iff {a b : Value} : a.order b = .eq ↔ a = b := by
  cases a <;> cases b <;>
    simp [order, compareLex, compareOn, number?, bool?, string?, Text.bytes_inj]

namespace SortKey

variable {order : List SortKey} {k : SortKey} {r r' : Row} {as bs : List Value}

/-- The value of a sort key on a row that it has a value on. -/
def value (k : SortKey) (r : Row) : Value := (k.expr.eval r).toOption.getD (.bool false)

def compareRows (k : SortKey) (r r' : Row) : Ordering :=
  if k.descending then (k.value r').order (k.value r) else (k.value r).order (k.value r')

instance (k : SortKey) : Std.TransCmp k.compareRows where
  eq_swap := by
    unfold compareRows
    split <;> exact Std.OrientedCmp.eq_swap
  isLE_trans hab hbc := by
    unfold compareRows at hab hbc ⊢
    split_ifs at hab hbc ⊢
    · exact Std.TransCmp.isLE_trans hbc hab
    · exact Std.TransCmp.isLE_trans hab hbc

theorem compareRows_eq_iff : k.compareRows r r' = .eq ↔ k.value r = k.value r' := by
  unfold compareRows
  split
  · rw [Value.order_eq_iff, eq_comm]
  · exact Value.order_eq_iff

theorem exists_compare?_value (h : (k.value r).kind = (k.value r').kind) :
    ∃ o, (k.value r).compare? (k.value r') = some o ∧
      (if k.descending then o.swap else o) = k.compareRows r r' := by
  refine ⟨_, Value.compare?_eq_order h, ?_⟩
  unfold compareRows
  rw [← Std.OrientedCmp.eq_swap]

end SortKey

/-! ### Rows -/

/-- The order of two rows under sort keys. The first key under which they differ decides. -/
def Row.compareBy : List SortKey → Row → Row → Ordering
  | [] => fun _ _ => .eq
  | k :: order => compareLex k.compareRows (Row.compareBy order)

/-- Every sort key has a value on the row. -/
def Row.Keyed (order : List SortKey) (r : Row) : Prop := ∀ k ∈ order, ∃ v, k.expr.eval r = .ok v

section Rows

variable {s : Schema} {order : List SortKey} {r r' : Row} {rows rows' : List Row}
  {as bs : List Value}

instance (order : List SortKey) : Std.TransCmp (Row.compareBy order) := by
  induction order with
  | nil => exact { eq_swap := rfl, isLE_trans := fun _ _ => rfl }
  | cons k order ih =>
    exact inferInstanceAs (Std.TransCmp (compareLex k.compareRows (Row.compareBy order)))

theorem Row.compareBy_eq_iff :
    Row.compareBy order r r' = .eq ↔ order.map (·.value r) = order.map (·.value r') := by
  induction order with
  | nil => simp [compareBy]
  | cons k order ih =>
    simp [compareBy, compareLex, Ordering.then_eq_eq, SortKey.compareRows_eq_iff, ih]

theorem Row.Keyed.values_eq (h : r.Keyed order) :
    SortKey.values order r = .ok (order.map (·.value r)) := by
  refine mapM_eq_ok_map fun k hk => ?_
  obtain ⟨v, hv⟩ := h k hk
  simp [SortKey.value, hv, Except.toOption]

theorem Row.keyed_of_values (h : SortKey.values order r = .ok as) : r.Keyed order := by
  intro k hk
  obtain ⟨v, -, hv⟩ := exists_of_forall₂_of_mem (mapM_eq_ok_iff.mp h).flip hk
  exact ⟨v, hv⟩

theorem SortKey.values_eq_ok_iff :
    SortKey.values order r = .ok as ↔ r.Keyed order ∧ order.map (·.value r) = as := by
  constructor
  · intro h
    have hkeyed := Row.keyed_of_values h
    exact ⟨hkeyed, Except.ok.inj (hkeyed.values_eq.symm.trans h)⟩
  · rintro ⟨hkeyed, rfl⟩
    exact hkeyed.values_eq

instance (order : List SortKey) (r : Row) : Decidable (r.Keyed order) :=
  decidable_of_iff ((SortKey.values order r).isOk = true) <| by
    cases hvalues : SortKey.values order r with
    | ok as => simpa [Except.isOk, Except.toBool] using Row.keyed_of_values hvalues
    | error e =>
      simp only [Except.isOk, Except.toBool, Bool.false_eq_true, false_iff]
      intro hkeyed
      rw [hkeyed.values_eq] at hvalues
      cases hvalues

/-- A comparison of two lists of values, one value for each sort key, that fails at the first values
that do not compare. -/
def SortKey.tryCompare : List SortKey → List Value → List Value → Except Error Ordering
  | k :: order, a :: as, b :: bs => do
    let o ← a.compare b
    let o := if k.descending then o.swap else o
    if o = .eq then tryCompare order as bs else return o
  | _, _, _ => .ok .eq

theorem SortKey.tryCompare_eq (h : ∀ k ∈ order, (k.value r).kind = (k.value r').kind) :
    tryCompare order (order.map (·.value r)) (order.map (·.value r')) =
      .ok (Row.compareBy order r r') := by
  induction order with
  | nil => rfl
  | cons k order ih =>
    rw [List.forall_mem_cons] at h
    obtain ⟨o, ho, hrows⟩ := exists_compare?_value h.1
    rw [List.map_cons, List.map_cons, tryCompare, Value.compare, ho]
    show (if (if k.descending then o.swap else o) = .eq then _ else _) = _
    rw [hrows, ih h.2, Row.compareBy, compareLex]
    cases k.compareRows r r' <;> rfl

theorem SortKey.compareAll_eq (h : ∀ k ∈ order, (k.value r).kind = (k.value r').kind) :
    compareAll order (order.map (·.value r)) (order.map (·.value r')) =
      Row.compareBy order r r' := by
  induction order with
  | nil => rfl
  | cons k order ih =>
    rw [List.forall_mem_cons] at h
    obtain ⟨o, ho, hrows⟩ := exists_compare?_value h.1
    simp [compareAll, compare, ho, hrows, ih h.2, Row.compareBy, compareLex]

theorem Row.Keyed.kind?_eq (h : r.Keyed order) (hr : r.Fits s) {k : SortKey} (hk : k ∈ order) :
    k.expr.kind? s = some (k.value r).kind := by
  obtain ⟨v, hv⟩ := h k hk
  rw [Expr.kind?_of_eval hr hv, SortKey.value, hv]
  rfl

theorem Row.Keyed.kind_eq (h : r.Keyed order) (h' : r'.Keyed order) (hr : r.Fits s)
    (hr' : r'.Fits s) : ∀ k ∈ order, (k.value r).kind = (k.value r').kind := fun _ hk =>
  Option.some.inj ((h.kind?_eq hr hk).symm.trans (h'.kind?_eq hr' hk))

theorem SortKey.checkAgree_eq_ok
    (h : ∀ r ∈ rows, ∀ r' ∈ rows, ∀ k ∈ order, (k.value r).kind = (k.value r').kind) :
    checkAgree (rows.map fun r => order.map (·.value r)) = .ok () := by
  cases rows with
  | nil => rfl
  | cons first rest =>
    rw [List.map_cons, checkAgree, forM_eq_ok_iff, List.forall_mem_map]
    intro r hr
    rw [forM_eq_ok_iff, List.zip_map', List.forall_mem_map]
    intro k hk
    obtain ⟨o, ho, -⟩ := exists_compare?_value (h first (by simp) r (by simp [hr]) k hk)
    show discard ((k.value first).compare (k.value r)) = _
    rw [Value.compare, ho]
    rfl

/-- Rows on which every sort key has values of one kind are put in the order of the keys. -/
theorem Row.sorted_eq_of_kinds (hkeyed : ∀ r ∈ rows, r.Keyed order)
    (hkinds : ∀ r ∈ rows, ∀ r' ∈ rows, ∀ k ∈ order, (k.value r).kind = (k.value r').kind) :
    Row.sorted order rows = .ok (rows.mergeSort fun r r' => (Row.compareBy order r r').isLE) := by
  let keyed (r : Row) : List Value × Row := (order.map (·.value r), r)
  have hmap : rows.mapM (fun r => return (← SortKey.values order r, r)) =
      (.ok (rows.map keyed) : Except Error _) := by
    refine mapM_eq_ok_map fun r hr => ?_
    rw [(hkeyed r hr).values_eq]
    rfl
  have hagree : SortKey.checkAgree ((rows.map keyed).map (·.1)) = .ok () := by
    rw [List.map_map]
    exact SortKey.checkAgree_eq_ok hkinds
  have hsort : ((rows.map keyed).mergeSort fun a b =>
      (SortKey.compareAll order a.1 b.1).isLE).map (·.2) =
        rows.mergeSort fun r r' => (Row.compareBy order r r').isLE := by
    rw [← List.map_mergeSort fun r hr r' hr' => by rw [SortKey.compareAll_eq (hkinds r hr r' hr')],
      List.map_map]
    exact List.map_id _
  unfold Row.sorted
  rw [hmap]
  show (SortKey.checkAgree ((rows.map keyed).map (·.1)) >>= _) = _
  rw [hagree, ← hsort]
  rfl

/-- Rows of a schema that every sort key has a value on are put in the order of the keys. -/
theorem Row.sorted_eq (hrows : ∀ r ∈ rows, r.Fits s) (hkeyed : ∀ r ∈ rows, r.Keyed order) :
    Row.sorted order rows = .ok (rows.mergeSort fun r r' => (Row.compareBy order r r').isLE) := by
  -- the schema gives each key one kind, so no two values of a key fail to compare
  refine Row.sorted_eq_of_kinds hkeyed fun r hr r' hr' => ?_
  exact (hkeyed r hr).kind_eq (hkeyed r' hr') (hrows r hr) (hrows r' hr')

/-- Where some sort key has no value on some row, sorting fails as the first such key does on the
first such row. -/
theorem Row.sorted_eq_error (h : ¬∀ r ∈ rows, r.Keyed order) : ∃ e before r after,
    Row.sorted order rows = .error e ∧ rows = before ++ r :: after ∧
      (∀ p ∈ before, p.Keyed order) ∧ FirstFailure (fun k => k.expr.eval r) order e := by
  have hok {r : Row} {p : List Value × Row}
      (hp : (do return (← SortKey.values order r, r)) = (.ok p : Except Error _)) :
      r.Keyed order := by
    obtain ⟨as, has, -⟩ := bind_eq_ok_iff.mp hp
    exact Row.keyed_of_values has
  cases hmap : rows.mapM fun r => (do return (← SortKey.values order r, r) : Except Error _) with
  | ok keyed =>
    refine absurd (fun r hr => ?_) h
    obtain ⟨p, -, hp⟩ := exists_of_forall₂_of_mem (mapM_eq_ok_iff.mp hmap).flip hr
    exact hok hp
  | error e =>
    obtain ⟨before, r, after, hsplit, hbefore, hr⟩ := mapM_eq_error hmap
    refine ⟨e, before, r, after, ?_, hsplit, ?_, ?_⟩
    · unfold Row.sorted
      rw [hmap]
      rfl
    · intro p hp
      obtain ⟨keyed, hkeyed⟩ := hbefore p hp
      exact hok hkeyed
    · obtain hvalues | ⟨as, -, hpure⟩ := bind_eq_error_iff.mp hr
      · exact mapM_eq_error hvalues
      · cases hpure

/-- Sorting does not depend on the order of rows of which no two agree on all sort keys. -/
theorem Row.sorted_eq_of_perm (hperm : rows.Perm rows') (hrows : ∀ r ∈ rows, r.Fits s)
    (hkeyed : ∀ r ∈ rows, r.Keyed order)
    (hinj : ∀ r ∈ rows, ∀ r' ∈ rows, order.map (·.value r) = order.map (·.value r') → r = r') :
    Row.sorted order rows = Row.sorted order rows' := by
  have hmem : ∀ {r}, r ∈ rows' → r ∈ rows := hperm.mem_iff.mpr
  rw [sorted_eq hrows hkeyed, sorted_eq (fun r hr => hrows r (hmem hr)) fun r hr =>
    hkeyed r (hmem hr)]
  refine congrArg Except.ok (mergeSort_eq_of_perm hperm fun r hr r' hr' heq => ?_)
  exact hinj r hr r' hr' (compareBy_eq_iff.mp heq)

/-- The rows of the second list are those of the first in the order of the sort keys, and rows that
have equal values of all keys stay in the order that they have in the first. -/
structure SortKey.Arranges (order : List SortKey) (rows sorted : List Row) : Prop where
  perm : sorted.Perm rows
  ordered : sorted.Pairwise fun r r' => ∃ as bs o, SortKey.values order r = .ok as ∧
    SortKey.values order r' = .ok bs ∧ SortKey.tryCompare order as bs = .ok o ∧ o ≠ .gt
  stable : ∀ as, sorted.filter (SortKey.values order · = .ok as) =
    rows.filter (SortKey.values order · = .ok as)

theorem SortKey.tryCompare_eq_compareBy (hr : r.Fits s) (hr' : r'.Fits s)
    (has : SortKey.values order r = .ok as) (hbs : SortKey.values order r' = .ok bs) :
    SortKey.tryCompare order as bs = .ok (Row.compareBy order r r') := by
  obtain ⟨hkeyed, rfl⟩ := SortKey.values_eq_ok_iff.mp has
  obtain ⟨hkeyed', rfl⟩ := SortKey.values_eq_ok_iff.mp hbs
  exact tryCompare_eq (hkeyed.kind_eq hkeyed' hr hr')

theorem SortKey.arranges_sorted {sorted : List Row} (hrows : ∀ r ∈ rows, r.Fits s)
    (hkeyed : ∀ r ∈ rows, r.Keyed order) (h : Row.sorted order rows = .ok sorted) :
    SortKey.Arranges order rows sorted := by
  obtain rfl := Except.ok.inj ((Row.sorted_eq hrows hkeyed).symm.trans h)
  refine ⟨List.mergeSort_perm .., ?_, fun as => filter_mergeSort ?_ rows⟩
  · refine (pairwise_mergeSort rows).imp_of_mem fun {r r'} hr hr' hle => ?_
    have hr := List.mem_mergeSort.mp hr
    have hr' := List.mem_mergeSort.mp hr'
    refine ⟨_, _, Row.compareBy order r r', (hkeyed r hr).values_eq, (hkeyed r' hr').values_eq,
      tryCompare_eq_compareBy (hrows r hr) (hrows r' hr') (hkeyed r hr).values_eq
        (hkeyed r' hr').values_eq, ?_⟩
    intro hgt
    rw [hgt] at hle
    cases hle
  · intro r r' hr hr'
    obtain ⟨-, has⟩ := values_eq_ok_iff.mp (of_decide_eq_true hr)
    obtain ⟨-, has'⟩ := values_eq_ok_iff.mp (of_decide_eq_true hr')
    exact Row.compareBy_eq_iff.mpr (has.trans has'.symm)

end Rows

end Tabular
