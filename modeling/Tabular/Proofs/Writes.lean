import Tabular.Proofs.WellFormed

/-! Writes to the stores of a table, one row at a time. A write across stores that fit their columns
succeeds when the columns admit the row's values, and afterwards the stores fit their columns again.
The checks of unique columns are read here as statements about the rows that a write leads to. -/

namespace Tabular

theorem Column.check_eq_ok_iff {c : Column} {v : Value} :
    c.check v = .ok () ↔ c.type.admits v = true := by
  unfold Column.check
  split
  · next h => simp [h]
  · next h => split <;> simp [h]

theorem Schema.checkValues_eq_ok_iff {columns : List Column} {values : List Value}
    (h : columns.length = values.length) : checkValues columns values = .ok () ↔
      List.Forall₂ (fun c v => c.type.admits v = true) columns values := by
  induction columns generalizing values with
  | nil =>
    obtain rfl : values = [] := List.length_eq_zero_iff.mp h.symm
    simp [checkValues]
  | cons c columns ih =>
    obtain ⟨v, rest, rfl⟩ := List.exists_cons_of_length_eq_add_one h.symm
    rw [checkValues, bind_eq_ok_iff, List.forall₂_cons, ← ih (by simpa using h),
      ← Column.check_eq_ok_iff]
    exact ⟨fun ⟨_, hc, hrest⟩ => ⟨hc, hrest⟩, fun ⟨hc, hrest⟩ => ⟨(), hc, hrest⟩⟩

/-- A row fits a schema when its columns admit the row's values, one each. -/
theorem Schema.checkRow_eq_ok_iff {s : Schema} {values : List Value} : s.checkRow values = .ok () ↔
    List.Forall₂ (fun c v => c.type.admits v = true) s.columns values := by
  unfold checkRow
  by_cases h : values.length = s.length
  · rw [← checkValues_eq_ok_iff h.symm]
    simp [h]
  · rw [if_pos h]
    constructor
    · nofun
    · intro hf
      exact absurd hf.length_eq.symm h

namespace Table

variable {n i : Nat} {columns : List Column} {stores stores' : List Store} {values : List Value}
  {write : Store → Value → Except Fault Store}

theorem writeAll_cons {s : Store} {v : Value} :
    writeAll write (s :: stores) (v :: values) = .ok stores' ↔
      ∃ s' rest, write s v = .ok s' ∧ writeAll write stores values = .ok rest ∧
        stores' = s' :: rest := by
  simp only [writeAll, bind_eq_ok_iff, pure, Except.pure, Except.ok.injEq, eq_comm (b := stores')]
  constructor
  · rintro ⟨s', hs, rest, hrest, h⟩
    exact ⟨s', rest, hs, hrest, h⟩
  · rintro ⟨s', rest, hs, hrest, h⟩
    exact ⟨s', hs, rest, hrest, h⟩

/-- A write succeeds across stores when it does on each of them. -/
theorem writeAll_ok {P R : Column → Store → Prop} {Q : Column → Value → Prop}
    (hs : List.Forall₂ P columns stores) (hv : List.Forall₂ Q columns values)
    (hw : ∀ c s v, P c s → Q c v → ∃ s', write s v = .ok s' ∧ R c s') :
    ∃ stores', writeAll write stores values = .ok stores' ∧ List.Forall₂ R columns stores' := by
  induction hs generalizing values with
  | nil => exact ⟨[], by simp [writeAll], .nil⟩
  | cons hp _ ih =>
    cases hv with
    | cons hq hrest =>
      obtain ⟨s', hs', hr⟩ := hw _ _ _ hp hq
      obtain ⟨stores', hstores, hrs⟩ := ih hrest
      exact ⟨s' :: stores', writeAll_cons.mpr ⟨s', stores', hs', hstores, rfl⟩, .cons hr hrs⟩

/-- A row that a write leaves alone in each store stays as it is. -/
theorem across_writeAll_same (h : writeAll write stores values = .ok stores')
    (hw : ∀ s ∈ stores, ∀ v s', write s v = .ok s' → s'.get? i = s.get? i) :
    Store.across stores' i = Store.across stores i := by
  induction stores generalizing values stores' with
  | nil =>
    obtain rfl : [] = stores' := by simpa [writeAll] using h
    rfl
  | cons s stores ih =>
    cases values with
    | nil =>
      obtain rfl : s :: stores = stores' := by simpa [writeAll] using h
      rfl
    | cons v values =>
      obtain ⟨s', rest, hs, hrest, rfl⟩ := writeAll_cons.mp h
      have htail := ih hrest fun s hs => hw s (by simp [hs])
      simp only [Store.across, List.filterMap_cons, hw s (by simp) v s' hs] at htail ⊢
      rw [htail]

theorem across_writeAll_new (h : writeAll write stores values = .ok stores')
    (hlen : stores.length = values.length)
    (hw : ∀ s ∈ stores, ∀ v s', write s v = .ok s' → s'.get? i = some v) :
    Store.across stores' i = values := by
  induction stores generalizing values stores' with
  | nil =>
    obtain rfl : values = [] := List.length_eq_zero_iff.mp hlen.symm
    obtain rfl : [] = stores' := by simpa [writeAll] using h
    rfl
  | cons s stores ih =>
    obtain ⟨v, values, rfl⟩ := List.exists_cons_of_length_eq_add_one hlen.symm
    obtain ⟨s', rest, hs, hrest, rfl⟩ := writeAll_cons.mp h
    have htail := ih hrest (by simpa using hlen) fun s hs => hw s (by simp [hs])
    simp only [Store.across, List.filterMap_cons, hw s (by simp) v s' hs] at htail ⊢
    rw [htail]

end Table

/-! ### Single stores -/

namespace Store

variable {n i : Nat} {c : Column} {s : Store} {v : Value} {positions : List Nat}

theorem push_ok (h : v.kind = s.kind) : ∃ s', s.push v = .ok s' := by
  unfold push
  split
  · exact ⟨_, rfl⟩
  · next hc => exact absurd h (Kind.cell?_eq_none_iff.mp hc)

theorem push_refused (h : v.kind ≠ s.kind) : s.push v = .error .wrongKind := by
  unfold push
  rw [Kind.cell?_eq_none_iff.mpr h]

theorem set_ok (h : v.kind = s.kind) (hi : i < s.size) : ∃ s', s.set i v = .ok s' := by
  unfold set
  split
  · exact ⟨_, if_pos hi⟩
  · next hc => exact absurd h (Kind.cell?_eq_none_iff.mp hc)

theorem set_outside (h : v.kind = s.kind) (hi : s.size ≤ i) : s.set i v = .error .outOfRange := by
  unfold set
  split
  · exact if_neg (Nat.not_lt.mpr hi)
  · next hc => exact absurd h (Kind.cell?_eq_none_iff.mp hc)

theorem set_refused (h : v.kind ≠ s.kind) : s.set i v = .error .wrongKind := by
  unfold set
  rw [Kind.cell?_eq_none_iff.mpr h]

theorem erase_ok (hi : i < s.size) : ∃ s', s.erase i = .ok s' := ⟨_, if_pos hi⟩

theorem erase_outside (hi : s.size ≤ i) : s.erase i = .error .outOfRange :=
  if_neg (Nat.not_lt.mpr hi)

theorem Fits.kind_of_admits (h : s.Fits n c) (hv : c.type.admits v = true) : v.kind = s.kind :=
  (ColumnType.kind_of_admits hv).trans h.kind.symm

theorem Fits.push (h : s.Fits n c) (hv : c.type.admits v = true) :
    ∃ s', s.push v = .ok s' ∧ s'.Fits (n + 1) c := by
  obtain ⟨s', hs⟩ := push_ok (h.kind_of_admits hv)
  obtain ⟨-, hname, hkind, hvalues⟩ := push_eq_ok_iff.mp hs
  refine ⟨s', hs, hname.trans h.name, hkind.trans h.kind, ?_, ?_⟩
  · rw [← length_values, hvalues, List.length_append, length_values, h.size]
    rfl
  · intro w hw
    rw [hvalues, List.mem_append, List.mem_singleton] at hw
    rcases hw with hw | rfl
    · exact h.admits w hw
    · exact hv

theorem Fits.set (h : s.Fits n c) (hi : i < n) (hv : c.type.admits v = true) :
    ∃ s', s.set i v = .ok s' ∧ s'.Fits n c := by
  obtain ⟨s', hs⟩ := set_ok (h.kind_of_admits hv) (h.size.symm ▸ hi)
  obtain ⟨-, -, hname, hkind, hvalues⟩ := set_eq_ok_iff.mp hs
  refine ⟨s', hs, hname.trans h.name, hkind.trans h.kind, ?_, ?_⟩
  · rw [← length_values, hvalues, List.length_set, length_values, h.size]
  · intro w hw
    rw [hvalues] at hw
    rcases List.mem_or_eq_of_mem_set hw with hw | rfl
    · exact h.admits w hw
    · exact hv

theorem foldl_eraseIdx_sublist {α : Type} (positions : List Nat) (xs : List α) :
    (positions.foldl List.eraseIdx xs).Sublist xs := by
  induction positions generalizing xs with
  | nil => exact .refl xs
  | cons i positions ih => exact (ih _).trans (List.eraseIdx_sublist ..)

/-- Positions from last to first, all of them within the store, can be removed. What is left are the
values after the removals one by one. -/
theorem remove_ok (hd : positions.Pairwise (· > ·)) (hlt : ∀ i ∈ positions, i < s.size) :
    ∃ s', s.remove positions = .ok s' ∧ s'.name = s.name ∧ s'.kind = s.kind ∧
      s'.size + positions.length = s.size ∧
      s'.values = positions.foldl List.eraseIdx s.values := by
  rw [remove, if_pos hd]
  induction positions generalizing s with
  | nil => exact ⟨s, rfl, rfl, rfl, rfl, rfl⟩
  | cons i rest ih =>
    obtain ⟨hi, hrest⟩ := List.pairwise_cons.mp hd
    have hlti : i < s.size := hlt i (by simp)
    obtain ⟨s₁, hs₁⟩ := erase_ok hlti
    obtain ⟨-, hname, hkind, hvalues⟩ := erase_eq_ok_iff.mp hs₁
    have hsize : s₁.size + 1 = s.size := by
      rw [← length_values, hvalues, List.length_eraseIdx_of_lt (by simpa using hlti), length_values]
      omega
    -- the positions still to remove come before the one removed, so none of them has moved
    have hlt₁ : ∀ j ∈ rest, j < s₁.size := fun j hj => by
      have := hi j hj
      omega
    obtain ⟨s', hs', hname', hkind', hsize', hvalues'⟩ := ih hrest hlt₁
    refine ⟨s', ?_, hname'.trans hname, hkind'.trans hkind, ?_, by rw [hvalues', hvalues]; rfl⟩
    · rw [List.foldlM_cons, hs₁]
      exact hs'
    · rw [List.length_cons]
      omega

theorem Fits.remove (h : s.Fits n c) (hd : positions.Pairwise (· > ·))
    (hlt : ∀ i ∈ positions, i < n) :
    ∃ s', s.remove positions = .ok s' ∧ s'.Fits (n - positions.length) c ∧
      s'.values.Sublist s.values := by
  obtain ⟨s', hs, hname, hkind, hsize, hvalues⟩ := remove_ok hd (h.size.symm ▸ hlt)
  have hsub : s'.values.Sublist s.values := hvalues ▸ foldl_eraseIdx_sublist ..
  refine ⟨s', hs, ⟨hname.trans h.name, hkind.trans h.kind, ?_, ?_⟩, hsub⟩
  · have := h.size
    omega
  · exact fun v hv => h.admits v (hsub.subset hv)

end Store

/-! ### Adding a row -/

namespace Table

variable {n i k : Nat} {columns : List Column} {stores stores' : List Store} {values : List Value}

theorem pushAll_ok (hs : List.Forall₂ (Store.Fits n) columns stores)
    (hv : List.Forall₂ (fun c v => c.type.admits v = true) columns values) :
    ∃ stores', writeAll Store.push stores values = .ok stores' ∧
      List.Forall₂ (Store.Fits (n + 1)) columns stores' :=
  writeAll_ok hs hv fun _ _ _ hfits hadmits => hfits.push hadmits

theorem across_pushAll_of_lt (hs : List.Forall₂ (Store.Fits n) columns stores)
    (h : writeAll Store.push stores values = .ok stores') (hi : i < n) :
    Store.across stores' i = Store.across stores i := by
  refine across_writeAll_same h fun s hmem v s' hpush => ?_
  obtain ⟨c, -, hfits⟩ := exists_of_forall₂_of_mem hs hmem
  obtain ⟨-, -, -, hvalues⟩ := Store.push_eq_ok_iff.mp hpush
  rw [Store.get?_eq, Store.get?_eq, hvalues, List.getElem?_append_left]
  rwa [Store.length_values, hfits.size]

theorem across_pushAll_last (hs : List.Forall₂ (Store.Fits n) columns stores)
    (h : writeAll Store.push stores values = .ok stores') (hlen : stores.length = values.length) :
    Store.across stores' n = values := by
  refine across_writeAll_new h hlen fun s hmem v s' hpush => ?_
  obtain ⟨c, -, hfits⟩ := exists_of_forall₂_of_mem hs hmem
  obtain ⟨-, -, -, hvalues⟩ := Store.push_eq_ok_iff.mp hpush
  rw [Store.get?_eq, hvalues, ← hfits.size, ← Store.length_values, List.getElem?_concat_length]

theorem checkNew_cons {c : Column} {s : Store} {v : Value} :
    checkNew (c :: columns) (s :: stores) (v :: values) = .ok () ↔
      (c.isUnique = true → v ∉ s.values) ∧ checkNew columns stores values = .ok () := by
  rw [checkNew, Column.isUnique]
  cases c.uniqueness with
  | none => simp
  | some rule =>
    by_cases hv : v ∈ s.values
    · simp [Store.contains_iff.mpr hv, hv]
    · simp [Store.contains_iff, hv]

/-- A new row whose unique values the check has not found in their columns keeps them distinct. -/
theorem distinct_pushAll (hd : List.Forall₂ Store.Distinct columns stores)
    (hc : checkNew columns stores values = .ok ())
    (h : writeAll Store.push stores values = .ok stores') (hlen : stores.length = values.length) :
    List.Forall₂ Store.Distinct columns stores' := by
  induction hd generalizing values stores' with
  | nil =>
    obtain rfl : [] = stores' := by simpa [writeAll] using h
    exact .nil
  | cons hs _ ih =>
    obtain ⟨v, values, rfl⟩ := List.exists_cons_of_length_eq_add_one hlen.symm
    obtain ⟨s', rest, hpush, hrest, rfl⟩ := writeAll_cons.mp h
    obtain ⟨hv, hc⟩ := checkNew_cons.mp hc
    refine .cons (fun hu => ?_) (ih hc hrest (by simpa using hlen))
    obtain ⟨-, -, -, hvalues⟩ := Store.push_eq_ok_iff.mp hpush
    rw [hvalues]
    refine List.nodup_append.mpr ⟨hs hu, by simp, ?_⟩
    intro a ha b hb hab
    obtain rfl : b = v := by simpa using hb
    exact hv hu (hab ▸ ha)

/-! ### Replacing rows -/

theorem setAll_ok (hs : List.Forall₂ (Store.Fits n) columns stores) (hi : columns = [] ∨ i < n)
    (hv : List.Forall₂ (fun c v => c.type.admits v = true) columns values) :
    ∃ stores', writeAll (·.set i ·) stores values = .ok stores' ∧
      List.Forall₂ (Store.Fits n) columns stores' := by
  obtain rfl | hi := hi
  · cases hs
    exact ⟨[], rfl, .nil⟩
  · exact writeAll_ok hs hv fun _ _ _ hfits hadmits => hfits.set hi hadmits

/-- The first store refuses a position past the end, before anything is written. -/
theorem setAll_outside (hs : List.Forall₂ (Store.Fits n) columns stores) (hne : columns ≠ [])
    (hi : n ≤ i) (hv : List.Forall₂ (fun c v => c.type.admits v = true) columns values) :
    writeAll (·.set i ·) stores values = .error .outOfRange := by
  cases hs with
  | nil => exact absurd rfl hne
  | cons hfits _ =>
    cases hv with
    | cons hadmits _ =>
      rw [writeAll, Store.set_outside (hfits.kind_of_admits hadmits) (hfits.size.symm ▸ hi)]
      rfl

theorem across_setAll (hs : List.Forall₂ (Store.Fits n) columns stores)
    (h : writeAll (·.set i ·) stores values = .ok stores') (hlen : stores.length = values.length)
    {j : Nat} (hj : j < n) :
    Store.across stores' j = if j = i then values else Store.across stores j := by
  split
  · next hji =>
    subst hji
    refine across_writeAll_new h hlen fun s hmem v s' hset => ?_
    obtain ⟨c, -, hfits⟩ := exists_of_forall₂_of_mem hs hmem
    obtain ⟨-, -, -, -, hvalues⟩ := Store.set_eq_ok_iff.mp hset
    rw [Store.get?_eq, hvalues, List.getElem?_set_self]
    rwa [Store.length_values, hfits.size]
  · next hji =>
    refine across_writeAll_same h fun s hmem v s' hset => ?_
    obtain ⟨-, -, -, -, hvalues⟩ := Store.set_eq_ok_iff.mp hset
    rw [Store.get?_eq, Store.get?_eq, hvalues, List.getElem?_set_ne (Ne.symm hji)]

/-- The row at a position after updates. -/
def rowAfter (stores : List Store) (updates : List (Nat × List Value)) (i : Nat) : List Value :=
  (updateFor? updates i).getD (Store.across stores i)

/-- After a first update the others start from the row that it writes. -/
theorem rowAfter_cons {updates : List (Nat × List Value)} {j : Nat}
    (h : Store.across stores' j = if j = i then values else Store.across stores j) :
    rowAfter stores ((i, values) :: updates) j = rowAfter stores' updates j := by
  simp only [rowAfter, updateFor?, List.reverse_cons, List.lookup_append, List.lookup_cons,
    List.lookup_nil, h]
  by_cases hji : j = i
  · subst hji
    cases updates.reverse.lookup j <;> simp
  · have : (j == i) = false := by simpa using hji
    cases updates.reverse.lookup j <;> simp [hji, this]

theorem mem_of_updateFor? {updates : List (Nat × List Value)}
    (h : updateFor? updates i = some values) : (i, values) ∈ updates :=
  List.mem_reverse.mp (mem_of_lookup h)

theorem firstRepeated?_eq_none_iff {earlier values : List Value} :
    firstRepeated? earlier values = none ↔ values.Nodup ∧ ∀ v ∈ values, v ∉ earlier := by
  induction values generalizing earlier with
  | nil => simp [firstRepeated?]
  | cons v rest ih =>
    rw [firstRepeated?]
    split
    · next h => simp [h]
    · next h =>
      rw [ih, List.nodup_cons]
      simp only [List.mem_cons, not_or, forall_eq_or_imp]
      constructor
      · rintro ⟨hrest, hnew⟩
        exact ⟨⟨fun hv => (hnew v hv).1 rfl, hrest⟩, h, fun w hw => (hnew w hw).2⟩
      · rintro ⟨⟨hv, hrest⟩, -, hnew⟩
        exact ⟨hrest, fun w hw => ⟨fun hwv => hv (hwv ▸ hw), hnew w hw⟩⟩

section Check

variable {updates : List (Nat × List Value)} {s : Store}

/-- The values of a column after updates whose rows are as wide as the table: those that the rows
have at its place. -/
theorem columnAfter_eq (hs : List.Forall₂ (Store.Fits n) columns stores)
    (hw : ∀ u ∈ updates, u.2.length = columns.length) (hk : stores[k]? = some s) :
    columnAfter n k s updates =
      .ok ((List.range n).filterMap fun i => (rowAfter stores updates i)[k]?) := by
  have hvalue : ∀ i ∈ List.range n,
      valueAfter k s updates i = .ok ((rowAfter stores updates i)[k]?) := by
    intro i hi
    unfold valueAfter rowAfter
    cases h : updateFor? updates i with
    | some values =>
      have hlt : k < values.length := by
        rw [hw _ (mem_of_updateFor? h), hs.length_eq]
        exact (List.getElem?_eq_some_iff.mp hk).1
      simp [List.getElem?_eq_getElem hlt]
    | none =>
      rw [Option.getD_none, Store.getElem?_across hs (List.mem_range.mp hi), hk, Option.bind_some]
  unfold columnAfter
  rw [mapM_eq_ok_map hvalue]
  simp [bind, Except.bind, pure, Except.pure, List.filterMap_map]

theorem checkAfter_cons {c : Column} {rule : Uniqueness} (hu : c.uniqueness = some rule)
    (hk : columnAfter n k s updates = .ok values) :
    checkAfter n updates k (c :: columns) (s :: stores) = match firstRepeated? [] values with
      | some v => .error (.error (.notUnique c.name rule v))
      | none => checkAfter n updates (k + 1) columns stores := by
  rw [checkAfter, hu, hk]
  rfl

/-- The check of unique columns does not fault, and it passes when none of them repeats a value
after the updates. Here `after` gives the values of each column then. -/
theorem checkAfter_spec (after : Nat → List Value) (hlen : columns.length = stores.length)
    (hcol : ∀ p ∈ stores.zipIdx k, columnAfter n p.2 p.1 updates = .ok (after p.2)) :
    NoFault (checkAfter n updates k columns stores) ∧
      (checkAfter n updates k columns stores = .ok () ↔
        ∀ p ∈ columns.zipIdx k, p.1.isUnique = true → (after p.2).Nodup) := by
  induction columns generalizing k stores with
  | nil => simp [checkAfter, NoFault]
  | cons c columns ih =>
    obtain ⟨s, stores, rfl⟩ := List.exists_cons_of_length_eq_add_one hlen.symm
    rw [List.zipIdx_cons, List.forall_mem_cons] at hcol ⊢
    obtain ⟨hhead, htail⟩ := hcol
    have ih := ih (by simpa using hlen) htail
    cases hu : c.uniqueness with
    | none => simpa [checkAfter, hu, Column.isUnique] using ih
    | some rule =>
      rw [checkAfter_cons hu hhead]
      cases hr : firstRepeated? [] (after k) with
      | none =>
        have hnodup : (after k).Nodup := (firstRepeated?_eq_none_iff.mp hr).1
        simpa [hnodup] using ih
      | some v =>
        have hrep : ¬(after k).Nodup := fun hnodup => by
          rw [firstRepeated?_eq_none_iff.mpr ⟨hnodup, by simp⟩] at hr
          cases hr
        exact ⟨.error _, by simp [hrep, hu, Column.isUnique]⟩

end Check

end Table

end Tabular
