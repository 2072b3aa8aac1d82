import Mathlib.Data.List.Duplicate
import Mathlib.Data.List.Induction
import Tabular.Proofs.Building

/-! Replacing rows at any positions. A list of updates may name a position twice or name one that
the table does not have, and its rows may be of any width. What it does is decided by the rows that
it lists, then by the table as it would be afterwards, and then by its positions. -/

namespace Tabular

/-- A column refuses strings that are too long for it and values of other kinds than its own. -/
inductive Column.Refuses (c : Column) : Value → Error → Prop
  | length {s : String} {max : Nat} (htype : c.type = .varchar max) (hlong : max < s.length) :
      Refuses c (.string s) (.valueTooLong c.name s.length max)
  | kind {v : Value} (hkind : v.kind ≠ c.type.kind) :
      Refuses c v (.typeMismatch (.column c.name c.type v))

/-- A schema refuses a row for its width, or else for its first value that the column does not
admit. -/
inductive Schema.Refuses (s : Schema) (values : List Value) : Error → Prop
  | width (hwidth : values.length ≠ s.length) :
      Refuses s values (.valueCount s.length values.length)
  | value {k : Nat} {c : Column} {v : Value} {e : Error} (hwidth : values.length = s.length)
      (hbefore : ∀ j < k, ∀ c' v', s.columns[j]? = some c' → values[j]? = some v' →
        c'.type.admits v' = true)
      (hcolumn : s.columns[k]? = some c) (hvalue : values[k]? = some v)
      (hrefuses : c.Refuses v e) : Refuses s values e

theorem Column.refuses_of_check {c : Column} {v : Value} {e : Error} (h : c.check v = .error e) :
    c.Refuses v e := by
  unfold check at h
  split at h
  · cases h
  · next hadmits =>
    split at h
    · next max s htype =>
      cases h
      refine .length htype ?_
      simpa [htype, ColumnType.admits] using hadmits
    · next v _ _ hother =>
      cases h
      refine .kind fun hkind => ?_
      cases htype : c.type <;> cases v <;> simp_all [ColumnType.admits, ColumnType.kind, Value.kind]

theorem Schema.exists_refuses_of_checkValues {columns : List Column} {values : List Value}
    {e : Error} (h : checkValues columns values = .error e) :
    ∃ (k : Nat) (c : Column) (v : Value), columns[k]? = some c ∧ values[k]? = some v ∧
      c.Refuses v e ∧ ∀ j < k, ∀ c' v', columns[j]? = some c' → values[j]? = some v' →
        c'.type.admits v' = true := by
  induction columns generalizing values with
  | nil => cases h
  | cons c columns ih =>
    cases values with
    | nil => cases h
    | cons v values =>
      obtain hc | ⟨⟨⟩, hc, hrest⟩ := bind_eq_error_iff.mp h
      · exact ⟨0, c, v, rfl, rfl, Column.refuses_of_check hc, nofun⟩
      · obtain ⟨k, c', v', hc', hv', hrefuses, hbefore⟩ := ih hrest
        refine ⟨k + 1, c', v', hc', hv', hrefuses, fun j hj d w hd hw => ?_⟩
        cases j with
        | zero =>
          obtain rfl : c = d := by simpa using hd
          obtain rfl : v = w := by simpa using hw
          exact Column.check_eq_ok_iff.mp hc
        | succ j => exact hbefore j (by omega) d w hd hw

theorem Schema.refuses_of_checkRow {s : Schema} {values : List Value} {e : Error}
    (h : s.checkRow values = .error e) : s.Refuses values e := by
  unfold checkRow at h
  by_cases hwidth : values.length = s.length
  · rw [if_neg (not_not.mpr hwidth)] at h
    obtain ⟨k, c, v, hc, hv, hrefuses, hbefore⟩ := exists_refuses_of_checkValues h
    exact .value hwidth hbefore hc hv hrefuses
  · rw [if_pos hwidth] at h
    cases h
    exact .width hwidth

namespace Table

/-- The first row of a list that the schema refuses decides the error. -/
theorem exists_refuses_of_checkRows {s : Schema} {updates : List (Nat × List Value)} {e : Error}
    (h : checkRows s updates = .error e) :
    ∃ before u rest, updates = before ++ u :: rest ∧ (∀ w ∈ before, s.Admits w.2) ∧
      s.Refuses u.2 e := by
  obtain ⟨before, u, rest, hsplit, hbefore, hu⟩ := forM_eq_error h
  refine ⟨before, u, rest, hsplit, fun w hw => ?_, Schema.refuses_of_checkRow hu⟩
  obtain ⟨⟨⟩, hok⟩ := hbefore w hw
  exact Schema.checkRow_eq_ok_iff.mp hok

/-! ### Repeated values -/

theorem duplicate_of_firstRepeated? {earlier values : List Value} {v : Value}
    (h : firstRepeated? earlier values = some v) :
    v ∈ earlier ∧ v ∈ values ∨ List.Duplicate v values := by
  induction values generalizing earlier with
  | nil => cases h
  | cons w rest ih =>
    rw [firstRepeated?] at h
    split at h
    · next hw =>
      cases h
      exact .inl ⟨hw, List.mem_cons_self⟩
    · obtain ⟨hv, hrest⟩ | hdup := ih h
      · obtain rfl | hearlier := List.mem_cons.mp hv
        · exact .inr hrest.duplicate_cons_self
        · exact .inl ⟨hearlier, List.mem_cons_of_mem w hrest⟩
      · exact .inr (hdup.duplicate_cons w)

/-- The column at a place has a value twice, and no unique column before it has one twice. Here
`values` gives the values of the column at each place. -/
structure FirstTwice (columns : List Column) (values : Nat → List Value) (k : Nat) (c : Column)
    (v : Value) : Prop where
  column : columns[k]? = some c
  twice : List.Duplicate v (values k)
  before : ∀ j < k, ∀ c', columns[j]? = some c' → c'.isUnique = true → (values j).Nodup

theorem FirstTwice.here {c : Column} {columns : List Column} {values : Nat → List Value} {v : Value}
    (h : List.Duplicate v (values 0)) : FirstTwice (c :: columns) values 0 c v :=
  ⟨rfl, h, fun j hj => absurd hj (Nat.not_lt_zero j)⟩

theorem FirstTwice.later {c c' : Column} {columns : List Column} {values : Nat → List Value}
    {k : Nat} {v : Value} (hc : c.isUnique = true → (values 0).Nodup)
    (h : FirstTwice columns (fun j => values (j + 1)) k c' v) :
    FirstTwice (c :: columns) values (k + 1) c' v := by
  refine ⟨h.column, h.twice, fun j hj d hd hu => ?_⟩
  cases j with
  | zero =>
    obtain rfl : c = d := by simpa using hd
    exact hc hu
  | succ j => exact h.before j (Nat.lt_of_succ_lt_succ hj) d hd hu

/-- When the check of unique columns fails, it does so for the first that has a value twice. -/
theorem exists_firstTwice_of_checkAfter {n k : Nat} {updates : List (Nat × List Value)}
    {columns : List Column} {stores : List Store} {values : Nat → List Value} {e : Error}
    (hlen : columns.length = stores.length)
    (hcol : ∀ j s, stores[j]? = some s → columnAfter n (k + j) s updates = .ok (values j))
    (he : checkAfter n updates k columns stores = .error (.error e)) :
    ∃ j c rule v, FirstTwice columns values j c v ∧ c.uniqueness = some rule ∧
      e = .notUnique c.name rule v := by
  induction columns generalizing k stores values with
  | nil => cases he
  | cons c columns ih =>
    obtain ⟨s, stores, rfl⟩ := List.exists_cons_of_length_eq_add_one hlen.symm
    have hnext (hfirst : c.isUnique = true → (values 0).Nodup)
        (hrest : checkAfter n updates (k + 1) columns stores = .error (.error e)) :
        ∃ j c' rule v, FirstTwice (c :: columns) values j c' v ∧ c'.uniqueness = some rule ∧
          e = .notUnique c'.name rule v := by
      have htail : ∀ j s', stores[j]? = some s' →
          columnAfter n (k + 1 + j) s' updates = .ok (values (j + 1)) := fun j s' hs' => by
        rw [Nat.add_assoc, Nat.add_comm 1]
        exact hcol (j + 1) s' hs'
      obtain ⟨j, c', rule, v, htwice, hrule, heq⟩ := ih (by simpa using hlen) htail hrest
      exact ⟨j + 1, c', rule, v, htwice.later hfirst, hrule, heq⟩
    cases hu : c.uniqueness with
    | none =>
      rw [checkAfter, hu] at he
      exact hnext (fun hunique => by simp [Column.isUnique, hu] at hunique) he
    | some rule =>
      have hhead : columnAfter n k s updates = .ok (values 0) := hcol 0 s rfl
      rw [checkAfter_cons hu hhead] at he
      cases hr : firstRepeated? [] (values 0) with
      | none =>
        rw [hr] at he
        exact hnext (fun _ => (firstRepeated?_eq_none_iff.mp hr).1) he
      | some v =>
        rw [hr] at he
        cases he
        obtain ⟨hnil, -⟩ | hdup := duplicate_of_firstRepeated? hr
        · cases hnil
        · exact ⟨0, c, rule, v, .here hdup, hu, rfl⟩

/-! ### Updates -/

/-- The last row that updates list for a position. -/
def lastListed? (updates : List (Nat × List Value)) (i : Nat) : Option (List Value) :=
  (updates.filter (·.1 == i)).getLast?.map (·.2)

/-- The values of each row once the last row that updates list for its position is there. -/
def settled (updates : List (Nat × List Value)) (rows : List Row) : List (List Value) :=
  rows.mapIdx fun i r => (lastListed? updates i).getD r.values

/-- Two of the rows have the same value in a unique column. -/
structure Clashes (s : Schema) (rows : List (List Value)) (k : Nat) (c : Column) (v : Value) :
    Prop where
  column : s.columns[k]? = some c
  unique : c.isUnique = true
  twice : List.Duplicate v (rows.filterMap (·[k]?))

theorem updateFor?_eq_lastListed? (updates : List (Nat × List Value)) (i : Nat) :
    updateFor? updates i = lastListed? updates i := by
  unfold updateFor? lastListed?
  induction updates using List.reverseRecOn with
  | nil => rfl
  | append_singleton updates u ih =>
    rw [List.reverse_append, List.reverse_singleton, List.singleton_append, List.lookup_cons,
      List.filter_append, ih]
    by_cases hu : u.1 = i
    · simp [hu]
    · have hne : (i == u.1) = false := by simpa using Ne.symm hu
      simp [hu, hne]

theorem WellFormed.settled_contents {t : Table} (h : t.WellFormed)
    (updates : List (Nat × List Value)) :
    settled updates t.contents = (List.range t.rowCount).map (rowAfter t.stores updates) := by
  refine List.ext_getElem (by simp [settled, contents]) fun i hi hi' => ?_
  have hlt : i < t.rowCount := by simpa using hi'
  simp [settled, contents, rowAfter, updateFor?_eq_lastListed?, h.values_row hlt]

/-- Updates that columns admit are accepted unless two of the settled rows clash. -/
theorem WellFormed.accepts_iff {t : Table} (h : t.WellFormed) {updates : List (Nat × List Value)}
    (hadmits : ∀ u ∈ updates, t.schema.Admits u.2) : t.Accepts updates ↔
      ∀ k c v, ¬Clashes t.schema (settled updates t.contents) k c v := by
  have hcolumn (k : Nat) : (settled updates t.contents).filterMap (·[k]?) =
      (List.range t.rowCount).filterMap fun i => (rowAfter t.stores updates i)[k]? := by
    rw [h.settled_contents, List.filterMap_map]
    rfl
  constructor
  · rintro ⟨-, hdistinct⟩ k c v ⟨hc, hu, htwice⟩
    rw [hcolumn] at htwice
    exact htwice.not_nodup (hdistinct k c hc hu)
  · intro hnone
    refine ⟨hadmits, fun k c hc hu => ?_⟩
    rw [← hcolumn, List.nodup_iff_forall_not_duplicate]
    exact fun v htwice => hnone k c v ⟨hc, hu, htwice⟩

/-- What a run of updates does to a table that has these rows. Whatever they list, one of the four
cases is theirs, in this order. -/
structure Settles (t : Table) (updates : List (Nat × List Value)) (rows : List Row)
    (run : Except (Failure Error) Nat × Table) : Prop where
  /-- The first listed row that the schema refuses decides the error. -/
  refused : (∃ u ∈ updates, ¬t.schema.Admits u.2) →
    ∃ before u rest e, updates = before ++ u :: rest ∧ (∀ w ∈ before, t.schema.Admits w.2) ∧
      t.schema.Refuses u.2 e ∧ run = (.error (.error e), t)
  /-- The first unique column that has a value twice among the settled rows decides the error. -/
  repeated : (∀ u ∈ updates, t.schema.Admits u.2) →
    (∃ k c v, Clashes t.schema (settled updates rows) k c v) →
    ∃ k c rule v, Clashes t.schema (settled updates rows) k c v ∧
      (∀ j < k, ∀ c' v', ¬Clashes t.schema (settled updates rows) j c' v') ∧
        c.uniqueness = some rule ∧ run = (.error (.error (.notUnique c.name rule v)), t)
  /-- A position past the end is a fault where there is a column to write. -/
  outside : (∀ u ∈ updates, t.schema.Admits u.2) →
    (∀ k c v, ¬Clashes t.schema (settled updates rows) k c v) → t.schema.columns ≠ [] →
    (∃ u ∈ updates, t.rowCount ≤ u.1) → run.1 = .error (.fault .outOfRange)
  /-- Otherwise the settled rows are the rows of the table afterwards. -/
  replaced : (∀ u ∈ updates, t.schema.Admits u.2) →
    (∀ k c v, ¬Clashes t.schema (settled updates rows) k c v) →
    t.schema.columns = [] ∨ (∀ u ∈ updates, u.1 < t.rowCount) →
    ∃ after, run = (.ok updates.length, after) ∧ after.name = t.name ∧ after.schema = t.schema ∧
      after.rowCount = t.rowCount ∧
        after.rows = .ok ((settled updates rows).map fun values => ⟨t.schema.names.zip values⟩)

section Settles

variable {t : Table} {updates : List (Nat × List Value)}

/-- Updates that list a row that the schema refuses. -/
theorem settles_of_checkRows {e : Error} (he : checkRows t.schema updates = .error e) :
    t.Settles updates t.contents ((Edit.update updates).run.run t) := by
  have hrun : (Edit.update updates).run.run t = (.error (.error e), t) := by
    unfold Edit.update
    rw [run_bind_ok (run_get t), he]
    exact run_bind_error (run_lift_error _ t)
  obtain ⟨before, u, rest, hsplit, hbefore, hu⟩ := exists_refuses_of_checkRows he
  have hnot : ¬∀ u ∈ updates, t.schema.Admits u.2 := fun hadmits => by
    rw [checkRows_eq_ok_iff.mpr hadmits] at he
    cases he
  refine ⟨fun _ => ⟨before, u, rest, e, hsplit, hbefore, hu, hrun⟩, ?_, ?_, ?_⟩
  all_goals exact fun hadmits => absurd hadmits hnot

/-- Updates that columns admit and that make rows clash. -/
theorem WellFormed.settles_of_checkAfter (h : t.WellFormed)
    (hadmits : ∀ u ∈ updates, t.schema.Admits u.2) {e : Failure Error}
    (he : checkAfter t.rowCount updates 0 t.schema.columns t.stores = .error e) :
    t.Settles updates t.contents ((Edit.update updates).run.run t) := by
  have hrun : (Edit.update updates).run.run t = (.error e, t) := by
    unfold Edit.update
    rw [run_bind_ok (run_get t), checkRows_eq_ok_iff.mpr hadmits,
      run_bind_ok (run_lift_error _ t), he]
    exact run_bind_error (run_lift _ t)
  obtain ⟨hfault, hok⟩ := h.checkAfter_spec hadmits
  have hclash : ¬∀ k c v, ¬Clashes t.schema (settled updates t.contents) k c v := by
    rw [← h.accepts_iff hadmits, ← hok, he]
    nofun
  have hcol : ∀ k s, t.stores[k]? = some s → columnAfter t.rowCount (0 + k) s updates =
      .ok ((settled updates t.contents).filterMap (·[k]?)) := by
    intro k s hs
    rw [Nat.zero_add, columnAfter_eq h.fits (fun u hu => (hadmits u hu).length_eq.symm) hs,
      h.settled_contents, List.filterMap_map]
    rfl
  obtain ⟨⟨⟩, hu⟩ | ⟨cause, hcause⟩ := hfault.cases
  · rw [he] at hu
    cases hu
  obtain rfl : e = .error cause := Except.error.inj (he.symm.trans hcause)
  obtain ⟨k, c, rule, v, hfirst, hrule, rfl⟩ :=
    exists_firstTwice_of_checkAfter h.fits.length_eq hcol he
  refine ⟨fun ⟨u, hu, hnot⟩ => absurd (hadmits u hu) hnot, fun _ _ => ⟨k, c, rule, v, ?_⟩,
    fun _ hnone => absurd hnone hclash, fun _ hnone => absurd hnone hclash⟩
  refine ⟨⟨hfirst.column, Option.isSome_of_mem hrule, hfirst.twice⟩, fun j hj c' v' hclash' => ?_,
    hrule, hrun⟩
  exact hclash'.twice.not_nodup (hfirst.before j hj c' hclash'.column hclash'.unique)

/-- Updates that are accepted write their rows as far as the table reaches. -/
theorem WellFormed.settles_of_accepts (h : t.WellFormed) (ha : t.Accepts updates) :
    t.Settles updates t.contents ((Edit.update updates).run.run t) := by
  have hnone := (h.accepts_iff ha.admits).mp ha
  constructor
  · rintro ⟨u, hu, hnot⟩
    exact absurd (ha.admits u hu) hnot
  · rintro - ⟨k, c, v, hclash⟩
    exact absurd hclash (hnone k c v)
  · rintro - - hne ⟨u, hu, hpast⟩
    have hpos : ¬t.Reaches updates := not_or.mpr ⟨hne, fun hall => absurd (hall u hu) (by omega)⟩
    obtain ⟨after, hrun⟩ := Edit.run_update_outside h hpos ha
    rw [hrun]
  · intro _ _ hpos
    obtain ⟨stores, hrun, hwf, hacross⟩ := Edit.run_update h hpos ha
    refine ⟨_, hrun, rfl, rfl, rfl, hwf.rows_eq.trans (congrArg _ ?_)⟩
    rw [h.settled_contents, contents, List.map_map]
    refine List.map_congr_left fun i hi => ?_
    rw [row, hacross i (List.mem_range.mp hi)]
    rfl

theorem WellFormed.settles (h : t.WellFormed) (updates : List (Nat × List Value)) :
    t.Settles updates t.contents ((Edit.update updates).run.run t) := by
  cases hrows : checkRows t.schema updates with
  | error e => exact settles_of_checkRows hrows
  | ok _ =>
    have hadmits := checkRows_eq_ok_iff.mp hrows
    cases hafter : checkAfter t.rowCount updates 0 t.schema.columns t.stores with
    | error e => exact h.settles_of_checkAfter hadmits hafter
    | ok _ => exact h.settles_of_accepts ((h.checkAfter_spec hadmits).2.mp hafter)

end Settles

/-- Updates may list any rows at any positions. The first row that the schema refuses decides the
error, or else the first unique column in which a value would stand twice, and neither changes the
table. After that a position past the end is a fault, where there is a column to write. Otherwise
each row becomes the last one listed for it. -/
theorem Built.update_settles {t : Table} (h : t.Built) (updates : List (Nat × List Value)) :
    ∃ rows, t.rows = .ok rows ∧ t.Settles updates rows ((Edit.update updates).run.run t) :=
  ⟨t.contents, h.wellFormed.rows_eq, h.wellFormed.settles updates⟩

/-- Two users trade their numbers, and the first one is listed twice. -/
theorem update_settles_users :
    let updates : List (Nat × List Value) := [(0, [.number 9, .string "Zed"]),
      (1, [.number 3, .string "Bo"]), (2, [.number 2, .string "Eva"]),
      (0, [.number 1, .string "Amy"])]
    ∃ after, (Edit.update updates).run.run users = (.ok 4, after) ∧
      after.rows = .ok [⟨[("id", .number 1), ("name", .string "Amy")]⟩,
        ⟨[("id", .number 3), ("name", .string "Bo")]⟩,
        ⟨[("id", .number 2), ("name", .string "Eva")]⟩] := by
  intro updates
  obtain ⟨rows, hrows, hsettles⟩ := built_users.update_settles updates
  have hwf := built_users.wellFormed
  obtain rfl := hwf.contents_eq hrows
  have hadmits : ∀ u ∈ updates, users.schema.Admits u.2 := by decide +kernel
  have hnone : ∀ k c v, ¬Clashes users.schema (settled updates users.contents) k c v :=
    (hwf.accepts_iff hadmits).mp ((hwf.checkAfter_spec hadmits).2.mp (by decide +kernel))
  obtain ⟨after, hrun, -, -, -, hafter⟩ :=
    hsettles.replaced hadmits hnone (.inr (by decide +kernel))
  exact ⟨after, hrun, hafter.trans (by decide +kernel)⟩

end Table

end Tabular
