import Tabular.Proofs.Assignments
import Tabular.Proofs.Edits
import Mathlib.Data.List.Nodup

/-! What an `UPDATE` statement makes of a table. `Update.replaced` is what it makes of a row, and
`Update.Accepted` says when it succeeds: both speak of the rows as they are before the statement,
and uniqueness is judged on the rows as they are after it. -/

namespace Tabular

variable {q : Update} {s : Schema} {t : Table} {r : Row} {rows : List Row}

/-- The value that an `UPDATE` statement gives to place `k` of a row that satisfies its condition,
where the row has `v`. -/
def Update.newValue (q : Update) (s : Schema) (r : Row) (k : Nat) (v : Value) : Value :=
  match q.assignments.find? (fun a => s.index? a.column == some k) with
  | some a => (a.value.eval r).toOption.getD v
  | none => v

/-- What an `UPDATE` statement makes of a row: each column that an assignment names has the value of
the assignment's expression on the row as it is. A row that does not satisfy the condition stays. -/
def Update.replaced (q : Update) (s : Schema) (r : Row) : Row :=
  if r.matches q.condition then ⟨r.names.zip (r.values.mapIdx (q.newValue s r))⟩ else r

theorem Update.values_replaced (q : Update) (s : Schema) (r : Row) : (q.replaced s r).values =
    if r.matches q.condition then r.values.mapIdx (q.newValue s r) else r.values := by
  unfold replaced
  split
  · exact List.map_snd_zip (by simp [Row.names, Row.values])
  · rfl

theorem Update.names_replaced (q : Update) (s : Schema) (r : Row) :
    (q.replaced s r).names = r.names := by
  unfold replaced
  split
  · exact List.map_fst_zip (by simp [Row.names, Row.values])
  · rfl

/-- The statement's columns and expressions are those of the schema, no column is assigned to twice,
and everything that is to be evaluated on the rows has a value: the condition a truth value on each
row, and the assigned expressions on the rows where it is true. -/
structure Update.Evaluates (q : Update) (s : Schema) (rows : List Row) : Prop where
  columns : ∀ a ∈ q.assignments, a.column ∈ s.names
  distinct : (q.assignments.map fun a => s.index? a.column).Nodup
  scopes : ∀ a ∈ q.assignments, a.value.Scoped s
  condition : s.Scopes q.condition
  decides : ∀ r ∈ rows, ∃ b, r.satisfies q.condition = .ok b
  evaluates : ∀ r ∈ rows, r.matches q.condition = true →
    ∀ a ∈ q.assignments, ∃ v, a.value.eval r = .ok v

/-- The statement succeeds on the rows of a table: it evaluates on them, each new value is one that
its column admits, and once all rows are replaced no two of them share a value of a unique column.
-/
structure Update.Accepted (q : Update) (s : Schema) (rows : List Row) : Prop
    extends q.Evaluates s rows where
  admits : ∀ r ∈ rows, r.matches q.condition = true → ∀ a ∈ q.assignments, ∀ c v,
    s.column? a.column = some c → a.value.eval r = .ok v → c.type.admits v = true
  unique : ∀ (k : Nat) (c : Column), s.columns[k]? = some c → c.isUnique = true →
    (rows.map fun r => (q.replaced s r).values[k]?).Nodup

/-! ### Plans -/

theorem Schema.map_index?_eq {assignments : List Assignment} {targets : List (Nat × Expr)}
    (h : List.Forall₂ (Assignment.Targets s) assignments targets) :
    assignments.map (fun a => s.index? a.column) = (targets.map (·.1)).map some := by
  rw [← List.forall₂_eq_eq_eq, List.forall₂_map_left_iff, List.forall₂_map_right_iff,
    List.forall₂_map_right_iff]
  exact h.imp fun _ _ ha => ha.column

theorem Schema.map_value_eq {assignments : List Assignment} {targets : List (Nat × Expr)}
    (h : List.Forall₂ (Assignment.Targets s) assignments targets) :
    targets.map (·.2) = assignments.map (·.value) := by
  rw [← List.forall₂_eq_eq_eq, List.forall₂_map_left_iff, List.forall₂_map_right_iff]
  exact h.flip.imp fun _ _ ha => ha.value

theorem Update.exists_targets_iff : (∃ targets, s.targets [] q.assignments = .ok targets) ↔
    (∀ a ∈ q.assignments, a.column ∈ s.names) ∧
      (q.assignments.map fun a => s.index? a.column).Nodup ∧
      ∀ a ∈ q.assignments, a.value.Scoped s := by
  constructor
  · rintro ⟨targets, h⟩
    obtain ⟨hf, hnd, -⟩ := Schema.targets_eq_ok_iff.mp h
    have hmem : ∀ a ∈ q.assignments, ∃ p, a.Targets s p := by
      intro a ha
      obtain ⟨p, -, hp⟩ := exists_of_forall₂_of_mem hf.flip ha
      exact ⟨p, hp⟩
    refine ⟨?_, ?_, ?_⟩
    · intro a ha
      obtain ⟨p, hp⟩ := hmem a ha
      exact Schema.index?_isSome_iff.mp (by simp [hp.column])
    · rw [Schema.map_index?_eq hf]
      exact hnd.map fun _ _ => Option.some.inj
    · intro a ha
      obtain ⟨p, hp⟩ := hmem a ha
      exact hp.scope
  · rintro ⟨hcolumns, hnd, hscopes⟩
    have hf : List.Forall₂ (Assignment.Targets s) q.assignments
        (q.assignments.map fun a => ((s.index? a.column).getD 0, a.value)) := by
      rw [List.forall₂_map_right_iff, List.forall₂_same]
      intro a ha
      obtain ⟨k, hk⟩ := Option.isSome_iff_exists.mp (s.index?_isSome_iff.mpr (hcolumns a ha))
      exact ⟨by simp [hk], rfl, hscopes a ha⟩
    rw [Schema.map_index?_eq hf] at hnd
    exact ⟨_, Schema.targets_eq_ok_iff.mpr ⟨hf, hnd.of_map _, by simp⟩⟩

theorem Update.assigned_eq {targets : List (Nat × Expr)}
    (h : s.targets [] q.assignments = .ok targets) (r : Row) :
    r.assigned targets = q.newValue s r := by
  obtain ⟨hf, -⟩ := Schema.targets_eq_ok_iff.mp h
  funext k v
  unfold Row.assigned newValue
  clear h
  generalize q.assignments = assignments at hf
  induction hf with
  | nil => rfl
  | @cons a p _ _ hp _ ih =>
    by_cases hk : p.1 = k
    · simp [hp.column, hk, hp.value]
    · simpa [hp.column, hk] using ih

/-- The updates that a statement plans, when it evaluates on the rows: for each row that satisfies
the condition its position and its replacement. -/
def Update.replacements (q : Update) (t : Table) : List (Nat × List Value) :=
  ((List.range t.rowCount).filter fun i => (t.row i).matches q.condition).map fun i =>
    (i, (q.replaced t.schema (t.row i)).values)

theorem Update.map_assigned_eq {targets : List (Nat × Expr)}
    (htargets : t.schema.targets [] q.assignments = .ok targets) :
    (((List.range t.rowCount).filter fun i => (t.row i).matches q.condition).map
      fun i => (t.row i, i)).map (fun p => (p.2, p.1.values.mapIdx (p.1.assigned targets))) =
        q.replacements t := by
  rw [List.map_map, replacements]
  refine List.map_congr_left fun i hi => ?_
  simp [values_replaced, (List.mem_filter.mp hi).2, assigned_eq htargets]

theorem Update.lt_of_mem_targets {targets : List (Nat × Expr)} (h : t.WellFormed)
    (htargets : t.schema.targets [] q.assignments = .ok targets) {i : Nat} (hi : i < t.rowCount) :
    ∀ target ∈ targets, target.1 < (t.row i).values.length := by
  intro target htarget
  rw [h.values_row hi, Store.length_across h.fits hi]
  exact Schema.lt_of_mem_targets htargets htarget

theorem Update.noFault_plan (q : Update) (h : t.WellFormed) : NoFault (q.plan t) := by
  refine (NoFault.lift _).bind fun targets htargets => (NoFault.lift _).bind fun _ _ => ?_
  refine h.noFault_matching.bind fun found hfound => Row.noFault_updates ?_
  intro p hp
  obtain ⟨hi, hrow⟩ := h.of_mem_matching hfound hp
  rw [hrow]
  exact lt_of_mem_targets h (lift_eq_ok_iff.mp htargets) hi

theorem Update.updates_eq_ok_iff {targets : List (Nat × Expr)} (h : t.WellFormed)
    (htargets : t.schema.targets [] q.assignments = .ok targets)
    {updates : List (Nat × List Value)} :
    Row.updates targets (((List.range t.rowCount).filter fun i =>
        (t.row i).matches q.condition).map fun i => (t.row i, i)) = .ok updates ↔
      (∀ r ∈ t.contents, r.matches q.condition = true →
        ∀ a ∈ q.assignments, ∃ v, a.value.eval r = .ok v) ∧ q.replacements t = updates := by
  obtain ⟨hf, hnd, -⟩ := Schema.targets_eq_ok_iff.mp htargets
  have hvalues : targets.map (·.2) = q.assignments.map (·.value) := Schema.map_value_eq hf
  have hexprs (r : Row) : (∀ target ∈ targets, ∃ v, target.2.eval r = .ok v) ↔
      ∀ a ∈ q.assignments, ∃ v, a.value.eval r = .ok v := by
    have hmap : (∀ e ∈ targets.map (·.2), ∃ v, e.eval r = .ok v) ↔
        ∀ e ∈ q.assignments.map (·.value), ∃ v, e.eval r = .ok v := by rw [hvalues]
    simpa only [List.forall_mem_map] using hmap
  rw [Row.updates_eq_ok_iff ?_ hnd, map_assigned_eq htargets]
  · simp only [Table.contents, List.forall_mem_map, List.mem_filter, and_imp, hexprs]
  · intro p hp
    obtain ⟨i, hi, rfl⟩ := List.mem_map.mp hp
    exact lt_of_mem_targets h htargets (List.mem_range.mp (List.mem_filter.mp hi).1)

/-- A statement that evaluates on the rows of a table, and no other, plans its updates. -/
theorem Update.plan_eq_ok_iff (h : t.WellFormed) {updates : List (Nat × List Value)} :
    q.plan t = .ok updates ↔
      q.Evaluates t.schema t.contents ∧ q.replacements t = updates := by
  simp only [plan, bind_eq_ok_iff, lift_eq_ok_iff, h.matching_eq_ok_iff]
  constructor
  · rintro ⟨targets, htargets, ⟨⟩, hcondition, found, ⟨hdecides, rfl⟩, hupdates⟩
    obtain ⟨hcolumns, hnd, hscopes⟩ := exists_targets_iff.mp ⟨targets, htargets⟩
    obtain ⟨hevaluates, rfl⟩ := (updates_eq_ok_iff h htargets).mp hupdates
    refine ⟨⟨hcolumns, hnd, hscopes, Schema.checkCondition_eq_ok_iff.mp hcondition, ?_,
      hevaluates⟩, rfl⟩
    simpa [Table.mem_contents] using hdecides
  · rintro ⟨heval, rfl⟩
    obtain ⟨targets, htargets⟩ := exists_targets_iff.mpr
      ⟨heval.columns, heval.distinct, heval.scopes⟩
    refine ⟨targets, htargets, (), Schema.checkCondition_eq_ok_iff.mpr heval.condition, _,
      ⟨?_, rfl⟩, (updates_eq_ok_iff h htargets).mpr ⟨heval.evaluates, rfl⟩⟩
    simpa [Table.mem_contents] using heval.decides

/-! ### Acceptance -/

theorem Schema.column?_eq_some_iff {name : String} {c : Column} :
    s.column? name = some c ↔ ∃ k, s.index? name = some k ∧ s.columns[k]? = some c := by
  rw [column?, List.find?_eq_bind_findIdx?_getElem?, Option.bind_eq_some_iff]
  rfl

theorem Schema.index?_inj {name other : String} {k : Nat} (h : s.index? name = some k)
    (h' : s.index? other = some k) : name = other := by
  obtain ⟨hlt, hname, -⟩ := List.findIdx?_eq_some_iff_getElem.mp h
  obtain ⟨_, hother, -⟩ := List.findIdx?_eq_some_iff_getElem.mp h'
  simp only [beq_iff_eq] at hname hother
  rw [← hname, ← hother]

theorem Schema.nodup_map_index? {names : List String} (hn : names.Nodup)
    (hmem : ∀ name ∈ names, name ∈ s.names) : (names.map s.index?).Nodup := by
  refine hn.map_on fun name hname other _ heq => ?_
  obtain ⟨k, hk⟩ := Option.isSome_iff_exists.mp (s.index?_isSome_iff.mpr (hmem name hname))
  exact index?_inj hk (heq ▸ hk)

theorem nodup_filterMap_iff {α β : Type} {f : α → Option β} {xs : List α}
    (h : ∀ x ∈ xs, (f x).isSome = true) : (xs.filterMap f).Nodup ↔ (xs.map f).Nodup := by
  have hmap : (xs.filterMap f).map some = xs.map f := by
    induction xs with
    | nil => rfl
    | cons x xs ih =>
      rw [List.forall_mem_cons] at h
      obtain ⟨y, hy⟩ := Option.isSome_iff_exists.mp h.1
      simp [hy, ih h.2]
  rw [← hmap, List.nodup_map_iff fun _ _ => Option.some.inj]

theorem lookup_map_pair {β : Type} (f : Nat → β) (xs : List Nat) (i : Nat) :
    (xs.map fun j => (j, f j)).lookup i = if i ∈ xs then some (f i) else none := by
  induction xs with
  | nil => rfl
  | cons j xs ih =>
    rw [List.map_cons, List.lookup_cons]
    by_cases hij : i = j
    · simp [hij]
    · have hne : (i == j) = false := by simpa using hij
      simp [hne, hij, ih]

theorem Update.rowAfter_replacements (q : Update) (h : t.WellFormed) {i : Nat}
    (hi : i < t.rowCount) : Table.rowAfter t.stores (q.replacements t) i =
      (q.replaced t.schema (t.row i)).values := by
  rw [Table.rowAfter, Table.updateFor?, replacements, ← List.map_reverse, lookup_map_pair]
  by_cases hm : (t.row i).matches q.condition = true
  · simp [hi, hm]
  · simp [values_replaced, hm, h.values_row hi]

theorem Update.length_values_replaced (q : Update) (h : t.WellFormed) {i : Nat}
    (hi : i < t.rowCount) :
    (q.replaced t.schema (t.row i)).values.length = t.schema.columns.length := by
  rw [values_replaced, apply_ite List.length, List.length_mapIdx, ite_self, h.values_row hi,
    Store.length_across h.fits hi]

theorem Update.newValue_eq_of_mem (hd : (q.assignments.map fun a => s.index? a.column).Nodup)
    {a : Assignment} (ha : a ∈ q.assignments) {k : Nat} (hk : s.index? a.column = some k)
    {v w : Value} (hv : a.value.eval r = .ok v) : q.newValue s r k w = v := by
  have hsome : (q.assignments.find? fun a => s.index? a.column == some k).isSome = true :=
    List.find?_isSome.mpr ⟨a, ha, by simp [hk]⟩
  obtain ⟨a', ha'⟩ := Option.isSome_iff_exists.mp hsome
  have hk' : s.index? a'.column = some k := by simpa using List.find?_some ha'
  obtain rfl : a' = a :=
    List.inj_on_of_nodup_map hd (List.mem_of_find?_eq_some ha') ha (hk'.trans hk.symm)
  simp [newValue, ha', hv, Except.toOption]

theorem Update.newValue_cases {k : Nat} {v : Value}
    (heval : ∀ a ∈ q.assignments, ∃ w, a.value.eval r = .ok w) :
    q.newValue s r k v = v ∨ ∃ a ∈ q.assignments, s.index? a.column = some k ∧
      a.value.eval r = .ok (q.newValue s r k v) := by
  unfold newValue
  split
  · next a ha =>
    have hmem := List.mem_of_find?_eq_some ha
    obtain ⟨w, hw⟩ := heval a hmem
    exact .inr ⟨a, hmem, by simpa using List.find?_some ha, by simp [hw, Except.toOption]⟩
  · exact .inl rfl

theorem Update.mem_replacements_iff {u : Nat × List Value} : u ∈ q.replacements t ↔
    ∃ i < t.rowCount, (t.row i).matches q.condition = true ∧
      (i, (q.replaced t.schema (t.row i)).values) = u := by
  simp [replacements, and_assoc]

theorem Update.length_replacements (q : Update) (t : Table) :
    (q.replacements t).length = t.contents.countP (·.matches q.condition) := by
  rw [replacements, List.length_map, ← List.countP_eq_length_filter, Table.contents,
    List.countP_map]
  rfl

section Accepts

variable {i : Nat}

/-- Columns admit the values of a replaced row when they admit those assigned to them. -/
theorem Update.admits_replaced (h : t.WellFormed) (hi : i < t.rowCount)
    (hm : (t.row i).matches q.condition = true)
    (heval : ∀ a ∈ q.assignments, ∃ v, a.value.eval (t.row i) = .ok v)
    (hadmits : ∀ a ∈ q.assignments, ∀ c v, t.schema.column? a.column = some c →
      a.value.eval (t.row i) = .ok v → c.type.admits v = true) :
    List.Forall₂ (fun c v => c.type.admits v = true) t.schema.columns
      (q.replaced t.schema (t.row i)).values := by
  refine forall₂_of_getElem? (q.length_values_replaced h hi).symm fun k c w hc hw => ?_
  rw [values_replaced, if_pos hm, List.getElem?_mapIdx, h.values_row hi,
    Option.map_eq_some_iff] at hw
  obtain ⟨v, hv, rfl⟩ := hw
  -- a value that no assignment writes is the old one, which the table's column admits already
  obtain hsame | ⟨a, ha, hk, hnew⟩ := q.newValue_cases (s := t.schema) (k := k) (v := v) heval
  · obtain ⟨c', hc', hadm⟩ := exists_getElem?_of_forall₂ (Store.admits_across h.fits hi) hv
    obtain rfl : c' = c := Option.some.inj (hc'.symm.trans hc)
    rwa [hsame]
  · exact hadmits a ha c _ (Schema.column?_eq_some_iff.mpr ⟨k, hk, hc⟩) hnew

theorem Update.admits_of_replaced (h : t.WellFormed) (hi : i < t.rowCount)
    (hm : (t.row i).matches q.condition = true)
    (hd : (q.assignments.map fun a => t.schema.index? a.column).Nodup)
    (hadmits : List.Forall₂ (fun c v => c.type.admits v = true) t.schema.columns
      (q.replaced t.schema (t.row i)).values) {a : Assignment} (ha : a ∈ q.assignments)
    {c : Column} {v : Value} (hc : t.schema.column? a.column = some c)
    (hv : a.value.eval (t.row i) = .ok v) : c.type.admits v = true := by
  obtain ⟨k, hk, hck⟩ := Schema.column?_eq_some_iff.mp hc
  have hlt : k < (Store.across t.stores i).length := by
    rw [Store.length_across h.fits hi]
    exact Schema.index?_lt hk
  have hnew : (q.replaced t.schema (t.row i)).values[k]? = some v := by
    rw [values_replaced, if_pos hm, List.getElem?_mapIdx, h.values_row hi,
      List.getElem?_eq_getElem hlt, Option.map_some, newValue_eq_of_mem hd ha hk hv]
  obtain ⟨c', hc', hadm⟩ := exists_getElem?_of_forall₂ hadmits hnew
  obtain rfl : c' = c := Option.some.inj (hc'.symm.trans hck)
  exact hadm

theorem Update.nodup_rowAfter_iff (q : Update) (h : t.WellFormed) {k : Nat}
    (hk : k < t.schema.columns.length) :
    ((List.range t.rowCount).filterMap fun i =>
      (Table.rowAfter t.stores (q.replacements t) i)[k]?).Nodup ↔
    (t.contents.map fun r => (q.replaced t.schema r).values[k]?).Nodup := by
  rw [nodup_filterMap_iff, Table.contents, List.map_map]
  · refine iff_of_eq (congrArg List.Nodup (List.map_congr_left fun i hi => ?_))
    rw [q.rowAfter_replacements h (List.mem_range.mp hi)]
    rfl
  · intro i hi
    have hi := List.mem_range.mp hi
    rw [q.rowAfter_replacements h hi]
    simp [q.length_values_replaced h hi, hk]

end Accepts

/-- The replacements are accepted when each new value is admitted by its column and the replaced
rows do not share a value of a unique column. -/
theorem Update.accepts_iff (h : t.WellFormed)
    (heval : q.Evaluates t.schema t.contents) :
    t.Accepts (q.replacements t) ↔ q.Accepted t.schema t.contents := by
  have hlt : ∀ {k : Nat} {c : Column}, t.schema.columns[k]? = some c →
      k < t.schema.columns.length := fun hc => (List.getElem?_eq_some_iff.mp hc).1
  constructor
  · intro hacc
    refine ⟨heval, ?_, ?_⟩
    · intro r hr hm a ha c v hc hv
      obtain ⟨i, hi, rfl⟩ := Table.mem_contents.mp hr
      have hadmits := hacc.admits _ (mem_replacements_iff.mpr ⟨i, hi, hm, rfl⟩)
      exact admits_of_replaced h hi hm heval.distinct hadmits ha hc hv
    · intro k c hc hu
      have hnodup := hacc.distinct k c hc hu
      exact (q.nodup_rowAfter_iff h (hlt hc)).mp hnodup
  · intro hacc
    constructor
    · intro u hu
      obtain ⟨i, hi, hm, rfl⟩ := mem_replacements_iff.mp hu
      have hr : t.row i ∈ t.contents := Table.mem_contents.mpr ⟨i, hi, rfl⟩
      exact admits_replaced h hi hm (heval.evaluates _ hr hm) (hacc.admits _ hr hm)
    · intro k c hc hu
      have hnodup := hacc.unique k c hc hu
      exact (q.nodup_rowAfter_iff h (hlt hc)).mpr hnodup

/-- No two rows of a table share a value of a unique column. -/
theorem Table.WellFormed.nodup_column (h : t.WellFormed) {k : Nat} {c : Column}
    (hc : t.schema.columns[k]? = some c) (hu : c.isUnique = true) :
    (t.contents.map (·.values[k]?)).Nodup := by
  obtain ⟨s, hs, hd⟩ := exists_getElem?_of_forall₂ h.distinct.flip hc
  have hvalues := hd hu
  rw [Store.values_eq h.fits hs, nodup_filterMap_iff] at hvalues
  · rw [Table.contents, List.map_map]
    refine (List.map_congr_left fun i hi => ?_) ▸ hvalues
    rw [Function.comp_apply, h.values_row (List.mem_range.mp hi)]
  · intro i hi
    have hlt := (List.getElem?_eq_some_iff.mp hc).1
    simp [Store.length_across h.fits (List.mem_range.mp hi), hlt]

/-! ### Runs -/

theorem Update.row_eq_replaced (h : t.WellFormed) {stores : List Store} {i : Nat}
    (hi : i < t.rowCount)
    (hacross : Store.across stores i = (q.replaced t.schema (t.row i)).values) :
    ({ t with stores } : Table).row i = q.replaced t.schema (t.row i) := by
  show (⟨t.schema.names.zip (Store.across stores i)⟩ : Row) = _
  rw [hacross, ← h.names_row hi, ← q.names_replaced t.schema (t.row i), Row.zip_names_values]

/-- An accepted statement replaces the rows of its table all at once, and counts those that satisfy
its condition. -/
theorem Update.run_apply (h : t.WellFormed) (hq : q.Accepted t.schema t.contents) :
    ∃ after, q.apply.run.run t = (.ok (t.contents.countP (·.matches q.condition)), after) ∧
      after.WellFormed ∧ after.name = t.name ∧ after.schema = t.schema ∧
      after.rowCount = t.rowCount ∧ after.contents = t.contents.map (q.replaced t.schema) := by
  have hplan : q.plan t = .ok (q.replacements t) :=
    (plan_eq_ok_iff h).mpr ⟨hq.toEvaluates, rfl⟩
  have hpos : ∀ u ∈ q.replacements t, u.1 < t.rowCount := by
    intro u hu
    obtain ⟨i, hi, -, rfl⟩ := mem_replacements_iff.mp hu
    exact hi
  have hacc : t.Accepts (q.replacements t) := (accepts_iff h hq.toEvaluates).mpr hq
  obtain ⟨stores, hrun, hwf, hacross⟩ := Table.Edit.run_update h (.inr hpos) hacc
  refine ⟨{ t with stores }, ?_, hwf, rfl, rfl, rfl, ?_⟩
  · unfold apply
    rw [run_bind_ok (run_get t), hplan, run_bind_ok (run_lift _ t), hrun, length_replacements]
  · rw [Table.contents, Table.contents, List.map_map]
    refine List.map_congr_left fun i hi => ?_
    have hi := List.mem_range.mp hi
    have hvalues := (hacross i hi).trans (q.rowAfter_replacements h hi)
    exact row_eq_replaced h hi hvalues

theorem Update.run_apply_refused (h : t.WellFormed) (hq : ¬q.Accepted t.schema t.contents) :
    ∃ e, q.apply.run.run t = (.error (.error e), t) := by
  unfold apply
  rw [run_bind_ok (run_get t)]
  obtain ⟨updates, hplan⟩ | ⟨e, hplan⟩ := (q.noFault_plan h).cases
  · obtain ⟨heval, rfl⟩ := (plan_eq_ok_iff h).mp hplan
    rw [hplan, run_bind_ok (run_lift _ t)]
    exact Table.Edit.run_update_refused h fun hacc => hq ((accepts_iff h heval).mp hacc)
  · exact ⟨e, run_bind_error (by rw [hplan]; exact run_lift _ t)⟩

theorem Update.sound_apply (q : Update) (h : t.WellFormed) : Sound t.Keeps id q.apply t := by
  by_cases hq : q.Accepted t.schema t.contents
  · obtain ⟨after, hrun, hwf, hname, -⟩ := run_apply h hq
    exact .ok hrun ⟨hname, hwf⟩
  · obtain ⟨e, hrun⟩ := run_apply_refused h hq
    exact .error (.refl h) hrun

end Tabular
