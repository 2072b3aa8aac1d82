import Tabular.Proofs.Building
import Tabular.Proofs.Kinds

/-! Lookups by name. The schema, the columns, a row and an expression each look a name up on their
own. In a table that edits have made they know the same names, and a name that several columns share
is the first of them for all four, so that each of them comes to the same cell. -/

namespace Tabular

/-- A name is unknown to an expression where the row does not have it. -/
theorem Expr.eval_column_eq_error_iff {r : Row} {name : String} :
    (Expr.column name).eval r = .error (.unknownColumn name) ↔ r.get? name = none := by
  rw [eval]
  cases r.get? name <;> simp

namespace Table

variable {t : Table} {i k : Nat} {name : String}

theorem WellFormed.map_name_stores (h : t.WellFormed) :
    t.stores.map (·.name) = t.schema.names := by
  have hnames : List.Forall₂ (fun c s => s.name = c.name) t.schema.columns t.stores :=
    h.fits.imp fun _ _ hfits => hfits.name
  rw [Schema.names, ← List.forall₂_eq_eq_eq, List.forall₂_map_left_iff,
    List.forall₂_map_right_iff]
  exact hnames.flip

/-- The store of a name is that of the first column that has it. -/
theorem WellFormed.store?_eq (h : t.WellFormed) (name : String) :
    t.store? name = (t.schema.index? name).bind (t.stores[·]?) := by
  have hindex : t.stores.findIdx? (·.name == name) = t.schema.index? name := by
    have hmap := congrArg (List.findIdx? (· == name)) h.map_name_stores
    rw [Schema.names, List.findIdx?_map, List.findIdx?_map] at hmap
    exact hmap
  rw [store?, List.find?_eq_bind_findIdx?_getElem?, hindex]

theorem WellFormed.getElem?_values_row (h : t.WellFormed) (hi : i < t.rowCount) (k : Nat) :
    (t.row i).values[k]? = t.stores[k]?.bind (·.get? i) := by
  rw [h.values_row hi, Store.getElem?_across h.fits hi]

theorem WellFormed.get?_row (h : t.WellFormed) (hi : i < t.rowCount) (name : String) :
    (t.row i).get? name = (t.store? name).bind (·.get? i) := by
  rw [(h.fits_row hi).get?_eq, h.store?_eq, Option.bind_assoc]
  simp only [h.getElem?_values_row hi]

theorem WellFormed.exists_store (h : t.WellFormed) (hk : t.schema.index? name = some k) :
    ∃ store, t.stores[k]? = some store ∧ t.store? name = some store := by
  obtain ⟨hlt, -⟩ := List.findIdx?_eq_some_iff_getElem.mp hk
  have hstore := List.getElem?_eq_getElem (h.fits.length_eq ▸ hlt : k < t.stores.length)
  exact ⟨_, hstore, by rw [h.store?_eq, hk, Option.bind_some, hstore]⟩

/-- However it is looked up, the value in row `i` under a name is `v`. The row is `r`, and `k` is the
position of the name's column. -/
structure Resolves (t : Table) (i : Nat) (r : Row) (name : String) (k : Nat) (v : Value) :
    Prop where
  place : r.values[k]? = some v
  row : r.get? name = some v
  column : ∃ store, t.store? name = some store ∧ store.get? i = some v
  expr : (Expr.column name).eval r = .ok v

theorem WellFormed.exists_resolves (h : t.WellFormed) (hi : i < t.rowCount)
    (hk : t.schema.index? name = some k) : ∃ v, t.Resolves i (t.row i) name k v := by
  obtain ⟨store, hstore, hname⟩ := h.exists_store hk
  obtain ⟨c, -, hfits⟩ := exists_getElem?_of_forall₂ h.fits hstore
  obtain ⟨v, hv, -⟩ := hfits.get? hi
  have hrow : (t.row i).get? name = some v := by rw [h.get?_row hi, hname, Option.bind_some, hv]
  refine ⟨v, ?_, hrow, ⟨store, hname, hv⟩, by rw [Expr.eval, hrow]⟩
  rw [h.getElem?_values_row hi, hstore, Option.bind_some, hv]

theorem WellFormed.index?_eq_none_iff (h : t.WellFormed) (name : String) :
    t.schema.index? name = none ↔ t.store? name = none := by
  rw [h.store?_eq]
  cases hk : t.schema.index? name with
  | none => simp
  | some k =>
    obtain ⟨store, hstore, -⟩ := h.exists_store hk
    simp [hstore]

theorem WellFormed.index?_eq_none_iff_row (h : t.WellFormed) (hi : i < t.rowCount)
    (name : String) : t.schema.index? name = none ↔ (t.row i).get? name = none := by
  cases hk : t.schema.index? name with
  | none => simp [(h.fits_row hi).get?_eq, hk]
  | some k =>
    obtain ⟨v, hv⟩ := h.exists_resolves hi hk
    simp [hv.row]

/-- There is a row at each position below the number of rows and at no other. In such a row the
schema, the columns, the row itself and an expression know the same names, and under a name that
they know they find the same value. -/
theorem Built.lookups_agree (h : t.Built) (i : Nat) (name : String) :
    (∃ found, t.row? i = .ok found ∧ (found.isSome = true ↔ i < t.rowCount)) ∧
    (i < t.rowCount → ∃ r, t.row? i = .ok (some r) ∧
      (t.schema.index? name = none ↔ t.store? name = none) ∧
      (t.schema.index? name = none ↔ r.get? name = none) ∧
      (t.schema.index? name = none ↔
        (Expr.column name).eval r = .error (.unknownColumn name)) ∧
      ∀ k, t.schema.index? name = some k → ∃ v, t.Resolves i r name k v) := by
  have hwf := h.wellFormed
  constructor
  · by_cases hi : i < t.rowCount
    · exact ⟨_, hwf.row?_eq hi, by simp [hi]⟩
    · exact ⟨none, if_neg hi, by simp [hi]⟩
  · intro hi
    have hrow := hwf.index?_eq_none_iff_row hi name
    exact ⟨t.row i, hwf.row?_eq hi, hwf.index?_eq_none_iff name, hrow,
      hrow.trans Expr.eval_column_eq_error_iff.symm, fun k hk => hwf.exists_resolves hi hk⟩

/-- A table with two columns of one name. -/
def twins : Table :=
  let schema : Schema :=
    ⟨[⟨"n", .int, some .unique⟩, ⟨"s", .varchar 3, none⟩, ⟨"n", .bool, none⟩]⟩
  let rows : List (List Value) :=
    [[.number 1, .string "a", .bool true], [.number 2, .string "b", .bool false]]
  rows.foldl (fun t values => ((Edit.insert values).run.run t).2) (create "twins" schema)

/-- The table with its first row replaced. -/
def twinsReplaced : Table :=
  ((Edit.update [(0, [.number 3, .string "c", .bool false])]).run.run twins).2

theorem built_twinsReplaced : twinsReplaced.Built := by
  have hbuilt : twins.Built := ((Built.create "twins" _).insert _).insert _
  have hok : ((Edit.update [(0, [.number 3, .string "c", .bool false])]).run.run twins).1 =
      .ok 1 := by
    decide +kernel
  exact hbuilt.update _ (hok ▸ .ok 1)

/-- The name that two columns share is the first of them, which holds the number that was written,
and a name of no column is unknown. -/
theorem lookups_agree_twins : 0 < twinsReplaced.rowCount ∧ ∃ r,
    twinsReplaced.row? 0 = .ok (some r) ∧ twinsReplaced.Resolves 0 r "n" 0 (.number 3) ∧
      (Expr.column "m").eval r = .error (.unknownColumn "m") := by
  have hcount : 0 < twinsReplaced.rowCount := by decide +kernel
  obtain ⟨-, hn⟩ := built_twinsReplaced.lookups_agree 0 "n"
  obtain ⟨-, hm⟩ := built_twinsReplaced.lookups_agree 0 "m"
  obtain ⟨r, hr, -, -, -, hcell⟩ := hn hcount
  obtain ⟨r', hr', -, -, hunknown, -⟩ := hm hcount
  obtain rfl : r = r' := Option.some.inj (Except.ok.inj (hr.symm.trans hr'))
  obtain ⟨v, hv⟩ := hcell 0 (by decide +kernel)
  have hrow : twinsReplaced.row? 0 =
      .ok (some ⟨[("n", .number 3), ("s", .string "c"), ("n", .bool false)]⟩) := by
    decide +kernel
  obtain rfl := Option.some.inj (Except.ok.inj (hr.symm.trans hrow))
  obtain rfl : Value.number 3 = v := Option.some.inj hv.place
  exact ⟨hcount, _, hr, hv, hunknown.mp (by decide +kernel)⟩

end Table

end Tabular
