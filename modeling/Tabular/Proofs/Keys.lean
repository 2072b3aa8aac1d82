import Tabular.Proofs.Conditions
import Tabular.Proofs.Schemas

/-! Unique columns as keys. A query for the rows with one value in a unique column finds one row at
most, and an insertion is refused for its value in that column exactly when the query finds a row.
So the equality that conditions are evaluated with is the one that insertions are checked with. -/

namespace Tabular

variable {s : Schema} {t : Table} {r : Row} {k : Nat} {c : Column} {v w : Value}

/-- The condition that a column has a value. -/
def Expr.equals (name : String) (v : Value) : Expr :=
  .binary (.column name) (.comparison .eq) (.literal v)

theorem BinaryOp.apply_eq (h : w.kind = v.kind) :
    BinaryOp.apply (.comparison .eq) w v = .ok (.bool (w == v)) := by
  have hholds : Comparison.eq.holds (w.order v) = (w == v) := by
    rw [Bool.eq_iff_iff, beq_iff_eq, ← Value.order_eq_iff]
    exact Ordering.isEq_iff_eq_eq
  rw [apply_comparison .eq h, hholds]

/-- Where a column has a value of the same kind, the condition is a comparison of the two. -/
theorem Row.satisfies_equals {name : String} (hw : r.get? name = some w) (hk : w.kind = v.kind) :
    r.satisfies (some (.equals name v)) = .ok (w == v) := by
  show (Expr.equals name v).holds r = _
  have heval : (Expr.equals name v).eval r = .ok (.bool (w == v)) := by
    rw [Expr.equals, Expr.eval, Expr.eval_column_eq_ok_iff.mpr hw]
    exact BinaryOp.apply_eq hk
  exact Expr.holds_eq_ok_iff.mpr heval

theorem length_filter_beq_le_one {α β : Type} [BEq β] [LawfulBEq β] {f : α → β} {xs : List α}
    (h : (xs.map f).Nodup) (b : β) : (xs.filter (f · == b)).length ≤ 1 := by
  have hcount := List.nodup_iff_count_le_one.mp h b
  rwa [List.count_eq_countP, List.countP_map, List.countP_eq_length_filter] at hcount

/-- The rows of a table that have a value at place `k`. -/
def Table.having (t : Table) (k : Nat) (v : Value) : List Row :=
  t.contents.filter (·.values[k]? == some v)

theorem Table.WellFormed.found_equals (h : t.WellFormed) (hn : t.schema.names.Nodup)
    (hc : t.schema.columns[k]? = some c) (hv : v.kind = c.type.kind) :
    Row.found t.schema (some (.equals c.name v)) t.contents = .ok (t.having k v) := by
  have hsatisfies : ∀ r ∈ t.contents, r.satisfies (some (.equals c.name v)) =
      .ok (r.values[k]? == some v) := by
    intro r hr
    have hfits := h.fits_of_mem hr
    have hget : r.get? c.name = r.values[k]? := by
      rw [hfits.get?_eq, Schema.index?_of_nodup hn hc, Option.bind_some]
    have hlt : k < r.values.length := by
      rw [← hfits.admits.length_eq]
      exact (List.getElem?_eq_some_iff.mp hc).1
    have hw := List.getElem?_eq_getElem hlt
    obtain ⟨c', hc', hadmits⟩ := exists_getElem?_of_forall₂ hfits.admits hw
    obtain rfl : c' = c := Option.some.inj (hc'.symm.trans hc)
    rw [Row.satisfies_equals (hget.trans hw)
      ((ColumnType.kind_of_admits hadmits).trans hv.symm), hw]
    rfl
  refine Row.found_eq_ok_iff.mpr ⟨?_, fun r hr => ⟨_, hsatisfies r hr⟩, ?_⟩
  · intro e he
    obtain rfl := Option.some.inj he
    have hname : c.name ∈ t.schema.names := List.mem_map_of_mem (List.mem_of_getElem? hc)
    exact Expr.scoped_binary_iff.mpr ⟨Expr.scoped_column_iff.mpr hname, Expr.scoped_literal v⟩
  · refine List.filter_congr fun r hr => ?_
    rw [Row.matches, hsatisfies r hr]

theorem InsertRow.row_literals (table : String) {values : List Value}
    (hlength : values.length = s.length) :
    (InsertRow.mk table [] (values.map .literal)).row s = .ok values := by
  have hvalues : (values.map Expr.literal).mapM Expr.evalAlone = .ok values := by
    rw [mapM_eq_ok_iff, List.forall₂_map_left_iff, List.forall₂_same]
    exact fun v _ => rfl
  have hlen : s.length = (values.map Expr.literal).length := by
    rw [List.length_map, hlength]
  unfold row
  dsimp only
  rw [List.isEmpty_nil, if_pos rfl, if_neg (not_not.mpr hlen), hvalues]
  rfl

/-- A row of literals is inserted as it is, unless a value of it is repeated. -/
theorem InsertRow.answer_literals (table : String) {values : List Value}
    (hadmits : List.Forall₂ (fun c v => c.type.admits v = true) t.schema.columns values) :
    (InsertRow.mk table [] (values.map .literal)).answer t =
      (fun _ => 1) <$> Table.checkNew t.schema.columns t.stores values := by
  have hrow : (InsertRow.mk table [] (values.map .literal)).row t.schema = .ok values :=
    row_literals table hadmits.length_eq.symm
  unfold answer
  rw [hrow]
  show (do
    t.schema.checkRow values
    Table.checkNew t.schema.columns t.stores values
    return 1) = _
  rw [Schema.checkRow_eq_ok_iff.mpr hadmits]
  cases Table.checkNew t.schema.columns t.stores values <;> rfl

namespace Database

variable {db : Database} {name : String} {values : List Value}

/-- At place `k` a row to insert has the value `v` for a unique column, and a query for that value
finds a row. -/
structure Taken (db : Database) (name : String) (s : Schema) (values : List Value) (k : Nat)
    (c : Column) (v : Value) : Prop where
  column : s.columns[k]? = some c
  unique : c.isUnique = true
  value : values[k]? = some v
  found : ∃ result, (db.query (.everything name (some (.equals c.name v)))).result = .ok result ∧
    result.rows ≠ []

theorem result_query_equals (h : db.catalog.WellFormed) (ht : db.table? name = some t)
    (hn : t.schema.names.Nodup) (hc : t.schema.columns[k]? = some c) (hv : v.kind = c.type.kind) :
    (db.query (.everything name (some (.equals c.name v)))).result =
      .ok ⟨t.schema.names, (t.having k v).map (·.values)⟩ := by
  rw [result_query (q := .everything name (some (.equals c.name v))) h ht,
    Select.answer_everything, (h.of_lookup? ht).2.found_equals hn hc hv]
  rfl

/-- The values that queries find are those that the table stores. -/
theorem taken_iff (h : db.catalog.WellFormed) (ht : db.table? name = some t)
    (hn : t.schema.names.Nodup)
    (hadmits : List.Forall₂ (fun c v => c.type.admits v = true) t.schema.columns values) :
    db.Taken name t.schema values k c v ↔
      Table.Repeats t.schema.columns t.stores values k c v := by
  have hwf := (h.of_lookup? ht).2
  have hfound (hc : t.schema.columns[k]? = some c) (hv : values[k]? = some v) :
      (∃ result, (db.query (.everything name (some (.equals c.name v)))).result = .ok result ∧
        result.rows ≠ []) ↔ ∃ r ∈ t.contents, r.values[k]? = some v := by
    obtain ⟨c', hc', hadmit⟩ := exists_getElem?_of_forall₂ hadmits hv
    obtain rfl : c' = c := Option.some.inj (hc'.symm.trans hc)
    rw [result_query_equals h ht hn hc (ColumnType.kind_of_admits hadmit)]
    simp [Table.having]
  constructor
  · rintro ⟨hc, hu, hv, hr⟩
    have hlt : k < t.stores.length := by
      rw [← hwf.fits.length_eq]
      exact (List.getElem?_eq_some_iff.mp hc).1
    have hs := List.getElem?_eq_getElem hlt
    exact ⟨hc, hu, hv, _, hs, (hwf.mem_values_iff hs).mpr ((hfound hc hv).mp hr)⟩
  · rintro ⟨hc, hu, hv, store, hs, hmem⟩
    exact ⟨hc, hu, hv, (hfound hc hv).mpr ((hwf.mem_values_iff hs).mp hmem)⟩

theorem execute_insert_literals (h : db.catalog.WellFormed) (ht : db.table? name = some t)
    (hadmits : List.Forall₂ (fun c v => c.type.admits v = true) t.schema.columns values)
    {e : Error} :
    (db.execute (.insert ⟨name, [], values.map .literal⟩)).result = .error (.error ⟨.insert, e⟩) ↔
      Table.checkNew t.schema.columns t.stores values = .error e := by
  rw [execute_change_eq_error_iff (s := .insert ⟨name, [], values.map .literal⟩) (f := .inserted)
    rfl ht, InsertRow.result_apply (h.of_lookup? ht).2, InsertRow.answer_literals name hadmits,
    lift_eq_error_iff, map_eq_error_iff]
  exact and_iff_right rfl

/-- In a database that started without tables, a query for a value of a unique column gives one row
at most. A row whose values the columns admit is refused for a repeated value exactly when such a
query finds a row, and it is refused for its first value that one finds. -/
theorem Grown.unique_columns (h : db.Grown) (ht : db.table? name = some t) :
    (∀ c ∈ t.schema.columns, c.isUnique = true → ∀ v, v.kind = c.type.kind →
      let q := Select.everything name (some (.equals c.name v))
      ∃ result, (db.query q).result = .ok result ∧
        (db.execute (.select q)).result = .ok (.selected result) ∧ result.rows.length ≤ 1) ∧
    ∀ values, List.Forall₂ (fun c v => c.type.admits v = true) t.schema.columns values →
      let insertion := db.execute (.insert ⟨name, [], values.map .literal⟩)
      ((∃ column rule v,
          insertion.result = .error (.error ⟨.insert, .notUnique column rule v⟩)) ↔
        ∃ k c v, db.Taken name t.schema values k c v) ∧
      ∀ column rule v, insertion.result = .error (.error ⟨.insert, .notUnique column rule v⟩) →
        ∃ k c, db.Taken name t.schema values k c v ∧
          (∀ j < k, ∀ c' v', ¬db.Taken name t.schema values j c' v') ∧
            c.name = column ∧ c.uniqueness = some rule := by
  have hwf := h.reachable.wellFormed
  have hn := (h.declared name t ht).names
  refine ⟨fun c hc hu v hv => ?_, fun values hadmits => ?_⟩
  · obtain ⟨k, hk⟩ := List.mem_iff_getElem?.mp hc
    have hresult := result_query_equals hwf ht hn hk hv
    refine ⟨_, hresult, result_execute_select_eq_ok_iff.mpr hresult, ?_⟩
    rw [List.length_map]
    exact length_filter_beq_le_one ((hwf.of_lookup? ht).2.nodup_column hk hu) (some v)
  · simp only [execute_insert_literals hwf ht hadmits, taken_iff hwf ht hn hadmits]
    refine ⟨⟨?_, ?_⟩, ?_⟩
    · rintro ⟨column, rule, v, he⟩
      obtain ⟨k, c, -, v', hr, -⟩ := Table.exists_repeats_of_checkNew he
      exact ⟨k, c, v', hr⟩
    · rintro ⟨k, c, v, hr⟩
      cases hcheck : Table.checkNew t.schema.columns t.stores values with
      | ok _ => exact absurd hr (Table.checkNew_eq_ok_iff.mp hcheck k c v)
      | error e =>
        obtain ⟨-, c', rule, v', -, -, -, rfl⟩ := Table.exists_repeats_of_checkNew hcheck
        exact ⟨c'.name, rule, v', rfl⟩
    · intro column rule v he
      obtain ⟨k, c, rule', v', hr, hbefore, hrule, heq⟩ := Table.exists_repeats_of_checkNew he
      cases heq
      exact ⟨k, c, hr, hbefore, rfl, hrule⟩

/-- A table with two users, in a database that had none. -/
def pair : Database :=
  ({} : Database).run
    [.create ⟨"users", [⟨"id", .int, some .primaryKey⟩, ⟨"name", .varchar 3, some .unique⟩]⟩,
      .insert ⟨"users", [], [.literal (.number 1), .literal (.string "Ann")]⟩,
      .insert ⟨"users", [], [.literal (.number 2), .literal (.string "Bob")]⟩]

/-- Neither the number nor the name of the second user can be given again, and the number comes
first. -/
theorem unique_columns_pair :
    let values : List Value := [.number 2, .string "Bob"]
    ∃ t, pair.table? "users" = some t ∧
      (pair.execute (.insert ⟨"users", [], values.map .literal⟩)).result =
        .error (.error ⟨.insert, .notUnique "id" .primaryKey (.number 2)⟩) ∧
      ∃ k c, pair.Taken "users" t.schema values k c (.number 2) ∧ c.name = "id" := by
  intro values
  let t : Table :=
    { sampleUsers with
      stores := [⟨"id", .int, #[1, 2]⟩, ⟨"name", .varchar, #["Ann", "Bob"]⟩], rowCount := 2 }
  have ht : pair.table? "users" = some t := by decide +kernel
  have he : (pair.execute (.insert ⟨"users", [], values.map .literal⟩)).result =
      .error (.error ⟨.insert, .notUnique "id" .primaryKey (.number 2)⟩) := by
    decide +kernel
  have hgrown : pair.Grown := ⟨{}, _, rfl⟩
  have hadmits : List.Forall₂ (fun c v => c.type.admits v = true) t.schema.columns values := by
    decide
  obtain ⟨k, c, htaken, -, hname, -⟩ := ((hgrown.unique_columns ht).2 values hadmits).2 _ _ _ he
  exact ⟨t, ht, he, k, c, htaken, hname⟩

end Database

end Tabular
