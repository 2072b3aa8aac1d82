import Mathlib.Data.List.InsertIdx
import Mathlib.Data.List.Nodup
import Tabular.Proofs.Edits
import Tabular.Proofs.Reading

/-! `DELETE` statements on well-formed tables. Taking cells out of the stores one after another
leaves the rows at the other positions, in order and each of them whole, so a statement leaves the
rows that do not satisfy its condition. -/

namespace Tabular

variable {α : Type} {positions : List Nat}

theorem foldl_eraseIdx_eq_filter {l : List Nat} (hl : l.Nodup)
    (hd : positions.Pairwise (· > ·)) (hat : ∀ i ∈ positions, l[i]? = some i) :
    positions.foldl List.eraseIdx l = l.filter (· ∉ positions) := by
  induction positions generalizing l with
  | nil => simp
  | cons i rest ih =>
    obtain ⟨hi, hrest⟩ := List.pairwise_cons.mp hd
    obtain ⟨hlt, hself⟩ := List.getElem?_eq_some_iff.mp (hat i List.mem_cons_self)
    have herase : l.eraseIdx i = l.filter (· != i) := by
      rw [← hl.erase_getElem i hlt, hself, hl.erase_eq_filter]
    -- the positions still to remove come before `i`, so they stand where they stood
    have hat' : ∀ j ∈ rest, (l.eraseIdx i)[j]? = some j := by
      intro j hj
      rw [List.getElem?_eraseIdx_of_lt (hi j hj)]
      exact hat j (List.mem_cons_of_mem i hj)
    rw [List.foldl_cons, ih (hl.sublist (List.eraseIdx_sublist ..)) hrest hat', herase,
      List.filter_filter]
    refine List.filter_congr fun j _ => ?_
    by_cases hj : j = i <;> simp [hj]

theorem map_foldl_eraseIdx {β : Type} (f : α → β) (positions : List Nat) (xs : List α) :
    (positions.foldl List.eraseIdx xs).map f = positions.foldl List.eraseIdx (xs.map f) := by
  induction positions generalizing xs with
  | nil => rfl
  | cons i rest ih => rw [List.foldl_cons, List.foldl_cons, ih, List.eraseIdx_map]

/-- A list after removals is what stood at the positions not removed. -/
theorem map_some_foldl_eraseIdx {xs : List α} (hd : positions.Pairwise (· > ·))
    (hlt : ∀ i ∈ positions, i < xs.length) : (positions.foldl List.eraseIdx xs).map some =
      ((List.range xs.length).filter (· ∉ positions)).map (xs[·]?) := by
  -- a list is its positions seen through lookup, and erasing commutes with that
  have hxs : xs.map some = (List.range xs.length).map (xs[·]?) := by
    apply List.ext_getElem <;> simp
  rw [map_foldl_eraseIdx, hxs, ← map_foldl_eraseIdx]
  rw [foldl_eraseIdx_eq_filter List.nodup_range hd fun i hi => by simp [hlt i hi]]

theorem getElem?_foldl_eraseIdx {xs : List α} (hd : positions.Pairwise (· > ·))
    (hlt : ∀ i ∈ positions, i < xs.length) (i : Nat) :
    (positions.foldl List.eraseIdx xs)[i]? =
      ((List.range xs.length).filter (· ∉ positions))[i]?.bind (xs[·]?) := by
  have hat : (positions.foldl List.eraseIdx xs)[i]?.map some =
      ((List.range xs.length).filter (· ∉ positions))[i]?.map (xs[·]?) := by
    rw [← List.getElem?_map, map_some_foldl_eraseIdx hd hlt, List.getElem?_map]
  cases hkept : ((List.range xs.length).filter (· ∉ positions))[i]? with
  | none => simpa only [hkept, Option.map_none, Option.map_eq_none_iff, Option.bind_none] using hat
  | some j =>
    rw [hkept, Option.map_some, Option.map_eq_some_iff] at hat
    obtain ⟨x, hx, hj⟩ := hat
    exact hx.trans hj

namespace Table

variable {t after : Table}

/-- The positions of the rows that a deletion leaves, in order. -/
def kept (t : Table) (positions : List Nat) : List Nat :=
  (List.range t.rowCount).filter (· ∉ positions)

theorem kept_eq_filter_doomed (t : Table) (positions : List Nat) :
    t.kept positions = (List.range t.rowCount).filter (· ∉ t.doomed positions) := by
  refine List.filter_congr fun i hi => ?_
  simp [mem_doomed_iff, List.mem_range.mp hi]

theorem length_doomed (t : Table) (positions : List Nat) : (t.doomed positions).length =
    (List.range t.rowCount).countP (positions.contains ·) := by
  rw [List.countP_eq_length_filter]
  exact (perm_doomed (List.nodup_range.filter _) (by simp)).length_eq

theorem length_kept (t : Table) (positions : List Nat) :
    (t.kept positions).length = t.rowCount - (t.doomed positions).length := by
  have hdoomed := t.length_doomed positions
  have hkept : (t.kept positions).length =
      (List.range t.rowCount).countP (¬positions.contains ·) := by
    rw [kept, ← List.countP_eq_length_filter]
    simp
  have hsplit := List.length_eq_countP_add_countP (positions.contains ·)
    (l := List.range t.rowCount)
  rw [List.length_range] at hsplit
  omega

theorem across_remove {stores stores' : List Store}
    (hremove : List.Forall₂ (fun s s' => s.remove positions = .ok s') stores stores')
    (hd : positions.Pairwise (· > ·)) {n : Nat} (hsize : ∀ s ∈ stores, s.size = n)
    (hlt : ∀ i ∈ positions, i < n) {i j : Nat}
    (hj : ((List.range n).filter (· ∉ positions))[i]? = some j) :
    Store.across stores' i = Store.across stores j := by
  induction hremove with
  | nil => rfl
  | @cons s s' stores stores' hs _ ih =>
    rw [List.forall_mem_cons] at hsize
    obtain ⟨hn, hrest⟩ := hsize
    obtain ⟨s'', hs'', -, -, -, hvalues⟩ := Store.remove_ok hd (s := s) (hn ▸ hlt)
    obtain rfl : s'' = s' := Except.ok.inj (hs''.symm.trans hs)
    have hget : s''.get? i = s.get? j := by
      rw [Store.get?_eq, Store.get?_eq, hvalues,
        getElem?_foldl_eraseIdx hd (by simpa [hn] using hlt), s.length_values, hn, hj,
        Option.bind_some]
    have htail := ih hrest
    simp only [Store.across, List.filterMap_cons, hget] at htail ⊢
    rw [htail]

/-- A deletion leaves the other rows as they are, in order. -/
theorem WellFormed.contents_delete (h : t.WellFormed) {n : Nat}
    (hd : t.delete positions = .ok (n, after)) :
    after.schema = t.schema ∧ after.contents = (t.kept positions).map t.row := by
  unfold delete at hd
  obtain ⟨stores, hremove, hpure⟩ := bind_eq_ok_iff.mp hd
  cases hpure
  refine ⟨rfl, ?_⟩
  have hsize : ∀ s ∈ t.stores, s.size = t.rowCount := by
    intro s hs
    obtain ⟨c, -, hfits⟩ := exists_of_forall₂_of_mem h.fits hs
    exact hfits.size
  apply List.ext_getElem
  · simp [contents, length_kept]
  · intro i hi hi'
    rw [List.length_map] at hi'
    have hj : ((List.range t.rowCount).filter (· ∉ t.doomed positions))[i]? =
        some (t.kept positions)[i] := by
      rw [← kept_eq_filter_doomed, List.getElem?_eq_getElem hi']
    have hacross := across_remove (mapM_eq_ok_iff.mp hremove) (pairwise_doomed t positions) hsize
      (fun i hi => (mem_doomed_iff.mp hi).1) hj
    simp [contents, row, hacross]

end Table

/-- The condition of a `DELETE` statement names columns of the schema only and has a truth value on
every row. -/
structure Delete.Accepted (q : Delete) (s : Schema) (rows : List Row) : Prop where
  scopes : s.Scopes q.condition
  decides : ∀ r ∈ rows, ∃ b, r.satisfies q.condition = .ok b

section Statements

variable {q : Delete} {t : Table}

/-- An accepted statement removes and counts the rows that satisfy its condition. -/
theorem Delete.run_apply (h : t.WellFormed) (hq : q.Accepted t.schema t.contents) :
    ∃ after, q.apply.run.run t = (.ok (t.contents.countP (·.matches q.condition)), after) ∧
      after.WellFormed ∧ after.name = t.name ∧ after.schema = t.schema ∧
      after.contents = t.contents.filter fun r => !r.matches q.condition := by
  have hdecides : ∀ i < t.rowCount, ∃ b, (t.row i).satisfies q.condition = .ok b :=
    fun i hi => hq.decides _ (Table.mem_contents.mpr ⟨i, hi, rfl⟩)
  let positions := (List.range t.rowCount).filter fun i => (t.row i).matches q.condition
  have hmatching : t.matching q.condition = .ok (positions.map fun i => (t.row i, i)) :=
    h.matching_eq_ok_iff.mpr ⟨hdecides, rfl⟩
  have hpositions : (positions.map fun i => (t.row i, i)).map (·.2) = positions := by
    simp [Function.comp_def]
  obtain ⟨after, hdelete, hname, hwf⟩ := h.delete_ok positions
  obtain ⟨hschema, hcontents⟩ := h.contents_delete hdelete
  have hcount : (t.doomed positions).length = t.contents.countP (·.matches q.condition) := by
    rw [t.length_doomed, Table.contents, List.countP_map]
    refine List.countP_congr fun i hi => ?_
    simp [positions, List.mem_range.mp hi]
  have hkept : t.kept positions =
      (List.range t.rowCount).filter fun i => !(t.row i).matches q.condition := by
    refine List.filter_congr fun i hi => ?_
    simp [positions, List.mem_range.mp hi]
  refine ⟨after, ?_, hwf, hname, hschema, ?_⟩
  · unfold apply
    rw [run_bind_ok (run_get t), Schema.checkCondition_eq_ok_iff.mpr hq.scopes,
      run_bind_ok (run_lift_error _ t), hmatching, run_bind_ok (run_lift _ t), hpositions, ← hcount]
    exact Table.Edit.run_delete hdelete
  · rw [hcontents, hkept, Table.contents, List.filter_map]
    rfl

theorem Delete.run_apply_refused (h : t.WellFormed) (hq : ¬q.Accepted t.schema t.contents) :
    ∃ e, q.apply.run.run t = (.error (.error e), t) := by
  unfold apply
  rw [run_bind_ok (run_get t)]
  cases hscopes : t.schema.checkCondition q.condition with
  | error e => exact ⟨e, run_bind_error (run_lift_error _ t)⟩
  | ok _ =>
    rw [run_bind_ok (run_lift_error _ t)]
    have hfault : NoFault (t.matching q.condition) := h.noFault_matching
    obtain ⟨found, hfound⟩ | ⟨e, he⟩ := hfault.cases
    · obtain ⟨hdecides, -⟩ := h.matching_eq_ok_iff.mp hfound
      refine absurd ⟨Schema.checkCondition_eq_ok_iff.mp hscopes, fun r hr => ?_⟩ hq
      obtain ⟨i, hi, rfl⟩ := Table.mem_contents.mp hr
      exact hdecides i hi
    · rw [he]
      exact ⟨e, run_bind_error (run_lift _ t)⟩

end Statements

end Tabular
