import Mathlib.Data.List.Dedup
import Mathlib.Data.List.Perm.Basic
import Tabular.Proofs.Adding
import Tabular.Proofs.Deleting

/-! Removing rows at any positions. Positions may repeat, and those past the end count for nothing.
What is left are the rows at the other positions. A row that was removed can be added again, and
one that was added can be removed again, so a removal leaves nothing of a row behind. -/

namespace Tabular.Table

variable {t after : Table} {positions : List Nat} {values : List Value}

/-- A removal counts the positions within the table that are listed, each of them once. -/
theorem length_doomed_eq_dedup (t : Table) (positions : List Nat) :
    (t.doomed positions).length = (positions.filter (· < t.rowCount)).dedup.length := by
  refine (perm_doomed (List.nodup_dedup _) fun i => ?_).length_eq
  rw [List.mem_dedup, List.mem_filter, decide_eq_true_iff, and_comm]

theorem map_kept (t : Table) (positions : List Nat) : (t.kept positions).map t.row =
    (t.contents.zipIdx.filter (·.2 ∉ positions)).map (·.1) := by
  rw [zipIdx_contents, List.filter_map, List.map_map]
  rfl

/-- Without one position the rest stand as after a removal there. -/
theorem map_kept_singleton {i : Nat} (hi : i < t.rowCount) :
    (t.kept [i]).map t.row = t.contents.eraseIdx i := by
  have hkept : t.kept [i] = [i].foldl List.eraseIdx (List.range t.rowCount) :=
    (foldl_eraseIdx_eq_filter List.nodup_range (List.pairwise_singleton ..) (by simp [hi])).symm
  rw [hkept, List.foldl_cons, List.foldl_nil, contents, List.eraseIdx_map]

theorem WellFormed.exists_delete (h : t.WellFormed) (positions : List Nat) :
    ∃ after, t.delete positions = .ok ((positions.filter (· < t.rowCount)).dedup.length, after) ∧
      after.WellFormed ∧ after.name = t.name ∧ after.schema = t.schema ∧
      after.rowCount + (positions.filter (· < t.rowCount)).dedup.length = t.rowCount ∧
      after.contents = (t.kept positions).map t.row := by
  obtain ⟨after, hdelete, hname, hwf⟩ := h.delete_ok positions
  obtain ⟨hschema, hcontents⟩ := h.contents_delete hdelete
  rw [← length_doomed_eq_dedup]
  have hcount : after.rowCount = t.rowCount - (t.doomed positions).length := by
    rw [← length_contents, hcontents, List.length_map, length_kept]
  have hle : (t.doomed positions).length ≤ t.rowCount := by
    rw [length_doomed]
    exact List.countP_le_length.trans_eq List.length_range
  exact ⟨after, hdelete, hwf, hname, hschema, by omega, hcontents⟩

/-- Removal at any positions counts the rows that it removes, each of them once, and leaves the
others whole and in order. -/
theorem Built.delete_positions (h : t.Built) (positions : List Nat) :
    ∃ rows after, t.rows = .ok rows ∧
      t.delete positions = .ok ((positions.filter (· < t.rowCount)).dedup.length, after) ∧
      after.name = t.name ∧ after.schema = t.schema ∧
      after.rowCount + (positions.filter (· < t.rowCount)).dedup.length = t.rowCount ∧
      after.rows = .ok ((rows.zipIdx.filter (·.2 ∉ positions)).map (·.1)) := by
  obtain ⟨after, hdelete, hwf, hname, hschema, hcount, hcontents⟩ :=
    h.wellFormed.exists_delete positions
  refine ⟨t.contents, after, h.wellFormed.rows_eq, hdelete, hname, hschema, hcount, ?_⟩
  rw [hwf.rows_eq, hcontents, map_kept]

/-- The first and the last of three users go. One is listed twice, and there is no eighth. -/
theorem delete_positions_users : ∃ after, users.delete [2, 7, 0, 2] = .ok (2, after) ∧
    after.rows = .ok [⟨[("id", .number 2), ("name", .string "Bob")]⟩] := by
  obtain ⟨rows, after, hrows, hdelete, -, -, -, hafter⟩ := built_users.delete_positions [2, 7, 0, 2]
  have hcount : ([2, 7, 0, 2].filter (· < users.rowCount)).dedup.length = 2 := by decide +kernel
  obtain rfl := built_users.wellFormed.contents_eq hrows
  rw [hcount] at hdelete
  exact ⟨after, hdelete, hafter.trans (by decide +kernel)⟩

theorem WellFormed.exists_delete_singleton (h : t.WellFormed) {i : Nat} (hi : i < t.rowCount) :
    ∃ after, t.delete [i] = .ok (1, after) ∧ after.WellFormed ∧ after.name = t.name ∧
      after.schema = t.schema ∧ after.rowCount + 1 = t.rowCount ∧
      after.contents = t.contents.eraseIdx i := by
  have hone : ([i].filter (· < t.rowCount)).dedup.length = 1 := by simp [hi]
  rw [← map_kept_singleton hi, ← hone]
  exact h.exists_delete [i]

/-- A row that is added and removed again leaves the table as it was. -/
theorem WellFormed.delete_of_insert (h : t.WellFormed) (hok : t.insert values = .ok after) :
    after.delete [t.rowCount] = .ok (1, t) := by
  have hadded := h.extended_of_insert hok
  have hcount : after.rowCount = t.rowCount + 1 := hadded.rowCount
  obtain ⟨t', hdelete, hwf, hname, hschema, hcount', hcontents⟩ :=
    hadded.wellFormed.exists_delete_singleton (i := t.rowCount) (by omega)
  have hrows : t'.contents = t.contents := by
    have hle : t.contents.length ≤ t.rowCount := Nat.le_of_eq (length_contents t)
    rw [hcontents, hadded.contents, List.eraseIdx_append_of_length_le hle, length_contents,
      Nat.sub_self]
    exact List.append_nil _
  obtain rfl : t' = t := h.ext hwf (hname.trans hadded.name) (hschema.trans hadded.schema)
    (by omega) hrows
  exact hdelete

/-- A row of the table differs from the others in every unique column. -/
theorem WellFormed.apart_of_mem_eraseIdx (h : t.WellFormed) {i : Nat} (hi : i < t.rowCount)
    {r : Row} (hr : r ∈ t.contents.eraseIdx i) : t.schema.Apart r.values (t.row i).values := by
  have hlt : i < t.contents.length := by rwa [length_contents]
  have hrow : t.contents[i] = t.row i := by simp [contents]
  have hp : (t.row i :: t.contents.eraseIdx i).Perm t.contents := by
    rw [← hrow]
    exact List.getElem_cons_eraseIdx_perm hlt
  have hpairwise := ((hp.map (·.values)).pairwise_iff Schema.Apart.symm).mpr h.pairwise_apart
  exact ((List.pairwise_cons.mp hpairwise).1 _ (List.mem_map_of_mem hr)).symm

/-- A row that is removed can be added again, after the rows that are left. -/
theorem WellFormed.insert_of_delete (h : t.WellFormed) {i : Nat} (hi : i < t.rowCount) :
    ∃ between after, t.delete [i] = .ok (1, between) ∧
      between.insert (t.row i).values = .ok after ∧ after.WellFormed ∧
      after.contents = t.contents.eraseIdx i ++ [t.row i] := by
  obtain ⟨between, hdelete, hwf, -, hschema, -, hcontents⟩ := h.exists_delete_singleton hi
  have hadmits : between.schema.Admits (t.row i).values := by
    rw [hschema, h.values_row hi]
    exact Store.admits_across h.fits hi
  have hapart : ∀ r ∈ between.contents, between.schema.Apart r.values (t.row i).values := by
    rw [hcontents, hschema]
    exact fun r hr => h.apart_of_mem_eraseIdx hi hr
  obtain ⟨after, hinsert⟩ := hwf.exists_insert_iff.mpr ⟨hadmits, hapart⟩
  have hadded := hwf.extended_of_insert hinsert
  refine ⟨between, after, hdelete, hinsert, hadded.wellFormed, ?_⟩
  rw [hadded.contents, hcontents, hschema, h.values_row hi]
  rfl

/-- Adding a row and removing it again gives back the table. Removing a row and adding it again
moves it behind the others. -/
theorem Built.insert_delete (h : t.Built) :
    (∀ values after, t.insert values = .ok after → after.delete [t.rowCount] = .ok (1, t)) ∧
    ∀ i < t.rowCount, ∃ rows r between after, t.rows = .ok rows ∧ rows[i]? = some r ∧
      t.row? i = .ok (some r) ∧ t.delete [i] = .ok (1, between) ∧
      between.insert r.values = .ok after ∧ after.rows = .ok (rows.eraseIdx i ++ [r]) := by
  have hwf := h.wellFormed
  refine ⟨fun values after hok => hwf.delete_of_insert hok, fun i hi => ?_⟩
  obtain ⟨between, after, hdelete, hinsert, hafter, hcontents⟩ := hwf.insert_of_delete hi
  exact ⟨t.contents, t.row i, between, after, hwf.rows_eq, by simp [contents, hi], hwf.row?_eq hi,
    hdelete, hinsert, hafter.rows_eq.trans (congrArg _ hcontents)⟩

/-- A fourth user comes and goes, and the second one goes and comes back. -/
theorem insert_delete_users :
    (∃ after, users.insert [.number 4, .string "Zoe"] = .ok after ∧
      after.delete [3] = .ok (1, users)) ∧
    ∃ between after, users.delete [1] = .ok (1, between) ∧
      between.insert [.number 2, .string "Bob"] = .ok after ∧
      after.rows = .ok [⟨[("id", .number 1), ("name", .string "Ann")]⟩,
        ⟨[("id", .number 3), ("name", .string "Eve")]⟩,
        ⟨[("id", .number 2), ("name", .string "Bob")]⟩] := by
  obtain ⟨hadd, hremove⟩ := built_users.insert_delete
  have hcount : users.rowCount = 3 := by decide +kernel
  rw [hcount] at hadd hremove
  constructor
  · have hok : users.insert [.number 4, .string "Zoe"] =
        .ok ((Edit.insert [.number 4, .string "Zoe"]).run.run users).2 := by decide +kernel
    exact ⟨_, hok, hadd _ _ hok⟩
  · obtain ⟨rows, r, between, after, hrows, hr, -, hdelete, hinsert, hafter⟩ :=
      hremove 1 (by decide)
    obtain rfl := built_users.wellFormed.contents_eq hrows
    obtain rfl : r = ⟨[("id", .number 2), ("name", .string "Bob")]⟩ :=
      Option.some.inj (hr.symm.trans (by decide +kernel))
    exact ⟨between, after, hdelete, hinsert, hafter.trans (by decide +kernel)⟩

end Tabular.Table
