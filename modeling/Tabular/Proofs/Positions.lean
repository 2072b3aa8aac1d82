import Mathlib.Data.List.Sort
import Tabular.Storage.Table

/-! The positions of rows to remove. Positions from last to first are those of an insertion sort, so
equal ones stand next to one another there, and without repetitions they descend strictly. -/

namespace Tabular

section Repetitions

variable {α : Type} [BEq α]

theorem eraseReps_cons_cons (a b : α) (xs : List α) : (a :: b :: xs).eraseReps =
    if a == b then (a :: xs).eraseReps else a :: (b :: xs).eraseReps := by
  -- what the loop has collected stands in front of what it gives from nothing
  have hloop (a : α) (xs acc : List α) : List.eraseRepsBy.loop (· == ·) a xs acc =
      acc.reverse ++ List.eraseRepsBy.loop (· == ·) a xs [] := by
    induction xs generalizing a acc with
    | nil => simp [List.eraseRepsBy.loop]
    | cons b xs ih =>
      rw [List.eraseRepsBy.loop, List.eraseRepsBy.loop]
      split
      · exact ih a acc
      · rw [ih b (a :: acc), ih b [a]]
        simp
  simp only [List.eraseReps, List.eraseRepsBy, List.eraseRepsBy.loop]
  split
  · next h => rw [if_pos h]
  · next h => rw [if_neg (by simp [h]), hloop, List.reverse_singleton, List.singleton_append]

theorem mem_eraseReps_iff [LawfulBEq α] {x : α} {xs : List α} : x ∈ xs.eraseReps ↔ x ∈ xs := by
  cases xs with
  | nil => rfl
  | cons a xs =>
    induction xs generalizing a with
    | nil => rfl
    | cons b xs ih =>
      rw [eraseReps_cons_cons]
      split
      · next h =>
        obtain rfl := eq_of_beq h
        simp [ih]
      · rw [List.mem_cons, ih, List.mem_cons (b := a)]

theorem pairwise_eraseReps {xs : List Nat} (h : xs.Pairwise (· ≥ ·)) :
    xs.eraseReps.Pairwise (· > ·) := by
  cases xs with
  | nil => exact .nil
  | cons a xs =>
    induction xs generalizing a with
    | nil => exact List.pairwise_singleton ..
    | cons b xs ih =>
      obtain ⟨ha, hrest⟩ := List.pairwise_cons.mp h
      rw [eraseReps_cons_cons]
      split
      · exact ih a (h.sublist ((List.sublist_cons_self b xs).cons_cons a))
      · next hne =>
        refine List.pairwise_cons.mpr ⟨fun c hc => ?_, ih b hrest⟩
        have hne : a ≠ b := by simpa using hne
        have hab : a > b := Nat.lt_of_le_of_ne (ha b List.mem_cons_self) hne.symm
        obtain rfl | hc := List.mem_cons.mp (mem_eraseReps_iff.mp hc)
        · exact hab
        · exact Nat.lt_of_le_of_lt ((List.pairwise_cons.mp hrest).1 c hc) hab

end Repetitions

namespace Table

variable {t : Table} {positions : List Nat} {i : Nat}

theorem insertDescending_eq_orderedInsert (i : Nat) (sorted : List Nat) :
    insertDescending i sorted = sorted.orderedInsert (· ≥ ·) i := by
  induction sorted with
  | nil => rfl
  | cons j rest ih => rw [insertDescending, List.orderedInsert_cons, ih]

theorem descending_eq_insertionSort (positions : List Nat) :
    descending positions = positions.reverse.insertionSort (· ≥ ·) := by
  rw [List.insertionSort, List.foldr_reverse]
  simp only [descending, insertDescending_eq_orderedInsert]

theorem pairwise_doomed (t : Table) (positions : List Nat) :
    (t.doomed positions).Pairwise (· > ·) := by
  refine pairwise_eraseReps ?_
  rw [descending_eq_insertionSort]
  exact List.pairwise_insertionSort ..

theorem mem_doomed_iff : i ∈ t.doomed positions ↔ i < t.rowCount ∧ i ∈ positions := by
  rw [doomed, mem_eraseReps_iff, descending_eq_insertionSort, List.mem_insertionSort,
    List.mem_reverse, List.mem_filter, decide_eq_true_iff, and_comm]

/-- The positions removed are the rows of the table that are listed, each of them once. -/
theorem perm_doomed {listed : List Nat} (hnodup : listed.Nodup)
    (hmem : ∀ i, i ∈ listed ↔ i < t.rowCount ∧ i ∈ positions) :
    (t.doomed positions).Perm listed := by
  refine (List.perm_ext_iff_of_nodup ?_ hnodup).mpr fun i => mem_doomed_iff.trans (hmem i).symm
  exact (t.pairwise_doomed positions).imp Nat.ne_of_gt

end Table

end Tabular
