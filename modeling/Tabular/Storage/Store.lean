import Tabular.Error

/-! Stores: the cells of one column, all of one kind, in the order of the rows. A store trusts those
who write to it: a value of another kind or a position past the end is a fault. `Store.values` is
what a store holds as a list of values; the laws of the operations speak of that list. -/

namespace Tabular

/-- The cells of one column in the order of the rows. -/
structure Store where
  name : String
  kind : Kind
  cells : Array kind.Carrier
  deriving DecidableEq

namespace Store

def ofColumn (c : Column) : Store := { name := c.name, kind := c.type.kind, cells := #[] }

def size (s : Store) : Nat := s.cells.size

def isEmpty (s : Store) : Bool := s.cells.isEmpty

def values (s : Store) : List Value := s.cells.toList.map s.kind.value

/-- The value at a position, if the store reaches that far. -/
def get? (s : Store) (i : Nat) : Option Value := s.cells[i]?.map s.kind.value

def contains (s : Store) (v : Value) : Bool :=
  match s.kind.cell? v with
  | some c => s.cells.contains c
  | none => false

/-- The store with a value added at the end. -/
def push (s : Store) (v : Value) : Except Fault Store :=
  match s.kind.cell? v with
  | some c => .ok { s with cells := s.cells.push c }
  | none => .error .wrongKind

/-- The store with the value at a position replaced. -/
def set (s : Store) (i : Nat) (v : Value) : Except Fault Store :=
  match s.kind.cell? v with
  | some c => if i < s.size then .ok { s with cells := s.cells.setIfInBounds i c }
    else .error .outOfRange
  | none => .error .wrongKind

/-- The store without the cell at a position; the cells after it move up. -/
def erase (s : Store) (i : Nat) : Except Fault Store :=
  if i < s.size then .ok { s with cells := s.cells.eraseIdxIfInBounds i }
  else .error .outOfRange

/-- The store without the cells at positions listed from last to first, so that no removal moves a
cell that is still to be removed. -/
def remove (s : Store) (positions : List Nat) : Except Fault Store :=
  if positions.Pairwise (· > ·) then positions.foldlM erase s else .error .notDescending

@[simp] theorem length_values (s : Store) : s.values.length = s.size := by
  simp [values, size]

@[simp] theorem values_ofColumn (c : Column) : (ofColumn c).values = [] := rfl

theorem kind_of_mem_values {s : Store} {v : Value} (h : v ∈ s.values) : v.kind = s.kind := by
  obtain ⟨c, -, rfl⟩ := List.mem_map.mp h
  simp

/-- A store is its name, its kind and its values. -/
theorem ext_values {s t : Store} (hn : s.name = t.name) (hk : s.kind = t.kind)
    (hv : s.values = t.values) : s = t := by
  obtain ⟨name, kind, ⟨cells⟩⟩ := s
  obtain ⟨name', kind', ⟨cells'⟩⟩ := t
  cases hn
  cases hk
  have : cells = cells' := List.map_inj_right (fun _ _ => Kind.value_inj.mp) |>.mp hv
  rw [this]

theorem get?_eq (s : Store) (i : Nat) : s.get? i = s.values[i]? := by
  simp [get?, values]

theorem contains_iff {s : Store} {v : Value} : s.contains v = true ↔ v ∈ s.values := by
  unfold contains values
  split
  · next c h =>
    obtain rfl := Kind.cell?_eq_some_iff.mp h
    simp [Kind.value_inj]
  · next h =>
    simp only [Bool.false_eq_true, false_iff]
    intro hv
    exact Kind.cell?_eq_none_iff.mp h (kind_of_mem_values (s := s) hv)

/-- A push adds its value at the end. It takes the values of the store's kind and no others. -/
theorem push_eq_ok_iff {s t : Store} {v : Value} :
    s.push v = .ok t ↔
      v.kind = s.kind ∧ t.name = s.name ∧ t.kind = s.kind ∧ t.values = s.values ++ [v] := by
  constructor
  · intro h
    unfold push at h
    split at h
    · next c hc =>
      cases h
      obtain rfl := Kind.cell?_eq_some_iff.mp hc
      simp [values]
    · cases h
  · rintro ⟨hk, hn, hs, hv⟩
    unfold push
    split
    · next c hc =>
      obtain rfl := Kind.cell?_eq_some_iff.mp hc
      refine congrArg Except.ok (ext_values hn.symm hs.symm ?_)
      rw [hv]
      simp [values]
    · next hc => exact absurd hk (Kind.cell?_eq_none_iff.mp hc)

/-- A set replaces one value. It takes the values of the store's kind at the positions that the
store has, and no others. -/
theorem set_eq_ok_iff {s t : Store} {i : Nat} {v : Value} :
    s.set i v = .ok t ↔
      v.kind = s.kind ∧ i < s.size ∧ t.name = s.name ∧ t.kind = s.kind ∧
        t.values = s.values.set i v := by
  constructor
  · intro h
    unfold set at h
    split at h
    · next c hc =>
      split at h
      · next hi =>
        cases h
        obtain rfl := Kind.cell?_eq_some_iff.mp hc
        exact ⟨Kind.kind_value _ _, hi, rfl, rfl, by simp [values, List.map_set]⟩
      · cases h
    · cases h
  · rintro ⟨hk, hi, hn, hs, hv⟩
    unfold set
    split
    · next c hc =>
      obtain rfl := Kind.cell?_eq_some_iff.mp hc
      rw [if_pos hi]
      refine congrArg Except.ok (ext_values hn.symm hs.symm ?_)
      rw [hv]
      simp [values, List.map_set]
    · next hc => exact absurd hk (Kind.cell?_eq_none_iff.mp hc)

/-- An erasure takes out one value. It takes the positions that the store has, and no others. -/
theorem erase_eq_ok_iff {s t : Store} {i : Nat} :
    s.erase i = .ok t ↔
      i < s.size ∧ t.name = s.name ∧ t.kind = s.kind ∧ t.values = s.values.eraseIdx i := by
  have he : ({ s with cells := s.cells.eraseIdxIfInBounds i } : Store).values =
      s.values.eraseIdx i := by
    simp [values, List.eraseIdx_eq_take_drop_succ]
  constructor
  · intro h
    unfold erase at h
    split at h
    · next hi =>
      cases h
      exact ⟨hi, rfl, rfl, he⟩
    · cases h
  · rintro ⟨hi, hn, hs, hv⟩
    unfold erase
    rw [if_pos hi]
    exact congrArg Except.ok (ext_values hn.symm hs.symm (he.trans hv.symm))

end Store

end Tabular
