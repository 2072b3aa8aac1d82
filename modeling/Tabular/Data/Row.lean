import Tabular.Error

/-! Rows: values under the names of their columns. A name means the first value that it stands
over. -/

namespace Tabular

/-- Values in order, each with the name of its column. -/
structure Row where
  cells : List (String × Value)
  deriving DecidableEq, Repr

namespace Row

/-- The row without values, in which no name means anything. -/
def empty : Row := ⟨[]⟩

/-- The row of values under names, of which there are equally many. -/
def ofValues (names : List String) (values : List Value) : Except Fault Row :=
  if names.length = values.length then .ok ⟨names.zip values⟩ else .error .unevenRow

def length (r : Row) : Nat := r.cells.length

def isEmpty (r : Row) : Bool := r.cells.isEmpty

def names (r : Row) : List String := r.cells.map (·.1)

def values (r : Row) : List Value := r.cells.map (·.2)

def get? (r : Row) (name : String) : Option Value := r.cells.lookup name

theorem names_ofValues {names : List String} {values : List Value} {r : Row}
    (h : ofValues names values = .ok r) : r.names = names := by
  unfold ofValues at h
  split at h
  · next hl =>
    cases h
    exact List.map_fst_zip (Nat.le_of_eq hl)
  · cases h

theorem values_ofValues {names : List String} {values : List Value} {r : Row}
    (h : ofValues names values = .ok r) : r.values = values := by
  unfold ofValues at h
  split at h
  · next hl =>
    cases h
    exact List.map_snd_zip (Nat.le_of_eq hl.symm)
  · cases h

/-- A name finds the value at the first place that has it. -/
theorem get?_eq (r : Row) (name : String) :
    r.get? name = (r.names.findIdx? (· == name)).bind (r.values[·]?) := by
  obtain ⟨cells⟩ := r
  induction cells with
  | nil => rfl
  | cons p rest ih =>
    obtain ⟨n, v⟩ := p
    simp only [get?, names, values, List.lookup_cons, List.map_cons, List.findIdx?_cons] at ih ⊢
    by_cases hn : n = name
    · simp [hn]
    · have hne : (name == n) = false := by simpa using Ne.symm hn
      rw [hne, ih]
      cases (rest.map (·.1)).findIdx? (· == name) <;> simp [hn]

/-- A row is its values under its names. -/
theorem zip_names_values (r : Row) : (⟨r.names.zip r.values⟩ : Row) = r :=
  congrArg Row.mk (List.zip_of_prod rfl rfl).symm

end Row

end Tabular
