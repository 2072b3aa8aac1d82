import Tabular.Proofs.Results
import Tabular.Schema.Basic
import Mathlib.Data.Nat.Find

/-! The check of a schema that a `CREATE TABLE` statement declares: `Schema.Valid` is what it lets
pass, and `Schema.Invalid` says with which error it rejects the others. -/

namespace Tabular

variable {s : Schema} {max : Nat}

/-- The schema has columns, under different names, whose strings have sizes from 1 to `max`, and one
of them at most is a primary key. -/
structure Schema.Valid (s : Schema) (max : Nat) : Prop where
  columns : s.columns ≠ []
  names : s.names.Nodup
  sizes : ∀ c ∈ s.columns, ∀ size ∈ c.type.size?, 0 < size ∧ size ≤ max
  primary : s.columns.countP (·.isPrimaryKey) ≤ 1

theorem Schema.checkColumns_cons {earlier : List String} {c : Column} {rest : List Column} :
    checkColumns max earlier (c :: rest) = .ok () ↔ c.name ∉ earlier ∧
      (∀ size ∈ c.type.size?, 0 < size ∧ size ≤ max) ∧
        checkColumns max (c.name :: earlier) rest = .ok () := by
  rw [checkColumns]
  by_cases hname : c.name ∈ earlier
  · simp [hname]
  · rw [if_neg hname]
    cases c.type.size? with
    | none => simp [hname]
    | some size =>
      by_cases hsize : size = 0 ∨ max < size
      · have hnot : ¬(0 < size ∧ size ≤ max) := by omega
        simp [hsize, hnot]
      · have hfits : 0 < size ∧ size ≤ max := by omega
        simp [hname, hsize, hfits]

theorem Schema.checkColumns_eq_ok_iff {earlier : List String} {columns : List Column} :
    checkColumns max earlier columns = .ok () ↔ (columns.map (·.name)).Nodup ∧
      (∀ c ∈ columns, c.name ∉ earlier) ∧
        ∀ c ∈ columns, ∀ size ∈ c.type.size?, 0 < size ∧ size ≤ max := by
  induction columns generalizing earlier with
  | nil => simp [checkColumns]
  | cons c rest ih =>
    rw [checkColumns_cons, ih, List.map_cons, List.nodup_cons, List.forall_mem_cons,
      List.forall_mem_cons, List.mem_map, not_exists]
    simp only [List.mem_cons, not_or, not_and]
    constructor
    · rintro ⟨hc, hsize, hnodup, hnames, hsizes⟩
      exact ⟨⟨fun c' hc' => (hnames c' hc').1, hnodup⟩, ⟨hc, fun c' hc' => (hnames c' hc').2⟩,
        hsize, hsizes⟩
    · rintro ⟨⟨hnew, hnodup⟩, ⟨hc, hnames⟩, hsize, hsizes⟩
      exact ⟨hc, hsize, hnodup, fun c' hc' => ⟨hnew c' hc', hnames c' hc'⟩, hsizes⟩

/-- Validation lets the valid schemas pass, and no others. -/
theorem Schema.validate_eq_ok_iff {table : String} :
    s.validate table max = .ok () ↔ s.Valid max := by
  unfold validate
  by_cases hempty : s.isEmpty = true
  · have hnil : s.columns = [] := List.isEmpty_iff.mp hempty
    rw [if_pos hempty]
    constructor
    · nofun
    · intro hs
      exact absurd hnil hs.columns
  · have hcolumns : s.columns ≠ [] := fun hnil => hempty (List.isEmpty_iff.mpr hnil)
    rw [if_neg hempty]
    show (checkColumns max [] s.columns >>= _) = _ ↔ _
    rw [bind_eq_ok_iff]
    constructor
    · rintro ⟨⟨⟩, hcheck, hkeys⟩
      obtain ⟨hnames, -, hsizes⟩ := checkColumns_eq_ok_iff.mp hcheck
      split at hkeys
      · cases hkeys
      · next hle => exact ⟨hcolumns, hnames, hsizes, Nat.le_of_not_lt hle⟩
    · intro hs
      refine ⟨(), checkColumns_eq_ok_iff.mpr ⟨hs.names, by simp, hs.sizes⟩, ?_⟩
      rw [if_neg (Nat.not_lt.mpr hs.primary)]
      rfl

/-- What is wrong with a column after columns with the names `earlier`: it repeats one of them, or
else it has strings of a size that is not from 1 to `max`. -/
inductive Column.Defect (max : Nat) (earlier : List String) (c : Column) : Error → Prop
  | name (hrepeat : c.name ∈ earlier) : c.Defect max earlier (.duplicateColumn c.name)
  | size {size : Nat} (hnew : c.name ∉ earlier) (hsize : size ∈ c.type.size?)
    (hbad : size = 0 ∨ max < size) : c.Defect max earlier (.varcharSize c.name size max)

namespace Schema

/-- The column at position `k` has a defect after the names `earlier` and those before it. -/
def DefectAt (max : Nat) (earlier : List String) (columns : List Column) (k : Nat)
    (error : Error) : Prop :=
  ∃ c, columns[k]? = some c ∧
    c.Defect max ((columns.take k).map (·.name) ++ earlier) error

/-- A schema that is not valid, with the error that says why: the lack of columns comes before the
first defect of a column, and the defects of the columns come before their primary keys. -/
inductive Invalid (s : Schema) (table : String) (max : Nat) : Error → Prop
  | columns (hcolumns : s.columns = []) : s.Invalid table max (.emptySchema table)
  | defect {k : Nat} {error : Error} (hdefect : DefectAt max [] s.columns k error)
    (hfirst : ∀ j < k, ∀ error', ¬DefectAt max [] s.columns j error') : s.Invalid table max error
  | primary (hcolumns : s.columns ≠ [])
    (hsound : ∀ k error, ¬DefectAt max [] s.columns k error)
    (hkeys : 1 < s.columns.countP (·.isPrimaryKey)) :
    s.Invalid table max (.multiplePrimaryKeys table)

section

variable {earlier : List String} {c : Column} {rest columns : List Column} {error : Error}

theorem checkColumns_cons_of_defect (h : c.Defect max earlier error) :
    checkColumns max earlier (c :: rest) = .error error := by
  rw [checkColumns]
  cases h with
  | name hrepeat => rw [if_pos hrepeat]
  | size hnew hsize hbad =>
    rw [if_neg hnew, Option.mem_def.mp hsize]
    exact if_pos hbad

theorem checkColumns_cons_of_sound (h : ∀ error, ¬c.Defect max earlier error) :
    checkColumns max earlier (c :: rest) = checkColumns max (c.name :: earlier) rest := by
  have hnew : c.name ∉ earlier := fun hrepeat => h _ (.name hrepeat)
  rw [checkColumns, if_neg hnew]
  split
  · next size hsize => exact if_neg fun hbad => h _ (.size hnew hsize hbad)
  · rfl

theorem defectAt_zero : DefectAt max earlier (c :: rest) 0 error ↔ c.Defect max earlier error := by
  simp [DefectAt]

theorem defectAt_succ {k : Nat} :
    DefectAt max earlier (c :: rest) (k + 1) error ↔
      DefectAt max (c.name :: earlier) rest k error := by
  -- the name of `c` is among the earlier ones on both sides, at different places
  have hcongr {names names' : List String} {c' : Column} (h : ∀ n, n ∈ names → n ∈ names')
      (h' : ∀ n, n ∈ names' → n ∈ names) (hdefect : c'.Defect max names error) :
      c'.Defect max names' error := by
    cases hdefect with
    | name hrepeat => exact .name (h _ hrepeat)
    | size hnew hsize hbad => exact .size (fun hmem => hnew (h' _ hmem)) hsize hbad
  unfold DefectAt
  simp only [List.getElem?_cons_succ, List.take_succ_cons, List.map_cons]
  refine exists_congr fun c' => and_congr_right fun _ => ⟨hcongr ?_ ?_, hcongr ?_ ?_⟩
  all_goals
    intro n
    simp only [List.cons_append, List.mem_cons, List.mem_append]
    tauto

/-- The check of the columns fails with the first defect in order. -/
theorem checkColumns_eq_error_iff :
    checkColumns max earlier columns = .error error ↔
      ∃ k, DefectAt max earlier columns k error ∧
        ∀ j < k, ∀ error', ¬DefectAt max earlier columns j error' := by
  induction columns generalizing earlier with
  | nil => simp [checkColumns, DefectAt]
  | cons c rest ih =>
    by_cases h : ∃ error', c.Defect max earlier error'
    · obtain ⟨error', hdefect⟩ := h
      have hcheck : checkColumns max earlier (c :: rest) = .error error' :=
        checkColumns_cons_of_defect hdefect
      constructor
      · intro herror
        obtain rfl := Except.error.inj (hcheck.symm.trans herror)
        exact ⟨0, defectAt_zero.mpr hdefect, nofun⟩
      · rintro ⟨k, hk, hfirst⟩
        cases k with
        | zero => exact checkColumns_cons_of_defect (defectAt_zero.mp hk)
        | succ k => exact absurd (defectAt_zero.mpr hdefect) (hfirst 0 k.succ_pos error')
    · have hsound := not_exists.mp h
      rw [checkColumns_cons_of_sound hsound, ih]
      constructor
      · rintro ⟨k, hk, hfirst⟩
        refine ⟨k + 1, defectAt_succ.mpr hk, fun j hj error' => ?_⟩
        cases j with
        | zero => exact mt defectAt_zero.mp (hsound error')
        | succ j => exact mt defectAt_succ.mp (hfirst j (Nat.lt_of_succ_lt_succ hj) error')
      · rintro ⟨k, hk, hfirst⟩
        cases k with
        | zero => exact absurd (defectAt_zero.mp hk) (hsound error)
        | succ k =>
          exact ⟨k, defectAt_succ.mp hk, fun j hj error' =>
            mt defectAt_succ.mpr (hfirst (j + 1) (Nat.succ_lt_succ hj) error')⟩

theorem checkColumns_eq_ok_iff_sound :
    checkColumns max earlier columns = .ok () ↔
      ∀ k error, ¬DefectAt max earlier columns k error := by
  constructor
  · intro hcheck k error hk
    -- a column with a defect would make the first such column the error of the check
    have hex : ∃ k error, DefectAt max earlier columns k error := ⟨k, error, hk⟩
    classical
    obtain ⟨error', hfirst⟩ := Nat.find_spec hex
    have herror := checkColumns_eq_error_iff.mpr
      ⟨_, hfirst, fun j hj => not_exists.mp (Nat.find_min hex hj)⟩
    rw [hcheck] at herror
    cases herror
  · intro hsound
    cases hcheck : checkColumns max earlier columns with
    | ok => rfl
    | error error =>
      obtain ⟨k, hk, -⟩ := checkColumns_eq_error_iff.mp hcheck
      exact absurd hk (hsound k error)

end

theorem validate_of_columns {table : String} (h : s.columns ≠ []) :
    s.validate table max = (do
      checkColumns max [] s.columns
      if 1 < s.columns.countP (·.isPrimaryKey) then
        throw (.multiplePrimaryKeys table)) := by
  have hempty : ¬s.isEmpty = true := fun hnil => h (List.isEmpty_iff.mp hnil)
  rw [validate, if_neg hempty]

theorem Invalid.validate_eq {table : String} {error : Error} (h : s.Invalid table max error) :
    s.validate table max = .error error := by
  cases h with
  | columns hcolumns =>
    have hempty : s.isEmpty = true := List.isEmpty_iff.mpr hcolumns
    rw [validate, if_pos hempty]
    rfl
  | defect hdefect hfirst =>
    have hcolumns : s.columns ≠ [] := by
      obtain ⟨c, hc, -⟩ := hdefect
      exact List.ne_nil_of_mem (List.mem_of_getElem? hc)
    rw [validate_of_columns hcolumns, checkColumns_eq_error_iff.mpr ⟨_, hdefect, hfirst⟩]
    rfl
  | primary hcolumns hsound hkeys =>
    rw [validate_of_columns hcolumns, checkColumns_eq_ok_iff_sound.mpr hsound]
    exact if_pos hkeys

theorem invalid_of_validate_eq {table : String} {error : Error}
    (h : s.validate table max = .error error) : s.Invalid table max error := by
  by_cases hcolumns : s.columns = []
  · rw [(Invalid.columns hcolumns).validate_eq] at h
    exact Except.error.inj h ▸ .columns hcolumns
  · rw [validate_of_columns hcolumns] at h
    obtain hcheck | ⟨⟨⟩, hcheck, hkeys⟩ := bind_eq_error_iff.mp h
    · obtain ⟨k, hk, hfirst⟩ := checkColumns_eq_error_iff.mp hcheck
      exact .defect hk hfirst
    · split at hkeys
      · next hlt =>
        exact Except.error.inj hkeys ▸
          .primary hcolumns (checkColumns_eq_ok_iff_sound.mp hcheck) hlt
      · cases hkeys

/-- Validation lets the valid schemas pass, and rejects each of the others with the error of what
comes first. -/
theorem validate_decides (s : Schema) (table : String) (max : Nat) :
    (s.validate table max = .ok () ↔ s.Valid max) ∧
      ∀ error, s.validate table max = .error error ↔ s.Invalid table max error :=
  ⟨validate_eq_ok_iff, fun _ => ⟨invalid_of_validate_eq, Invalid.validate_eq⟩⟩

end Schema

end Tabular
