import Tabular.Proofs.Reading

/-! The assignments of `UPDATE` statements: when they have targets in a schema, and what they make
of a row. Assignments to different places of a row all see the row as it was, so each decides the
value at its own place and the order among them does not matter. -/

namespace Tabular

section Targets

variable {s : Schema} {earlier : List Nat} {assignments : List Assignment}
  {targets : List (Nat × Expr)}

/-- The target is the column that the assignment names, with the assignment's expression, which is
in scope. -/
structure Assignment.Targets (s : Schema) (a : Assignment) (target : Nat × Expr) : Prop where
  column : s.index? a.column = some target.1
  value : target.2 = a.value
  scope : a.value.Scoped s

theorem Schema.index?_lt {name : String} {k : Nat} (h : s.index? name = some k) :
    k < s.columns.length :=
  (List.findIdx?_eq_some_iff_findIdx_eq.mp h).1

theorem Schema.targets_cons {a : Assignment} {rest : List Assignment} :
    s.targets earlier (a :: rest) = .ok targets ↔
      ∃ p found, a.Targets s p ∧ p.1 ∉ earlier ∧ s.targets (p.1 :: earlier) rest = .ok found ∧
        targets = p :: found := by
  rw [Schema.targets]
  cases hk : s.index? a.column with
  | none =>
    constructor
    · nofun
    · rintro ⟨p, _, hp, -⟩
      simp [hp.column] at hk
  | some k =>
    -- the only target that the assignment can have
    have honly : ∀ p, a.Targets s p → p = (k, a.value) := fun p hp =>
      Prod.ext (by simpa [hp.column] using hk) hp.value
    by_cases hmem : k ∈ earlier
    · simp only [hmem, if_true]
      constructor
      · nofun
      · rintro ⟨p, _, hp, hnew, -⟩
        obtain rfl := honly p hp
        exact absurd hmem hnew
    · simp only [hmem, if_false, bind_eq_ok_iff, pure, Except.pure, Except.ok.injEq]
      constructor
      · rintro ⟨⟨⟩, hscope, found, hfound, rfl⟩
        exact ⟨(k, a.value), found, ⟨hk, rfl, Expr.checkScope_eq_ok_iff.mp hscope⟩, hmem, hfound,
          rfl⟩
      · rintro ⟨p, found, hp, -, hfound, rfl⟩
        obtain rfl := honly p hp
        exact ⟨(), Expr.checkScope_eq_ok_iff.mpr hp.scope, found, hfound, rfl⟩

/-- Targets are found when each assignment has one and no column is written twice. -/
theorem Schema.targets_eq_ok_iff : s.targets earlier assignments = .ok targets ↔
    List.Forall₂ (Assignment.Targets s) assignments targets ∧
      (targets.map (·.1)).Nodup ∧ ∀ k ∈ targets.map (·.1), k ∉ earlier := by
  induction assignments generalizing earlier targets with
  | nil =>
    simp only [Schema.targets, Except.ok.injEq, List.forall₂_nil_left_iff]
    constructor
    · rintro rfl
      simp
    · exact fun h => h.1.symm
  | cons a rest ih =>
    simp only [targets_cons, ih, List.forall₂_cons_left_iff, List.mem_cons, not_or]
    constructor
    · rintro ⟨p, found, hp, hnew, ⟨hf, hnd, hrest⟩, rfl⟩
      rw [List.map_cons, List.nodup_cons, List.forall_mem_cons]
      exact ⟨⟨p, found, hp, hf, rfl⟩, ⟨fun hin => (hrest _ hin).1 rfl, hnd⟩, hnew,
        fun k hk => (hrest k hk).2⟩
    · rintro ⟨⟨p, found, hp, hf, rfl⟩, hnd, hnew⟩
      rw [List.map_cons, List.nodup_cons] at hnd
      rw [List.map_cons, List.forall_mem_cons] at hnew
      refine ⟨p, found, hp, hnew.1, ⟨hf, hnd.2, fun k hk => ⟨?_, hnew.2 k hk⟩⟩, rfl⟩
      rintro rfl
      exact hnd.1 hk

theorem Schema.lt_of_mem_targets (h : s.targets earlier assignments = .ok targets)
    {p : Nat × Expr} (hp : p ∈ targets) : p.1 < s.columns.length := by
  obtain ⟨hf, -⟩ := targets_eq_ok_iff.mp h
  obtain ⟨a, -, ha⟩ := exists_of_forall₂_of_mem hf hp
  exact index?_lt ha.column

end Targets

namespace Row

variable {r : Row} {target : Nat × Expr} {targets : List (Nat × Expr)} {values after : List Value}

/-- The value at place `k` of a row after assignments, where the row has had `v` there. -/
def assigned (r : Row) (targets : List (Nat × Expr)) (k : Nat) (v : Value) : Value :=
  match targets.find? (·.1 == k) with
  | some target => (target.2.eval r).toOption.getD v
  | none => v

theorem assigned_nil {k : Nat} : r.assigned [] k = id := rfl

theorem assigned_cons_of_ne {k : Nat} (h : target.1 ≠ k) :
    r.assigned (target :: targets) k = r.assigned targets k := by
  funext v
  simp [assigned, h]

theorem assignTo_eq_ok_iff (h : target.1 < values.length) : r.assignTo values target = .ok after ↔
    ∃ v, target.2.eval r = .ok v ∧ values.set target.1 v = after := by
  simp only [assignTo, bind_eq_ok_iff, lift_eq_ok_iff, lift_fault_eq_ok_iff, replace, if_pos h,
    Except.ok.injEq]

theorem noFault_assignTo (h : target.1 < values.length) : NoFault (r.assignTo values target) := by
  refine (NoFault.lift _).bind fun v _ => ?_
  rw [replace, if_pos h]
  exact .ok _

theorem noFault_foldlM_assignTo (h : ∀ p ∈ targets, p.1 < values.length) :
    NoFault (targets.foldlM r.assignTo values) := by
  induction targets generalizing values with
  | nil => exact .ok _
  | cons p rest ih =>
    rw [List.forall_mem_cons] at h
    rw [List.foldlM_cons]
    refine (noFault_assignTo h.1).bind fun next hnext => ih fun q hq => ?_
    obtain ⟨v, -, rfl⟩ := (assignTo_eq_ok_iff h.1).mp hnext
    rw [List.length_set]
    exact h.2 q hq

/-- Of assignments to different places each decides the value at its own. -/
theorem mapIdx_assigned_cons {v : Value} (hv : target.2.eval r = .ok v)
    (hnew : target.1 ∉ targets.map (·.1)) :
    values.mapIdx (r.assigned (target :: targets)) =
      (values.set target.1 v).mapIdx (r.assigned targets) := by
  refine List.ext_getElem? fun k => ?_
  rw [List.getElem?_mapIdx, List.getElem?_mapIdx, List.getElem?_set]
  by_cases hk : target.1 = k
  · -- no later assignment is to this place, so the value set here stays
    have hrest : targets.find? (·.1 == k) = none := by
      rw [List.find?_eq_none]
      intro p hp hpk
      exact hnew (List.mem_map.mpr ⟨p, hp, by simpa [hk] using hpk⟩)
    rw [if_pos hk]
    by_cases hlt : target.1 < values.length
    · simp [assigned, hk, hv, hrest, hk ▸ hlt, Except.toOption]
    · simp [hk, hk ▸ hlt]
  · rw [if_neg hk, assigned_cons_of_ne hk]

/-- Assignments to different places of a row succeed when each expression has a value, and then
they give these values to their places at once. -/
theorem foldlM_assignTo_eq_ok_iff (hlt : ∀ p ∈ targets, p.1 < values.length)
    (hnd : (targets.map (·.1)).Nodup) : targets.foldlM r.assignTo values = .ok after ↔
      (∀ p ∈ targets, ∃ v, p.2.eval r = .ok v) ∧ values.mapIdx (r.assigned targets) = after := by
  induction targets generalizing values with
  | nil =>
    have hsame : values.mapIdx (r.assigned []) = values := by
      refine List.ext_getElem? fun k => ?_
      simp [assigned_nil]
    simp [hsame, pure, Except.pure]
  | cons p rest ih =>
    rw [List.forall_mem_cons] at hlt
    rw [List.map_cons, List.nodup_cons] at hnd
    have hrest (v : Value) : rest.foldlM r.assignTo (values.set p.1 v) = .ok after ↔
        (∀ q ∈ rest, ∃ w, q.2.eval r = .ok w) ∧
          (values.set p.1 v).mapIdx (r.assigned rest) = after :=
      ih (fun q hq => by simpa using hlt.2 q hq) hnd.2
    rw [List.foldlM_cons, bind_eq_ok_iff, List.forall_mem_cons]
    constructor
    · rintro ⟨next, hnext, hafter⟩
      obtain ⟨v, hv, rfl⟩ := (assignTo_eq_ok_iff hlt.1).mp hnext
      obtain ⟨heval, rfl⟩ := (hrest v).mp hafter
      exact ⟨⟨⟨v, hv⟩, heval⟩, mapIdx_assigned_cons hv hnd.1⟩
    · rintro ⟨⟨⟨v, hv⟩, heval⟩, rfl⟩
      refine ⟨values.set p.1 v, (assignTo_eq_ok_iff hlt.1).mpr ⟨v, hv, rfl⟩, ?_⟩
      exact (hrest v).mpr ⟨heval, (mapIdx_assigned_cons hv hnd.1).symm⟩

theorem updates_cons {p : Row × Nat} {found : List (Row × Nat)}
    {updates : List (Nat × List Value)} : Row.updates targets (p :: found) = .ok updates ↔
      ∃ values rest, p.1.assign targets = .ok values ∧ Row.updates targets found = .ok rest ∧
        (p.2, values) :: rest = updates := by
  simp only [Row.updates, List.mapM_cons, bind_eq_ok_iff, pure, Except.pure, Except.ok.injEq]
  constructor
  · rintro ⟨-, ⟨values, hvalues, rfl⟩, rest, hrest, rfl⟩
    exact ⟨values, rest, hvalues, hrest, rfl⟩
  · rintro ⟨values, rest, hvalues, hrest, rfl⟩
    exact ⟨_, ⟨values, hvalues, rfl⟩, rest, hrest, rfl⟩

theorem updates_eq_ok_iff {found : List (Row × Nat)} {updates : List (Nat × List Value)}
    (hlt : ∀ p ∈ found, ∀ target ∈ targets, target.1 < p.1.values.length)
    (hnd : (targets.map (·.1)).Nodup) : Row.updates targets found = .ok updates ↔
      (∀ p ∈ found, ∀ target ∈ targets, ∃ v, target.2.eval p.1 = .ok v) ∧
        found.map (fun p => (p.2, p.1.values.mapIdx (p.1.assigned targets))) = updates := by
  induction found generalizing updates with
  | nil => simp [Row.updates, pure, Except.pure]
  | cons p rest ih =>
    rw [List.forall_mem_cons] at hlt
    simp only [updates_cons, ih hlt.2, assign, foldlM_assignTo_eq_ok_iff hlt.1 hnd,
      List.forall_mem_cons, List.map_cons]
    constructor
    · rintro ⟨-, -, ⟨hp, rfl⟩, ⟨hrest, rfl⟩, rfl⟩
      exact ⟨⟨hp, hrest⟩, rfl⟩
    · rintro ⟨⟨hp, hrest⟩, rfl⟩
      exact ⟨_, _, ⟨hp, rfl⟩, ⟨hrest, rfl⟩, rfl⟩

theorem noFault_updates {found : List (Row × Nat)}
    (h : ∀ p ∈ found, ∀ target ∈ targets, target.1 < p.1.values.length) :
    NoFault (Row.updates targets found) := by
  refine NoFault.mapM fun p hp => ?_
  exact (noFault_foldlM_assignTo (h p hp)).bind fun values _ => .ok _

end Row

end Tabular
