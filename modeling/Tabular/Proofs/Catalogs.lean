import Tabular.Proofs.WellFormed

/-! Catalogs of well-formed tables. Such a catalog finds a table exactly where it stands, and it
stays well formed when a table without rows is registered, when a table is removed, and when a table
is replaced by a well-formed one of its name. -/

namespace Tabular

variable {c created rest : Catalog} {name other : String} {t after : Table} {schema : Schema}

theorem Table.wellFormed_create (name : String) (schema : Schema) :
    (Table.create name schema).WellFormed := by
  constructor
  · show List.Forall₂ (Store.Fits 0) schema.columns (schema.columns.map Store.ofColumn)
    rw [List.forall₂_map_right_iff, List.forall₂_same]
    exact fun c _ => ⟨rfl, rfl, rfl, by simp⟩
  · show List.Forall₂ Store.Distinct schema.columns (schema.columns.map Store.ofColumn)
    rw [List.forall₂_map_right_iff, List.forall₂_same]
    exact fun c _ _ => by simp

namespace Catalog

theorem mem_of_lookup? (h : c.lookup? name = some t) : (name, t) ∈ c.tables := mem_of_lookup h

theorem lookup?_eq_none_iff : c.lookup? name = none ↔ name ∉ c.names := by
  simp only [lookup?, names, List.lookup_eq_none_iff, List.mem_map, not_exists, not_and]
  constructor
  · intro h p hp hname
    simpa [hname] using h p hp
  · intro h p hp
    simpa using Ne.symm (h p hp)

theorem find_eq_ok_iff : c.find name = .ok t ↔ c.lookup? name = some t := by
  unfold find
  cases c.lookup? name <;> simp

theorem find_eq_error (h : c.lookup? name = none) : c.find name = .error (.unknownTable name) := by
  rw [find, h]

/-- Under its name the new table is found, if there was one before, and all others are left. -/
theorem lookup?_replace : (c.replace name after).lookup? other =
    if other = name then (c.lookup? name).map fun _ => after else c.lookup? other := by
  obtain ⟨tables⟩ := c
  induction tables with
  | nil => simp [lookup?, replace]
  | cons p tables ih =>
    obtain ⟨n, u⟩ := p
    simp only [lookup?, replace, List.map_cons, List.lookup_cons] at ih ⊢
    by_cases hn : n = name
    · by_cases ho : other = name
      · simp [hn, ho]
      · have hne : (other == name) = false := by simpa using ho
        simpa [hn, ho, hne, List.lookup_cons] using ih
    · have hne : (name == n) = false := by simpa using Ne.symm hn
      by_cases ho : other = n
      · simp [ho, hn]
      · have hne' : (other == n) = false := by simpa using ho
        simpa [hn, hne, hne', List.lookup_cons] using ih

theorem replace_replace : (c.replace name t).replace name after = c.replace name after := by
  simp only [replace, List.map_map]
  refine congrArg mk (List.map_congr_left fun p _ => ?_)
  by_cases hp : p.1 = name <;> simp [hp]

theorem lookup?_create (hc : c.create name schema = .ok created) : created.lookup? other =
    if other = name then some (Table.create name schema) else c.lookup? other := by
  unfold create at hc
  split at hc
  · cases hc
  · next hnone =>
    cases hc
    show (c.tables ++ [(name, Table.create name schema)]).lookup other = _
    have hlast : [(name, Table.create name schema)].lookup other =
        if other = name then some (Table.create name schema) else none := by
      by_cases ho : other = name
      · simp [ho]
      · have hne : (other == name) = false := by simpa using ho
        simp [List.lookup_cons, ho, hne]
    rw [List.lookup_append, hlast]
    by_cases ho : other = name
    · subst ho
      have hbefore : c.tables.lookup other = none := hnone
      simp [hbefore]
    · simp [ho, lookup?]

theorem lookup?_drop (hd : c.drop name = .ok (t, rest)) :
    rest.lookup? other = if other = name then none else c.lookup? other := by
  unfold drop at hd
  split at hd
  · cases hd
    show (c.tables.filter (·.1 != name)).lookup other =
      if other = name then none else c.tables.lookup other
    by_cases ho : other = name
    · rw [if_pos ho, ho, lookup_filter_self]
    · rw [if_neg ho, lookup_filter_of_ne ho]
  · cases hd

theorem names_replace : (c.replace name after).names = c.names := by
  simp only [names, replace, List.map_map]
  refine List.map_congr_left fun p _ => ?_
  by_cases hp : p.1 = name <;> simp [hp]

namespace WellFormed

theorem empty : Catalog.empty.WellFormed := ⟨.nil, nofun⟩

theorem of_lookup? (h : c.WellFormed) (ht : c.lookup? name = some t) :
    t.name = name ∧ t.WellFormed :=
  h.tables name t (mem_of_lookup? ht)

/-- A table is found under the name that it stands under. -/
theorem lookup?_eq_some_iff (h : c.WellFormed) :
    c.lookup? name = some t ↔ (name, t) ∈ c.tables :=
  lookup_eq_some_iff_mem h.names

theorem replace_self (h : c.WellFormed) (ht : c.lookup? name = some t) :
    c.replace name t = c := by
  refine congrArg Catalog.mk ((List.map_congr_left fun p hp => ?_).trans (List.map_id c.tables))
  obtain ⟨n, u⟩ := p
  by_cases hn : n = name
  · subst hn
    obtain rfl : u = t := Option.some.inj ((h.lookup?_eq_some_iff.mpr hp).symm.trans ht)
    exact if_pos rfl
  · exact if_neg hn

theorem replace (h : c.WellFormed) (hname : after.name = name) (hafter : after.WellFormed) :
    (c.replace name after).WellFormed := by
  refine ⟨names_replace.symm ▸ h.names, ?_⟩
  intro n u hmem
  obtain ⟨⟨m, v⟩, hp, heq⟩ := List.mem_map.mp hmem
  by_cases hm : m = name
  · simp only [if_pos hm, Prod.mk.injEq] at heq
    obtain ⟨rfl, rfl⟩ := heq
    exact ⟨hname.trans hm.symm, hafter⟩
  · simp only [if_neg hm, Prod.mk.injEq] at heq
    obtain ⟨rfl, rfl⟩ := heq
    exact h.tables _ _ hp

theorem create (h : c.WellFormed) (hc : c.create name schema = .ok created) :
    created.WellFormed := by
  unfold Catalog.create at hc
  split at hc
  · cases hc
  · next hnone =>
    cases hc
    constructor
    · show ((c.tables ++ [(name, Table.create name schema)]).map (·.1)).Nodup
      rw [List.map_append, List.nodup_append]
      refine ⟨h.names, by simp, ?_⟩
      intro n hn m hm hnm
      obtain rfl : m = name := by simpa using hm
      exact lookup?_eq_none_iff.mp hnone (hnm ▸ hn)
    · intro n u hmem
      rcases List.mem_append.mp hmem with hmem | hmem
      · exact h.tables n u hmem
      · obtain ⟨rfl, rfl⟩ : n = name ∧ u = Table.create name schema := by simpa using hmem
        exact ⟨rfl, Table.wellFormed_create n schema⟩

theorem drop (h : c.WellFormed) (hd : c.drop name = .ok (t, rest)) : rest.WellFormed := by
  unfold Catalog.drop at hd
  split at hd
  · cases hd
    constructor
    · exact h.names.sublist (List.filter_sublist.map _)
    · intro n u hmem
      exact h.tables n u (List.mem_filter.mp hmem).1
  · cases hd

end WellFormed

end Catalog

end Tabular
