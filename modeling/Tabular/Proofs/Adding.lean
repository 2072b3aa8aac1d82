import Tabular.Proofs.Answers
import Tabular.Proofs.Building

/-! Adding rows one after another. A row can be added when the columns admit its values and it
differs from the rows of the table in every unique column. Rows that are all added differ from one
another in the same way. Their order is no part of that, so rows that can be added in one order can
be added in any other. -/

namespace Tabular

theorem Schema.Apart.symm {s : Schema} {a b : List Value} (h : s.Apart a b) : s.Apart b a :=
  fun k c v hc hu hb ha => h k c v hc hu ha hb

theorem Schema.Admits.values_zip {s : Schema} {values : List Value} (h : s.Admits values) :
    (⟨s.names.zip values⟩ : Row).values = values := by
  refine List.map_snd_zip (Nat.le_of_eq ?_)
  rw [names, List.length_map, h.length_eq]

namespace Table

variable {t between after : Table} {values : List Value} {batch batch' : List (List Value)}

/-- The rows of a table differ from one another in every unique column. -/
theorem WellFormed.pairwise_apart (h : t.WellFormed) :
    (t.contents.map (·.values)).Pairwise t.schema.Apart := by
  rw [List.pairwise_iff_getElem]
  intro i j hi hj hij k c v hc hu hvi hvj
  have hnodup := List.nodup_iff_pairwise_ne.mp (h.nodup_column hc hu)
  simp only [List.length_map, List.getElem_map] at hi hj hvi hvj
  refine List.pairwise_iff_getElem.mp hnodup i j (by simpa using hi) (by simpa using hj) hij ?_
  simp [hvi, hvj]

theorem Edit.on_eq_ok_iff {α : Type} {edit : Edit α} {a : α} :
    edit.on t = .ok (a, after) ↔ edit.run.run t = (.ok a, after) := by
  unfold on
  cases edit.run.run t with
  | mk result s =>
    cases result with
    | error e => constructor <;> nofun
    | ok b =>
      constructor <;> intro h
      · cases h
        rfl
      · cases h
        rfl

theorem insert_eq_ok_iff :
    t.insert values = .ok after ↔ (Edit.insert values).run.run t = (.ok (), after) := by
  rw [← Edit.on_eq_ok_iff, insert, bind_eq_ok_iff]
  constructor
  · rintro ⟨⟨⟨⟩, s⟩, hon, hpure⟩
    cases hpure
    exact hon
  · intro hon
    exact ⟨((), after), hon, rfl⟩

/-- The table with rows of these values at its end. -/
structure Extended (t : Table) (batch : List (List Value)) (after : Table) : Prop where
  wellFormed : after.WellFormed
  name : after.name = t.name
  schema : after.schema = t.schema
  rowCount : after.rowCount = t.rowCount + batch.length
  contents : after.contents = t.contents ++ batch.map fun values => ⟨t.schema.names.zip values⟩

theorem Extended.refl (h : t.WellFormed) : t.Extended [] t :=
  ⟨h, rfl, rfl, rfl, (List.append_nil _).symm⟩

theorem Extended.cons (h : t.Extended [values] between) (hrest : between.Extended batch after) :
    t.Extended (values :: batch) after := by
  refine ⟨hrest.wellFormed, hrest.name.trans h.name, hrest.schema.trans h.schema, ?_, ?_⟩
  · rw [hrest.rowCount, h.rowCount, List.length_singleton, List.length_cons]
    omega
  · rw [hrest.contents, h.contents, h.schema, List.append_assoc]
    rfl

theorem map_values_zip {s : Schema} (hadmits : ∀ values ∈ batch, s.Admits values) :
    (batch.map fun values => (⟨s.names.zip values⟩ : Row)).map (·.values) = batch := by
  rw [List.map_map]
  conv_rhs => rw [← List.map_id batch]
  exact List.map_congr_left fun values hv => (hadmits values hv).values_zip

theorem Extended.map_values (h : t.Extended batch after)
    (hadmits : ∀ values ∈ batch, t.schema.Admits values) :
    after.contents.map (·.values) = t.contents.map (·.values) ++ batch := by
  rw [h.contents, List.map_append, map_values_zip hadmits]

/-- A row can be added when the columns admit its values and no row of the table has one of them in
a unique column. -/
theorem WellFormed.exists_insert_iff (h : t.WellFormed) :
    (∃ after, t.insert values = .ok after) ↔
      t.schema.Admits values ∧ ∀ r ∈ t.contents, t.schema.Apart r.values values := by
  have hchecks : t.schema.checkRow values = .ok () ∧
      checkNew t.schema.columns t.stores values = .ok () ↔
      t.schema.Admits values ∧ ∀ r ∈ t.contents, t.schema.Apart r.values values :=
    and_congr Schema.checkRow_eq_ok_iff h.checkNew_eq_ok_iff
  simp only [← hchecks, insert_eq_ok_iff]
  constructor
  · rintro ⟨after, hok⟩
    by_contra hnot
    obtain ⟨e, hrun⟩ := Edit.run_insert_refused hnot
    rw [hrun] at hok
    cases hok
  · rintro ⟨hrow, hnew⟩
    obtain ⟨after, hrun, -⟩ := Edit.run_insert h hrow hnew
    exact ⟨after, hrun⟩

theorem WellFormed.extended_of_insert (h : t.WellFormed) (hok : t.insert values = .ok after) :
    t.Extended [values] after := by
  obtain ⟨hadmits, hapart⟩ := h.exists_insert_iff.mp ⟨after, hok⟩
  obtain ⟨after', hrun, hwf, hname, hschema, hcount, hcontents⟩ :=
    Edit.run_insert h (Schema.checkRow_eq_ok_iff.mpr hadmits) (h.checkNew_eq_ok_iff.mpr hapart)
  obtain rfl : after' = after := Except.ok.inj ((insert_eq_ok_iff.mpr hrun).symm.trans hok)
  exact ⟨hwf, hname, hschema, hcount, hcontents⟩

theorem WellFormed.extended_of_foldlM (h : t.WellFormed) (hok : batch.foldlM insert t = .ok after) :
    t.Extended batch after := by
  induction batch generalizing t with
  | nil =>
    cases hok
    exact .refl h
  | cons values rest ih =>
    rw [List.foldlM_cons] at hok
    obtain ⟨between, hinsert, hrest⟩ := bind_eq_ok_iff.mp hok
    have hone := h.extended_of_insert hinsert
    exact hone.cons (ih hone.wellFormed hrest)

/-- Rows can be added one after another when the columns admit their values and no two rows, old or
new, have the same one in a unique column. -/
theorem WellFormed.exists_foldlM_iff (h : t.WellFormed) :
    (∃ after, batch.foldlM insert t = .ok after) ↔
      (∀ values ∈ batch, t.schema.Admits values) ∧
        (t.contents.map (·.values) ++ batch).Pairwise t.schema.Apart := by
  induction batch generalizing t with
  | nil =>
    rw [List.append_nil]
    exact iff_of_true ⟨t, rfl⟩ ⟨List.forall_mem_nil _, h.pairwise_apart⟩
  | cons values rest ih =>
    -- after the first row the others are judged on a table that has it at its end
    have hnext {between : Table} (hinsert : t.insert values = .ok between) :
        (∃ after, rest.foldlM insert between = .ok after) ↔
          (∀ values ∈ rest, t.schema.Admits values) ∧
            (t.contents.map (·.values) ++ values :: rest).Pairwise t.schema.Apart := by
      have hone := h.extended_of_insert hinsert
      have hadmits := (h.exists_insert_iff.mp ⟨between, hinsert⟩).1
      rw [ih hone.wellFormed, hone.map_values (List.forall_mem_singleton.mpr hadmits), hone.schema,
        List.append_assoc, List.singleton_append]
    simp only [List.foldlM_cons, bind_eq_ok_iff, List.forall_mem_cons]
    constructor
    · rintro ⟨after, between, hinsert, hrest⟩
      obtain ⟨hadmits, hapart⟩ := (hnext hinsert).mp ⟨after, hrest⟩
      exact ⟨⟨(h.exists_insert_iff.mp ⟨between, hinsert⟩).1, hadmits⟩, hapart⟩
    · rintro ⟨⟨hfirst, hadmits⟩, hapart⟩
      have hold : ∀ r ∈ t.contents, t.schema.Apart r.values values := fun r hr =>
        (List.pairwise_append.mp hapart).2.2 _ (List.mem_map_of_mem hr) _ List.mem_cons_self
      obtain ⟨between, hinsert⟩ := h.exists_insert_iff.mpr ⟨hfirst, hold⟩
      obtain ⟨after, hrest⟩ := (hnext hinsert).mpr ⟨hadmits, hapart⟩
      exact ⟨after, between, hinsert, hrest⟩

/-- Rows that can be added in one order can be added in every other. -/
theorem WellFormed.exists_foldlM_of_perm (h : t.WellFormed) (hp : batch'.Perm batch)
    (hok : ∃ after, batch.foldlM insert t = .ok after) :
    ∃ after, batch'.foldlM insert t = .ok after := by
  obtain ⟨hadmits, hapart⟩ := h.exists_foldlM_iff.mp hok
  refine h.exists_foldlM_iff.mpr ⟨fun values hv => hadmits values (hp.mem_iff.mp hv), ?_⟩
  exact ((hp.append_left _).pairwise_iff Schema.Apart.symm).mpr hapart

/-- Rows can all be added one after another in one order exactly when they can be in every order,
and then, whatever the order, the same rows stand after those that were there before. -/
theorem Built.insert_perm (h : t.Built) (batch : List (List Value)) :
    ((∃ after, batch.foldlM Table.insert t = .ok after) ↔
      ∀ batch' : List (List Value), batch'.Perm batch →
        ∃ after, batch'.foldlM Table.insert t = .ok after) ∧
    ∀ (batch' : List (List Value)) (after after' : Table), batch'.Perm batch →
      batch.foldlM Table.insert t = .ok after → batch'.foldlM Table.insert t = .ok after' →
        ∃ old new new', t.rows = .ok old ∧ after.rows = .ok (old ++ new) ∧
          after'.rows = .ok (old ++ new') ∧ new'.Perm new ∧
            new.map (·.values) = batch ∧ new'.map (·.values) = batch' := by
  have hwf := h.wellFormed
  refine ⟨⟨fun hok batch' hp => hwf.exists_foldlM_of_perm hp hok, fun hall => hall batch (.refl _)⟩,
    fun batch' after after' hp hok hok' => ?_⟩
  have hextended := hwf.extended_of_foldlM hok
  have hextended' := hwf.extended_of_foldlM hok'
  obtain ⟨hadmits, -⟩ := hwf.exists_foldlM_iff.mp ⟨after, hok⟩
  obtain ⟨hadmits', -⟩ := hwf.exists_foldlM_iff.mp ⟨after', hok'⟩
  exact ⟨t.contents, _, _, hwf.rows_eq,
    hextended.wellFormed.rows_eq.trans (congrArg _ hextended.contents),
    hextended'.wellFormed.rows_eq.trans (congrArg _ hextended'.contents),
    hp.map _, map_values_zip hadmits, map_values_zip hadmits'⟩

/-- Two more users come in either order. -/
theorem insert_perm_users :
    let batch : List (List Value) :=
      [[.number 4, .string "Zoe"], [.number 5, .string "Amy"]]
    ∃ after after' old new new', batch.foldlM Table.insert users = .ok after ∧
      batch.reverse.foldlM Table.insert users = .ok after' ∧ after.rows = .ok (old ++ new) ∧
        after'.rows = .ok (old ++ new') ∧ new'.Perm new ∧ new'.map (·.values) = batch.reverse := by
  intro batch
  have hp : batch.reverse.Perm batch := List.reverse_perm batch
  have hok : batch.foldlM Table.insert users =
      .ok (batch.foldl (fun t values => ((Edit.insert values).run.run t).2) users) := by
    decide +kernel
  obtain ⟨hiff, hrows⟩ := built_users.insert_perm batch
  obtain ⟨after', hok'⟩ := hiff.mp ⟨_, hok⟩ batch.reverse hp
  obtain ⟨old, new, new', -, hafter, hafter', hperm, -, hvalues⟩ :=
    hrows batch.reverse _ after' hp hok hok'
  exact ⟨_, after', old, new, new', hok, hok', hafter, hafter', hperm, hvalues⟩

end Table

end Tabular
