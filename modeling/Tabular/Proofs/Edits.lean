import Tabular.Proofs.Positions
import Tabular.Proofs.Writes

/-! Edits of well-formed tables. Adding a row, replacing rows that the table has and removing rows
are sound: they do not fault, they keep the table well formed, and when they fail they leave it as
it was. The results about their runs say also what rows they lead to. -/

namespace Tabular.Table

variable {t : Table}

/-- What a table may become: it has its name still, and it is well formed. -/
structure Keeps (t after : Table) : Prop where
  name : after.name = t.name
  wellFormed : after.WellFormed

theorem Keeps.refl (h : t.WellFormed) : t.Keeps t := ⟨rfl, h⟩

theorem Edit.run_writeStores {write : List Store → Except Fault (List Store)} {stores : List Store}
    (h : write t.stores = .ok stores) :
    (writeStores write).run.run t = (.ok (), { t with stores }) := by
  unfold writeStores
  rw [run_bind_ok (run_get t), h, run_bind_ok (run_lift_fault _ t)]
  rfl

theorem Edit.run_writeStores_error {write : List Store → Except Fault (List Store)} {f : Fault}
    (h : write t.stores = .error f) :
    (writeStores write).run.run t = (.error (.fault f), t) := by
  unfold writeStores
  rw [run_bind_ok (run_get t), h, run_bind_error (run_lift_fault _ t)]

theorem Edit.run_writeRows_cons {i : Nat} {values : List Value} {rest : List (Nat × List Value)}
    {stores : List Store} (h : writeAll (·.set i ·) t.stores values = .ok stores) :
    (writeRows ((i, values) :: rest)).run.run t = (writeRows rest).run.run { t with stores } :=
  run_bind_ok (run_writeStores h)

/-- The table has the positions of the updates. Where there is no column nothing is written, so any
position will do there. -/
def Reaches (t : Table) (updates : List (Nat × List Value)) : Prop :=
  t.schema.columns = [] ∨ ∀ u ∈ updates, u.1 < t.rowCount

/-- Rows that the columns admit can be written at positions that the table has. -/
theorem Edit.run_writeRows {updates : List (Nat × List Value)}
    (hs : List.Forall₂ (Store.Fits t.rowCount) t.schema.columns t.stores)
    (hpos : t.Reaches updates)
    (hadmits : ∀ u ∈ updates,
      List.Forall₂ (fun c v => c.type.admits v = true) t.schema.columns u.2) :
    ∃ stores, (writeRows updates).run.run t = (.ok (), { t with stores }) ∧
      List.Forall₂ (Store.Fits t.rowCount) t.schema.columns stores ∧
      ∀ i < t.rowCount, Store.across stores i = rowAfter t.stores updates i := by
  induction updates generalizing t with
  | nil => exact ⟨t.stores, rfl, hs, fun _ _ => rfl⟩
  | cons u rest ih =>
    obtain ⟨i, values⟩ := u
    rw [List.forall_mem_cons] at hadmits
    rw [Reaches, List.forall_mem_cons] at hpos
    obtain ⟨stores₁, hwrite, hs₁⟩ := setAll_ok hs (hpos.imp_right And.left) hadmits.1
    have hlen : t.stores.length = values.length := hs.length_eq.symm.trans hadmits.1.length_eq
    obtain ⟨stores, hrun, hs', hacross⟩ :=
      ih (t := { t with stores := stores₁ }) hs₁ (hpos.imp_right And.right) hadmits.2
    refine ⟨stores, (run_writeRows_cons hwrite).trans hrun, hs', fun j hj => ?_⟩
    rw [hacross j hj, ← rowAfter_cons (across_setAll hs hwrite hlen hj)]

/-- A position that the table does not have is a fault. What was listed before it has been written
by then. -/
theorem Edit.run_writeRows_outside {updates : List (Nat × List Value)}
    (hs : List.Forall₂ (Store.Fits t.rowCount) t.schema.columns t.stores)
    (hpos : ¬t.Reaches updates)
    (hadmits : ∀ u ∈ updates,
      List.Forall₂ (fun c v => c.type.admits v = true) t.schema.columns u.2) :
    ∃ after, (writeRows updates).run.run t = (.error (.fault .outOfRange), after) := by
  induction updates generalizing t with
  | nil => exact absurd (.inr (List.forall_mem_nil _)) hpos
  | cons u rest ih =>
    obtain ⟨i, values⟩ := u
    rw [List.forall_mem_cons] at hadmits
    rw [Reaches, List.forall_mem_cons, not_or, not_and] at hpos
    obtain ⟨hne, hrest⟩ := hpos
    by_cases hi : i < t.rowCount
    · obtain ⟨stores, hwrite, hs'⟩ := setAll_ok hs (.inr hi) hadmits.1
      obtain ⟨after, hrun⟩ := ih (t := { t with stores }) hs' (not_or.mpr ⟨hne, hrest hi⟩) hadmits.2
      exact ⟨after, (run_writeRows_cons hwrite).trans hrun⟩
    · have hwrite := setAll_outside hs hne (Nat.not_lt.mp hi) hadmits.1
      exact ⟨t, run_bind_error (run_writeStores_error hwrite)⟩

/-- A row that passes the checks is added after the others. -/
theorem Edit.run_insert {values : List Value} (h : t.WellFormed)
    (hrow : t.schema.checkRow values = .ok ())
    (hnew : checkNew t.schema.columns t.stores values = .ok ()) :
    ∃ after, (insert values).run.run t = (.ok (), after) ∧ after.WellFormed ∧
      after.name = t.name ∧ after.schema = t.schema ∧ after.rowCount = t.rowCount + 1 ∧
      after.contents = t.contents ++ [⟨t.schema.names.zip values⟩] := by
  have hadmits := Schema.checkRow_eq_ok_iff.mp hrow
  have hlen : t.stores.length = values.length := h.fits.length_eq.symm.trans hadmits.length_eq
  obtain ⟨stores, hpush, hs⟩ := pushAll_ok h.fits hadmits
  refine ⟨{ t with stores, rowCount := t.rowCount + 1 }, ?_,
    ⟨hs, distinct_pushAll h.distinct hnew hpush hlen⟩, rfl, rfl, rfl, ?_⟩
  · unfold insert
    rw [run_bind_ok (run_get t), hrow, run_bind_ok (run_lift_error _ t), hnew,
      run_bind_ok (run_lift_error _ t), run_bind_ok (run_writeStores hpush)]
    rfl
  · rw [contents, contents, List.range_succ, List.map_append, List.map_singleton]
    congr 1
    · refine List.map_congr_left fun i hi => ?_
      rw [row, row, across_pushAll_of_lt h.fits hpush (List.mem_range.mp hi)]
    · rw [row, across_pushAll_last h.fits hpush hlen]

theorem Edit.run_insert_refused {values : List Value}
    (h : ¬(t.schema.checkRow values = .ok () ∧
      checkNew t.schema.columns t.stores values = .ok ())) :
    ∃ e, (insert values).run.run t = (.error (.error e), t) := by
  unfold insert
  rw [run_bind_ok (run_get t)]
  cases hrow : t.schema.checkRow values with
  | error e => exact ⟨e, run_bind_error (run_lift_error _ t)⟩
  | ok _ =>
    rw [run_bind_ok (run_lift_error _ t)]
    cases hnew : checkNew t.schema.columns t.stores values with
    | error e => exact ⟨e, run_bind_error (run_lift_error _ t)⟩
    | ok _ => exact absurd ⟨hrow, hnew⟩ h

theorem Edit.sound_insert (h : t.WellFormed) (values : List Value) :
    Sound t.Keeps id (insert values) t := by
  by_cases hc : t.schema.checkRow values = .ok () ∧
      checkNew t.schema.columns t.stores values = .ok ()
  · obtain ⟨after, hrun, hafter, hname, -⟩ := run_insert h hc.1 hc.2
    exact .ok hrun ⟨hname, hafter⟩
  · obtain ⟨e, hrun⟩ := run_insert_refused hc
    exact .error (.refl h) hrun

/-- The updates write rows that the columns admit, and once all of them are written no two rows
share a value of a unique column. -/
structure Accepts (t : Table) (updates : List (Nat × List Value)) : Prop where
  admits : ∀ u ∈ updates,
    List.Forall₂ (fun c v => c.type.admits v = true) t.schema.columns u.2
  distinct : ∀ (k : Nat) (c : Column), t.schema.columns[k]? = some c → c.isUnique = true →
    ((List.range t.rowCount).filterMap fun i => (rowAfter t.stores updates i)[k]?).Nodup

theorem checkRows_eq_ok_iff {s : Schema} {updates : List (Nat × List Value)} :
    checkRows s updates = .ok () ↔
      ∀ u ∈ updates, List.Forall₂ (fun c v => c.type.admits v = true) s.columns u.2 := by
  simp only [checkRows, forM_eq_ok_iff, Schema.checkRow_eq_ok_iff]

/-- After rows that the columns admit, the check of unique columns is the rest of `Accepts`. -/
theorem WellFormed.checkAfter_spec {updates : List (Nat × List Value)} (h : t.WellFormed)
    (hadmits : ∀ u ∈ updates,
      List.Forall₂ (fun c v => c.type.admits v = true) t.schema.columns u.2) :
    NoFault (checkAfter t.rowCount updates 0 t.schema.columns t.stores) ∧
      (checkAfter t.rowCount updates 0 t.schema.columns t.stores = .ok () ↔ t.Accepts updates) := by
  have hcol : ∀ p ∈ t.stores.zipIdx, columnAfter t.rowCount p.2 p.1 updates =
      .ok ((List.range t.rowCount).filterMap fun i => (rowAfter t.stores updates i)[p.2]?) :=
    fun p hp => columnAfter_eq h.fits (fun u hu => (hadmits u hu).length_eq.symm)
      (List.mem_zipIdx_iff_getElem?.mp hp)
  obtain ⟨hfault, hok⟩ := Table.checkAfter_spec (fun k =>
    (List.range t.rowCount).filterMap fun i => (rowAfter t.stores updates i)[k]?)
    h.fits.length_eq hcol
  refine ⟨hfault, hok.trans ?_⟩
  constructor
  · intro hd
    exact ⟨hadmits, fun k c hc => hd (c, k) (List.mem_zipIdx_iff_getElem?.mpr hc)⟩
  · intro ha p hp
    exact ha.distinct p.2 p.1 (List.mem_zipIdx_iff_getElem?.mp hp)

/-- An update that is accepted writes its rows. -/
theorem Edit.run_update_accepted {updates : List (Nat × List Value)} (h : t.WellFormed)
    (ha : t.Accepts updates) : (update updates).run.run t =
      ((fun _ => updates.length) <$> ((writeRows updates).run.run t).1,
        ((writeRows updates).run.run t).2) := by
  unfold update
  rw [run_bind_ok (run_get t), checkRows_eq_ok_iff.mpr ha.admits,
    run_bind_ok (run_lift_error _ t), (h.checkAfter_spec ha.admits).2.mpr ha,
    run_bind_ok (run_lift _ t), bind_pure_comp, run_map]

/-- Accepted updates at positions that the table has replace their rows, all at once. -/
theorem Edit.run_update {updates : List (Nat × List Value)} (h : t.WellFormed)
    (hpos : t.Reaches updates) (ha : t.Accepts updates) :
    ∃ stores, (update updates).run.run t = (.ok updates.length, { t with stores }) ∧
      { t with stores : Table }.WellFormed ∧
      ∀ i < t.rowCount, Store.across stores i = rowAfter t.stores updates i := by
  obtain ⟨stores, hrun, hs, hacross⟩ := run_writeRows h.fits hpos ha.admits
  refine ⟨stores, ?_, ⟨hs, ?_⟩, hacross⟩
  · rw [run_update_accepted h ha, hrun]
    rfl
  · refine forall₂_of_getElem? hs.length_eq fun k c s hc hk hu => ?_
    rw [Store.values_eq hs hk, List.filterMap_congr fun i hi => by
      rw [hacross i (List.mem_range.mp hi)]]
    exact ha.distinct k c hc hu

theorem Edit.run_update_outside {updates : List (Nat × List Value)} (h : t.WellFormed)
    (hpos : ¬t.Reaches updates) (ha : t.Accepts updates) :
    ∃ after, (update updates).run.run t = (.error (.fault .outOfRange), after) := by
  obtain ⟨after, hrun⟩ := run_writeRows_outside h.fits hpos ha.admits
  refine ⟨after, ?_⟩
  rw [run_update_accepted h ha, hrun]
  rfl

theorem Edit.run_update_refused {updates : List (Nat × List Value)} (h : t.WellFormed)
    (ha : ¬t.Accepts updates) : ∃ e, (update updates).run.run t = (.error (.error e), t) := by
  unfold update
  rw [run_bind_ok (run_get t)]
  cases hrows : checkRows t.schema updates with
  | error e => exact ⟨e, run_bind_error (run_lift_error _ t)⟩
  | ok u =>
    obtain ⟨hfault, hok⟩ := h.checkAfter_spec (checkRows_eq_ok_iff.mp hrows)
    rw [run_bind_ok (run_lift_error _ t)]
    obtain ⟨⟨⟩, hafter⟩ | ⟨e, hafter⟩ := hfault.cases
    · exact absurd (hok.mp hafter) ha
    · rw [hafter]
      exact ⟨e, run_bind_error (run_lift _ t)⟩

theorem Edit.sound_update {updates : List (Nat × List Value)} (h : t.WellFormed)
    (hpos : t.Reaches updates) : Sound t.Keeps id (update updates) t := by
  by_cases ha : t.Accepts updates
  · obtain ⟨stores, hrun, hafter, -⟩ := run_update h hpos ha
    exact .ok hrun ⟨rfl, hafter⟩
  · obtain ⟨e, hrun⟩ := run_update_refused h ha
    exact .error (.refl h) hrun

theorem mapM_ok_of_forall₂ {P R : Column → Store → Prop} {f : Store → Except Fault Store}
    {columns : List Column} {stores : List Store} (hs : List.Forall₂ P columns stores)
    (hf : ∀ c s, P c s → ∃ s', f s = .ok s' ∧ R c s') :
    ∃ stores', stores.mapM f = .ok stores' ∧ List.Forall₂ R columns stores' := by
  induction hs with
  | nil => exact ⟨[], rfl, .nil⟩
  | cons hp _ ih =>
    obtain ⟨s', hs', hr⟩ := hf _ _ hp
    obtain ⟨stores', hstores, hrs⟩ := ih
    refine ⟨s' :: stores', ?_, .cons hr hrs⟩
    rw [List.mapM_cons, hs', hstores]
    rfl

theorem WellFormed.delete_ok (h : t.WellFormed) (positions : List Nat) :
    ∃ after, t.delete positions = .ok ((t.doomed positions).length, after) ∧
      after.name = t.name ∧ after.WellFormed := by
  have hboth : List.Forall₂ (fun c s => s.Fits t.rowCount c ∧ s.Distinct c)
      t.schema.columns t.stores := forall₂_and h.fits h.distinct
  obtain ⟨stores, hremove, hs⟩ := mapM_ok_of_forall₂ (f := (·.remove (t.doomed positions)))
    (R := fun c s => s.Fits (t.rowCount - (t.doomed positions).length) c ∧ s.Distinct c) hboth
    fun c s ⟨hfits, hd⟩ => by
      obtain ⟨s', hs', hfits', hsub⟩ := hfits.remove (pairwise_doomed t positions) fun i hi =>
        (mem_doomed_iff.mp hi).1
      exact ⟨s', hs', hfits', fun hu => hsub.nodup (hd hu)⟩
  refine ⟨{ t with stores, rowCount := t.rowCount - (t.doomed positions).length }, ?_, rfl,
    hs.imp fun _ _ h => h.1, hs.imp fun _ _ h => h.2⟩
  show (t.stores.mapM (·.remove (t.doomed positions)) >>= _) = _
  rw [hremove]
  rfl

theorem Edit.run_delete {positions : List Nat} {n : Nat} {after : Table}
    (h : t.delete positions = .ok (n, after)) :
    (delete positions).run.run t = (.ok n, after) := by
  unfold delete
  rw [run_bind_ok (run_get t), h, run_bind_ok (run_lift_fault _ t)]
  rfl

theorem Edit.sound_delete (h : t.WellFormed) (positions : List Nat) :
    Sound t.Keeps id (delete positions) t := by
  obtain ⟨after, hdelete, hname, hafter⟩ := h.delete_ok positions
  exact .ok (run_delete hdelete) ⟨hname, hafter⟩

end Tabular.Table
