import Tabular.Engine.Run
import Tabular.Proofs.Catalogs
import Tabular.Proofs.Updating

/-! Statements on well-formed sessions. Each kind of statement is sound: it does not fault, it keeps
the catalog well formed, and when it fails it leaves the catalog as it was. From this the same is
said of what a database makes of a statement, and by induction of runs. -/

namespace Tabular

/-- The tables of the session are well formed. -/
def Session.WellFormed (session : Session) : Prop := session.catalog.WellFormed

variable {session : Session} {name : String} {t : Table} {edit : Table.Edit Nat}

theorem InsertRow.sound_apply (q : InsertRow) (h : t.WellFormed) : Sound t.Keeps id q.apply t := by
  unfold apply
  refine .get_bind (.check_bind (.refl h) fun values _ => ?_)
  rw [bind_pure_comp]
  exact (Table.Edit.sound_insert h values).map fun _ => 1

theorem Delete.sound_apply (q : Delete) (h : t.WellFormed) : Sound t.Keeps id q.apply t := by
  unfold apply
  refine .get_bind (.check_bind (.refl h) fun _ _ => ?_)
  exact .lift_bind (.refl h) h.noFault_matching fun found _ => Table.Edit.sound_delete h _

namespace Action

theorem run_table (ht : session.catalog.lookup? name = some t) :
    (table name).run.run session = (.ok t, session) := by
  show (liftM (session.catalog.find name) : Action Table).run.run session = _
  rw [Catalog.find_eq_ok_iff.mpr ht]
  rfl

theorem run_table_missing (h : session.catalog.lookup? name = none) :
    (table name).run.run session = (.error (.error (.unknownTable name)), session) := by
  show (liftM (session.catalog.find name) : Action Table).run.run session = _
  rw [Catalog.find_eq_error h]
  rfl

/-- A table is changed where it stands, into what the edit leaves behind. -/
theorem run_change (ht : session.catalog.lookup? name = some t) :
    (change name edit).run.run session = ((edit.run.run t).1,
      { session with catalog := session.catalog.replace name (edit.run.run t).2 }) := by
  unfold change
  rw [run_bind_ok (run_table ht)]
  rcases edit.run.run t with ⟨_ | _, _⟩ <;> rfl

theorem run_change_missing (h : session.catalog.lookup? name = none) :
    (change name edit).run.run session = (.error (.error (.unknownTable name)), session) := by
  unfold change
  exact run_bind_error (run_table_missing h)

/-- A sound edit of the table makes a sound change of the catalog. -/
theorem sound_change (h : session.WellFormed)
    (hedit : ∀ t, t.WellFormed → Sound t.Keeps id edit t) :
    Sound Session.WellFormed Session.catalog (change name edit) session := by
  cases ht : session.catalog.lookup? name with
  | none => exact .error h (run_change_missing ht)
  | some t =>
    obtain ⟨hname, hwf⟩ := h.of_lookup? ht
    have hsound := hedit t hwf
    constructor <;> rw [run_change ht]
    · exact hsound.noFault
    · exact h.replace (hsound.holds.name.trans hname) hsound.holds.wellFormed
    · -- the failed edit has left its table as it was, so what is put back is what was taken
      intro e he
      have hsame : (edit.run.run t).2 = t := hsound.unchanged e he
      simp only [hsame]
      exact h.replace_self ht

end Action

theorem CreateTable.run_run_taken {q : CreateTable} {t : Table} (config : Config)
    (ht : session.catalog.lookup? q.table = some t) :
    (q.run config).run.run session = (.error (.error (.tableAlreadyExists q.table)), session) := by
  unfold run
  rw [run_bind_ok (run_get session)]
  dsimp only
  rw [if_pos (by rw [ht]; rfl)]
  rfl

theorem CreateTable.run_run_refused {q : CreateTable} {config : Config} {e : Error}
    (ht : session.catalog.lookup? q.table = none)
    (he : Schema.validate ⟨q.columns⟩ q.table config.maxVarcharSize = .error e) :
    (q.run config).run.run session = (.error (.error e), session) := by
  unfold run
  rw [run_bind_ok (run_get session)]
  dsimp only
  rw [if_neg (by simp [ht]), he]
  rfl

theorem CreateTable.run_run {q : CreateTable} {config : Config}
    (ht : session.catalog.lookup? q.table = none)
    (hvalid : Schema.validate ⟨q.columns⟩ q.table config.maxVarcharSize = .ok ()) :
    ((q.run config).run.run session).1 = .ok (.created q.table) ∧
      session.catalog.create q.table ⟨q.columns⟩ =
        .ok ((q.run config).run.run session).2.catalog := by
  obtain ⟨created, hc⟩ : ∃ created, session.catalog.create q.table ⟨q.columns⟩ = .ok created := by
    rw [Catalog.create, ht]
    exact ⟨_, rfl⟩
  unfold run
  rw [run_bind_ok (run_get session)]
  dsimp only
  rw [if_neg (by simp [ht]), hvalid, hc]
  exact ⟨rfl, rfl⟩

theorem CreateTable.sound_run (config : Config) (q : CreateTable) (h : session.WellFormed) :
    Sound Session.WellFormed Session.catalog (q.run config) session := by
  unfold run
  refine .get_bind ?_
  dsimp only
  split
  · exact .error h rfl
  · refine .check_bind h fun _ _ => .check_bind h fun created hcreated => ?_
    exact .ok (a := .created q.table) rfl (h.create hcreated)

theorem DropTable.run_run_missing {q : DropTable}
    (ht : session.catalog.lookup? q.table = none) :
    q.run.run.run session = (.error (.error (.unknownTable q.table)), session) := by
  unfold run
  rw [run_bind_ok (run_get session), Catalog.drop, ht]
  rfl

theorem DropTable.run_run {q : DropTable} {t : Table}
    (ht : session.catalog.lookup? q.table = some t) :
    (q.run.run.run session).1 = .ok (.dropped q.table) ∧
      session.catalog.drop q.table = .ok (t, (q.run.run.run session).2.catalog) := by
  have hd : session.catalog.drop q.table =
      .ok (t, ⟨session.catalog.tables.filter (·.1 != q.table)⟩) := by
    rw [Catalog.drop, ht]
  unfold run
  rw [run_bind_ok (run_get session), hd]
  exact ⟨rfl, rfl⟩

theorem DropTable.sound_run (q : DropTable) (h : session.WellFormed) :
    Sound Session.WellFormed Session.catalog q.run session := by
  unfold run
  refine .get_bind (.check_bind h fun p hp => ?_)
  obtain ⟨t, rest⟩ := p
  refine .ok (a := .dropped q.table) rfl ?_
  exact h.drop hp

theorem Select.run_run (q : Select) (ht : session.catalog.lookup? q.table = some t) :
    q.run.run.run session = (t.select q, session) := by
  unfold run
  rw [run_bind_ok (Action.run_table ht)]
  exact run_lift _ session

theorem Select.run_run_missing (q : Select) (ht : session.catalog.lookup? q.table = none) :
    q.run.run.run session = (.error (.error (.unknownTable q.table)), session) :=
  run_bind_error (Action.run_table_missing ht)

theorem Select.sound_run (q : Select) (h : session.WellFormed) :
    Sound Session.WellFormed Session.catalog q.run session := by
  cases ht : session.catalog.lookup? q.table with
  | none => exact .error h (q.run_run_missing ht)
  | some t =>
    unfold run
    exact .bind_ok (Action.run_table ht) (.lift h ((h.of_lookup? ht).2.noFault_select q))

/-- Running a statement on well-formed tables is sound, whatever the statement. -/
theorem Statement.sound_run (config : Config) (s : Statement) (h : session.WellFormed) :
    Sound Session.WellFormed Session.catalog (s.run config) session := by
  cases s with
  | create q => exact q.sound_run config h
  | select q => exact (q.sound_run h).map _
  | insert q => exact (Action.sound_change h fun _ ht => q.sound_apply ht).map _
  | update q => exact (Action.sound_change h fun _ ht => q.sound_apply ht).map _
  | delete q => exact (Action.sound_change h fun _ ht => q.sound_apply ht).map _
  | drop q => exact q.sound_run h

end Tabular
