import Tabular.Proofs.Steps

/-! Deletions with a disjunction for a condition. Both sides of `p OR q` are evaluated on every row,
so the deletion is accepted when those with `p` and with `q` are. It removes the rows that either of
them removes, and so do the two of them one after the other: the second one finds, on the table that
the first one has left, the rows that satisfy its condition and not the other. -/

namespace Tabular

variable {s : Schema} {t : Table} {r : Row} {rows : List Row} {p q : Expr} {table : String}

/-- The condition `p OR q`. -/
def Expr.either (p q : Expr) : Expr := .binary p (.connective .or) q

theorem Expr.eval_either_eq_ok_iff {b : Bool} : (p.either q).eval r = .ok (.bool b) ↔
    ∃ x y, p.eval r = .ok (.bool x) ∧ q.eval r = .ok (.bool y) ∧ (x || y) = b := by
  have heval : (p.either q).eval r = (do
      let v ← p.eval r
      let w ← q.eval r
      BinaryOp.apply (.connective .or) v w) := rfl
  simp only [heval, bind_eq_ok_iff]
  constructor
  · rintro ⟨v, hv, w, hw, happly⟩
    cases v with
    | bool x =>
      cases w with
      | bool y => exact ⟨x, y, hv, hw, by simpa [BinaryOp.apply, Connective.apply] using happly⟩
      | _ => cases happly
    | _ => cases happly
  · rintro ⟨x, y, hx, hy, rfl⟩
    exact ⟨_, hx, _, hy, rfl⟩

/-- A disjunction has a truth value on a row when both sides have one. -/
theorem Row.satisfies_either_eq_ok_iff {b : Bool} : r.satisfies (some (p.either q)) = .ok b ↔
    ∃ x y, r.satisfies (some p) = .ok x ∧ r.satisfies (some q) = .ok y ∧ (x || y) = b := by
  simp only [satisfies, Expr.holds_eq_ok_iff, Expr.eval_either_eq_ok_iff]

theorem Row.matches_either {x y : Bool} (hx : r.satisfies (some p) = .ok x)
    (hy : r.satisfies (some q) = .ok y) :
    r.matches (some (p.either q)) = (r.matches (some p) || r.matches (some q)) := by
  have heither := satisfies_either_eq_ok_iff.mpr ⟨x, y, hx, hy, rfl⟩
  unfold Row.matches
  rw [hx, hy, heither]

theorem Row.exists_satisfies_either_iff : (∃ b, r.satisfies (some (p.either q)) = .ok b) ↔
    (∃ x, r.satisfies (some p) = .ok x) ∧ ∃ y, r.satisfies (some q) = .ok y := by
  constructor
  · rintro ⟨b, hb⟩
    obtain ⟨x, y, hx, hy, -⟩ := satisfies_either_eq_ok_iff.mp hb
    exact ⟨⟨x, hx⟩, y, hy⟩
  · rintro ⟨⟨x, hx⟩, y, hy⟩
    exact ⟨_, satisfies_either_eq_ok_iff.mpr ⟨x, y, hx, hy, rfl⟩⟩

theorem Schema.scopes_either_iff :
    s.Scopes (some (p.either q)) ↔ s.Scopes (some p) ∧ s.Scopes (some q) := by
  simp [Scopes, Expr.either]

theorem Delete.accepted_either_iff : (Delete.mk table (some (p.either q))).Accepted s rows ↔
    (Delete.mk table (some p)).Accepted s rows ∧ (Delete.mk table (some q)).Accepted s rows := by
  constructor
  · rintro ⟨hscopes, hdecides⟩
    obtain ⟨hp, hq⟩ := Schema.scopes_either_iff.mp hscopes
    have hboth (r : Row) (hr : r ∈ rows) := Row.exists_satisfies_either_iff.mp (hdecides r hr)
    exact ⟨⟨hp, fun r hr => (hboth r hr).1⟩, hq, fun r hr => (hboth r hr).2⟩
  · rintro ⟨⟨hp, hdecides⟩, hq, hdecides'⟩
    refine ⟨Schema.scopes_either_iff.mpr ⟨hp, hq⟩, fun r hr => ?_⟩
    exact Row.exists_satisfies_either_iff.mpr ⟨hdecides r hr, hdecides' r hr⟩

theorem countP_or {α : Type} (f g : α → Bool) (xs : List α) :
    xs.countP f + (xs.filter (!f ·)).countP g = xs.countP fun x => f x || g x := by
  induction xs with
  | nil => rfl
  | cons x xs ih =>
    cases hf : f x <;> cases hg : g x <;> simp [hf, hg] <;> omega

theorem Delete.Accepted.mono {d : Delete} {rows' : List Row} (h : d.Accepted s rows)
    (hrows : rows' ⊆ rows) : d.Accepted s rows' :=
  ⟨h.scopes, fun r hr => h.decides r (hrows hr)⟩

section Conditions

variable {whole first second : Option Expr}

/-- When the rows that satisfy a condition are those that satisfy one of two others, the deletion
with it does what the deletions with these do one after the other. -/
theorem Delete.run_apply_or (table : String) (h : t.WellFormed)
    (hwhole : (Delete.mk table whole).Accepted t.schema t.contents)
    (hfirst : (Delete.mk table first).Accepted t.schema t.contents)
    (hsecond : (Delete.mk table second).Accepted t.schema t.contents)
    (hor : ∀ r ∈ t.contents, r.matches whole = (r.matches first || r.matches second)) :
    ∃ a b between after, (Delete.mk table first).apply.run.run t = (.ok a, between) ∧
      (Delete.mk table second).apply.run.run between = (.ok b, after) ∧
      (Delete.mk table whole).apply.run.run t =
        (.ok (t.contents.countP (·.matches whole)), after) ∧
      a + b = t.contents.countP (·.matches whole) := by
  obtain ⟨between, hrun, hwf, hname, hschema, hcontents⟩ := Delete.run_apply h hfirst
  -- the second deletion runs on what the first one has left, where its condition is decided still
  have hsecond' : (Delete.mk table second).Accepted between.schema between.contents := by
    rw [hschema, hcontents]
    exact hsecond.mono (List.filter_subset_self _)
  obtain ⟨after, hrun', hwf', hname', hschema', hcontents'⟩ := Delete.run_apply hwf hsecond'
  obtain ⟨final, hrun'', hwf'', hname'', hschema'', hcontents''⟩ := Delete.run_apply h hwhole
  have hleft : after.contents = final.contents := by
    rw [hcontents', hcontents, hcontents'', List.filter_filter]
    refine List.filter_congr fun r hr => ?_
    rw [hor r hr, Bool.not_or, Bool.and_comm]
  have hsame : after = final := by
    refine hwf''.ext hwf' ?_ ?_ ?_ hleft
    · rw [hname', hname, hname'']
    · rw [hschema', hschema, hschema'']
    · rw [← after.length_contents, ← final.length_contents, hleft]
  refine ⟨_, _, between, after, hrun, hrun', hsame ▸ hrun'', ?_⟩
  rw [hcontents, countP_or]
  exact List.countP_congr fun r hr => by rw [hor r hr]

namespace Database

variable {db : Database}

/-- The deletions with two conditions, the second one after the first, both succeed. They remove `n`
rows together, and `final` is the database after them. -/
def DeletesInTurn (db : Database) (table : String) (first second : Option Expr) (n : Nat)
    (final : Database) : Prop :=
  let earlier := db.execute (.delete ⟨table, first⟩)
  let later := earlier.database.execute (.delete ⟨table, second⟩)
  ∃ a b, earlier.result = .ok (.deleted a) ∧ later.result = .ok (.deleted b) ∧ a + b = n ∧
    later.database = final

theorem deletesInTurn_or (h : db.catalog.WellFormed) (ht : db.table? table = some t)
    (hwhole : (Delete.mk table whole).Accepted t.schema t.contents)
    (hfirst : (Delete.mk table first).Accepted t.schema t.contents)
    (hsecond : (Delete.mk table second).Accepted t.schema t.contents)
    (hor : ∀ r ∈ t.contents, r.matches whole = (r.matches first || r.matches second)) :
    db.DeletesInTurn table first second (t.contents.countP (·.matches whole))
      (db.execute (.delete ⟨table, whole⟩)).database := by
  obtain ⟨a, b, between, after, hrun, hrun', hrun'', hcount⟩ :=
    Delete.run_apply_or table (h.of_lookup? ht).2 hwhole hfirst hsecond hor
  obtain ⟨hearlier, hlater, hdatabase⟩ := execute_change_run_twice
    (.delete ⟨table, first⟩) (.delete ⟨table, second⟩)
    (fun _ => rfl) (fun _ => rfl) ht hrun hrun'
  obtain ⟨-, hfinal, -⟩ :=
    execute_change_run (s := .delete ⟨table, whole⟩) (f := .deleted) rfl ht hrun''
  exact ⟨a, b, hearlier, hlater, hcount, hdatabase.trans hfinal.symm⟩

/-- A deletion with the condition `p OR q` succeeds exactly when those with `p` and with `q` do,
each of them run on the same database. It then removes as many rows as these do one after the other,
in whichever order, and the database is the same in the end. -/
theorem Reachable.delete_or (h : db.Reachable) (table : String) (p q : Expr) :
    let once := db.execute (.delete ⟨table, some (.binary p (.connective .or) q)⟩)
    ((∃ outcome, once.result = .ok outcome) ↔
      (∃ outcome, (db.execute (.delete ⟨table, some p⟩)).result = .ok outcome) ∧
        ∃ outcome, (db.execute (.delete ⟨table, some q⟩)).result = .ok outcome) ∧
    ∀ outcome, once.result = .ok outcome → ∃ n, outcome = .deleted n ∧
      db.DeletesInTurn table (some p) (some q) n once.database ∧
      db.DeletesInTurn table (some q) (some p) n once.database := by
  intro once
  have hiff (e : Expr) := exists_execute_delete_iff (d := ⟨table, some e⟩) h.wellFormed
  refine ⟨?_, fun outcome hok => ?_⟩
  · show (∃ outcome, (db.execute (.delete ⟨table, some (p.either q)⟩)).result = .ok outcome) ↔ _
    rw [hiff, hiff, hiff]
    constructor
    · rintro ⟨t, ht, haccepted⟩
      obtain ⟨hp, hq⟩ := Delete.accepted_either_iff.mp haccepted
      exact ⟨⟨t, ht, hp⟩, t, ht, hq⟩
    · rintro ⟨⟨t, ht, hp⟩, t', ht', hq⟩
      obtain rfl : t = t' := Option.some.inj (ht.symm.trans ht')
      exact ⟨t, ht, Delete.accepted_either_iff.mpr ⟨hp, hq⟩⟩
  · obtain ⟨t, ht, haccepted⟩ := (hiff (p.either q)).mp ⟨outcome, hok⟩
    obtain ⟨hp, hq⟩ := Delete.accepted_either_iff.mp haccepted
    have hor : ∀ r ∈ t.contents, r.matches (some (p.either q)) =
        (r.matches (some p) || r.matches (some q)) := by
      intro r hr
      obtain ⟨x, hx⟩ := hp.decides r hr
      obtain ⟨y, hy⟩ := hq.decides r hr
      exact Row.matches_either hx hy
    have honce := (execute_delete (q := ⟨table, some (p.either q)⟩) h.wellFormed ht haccepted).1
    refine ⟨_, Except.ok.inj (hok.symm.trans honce), ?_, ?_⟩
    · exact deletesInTurn_or h.wellFormed ht haccepted hp hq hor
    · exact deletesInTurn_or h.wellFormed ht haccepted hq hp fun r hr =>
        (hor r hr).trans (Bool.or_comm ..)

/-- Bob satisfies both conditions and is counted with the first one in either order. -/
theorem delete_or_users :
    let p : Expr := .binary (.column "id") (.comparison .ge) (.literal (.number 2))
    let q : Expr := .binary (.column "name") (.comparison .eq) (.literal (.string "Bob"))
    let once := sample.execute (.delete ⟨"users", some (.binary p (.connective .or) q)⟩)
    let second := (sample.execute (.delete ⟨"users", some p⟩)).database.execute
      (.delete ⟨"users", some q⟩)
    let second' := (sample.execute (.delete ⟨"users", some q⟩)).database.execute
      (.delete ⟨"users", some p⟩)
    once.result = .ok (.deleted 2) ∧
      second.result = .ok (.deleted 0) ∧ second.database = once.database ∧
      second'.result = .ok (.deleted 1) ∧ second'.database = once.database := by
  intro p q once second second'
  have hok : once.result = .ok (.deleted 2) := by decide +kernel
  have hp : (sample.execute (.delete ⟨"users", some p⟩)).result = .ok (.deleted 2) := by
    decide +kernel
  have hq : (sample.execute (.delete ⟨"users", some q⟩)).result = .ok (.deleted 1) := by
    decide +kernel
  obtain ⟨n, hn, ⟨a, b, ha, hb, hcount, hsame⟩, a', b', ha', hb', hcount', hsame'⟩ :=
    (sample_reachable.delete_or "users" p q).2 _ hok
  cases hn
  cases hp.symm.trans ha
  cases hq.symm.trans ha'
  obtain rfl : b = 0 := by omega
  obtain rfl : b' = 1 := by omega
  exact ⟨hok, hb, hsame, hb', hsame'⟩

end Database

end Conditions

end Tabular
