import Tabular.Proofs.Databases
import Tabular.Proofs.Scopes

/-! Updates in two steps. An update whose condition, and whose later assignments, do not mention the
columns that its earlier assignments write comes to the same as an update with the earlier ones
followed by an update with the later ones. The table in between has the old values wherever the
second step reads, and each unique column has in it what it has before or what it has in the end. -/

namespace Tabular

variable {s : Schema} {t : Table} {r : Row}

theorem Update.newValue_of_forall_ne {q : Update} {k : Nat}
    (h : ∀ a ∈ q.assignments, s.index? a.column ≠ some k) (r : Row) (v : Value) :
    q.newValue s r k v = v := by
  have hnone : q.assignments.find? (fun a => s.index? a.column == some k) = none :=
    List.find?_eq_none.mpr fun a ha => by simpa using h a ha
  rw [newValue, hnone]

/-- A place that no assignment writes keeps its value. -/
theorem Update.getElem?_replaced_of_forall_ne {q : Update} {k : Nat}
    (h : ∀ a ∈ q.assignments, s.index? a.column ≠ some k) (r : Row) :
    (q.replaced s r).values[k]? = r.values[k]? := by
  rw [values_replaced]
  split
  · rw [List.getElem?_mapIdx]
    cases r.values[k]? with
    | none => rfl
    | some v => rw [Option.map_some, newValue_of_forall_ne h]
  · rfl

/-- A name that no assignment has keeps its value. -/
theorem Update.get?_replaced_of_forall_ne {q : Update} (hr : r.names = s.names) {name : String}
    (h : ∀ a ∈ q.assignments, a.column ≠ name) : (q.replaced s r).get? name = r.get? name := by
  rw [Row.get?_eq_index? ((q.names_replaced s r).trans hr), Row.get?_eq_index? hr]
  cases hk : s.index? name with
  | none => rfl
  | some k =>
    have hother : ∀ a ∈ q.assignments, s.index? a.column ≠ some k :=
      fun a ha hka => h a ha (Schema.index?_inj hka hk)
    rw [Option.bind_some, Option.bind_some, getElem?_replaced_of_forall_ne hother]

/-! ### Two lists of assignments -/

/-- No column is assigned to twice in two lists of assignments, and neither a condition nor the
values of the second list mention a column that the first one writes. -/
structure Update.Splits (first second : List Assignment) (condition : Option Expr) : Prop where
  distinct : ((first ++ second).map (·.column)).Nodup
  condition : ∀ e ∈ condition, ∀ a ∈ first, a.column ∉ e.columns
  values : ∀ b ∈ second, ∀ a ∈ first, a.column ∉ b.value.columns

namespace Update.Splits

variable {table : String} {first second : List Assignment} {condition : Option Expr}

theorem column_ne (h : Splits first second condition) {a b : Assignment} (ha : a ∈ first)
    (hb : b ∈ second) : a.column ≠ b.column := by
  have hdistinct := h.distinct
  rw [List.map_append, List.nodup_append] at hdistinct
  exact hdistinct.2.2 _ (List.mem_map_of_mem ha) _ (List.mem_map_of_mem hb)

theorem index?_ne (h : Splits first second condition) {a : Assignment} (ha : a ∈ first) {k : Nat}
    (hk : s.index? a.column = some k) : ∀ b ∈ second, s.index? b.column ≠ some k :=
  fun _ hb hkb => h.column_ne ha hb (Schema.index?_inj hk hkb)

theorem satisfies_replaced (h : Splits first second condition) (hr : r.names = s.names) :
    ((Update.mk table first condition).replaced s r).satisfies condition = r.satisfies condition :=
  Row.satisfies_congr fun e he _ hname =>
    get?_replaced_of_forall_ne hr fun a ha heq => h.condition e he a ha (heq ▸ hname)

theorem matches_replaced (h : Splits first second condition) (table : String)
    (hr : r.names = s.names) :
    ((Update.mk table first condition).replaced s r).matches condition = r.matches condition := by
  rw [Row.matches, Row.matches, h.satisfies_replaced hr]

theorem eval_replaced (h : Splits first second condition) (hr : r.names = s.names) {b : Assignment}
    (hb : b ∈ second) :
    b.value.eval ((Update.mk table first condition).replaced s r) = b.value.eval r :=
  Expr.eval_congr fun _ hname =>
    get?_replaced_of_forall_ne hr fun a ha heq => h.values b hb a ha (heq ▸ hname)

/-- Each place has its new value from one list at most. -/
theorem newValue_append (h : Splits first second condition) (hr : r.names = s.names) (k : Nat)
    (v : Value) : (Update.mk table (first ++ second) condition).newValue s r k v =
      (Update.mk table second condition).newValue s
        ((Update.mk table first condition).replaced s r) k
        ((Update.mk table first condition).newValue s r k v) := by
  unfold newValue
  dsimp only
  rw [List.find?_append]
  cases ha : first.find? (fun a => s.index? a.column == some k) with
  | some a =>
    have hk : s.index? a.column = some k := by simpa using List.find?_some ha
    have hnone : second.find? (fun b => s.index? b.column == some k) = none := by
      refine List.find?_eq_none.mpr fun b hb => ?_
      simpa using h.index?_ne (List.mem_of_find?_eq_some ha) hk b hb
    rw [hnone]
    rfl
  | none =>
    rw [Option.none_or]
    cases hb : second.find? (fun b => s.index? b.column == some k) with
    | none => rfl
    | some b =>
      dsimp only
      rw [h.eval_replaced hr (List.mem_of_find?_eq_some hb)]

/-- To replace a row with all assignments is to replace it with the first ones and then with the
second ones. -/
theorem replaced_append (h : Splits first second condition) (hr : r.names = s.names) :
    (Update.mk table (first ++ second) condition).replaced s r =
      (Update.mk table second condition).replaced s
        ((Update.mk table first condition).replaced s r) := by
  refine Row.ext_names_values ?_ ?_
  · rw [names_replaced, names_replaced, names_replaced]
  · have hmatches := h.matches_replaced table hr
    rw [values_replaced, values_replaced, values_replaced]
    dsimp only
    rw [hmatches]
    by_cases hm : r.matches condition = true
    · rw [if_pos hm, if_pos hm, if_pos hm]
      refine List.ext_getElem? fun k => ?_
      rw [List.getElem?_mapIdx, List.getElem?_mapIdx, List.getElem?_mapIdx, Option.map_map]
      exact congrArg (r.values[k]?.map ·) (funext (h.newValue_append hr k))
    · rw [if_neg hm, if_neg hm, if_neg hm]

variable {rows : List Row}

theorem evaluates_append_iff (h : Splits first second condition) (table : String)
    (hrows : ∀ r ∈ rows, r.names = s.names) :
    (Update.mk table (first ++ second) condition).Evaluates s rows ↔
      (Update.mk table first condition).Evaluates s rows ∧
        (Update.mk table second condition).Evaluates s
          (rows.map ((Update.mk table first condition).replaced s)) := by
  have hdistinct : ((first ++ second).map (·.column)).Nodup := h.distinct
  constructor
  · intro hq
    obtain ⟨hcolumns, hnodup, hscopes, hcondition, hdecides, hevaluates⟩ := hq
    simp only [List.forall_mem_append] at hcolumns hscopes
    rw [List.map_append, List.nodup_append] at hnodup
    refine ⟨⟨hcolumns.1, hnodup.1, hscopes.1, hcondition, hdecides, ?_⟩,
      hcolumns.2, hnodup.2.1, hscopes.2, hcondition, ?_, ?_⟩
    · intro r hr hm a ha
      exact hevaluates r hr hm a (List.mem_append_left second ha)
    · refine List.forall_mem_map.mpr fun r hr => ?_
      rw [h.satisfies_replaced (hrows r hr)]
      exact hdecides r hr
    · refine List.forall_mem_map.mpr fun r hr hm b hb => ?_
      rw [h.matches_replaced table (hrows r hr)] at hm
      rw [h.eval_replaced (hrows r hr) hb]
      exact hevaluates r hr hm b (List.mem_append_right first hb)
  · rintro ⟨hfirst, hsecond⟩
    have hcolumns : ∀ a ∈ first ++ second, a.column ∈ s.names :=
      List.forall_mem_append.mpr ⟨hfirst.columns, hsecond.columns⟩
    refine ⟨hcolumns, ?_, List.forall_mem_append.mpr ⟨hfirst.scopes, hsecond.scopes⟩,
      hfirst.condition, hfirst.decides, ?_⟩
    · have hindex := Schema.nodup_map_index? hdistinct (List.forall_mem_map.mpr hcolumns)
      rwa [List.map_map] at hindex
    · intro r hr hm
      refine List.forall_mem_append.mpr ⟨hfirst.evaluates r hr hm, fun b hb => ?_⟩
      have hevaluates := hsecond.evaluates _ (List.mem_map_of_mem hr)
        (by rwa [h.matches_replaced table (hrows r hr)]) b hb
      rwa [h.eval_replaced (hrows r hr) hb] at hevaluates

/-- After the first assignments a column has the values that it had before or, if one of them writes
it, those that it has in the end. -/
theorem nodup_between (h : Splits first second condition) (ht : t.WellFormed) {k : Nat} {c : Column}
    (hc : t.schema.columns[k]? = some c) (hu : c.isUnique = true)
    (hfinal : (t.contents.map fun r =>
      ((Update.mk table (first ++ second) condition).replaced t.schema r).values[k]?).Nodup) :
    (t.contents.map fun r =>
      ((Update.mk table first condition).replaced t.schema r).values[k]?).Nodup := by
  by_cases hwritten : ∃ a ∈ first, t.schema.index? a.column = some k
  · obtain ⟨a, ha, hk⟩ := hwritten
    refine (List.map_congr_left fun r hr => ?_) ▸ hfinal
    rw [h.replaced_append (ht.fits_of_mem hr).names]
    exact getElem?_replaced_of_forall_ne (h.index?_ne ha hk) _
  · have hother : ∀ a ∈ first, t.schema.index? a.column ≠ some k :=
      fun a ha hk => hwritten ⟨a, ha, hk⟩
    refine (List.map_congr_left fun r _ => ?_) ▸ ht.nodup_column hc hu
    exact (getElem?_replaced_of_forall_ne hother r).symm

/-- An update is accepted when its first part is, and its second part is on the rows that the first
one makes. -/
theorem accepted_append_iff (h : Splits first second condition) (ht : t.WellFormed) :
    (Update.mk table (first ++ second) condition).Accepted t.schema t.contents ↔
      (Update.mk table first condition).Accepted t.schema t.contents ∧
        (Update.mk table second condition).Accepted t.schema
          (t.contents.map ((Update.mk table first condition).replaced t.schema)) := by
  have hnames : ∀ r ∈ t.contents, r.names = t.schema.names := fun r hr => (ht.fits_of_mem hr).names
  have heval := h.evaluates_append_iff table hnames
  have hfinal (k : Nat) : (t.contents.map fun r =>
        ((Update.mk table (first ++ second) condition).replaced t.schema r).values[k]?) =
      (t.contents.map ((Update.mk table first condition).replaced t.schema)).map fun r =>
        ((Update.mk table second condition).replaced t.schema r).values[k]? := by
    rw [List.map_map]
    exact List.map_congr_left fun r hr => by rw [h.replaced_append (hnames r hr)]; rfl
  constructor
  · intro hq
    obtain ⟨hfirst, hsecond⟩ := heval.mp hq.toEvaluates
    refine ⟨⟨hfirst, ?_, ?_⟩, hsecond, ?_, ?_⟩
    · intro r hr hm a ha
      exact hq.admits r hr hm a (List.mem_append_left second ha)
    · intro k c hc hu
      exact h.nodup_between ht hc hu (hq.unique k c hc hu)
    · refine List.forall_mem_map.mpr fun r hr hm b hb c v hc hv => ?_
      rw [h.matches_replaced table (hnames r hr)] at hm
      rw [h.eval_replaced (hnames r hr) hb] at hv
      exact hq.admits r hr hm b (List.mem_append_right first hb) c v hc hv
    · intro k c hc hu
      rw [← hfinal]
      exact hq.unique k c hc hu
  · rintro ⟨hfirst, hsecond⟩
    refine ⟨heval.mpr ⟨hfirst.toEvaluates, hsecond.toEvaluates⟩, ?_, ?_⟩
    · intro r hr hm
      refine List.forall_mem_append.mpr ⟨hfirst.admits r hr hm, fun b hb c v hc hv => ?_⟩
      refine hsecond.admits _ (List.mem_map_of_mem hr)
        (by rwa [h.matches_replaced table (hnames r hr)]) b hb c v hc ?_
      rwa [h.eval_replaced (hnames r hr) hb]
    · intro k c hc hu
      rw [hfinal]
      exact hsecond.unique k c hc hu

/-! ### Runs -/

/-- An accepted update leaves behind what its two parts leave, and all count the same rows. -/
theorem run_apply_append (h : Splits first second condition) (ht : t.WellFormed)
    (hq : (Update.mk table (first ++ second) condition).Accepted t.schema t.contents) :
    ∃ n between after, (Update.mk table first condition).apply.run.run t = (.ok n, between) ∧
      (Update.mk table second condition).apply.run.run between = (.ok n, after) ∧
      (Update.mk table (first ++ second) condition).apply.run.run t = (.ok n, after) := by
  have hnames : ∀ r ∈ t.contents, r.names = t.schema.names := fun r hr => (ht.fits_of_mem hr).names
  obtain ⟨hfirst, hsecond⟩ := (h.accepted_append_iff ht).mp hq
  obtain ⟨after, hrun, hwf, hname, hschema, hcount, hcontents⟩ := Update.run_apply ht hq
  obtain ⟨between, hrun₁, hwf₁, hname₁, hschema₁, hcount₁, hcontents₁⟩ := Update.run_apply ht hfirst
  rw [← hcontents₁, ← hschema₁] at hsecond
  obtain ⟨after₂, hrun₂, hwf₂, hname₂, hschema₂, hcount₂, hcontents₂⟩ :=
    Update.run_apply hwf₁ hsecond
  obtain rfl : after₂ = after := by
    refine hwf.ext hwf₂ ?_ ?_ ?_ ?_
    · rw [hname₂, hname₁, hname]
    · rw [hschema₂, hschema₁, hschema]
    · rw [hcount₂, hcount₁, hcount]
    · rw [hcontents₂, hcontents₁, hcontents, hschema₁, List.map_map]
      exact List.map_congr_left fun r hr => (h.replaced_append (hnames r hr)).symm
  have hsame : between.contents.countP (·.matches condition) =
      t.contents.countP (·.matches condition) := by
    rw [hcontents₁, List.countP_map]
    refine List.countP_congr fun r hr => ?_
    rw [Function.comp_apply, h.matches_replaced table (hnames r hr)]
  exact ⟨_, between, after₂, hrun₁, hsame ▸ hrun₂, hrun⟩

end Update.Splits

namespace Database

variable {db : Database} {table : String} {first second : List Assignment} {condition : Option Expr}

theorem execute_update_append (hs : Update.Splits first second condition)
    (h : db.catalog.WellFormed) (ht : db.table? table = some t)
    (hq : (Update.mk table (first ++ second) condition).Accepted t.schema t.contents) :
    let whole := db.execute (.update ⟨table, first ++ second, condition⟩)
    let earlier := db.execute (.update ⟨table, first, condition⟩)
    let later := earlier.database.execute (.update ⟨table, second, condition⟩)
    later.database = whole.database ∧ ∃ n, whole.result = .ok (.updated n) ∧
      earlier.result = .ok (.updated n) ∧ later.result = .ok (.updated n) := by
  intro whole earlier later
  obtain ⟨n, between, after, hfirst, hsecond, hwhole⟩ :=
    hs.run_apply_append (h.of_lookup? ht).2 hq
  obtain ⟨hearlier, hlater, hdatabase⟩ := execute_change_run_twice
    (.update ⟨table, first, condition⟩) (.update ⟨table, second, condition⟩)
    (fun _ => rfl) (fun _ => rfl) ht hfirst hsecond
  obtain ⟨hresult, hfinal, -⟩ :=
    execute_update_run (q := ⟨table, first ++ second, condition⟩) ht hwhole
  exact ⟨hdatabase.trans hfinal.symm, n, hresult, hearlier, hlater⟩

/-- An update succeeds exactly when its first assignments do and, after them, its second ones, if
these and the condition do not mention what the first ones write. The two steps then lead to the
same database, and each of the three updates counts the same rows. -/
theorem Reachable.update_append (h : db.Reachable) (table : String)
    (hs : Update.Splits first second condition) :
    let whole := db.execute (.update ⟨table, first ++ second, condition⟩)
    let earlier := db.execute (.update ⟨table, first, condition⟩)
    let later := earlier.database.execute (.update ⟨table, second, condition⟩)
    ((∃ outcome, whole.result = .ok outcome) ↔
      (∃ outcome, earlier.result = .ok outcome) ∧ ∃ outcome, later.result = .ok outcome) ∧
    ((∃ outcome, whole.result = .ok outcome) → later.database = whole.database ∧
      ∃ n, whole.result = .ok (.updated n) ∧ earlier.result = .ok (.updated n) ∧
        later.result = .ok (.updated n)) := by
  intro whole earlier later
  have hsteps : (∃ outcome, whole.result = .ok outcome) → later.database = whole.database ∧
      ∃ n, whole.result = .ok (.updated n) ∧ earlier.result = .ok (.updated n) ∧
        later.result = .ok (.updated n) := by
    intro hok
    obtain ⟨t, ht, hq⟩ := (exists_execute_update_iff h.wellFormed).mp hok
    exact execute_update_append hs h.wellFormed ht hq
  refine ⟨⟨?_, ?_⟩, hsteps⟩
  · intro hok
    obtain ⟨-, n, -, hearlier, hlater⟩ := hsteps hok
    exact ⟨⟨_, hearlier⟩, _, hlater⟩
  · rintro ⟨hearlier, hlater⟩
    obtain ⟨t, ht, hfirst⟩ := (exists_execute_update_iff h.wellFormed).mp hearlier
    have hwf := (h.wellFormed.of_lookup? ht).2
    obtain ⟨between, hrun, -, -, hschema, -, hcontents⟩ := Update.run_apply hwf hfirst
    obtain ⟨-, -, hbetween⟩ := execute_update_run (q := ⟨table, first, condition⟩) ht hrun
    obtain ⟨u, hu, hsecond⟩ :=
      (exists_execute_update_iff (wellFormed_execute h.wellFormed _)).mp hlater
    obtain rfl : between = u := Option.some.inj (hbetween.symm.trans hu)
    rw [hschema, hcontents] at hsecond
    exact (exists_execute_update_iff h.wellFormed).mpr
      ⟨t, ht, (hs.accepted_append_iff hwf).mpr ⟨hfirst, hsecond⟩⟩

/-- Eve takes another number and another name, both at once or one after the other. -/
theorem update_append_users :
    let number : Assignment :=
      ⟨"id", .binary (.column "id") (.arithmetic .add) (.literal (.number 4))⟩
    let name : Assignment := ⟨"name", .literal (.string "Zoe")⟩
    let condition : Option Expr :=
      some (.binary (.column "name") (.comparison .eq) (.literal (.string "Eve")))
    let whole := sample.execute (.update ⟨"users", [number, name], condition⟩)
    let earlier := sample.execute (.update ⟨"users", [number], condition⟩)
    let later := earlier.database.execute (.update ⟨"users", [name], condition⟩)
    whole.result = .ok (.updated 1) ∧ later.database = whole.database ∧
      later.result = .ok (.updated 1) := by
  intro number name condition whole earlier later
  have hs : Update.Splits [number] [name] condition := by
    refine ⟨by decide, ?_, by decide⟩
    intro e he
    obtain rfl := Option.some.inj he
    decide
  have hok : whole.result = .ok (.updated 1) := by decide +kernel
  obtain ⟨hsame, n, hwhole, -, hlater⟩ := (sample_reachable.update_append "users" hs).2 ⟨_, hok⟩
  exact ⟨hok, hsame, hlater.trans (hwhole.symm.trans hok)⟩

end Database

end Tabular
