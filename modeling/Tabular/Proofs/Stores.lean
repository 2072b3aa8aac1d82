import Tabular.Proofs.Deleting

/-! Stores as lists. A store answers calls as the list of its values does, and keeps what the list
keeps. Writes are made in place here, so what a call writes before it faults would stay. A removal
takes cells out one after another, and of positions from last to first only the first can be past
the end, so a removal that faults has taken out nothing. -/

namespace Tabular

/-- A list without what stands at the given positions. -/
def without {α : Type} (positions : List Nat) (xs : List α) : List α :=
  (xs.zipIdx.filter (·.2 ∉ positions)).map (·.1)

/-- Removals from last to first, one after another, leave what stands at the other positions. -/
theorem foldl_eraseIdx_eq_without {α : Type} {positions : List Nat} {xs : List α}
    (hd : positions.Pairwise (· > ·)) (hlt : ∀ i ∈ positions, i < xs.length) :
    positions.foldl List.eraseIdx xs = without positions xs := by
  -- both sides are what lookup finds at the positions that are kept
  refine List.map_injective_iff.mpr (Option.some_injective α) ?_
  have hpairs : (xs.zipIdx.filter (·.2 ∉ positions)).map (fun p => some p.1) =
      (xs.zipIdx.filter (·.2 ∉ positions)).map (xs[·.2]?) :=
    List.map_congr_left fun p hp =>
      (List.mem_zipIdx_iff_getElem?.mp (List.mem_filter.mp hp).1).symm
  have hrange : xs.zipIdx.map (·.2) = List.range xs.length := by
    simp [List.range_eq_range']
  rw [map_some_foldl_eraseIdx hd hlt, without, List.map_map, Function.comp_def, hpairs, ← hrange,
    List.filter_map, List.map_map]
  rfl

namespace Store

variable {s s' : Store} {positions : List Nat} {i : Nat} {f : Fault}

/-- A step of a write to a store. -/
abbrev Edit := ExceptT Fault (StateM Store)

namespace Edit

def write (change : Store → Except Fault Store) : Edit Unit := do
  let after ← change (← get)
  modify fun _ => after

/-- Takes out the cells at positions listed from last to first, one after another. -/
def remove (positions : List Nat) : Edit Unit :=
  if positions.Pairwise (· > ·) then positions.forM fun i => write (·.erase i)
  else throw .notDescending

theorem run_write_ok {change : Store → Except Fault Store} (h : change s = .ok s') :
    (write change).run.run s = (.ok (), s') := by
  unfold write
  rw [run_bind_ok (run_get s), h]
  rfl

theorem run_write_error {change : Store → Except Fault Store} (h : change s = .error f) :
    (write change).run.run s = (.error f, s) := by
  unfold write
  rw [run_bind_ok (run_get s), h]
  rfl

theorem run_erasures (h : positions.foldlM erase s = .ok s') :
    (positions.forM fun i => write (·.erase i)).run.run s = (.ok (), s') := by
  induction positions generalizing s with
  | nil =>
    cases h
    rfl
  | cons i rest ih =>
    rw [List.foldlM_cons, bind_eq_ok_iff] at h
    obtain ⟨next, herase, hrest⟩ := h
    exact (run_bind_ok (run_write_ok herase)).trans (ih hrest)

end Edit

/-- When the first of positions from last to first is within the store, so are the others. -/
theorem remove_ok_of_head (hd : (i :: positions).Pairwise (· > ·)) (hi : i < s.size) :
    ∃ s', s.remove (i :: positions) = .ok s' ∧ s'.name = s.name ∧ s'.kind = s.kind ∧
      s'.values = without (i :: positions) s.values := by
  have hlt : ∀ j ∈ i :: positions, j < s.size := List.forall_mem_cons.mpr
    ⟨hi, fun j hj => Nat.lt_trans ((List.pairwise_cons.mp hd).1 j hj) hi⟩
  obtain ⟨s', hs', hname, hkind, -, hvalues⟩ := remove_ok hd hlt
  refine ⟨s', hs', hname, hkind, hvalues.trans (foldl_eraseIdx_eq_without hd ?_)⟩
  rwa [s.length_values]

theorem remove_outside (hd : (i :: positions).Pairwise (· > ·)) (hi : s.size ≤ i) :
    s.remove (i :: positions) = .error .outOfRange := by
  rw [remove, if_pos hd, List.foldlM_cons, erase_outside hi]
  rfl

/-- A removal in place either takes out all cells or leaves the store as it was. -/
theorem Edit.run_remove (positions : List Nat) (s : Store) :
    (Edit.remove positions).run.run s = (Edit.write (·.remove positions)).run.run s := by
  unfold Edit.remove
  by_cases hd : positions.Pairwise (· > ·)
  · rw [if_pos hd]
    have hall (s' : Store) (h : s.remove positions = .ok s') :
        (positions.forM fun i => write (·.erase i)).run.run s =
          (write (·.remove positions)).run.run s := by
      rw [run_write_ok h]
      rw [Store.remove, if_pos hd] at h
      exact run_erasures h
    cases positions with
    | nil => exact hall s rfl
    | cons i rest =>
      by_cases hi : i < s.size
      · obtain ⟨s', hs', -⟩ := remove_ok_of_head hd hi
        exact hall s' hs'
      · -- the first position is past the end, and nothing has been taken out by then
        have hi := Nat.not_lt.mp hi
        rw [run_write_error (remove_outside hd hi)]
        exact run_bind_error (run_write_error (erase_outside hi))
  · have hremove : s.remove positions = .error .notDescending := if_neg hd
    rw [if_neg hd, run_write_error hremove]
    rfl

/-- A call to a store. A removal lists its positions from last to first. -/
inductive Call where
  | push (v : Value)
  | set (i : Nat) (v : Value)
  | remove (positions : List Nat) (descending : positions.Pairwise (· > ·))
  | get (i : Nat)
  | contains (v : Value)
  | size

/-- What a call answers. A write has nothing to tell. -/
inductive Answer where
  | done
  | found (v : Option Value)
  | truth (b : Bool)
  | count (n : Nat)
  deriving DecidableEq, Repr

namespace Call

def edit : Call → Edit Answer
  | push v => do
    Edit.write (·.push v)
    return .done
  | set i v => do
    Edit.write (·.set i v)
    return .done
  | remove positions _ => do
    Edit.remove positions
    return .done
  | get i => return .found ((← MonadState.get).get? i)
  | contains v => return .truth ((← MonadState.get).contains v)
  | size => return .count (← MonadState.get).size

/-- The answer of a store to a call, and the store after it. -/
def onStore (c : Call) (s : Store) : Except Fault Answer × Store := c.edit.run.run s

/-- The answer of a list of values of a kind to a call, and the list after it. A call that faults
leaves the list as it was. -/
def onList (k : Kind) (c : Call) (xs : List Value) : Except Fault Answer × List Value :=
  match c with
  | push v => if v.kind = k then (.ok .done, xs ++ [v]) else (.error .wrongKind, xs)
  | set i v =>
    if v.kind ≠ k then (.error .wrongKind, xs)
    else if i < xs.length then (.ok .done, xs.set i v)
    else (.error .outOfRange, xs)
  | remove positions _ =>
    if positions.head?.any (xs.length ≤ ·) then (.error .outOfRange, xs)
    else (.ok .done, without positions xs)
  | get i => (.ok (.found xs[i]?), xs)
  | contains v => (.ok (.truth (v ∈ xs)), xs)
  | size => (.ok (.count xs.length), xs)

/-- The answers to calls one after another, and the state after the last of them. A call that faults
does not keep the next one from being made. -/
def runAll {σ : Type} (step : Call → σ → Except Fault Answer × σ) :
    List Call → σ → List (Except Fault Answer) × σ
  | [], s => ([], s)
  | c :: rest, s =>
    let (answer, next) := step c s
    let (answers, last) := runAll step rest next
    (answer :: answers, last)

end Call

/-- An outcome of `s` is that of its list of values: what is answered is the same, and the store
afterwards has the values of the list under its old name and kind. -/
structure Mirrors {α : Type} (s : Store) (outcome : α × Store) (listed : α × List Value) :
    Prop where
  answer : outcome.1 = listed.1
  values : outcome.2.values = listed.2
  name : outcome.2.name = s.name
  kind : outcome.2.kind = s.kind

section Mirrors

variable {write : Edit Unit} {xs : List Value}

theorem Mirrors.ok (h : write.run.run s = (.ok (), s')) (hname : s'.name = s.name)
    (hkind : s'.kind = s.kind) (hvalues : s'.values = xs) :
    s.Mirrors ((do write; return .done : Edit Answer).run.run s) (.ok .done, xs) := by
  rw [run_bind_ok h]
  exact ⟨rfl, hvalues, hname, hkind⟩

theorem Mirrors.error (h : write.run.run s = (.error f, s)) :
    s.Mirrors ((do write; return .done : Edit Answer).run.run s) (.error f, s.values) := by
  rw [run_bind_error h]
  exact ⟨rfl, rfl, rfl, rfl⟩

end Mirrors

/-- A call does to a store what it does to the list of the store's values. -/
theorem mirrors_onStore (s : Store) (c : Call) :
    s.Mirrors (c.onStore s) (c.onList s.kind s.values) := by
  cases c with
  | push v =>
    rw [Call.onList]
    by_cases hk : v.kind = s.kind
    · obtain ⟨s', hs'⟩ := push_ok hk
      obtain ⟨-, hname, hkind, hvalues⟩ := push_eq_ok_iff.mp hs'
      rw [if_pos hk]
      exact .ok (Edit.run_write_ok hs') hname hkind hvalues
    · rw [if_neg hk]
      exact .error (Edit.run_write_error (push_refused hk))
  | set i v =>
    rw [Call.onList, s.length_values]
    by_cases hk : v.kind = s.kind
    · rw [if_neg (not_not.mpr hk)]
      by_cases hi : i < s.size
      · obtain ⟨s', hs'⟩ := set_ok hk hi
        obtain ⟨-, -, hname, hkind, hvalues⟩ := set_eq_ok_iff.mp hs'
        rw [if_pos hi]
        exact .ok (Edit.run_write_ok hs') hname hkind hvalues
      · rw [if_neg hi]
        exact .error (Edit.run_write_error (set_outside hk (Nat.not_lt.mp hi)))
    · rw [if_pos hk]
      exact .error (Edit.run_write_error (set_refused hk))
  | remove positions hd =>
    rw [Call.onList, s.length_values]
    have hrun := Edit.run_remove positions s
    cases positions with
    | nil => exact .ok (hrun.trans (Edit.run_write_ok rfl)) rfl rfl (by simp [without])
    | cons i rest =>
      by_cases hi : i < s.size
      · obtain ⟨s', hs', hname, hkind, hvalues⟩ := remove_ok_of_head hd hi
        rw [if_neg (by simpa using hi)]
        exact .ok (hrun.trans (Edit.run_write_ok hs')) hname hkind hvalues
      · rw [if_pos (by simpa using hi)]
        have hs := remove_outside hd (Nat.not_lt.mp hi)
        exact .error (hrun.trans (Edit.run_write_error hs))
  | get i =>
    rw [Call.onList, ← s.get?_eq]
    exact ⟨rfl, rfl, rfl, rfl⟩
  | contains v =>
    have hcontains : s.contains v = decide (v ∈ s.values) := by
      rw [Bool.eq_iff_iff, contains_iff, decide_eq_true_iff]
    rw [Call.onList, ← hcontains]
    exact ⟨rfl, rfl, rfl, rfl⟩
  | size =>
    rw [Call.onList, s.length_values]
    exact ⟨rfl, rfl, rfl, rfl⟩

theorem mirrors_runAll (s : Store) (calls : List Call) :
    s.Mirrors (Call.runAll Call.onStore calls s)
      (Call.runAll (Call.onList s.kind) calls s.values) := by
  -- the store varies, because the calls after the first are made to what the first leaves
  induction calls generalizing s with
  | nil => exact ⟨rfl, rfl, rfl, rfl⟩
  | cons c rest ih =>
    obtain ⟨hanswer, hvalues, hname, hkind⟩ := s.mirrors_onStore c
    obtain ⟨hanswers, hlast, hname', hkind'⟩ := ih (c.onStore s).2
    rw [hvalues, hkind] at hanswers hlast
    refine ⟨?_, hlast, hname'.trans hname, hkind'.trans hkind⟩
    simp only [Call.runAll]
    rw [hanswer, hanswers]

/-- To calls of any number a store gives the answers that the list of its values gives, faults
included, and its values remain those of the list, all of them of its kind. -/
theorem calls_follow_list (s : Store) (calls : List Call) :
    s.Mirrors (Call.runAll Call.onStore calls s)
      (Call.runAll (Call.onList s.kind) calls s.values) ∧
    ∀ v ∈ (Call.runAll (Call.onList s.kind) calls s.values).2, v.kind = s.kind := by
  have h := s.mirrors_runAll calls
  refine ⟨h, fun v hv => ?_⟩
  rw [← h.values] at hv
  exact (kind_of_mem_values hv).trans h.kind

/-- A store of numbers refuses a string and a removal past the end, and goes on with what it had. -/
example : Call.runAll Call.onStore
    [.push (.number 42), .push (.string "x"), .push (.number 59), .push (.number 7),
      .remove [3, 0] (by decide), .push (.number 13), .remove [2, 0] (by decide), .get 1,
      .contains (.string "13")]
    (.ofColumn ⟨"age", .int, none⟩) =
    ([.ok .done, .error .wrongKind, .ok .done, .ok .done, .error .outOfRange, .ok .done, .ok .done,
      .ok (.found (some (.number 13))), .ok (.truth false)], ⟨"age", .int, #[59, 13]⟩) := by
  decide +kernel

end Store

end Tabular
