import Tabular.Storage.Edit
import Mathlib.Data.List.Forall2

/-! Laws of results and of runs. In a chain of steps the first failure is the failure of the whole:
`bind_eq_ok_iff` and `mapM_eq_ok_iff` say when a chain succeeds, `NoFault` follows a chain that
cannot end in a fault, and `FailsOnly` one that ends in errors of some kind only. `run_bind_ok` and
its companions compute what a chain of steps on a state, such as an edit of a table, gives and
leaves behind. `Sound` is what is to be known of such a chain when its steps check before they
write. -/

namespace Tabular

section Results

variable {ε α β : Type}

theorem bind_eq_ok_iff {x : Except ε α} {f : α → Except ε β} {b : β} :
    x >>= f = .ok b ↔ ∃ a, x = .ok a ∧ f a = .ok b := by
  cases x <;> simp [bind, Except.bind]

theorem bind_eq_error_iff {x : Except ε α} {f : α → Except ε β} {e : ε} :
    x >>= f = .error e ↔ x = .error e ∨ ∃ a, x = .ok a ∧ f a = .error e := by
  cases x <;> simp [bind, Except.bind]

theorem map_eq_error_iff {x : Except ε α} {f : α → β} {e : ε} :
    f <$> x = .error e ↔ x = .error e := by
  cases x <;> simp [Functor.map, Except.map]

/-- A list of steps succeeds when each of them does. -/
theorem mapM_eq_ok_iff {f : α → Except ε β} {xs : List α} {ys : List β} :
    xs.mapM f = .ok ys ↔ List.Forall₂ (fun x y => f x = .ok y) xs ys := by
  induction xs generalizing ys with
  | nil => simp [pure, Except.pure, eq_comm]
  | cons x xs ih =>
    simp only [List.mapM_cons, bind_eq_ok_iff, ih, pure, Except.pure, Except.ok.injEq,
      List.forall₂_cons_left_iff]
    constructor
    · rintro ⟨y, hy, zs, hzs, rfl⟩
      exact ⟨y, zs, hy, hzs, rfl⟩
    · rintro ⟨y, zs, hy, hzs, rfl⟩
      exact ⟨y, hy, zs, hzs, rfl⟩

theorem mapM_eq_ok_map {f : α → Except ε β} {g : α → β} {xs : List α}
    (h : ∀ x ∈ xs, f x = .ok (g x)) : xs.mapM f = .ok (xs.map g) := by
  rw [mapM_eq_ok_iff, List.forall₂_map_right_iff, List.forall₂_same]
  exact h

theorem mapM_congr {f g : α → Except ε β} {xs : List α} (h : ∀ x ∈ xs, f x = g x) :
    xs.mapM f = xs.mapM g := by
  induction xs with
  | nil => rfl
  | cons x xs ih =>
    rw [List.forall_mem_cons] at h
    rw [List.mapM_cons, List.mapM_cons, h.1, ih h.2]

theorem mapM_map_eq {γ δ : Type} {f : α → γ} {step : γ → Except ε δ} {step' : α → Except ε β}
    {g : β → δ} {xs : List α} (h : ∀ x, step (f x) = g <$> step' x) :
    (xs.map f).mapM step = List.map g <$> xs.mapM step' := by
  induction xs with
  | nil => rfl
  | cons x xs ih =>
    rw [List.map_cons, List.mapM_cons, List.mapM_cons, h, ih]
    cases step' x with
    | error e => rfl
    | ok y => cases xs.mapM step' <;> rfl

theorem exists_forall₂_iff {R : α → β → Prop} {xs : List α} :
    (∃ ys, List.Forall₂ R xs ys) ↔ ∀ x ∈ xs, ∃ y, R x y := by
  induction xs with
  | nil => simp
  | cons x xs ih =>
    simp only [List.forall₂_cons_left_iff, List.forall_mem_cons, ← ih]
    constructor
    · rintro ⟨-, y, ys, hy, hys, rfl⟩
      exact ⟨⟨y, hy⟩, ys, hys⟩
    · rintro ⟨⟨y, hy⟩, ys, hys⟩
      exact ⟨_, y, ys, hy, hys, rfl⟩

theorem exists_mapM_eq_ok_iff {f : α → Except ε β} {xs : List α} :
    (∃ ys, xs.mapM f = .ok ys) ↔ ∀ x ∈ xs, ∃ y, f x = .ok y := by
  simp only [mapM_eq_ok_iff, exists_forall₂_iff]

theorem forM_eq_ok_iff {f : α → Except ε Unit} {xs : List α} :
    xs.forM f = .ok () ↔ ∀ x ∈ xs, f x = .ok () := by
  induction xs with
  | nil => simp [pure, Except.pure]
  | cons x xs ih =>
    show (f x >>= fun _ => xs.forM f) = .ok () ↔ _
    rw [bind_eq_ok_iff, List.forall_mem_cons]
    constructor
    · rintro ⟨⟨⟩, hx, hxs⟩
      exact ⟨hx, ih.mp hxs⟩
    · rintro ⟨hx, hxs⟩
      exact ⟨(), hx, ih.mpr hxs⟩

/-- The error of the first step that fails along a list. -/
def FirstFailure (f : α → Except ε β) (xs : List α) (e : ε) : Prop :=
  ∃ before x after, xs = before ++ x :: after ∧ (∀ y ∈ before, ∃ b, f y = .ok b) ∧ f x = .error e

theorem FirstFailure.here {f : α → Except ε β} {x : α} {xs : List α} {e : ε} (h : f x = .error e) :
    FirstFailure f (x :: xs) e := ⟨[], x, xs, rfl, by simp, h⟩

theorem FirstFailure.later {f : α → Except ε β} {x : α} {xs : List α} {e : ε} {b : β}
    (hx : f x = .ok b) (h : FirstFailure f xs e) : FirstFailure f (x :: xs) e := by
  obtain ⟨before, y, after, rfl, hbefore, hy⟩ := h
  exact ⟨x :: before, y, after, rfl, by simpa using ⟨⟨b, hx⟩, hbefore⟩, hy⟩

/-- A list of steps that fails does so with the error of the first step that fails. -/
theorem mapM_eq_error {f : α → Except ε β} {xs : List α} {e : ε} (h : xs.mapM f = .error e) :
    FirstFailure f xs e := by
  induction xs with
  | nil => cases h
  | cons x xs ih =>
    rw [List.mapM_cons, bind_eq_error_iff] at h
    obtain hx | ⟨b, hx, h⟩ := h
    · exact .here hx
    · obtain hxs | ⟨bs, -, hpure⟩ := bind_eq_error_iff.mp h
      · exact .later hx (ih hxs)
      · cases hpure

theorem forM_eq_error {f : α → Except ε Unit} {xs : List α} {e : ε} (h : xs.forM f = .error e) :
    FirstFailure f xs e := by
  induction xs with
  | nil => cases h
  | cons x xs ih =>
    obtain hx | ⟨u, hx, hxs⟩ := bind_eq_error_iff.mp h
    · exact .here hx
    · exact .later hx (ih hxs)

theorem mapM_append_eq_ok_iff {f : α → Except ε β} {xs ys : List α} {zs : List β} :
    (xs ++ ys).mapM f = .ok zs ↔
      ∃ as bs, xs.mapM f = .ok as ∧ ys.mapM f = .ok bs ∧ as ++ bs = zs := by
  simp only [List.mapM_append, bind_eq_ok_iff, pure, Except.pure, Except.ok.injEq]
  constructor
  · rintro ⟨as, has, bs, hbs, rfl⟩
    exact ⟨as, bs, has, hbs, rfl⟩
  · rintro ⟨as, bs, has, hbs, rfl⟩
    exact ⟨as, has, bs, hbs, rfl⟩

/-- Where a step gives what two others give, put together, a list of such steps does so too. -/
theorem mapM_zipWith_eq_ok_iff {γ δ : Type} {f : α → Except ε β} {g : α → Except ε γ}
    {both : α → Except ε δ} {op : β → γ → δ} {xs : List α} {zs : List δ}
    (h : ∀ x z, both x = .ok z ↔ ∃ a b, f x = .ok a ∧ g x = .ok b ∧ op a b = z) :
    xs.mapM both = .ok zs ↔
      ∃ as bs, xs.mapM f = .ok as ∧ xs.mapM g = .ok bs ∧ List.zipWith op as bs = zs := by
  induction xs generalizing zs with
  | nil => simp [pure, Except.pure]
  | cons x xs ih =>
    simp only [List.mapM_cons, bind_eq_ok_iff, h, ih, pure, Except.pure, Except.ok.injEq]
    constructor
    · rintro ⟨_, ⟨a, b, ha, hb, rfl⟩, _, ⟨as, bs, has, hbs, rfl⟩, rfl⟩
      exact ⟨a :: as, b :: bs, ⟨a, ha, as, has, rfl⟩, ⟨b, hb, bs, hbs, rfl⟩, rfl⟩
    · rintro ⟨_, _, ⟨a, ha, as, has, rfl⟩, ⟨b, hb, bs, hbs, rfl⟩, rfl⟩
      exact ⟨_, ⟨a, b, ha, hb, rfl⟩, _, ⟨as, bs, has, hbs, rfl⟩, rfl⟩

/-- The result is not a fault. -/
def NoFault (x : Except (Failure ε) α) : Prop := ∀ f, x ≠ .error (.fault f)

theorem NoFault.ok (a : α) : NoFault (.ok a : Except (Failure ε) α) := nofun

theorem NoFault.error (e : ε) : NoFault (.error (.error e) : Except (Failure ε) α) := nofun

theorem NoFault.cases {x : Except (Failure ε) α} (h : NoFault x) :
    (∃ a, x = .ok a) ∨ ∃ e, x = .error (.error e) := by
  match x, h with
  | .ok a, _ => exact .inl ⟨a, rfl⟩
  | .error (.error e), _ => exact .inr ⟨e, rfl⟩
  | .error (.fault f), h => exact absurd rfl (h f)

theorem NoFault.lift (x : Except ε α) : NoFault (liftM x : Except (Failure ε) α) := by
  cases x with
  | ok a => exact .ok a
  | error e => exact .error e

theorem lift_eq_ok_iff {x : Except ε α} {a : α} :
    (liftM x : Except (Failure ε) α) = .ok a ↔ x = .ok a := by
  cases x with
  | ok b =>
    show (.ok b : Except (Failure ε) α) = .ok a ↔ _
    simp
  | error e => constructor <;> nofun

theorem lift_fault_eq_ok_iff {x : Except Fault α} {a : α} :
    (liftM x : Except (Failure ε) α) = .ok a ↔ x = .ok a := by
  cases x with
  | ok b =>
    show (.ok b : Except (Failure ε) α) = .ok a ↔ _
    simp
  | error f => constructor <;> nofun

theorem NoFault.bind {x : Except (Failure ε) α} {f : α → Except (Failure ε) β} (hx : NoFault x)
    (hf : ∀ a, x = .ok a → NoFault (f a)) : NoFault (x >>= f) := by
  obtain ⟨a, rfl⟩ | ⟨e, rfl⟩ := hx.cases
  · exact hf a rfl
  · exact .error e

theorem NoFault.mapM {f : α → Except (Failure ε) β} {xs : List α} (h : ∀ x ∈ xs, NoFault (f x)) :
    NoFault (xs.mapM f) := by
  induction xs with
  | nil => exact .ok []
  | cons x xs ih =>
    rw [List.mapM_cons]
    refine (h x (by simp)).bind fun y _ => ?_
    exact (ih fun z hz => h z (by simp [hz])).bind fun ys _ => .ok _

/-- If the result is an error, `P` holds of it. -/
def FailsOnly (P : ε → Prop) (x : Except ε α) : Prop := ∀ e, x = .error e → P e

section FailsOnly

variable {P : ε → Prop}

theorem FailsOnly.ok (a : α) : FailsOnly P (.ok a : Except ε α) := nofun

theorem FailsOnly.error {e : ε} (h : P e) : FailsOnly P (.error e : Except ε α) := by
  rintro _ ⟨⟩
  exact h

theorem FailsOnly.bind {x : Except ε α} {f : α → Except ε β} (hx : FailsOnly P x)
    (hf : ∀ a, x = .ok a → FailsOnly P (f a)) : FailsOnly P (x >>= f) := by
  intro e he
  obtain hx' | ⟨a, ha, hfa⟩ := bind_eq_error_iff.mp he
  · exact hx e hx'
  · exact hf a ha e hfa

theorem FailsOnly.map {x : Except ε α} (hx : FailsOnly P x) (f : α → β) :
    FailsOnly P (f <$> x) :=
  fun e he => hx e (map_eq_error_iff.mp he)

theorem FailsOnly.mapM {f : α → Except ε β} {xs : List α} (h : ∀ x ∈ xs, FailsOnly P (f x)) :
    FailsOnly P (xs.mapM f) := by
  intro e he
  obtain ⟨before, x, after, rfl, -, hx⟩ := mapM_eq_error he
  exact h x (by simp) e hx

theorem FailsOnly.forM {f : α → Except ε Unit} {xs : List α} (h : ∀ x ∈ xs, FailsOnly P (f x)) :
    FailsOnly P (xs.forM f) := by
  intro e he
  obtain ⟨before, x, after, rfl, -, hx⟩ := forM_eq_error he
  exact h x (by simp) e hx

/-- An error that the later steps of a chain cannot end in is that of the first step. -/
theorem bind_eq_error_iff_of_failsOnly {x : Except ε α} {f : α → Except ε β} {e : ε}
    (hf : ∀ a, x = .ok a → FailsOnly P (f a)) (he : ¬P e) :
    x >>= f = .error e ↔ x = .error e := by
  rw [bind_eq_error_iff]
  constructor
  · rintro (hx | ⟨a, ha, hfa⟩)
    · exact hx
    · exact absurd (hf a ha e hfa) he
  · exact .inl

end FailsOnly

/-- If the failure is an error and not a fault, `P` holds of it. -/
def Failure.Errors (P : ε → Prop) : Failure ε → Prop
  | error e => P e
  | fault _ => True

theorem FailsOnly.lift {P : ε → Prop} {x : Except ε α} (h : FailsOnly P x) :
    FailsOnly (Failure.Errors P) (liftM x : Except (Failure ε) α) := by
  cases x with
  | ok a => exact .ok a
  | error e => exact .error (P := Failure.Errors P) (h e rfl)

theorem FailsOnly.lift_fault {P : ε → Prop} (x : Except Fault α) :
    FailsOnly (Failure.Errors P) (liftM x : Except (Failure ε) α) := by
  cases x with
  | ok a => exact .ok a
  | error f => exact .error (P := Failure.Errors P) trivial

theorem lift_eq_error_iff {x : Except ε α} {e : ε} :
    (liftM x : Except (Failure ε) α) = .error (.error e) ↔ x = .error e := by
  cases x with
  | ok a => constructor <;> nofun
  | error e' =>
    show (.error (.error e') : Except (Failure ε) α) = .error (.error e) ↔ _
    simp

end Results

/-! ### Runs -/

section Runs

variable {ε σ α β : Type}

/-- A chain whose first step succeeds goes on from where that step ends. -/
theorem run_bind_ok {x : ExceptT ε (StateM σ) α} {f : α → ExceptT ε (StateM σ) β} {s s' : σ} {a : α}
    (h : x.run.run s = (.ok a, s')) : (x >>= f).run.run s = (f a).run.run s' := by
  simp only [StateT.run, ExceptT.run] at h
  simp only [StateT.run, ExceptT.run, bind, ExceptT.bind, ExceptT.mk, StateT.bind, h]
  rfl

theorem run_bind_error {x : ExceptT ε (StateM σ) α} {f : α → ExceptT ε (StateM σ) β} {s s' : σ}
    {e : ε} (h : x.run.run s = (.error e, s')) : (x >>= f).run.run s = (.error e, s') := by
  simp only [StateT.run, ExceptT.run] at h
  simp only [StateT.run, ExceptT.run, bind, ExceptT.bind, ExceptT.mk, StateT.bind, h]
  rfl

theorem run_map (f : α → β) (x : ExceptT ε (StateM σ) α) (s : σ) :
    (f <$> x).run.run s = (f <$> (x.run.run s).1, (x.run.run s).2) := by
  simp only [ExceptT.run, Functor.map, ExceptT.map, ExceptT.mk, bind, StateT.bind, StateT.run]
  cases x s with
  | mk result s' => cases result <;> rfl

theorem run_get (s : σ) : (get : ExceptT ε (StateM σ) σ).run.run s = (.ok s, s) := rfl

theorem run_lift (x : Except ε α) (s : σ) :
    (liftM x : ExceptT ε (StateM σ) α).run.run s = (x, s) := by
  cases x <;> rfl

theorem run_lift_error (x : Except ε α) (s : σ) :
    (liftM x : ExceptT (Failure ε) (StateM σ) α).run.run s = (x.mapError .error, s) := by
  cases x <;> rfl

theorem run_lift_fault (x : Except Fault α) (s : σ) :
    (liftM x : ExceptT (Failure ε) (StateM σ) α).run.run s = (x.mapError .fault, s) := by
  cases x <;> rfl

/-! ### Soundness -/

variable {τ : Type} {I : σ → Prop} {view : σ → τ} {s s' : σ}

/-- The run of `x` from `s` is no fault and ends in a state of which `I` holds, and when it fails it
leaves what `view` shows of the state as it was. -/
structure Sound (I : σ → Prop) (view : σ → τ) (x : ExceptT (Failure ε) (StateM σ) α) (s : σ) :
    Prop where
  noFault : NoFault (x.run.run s).1
  holds : I (x.run.run s).2
  unchanged : ∀ e, (x.run.run s).1 = .error e → view (x.run.run s).2 = view s

theorem Sound.ok {x : ExceptT (Failure ε) (StateM σ) α} {a : α} (h : x.run.run s = (.ok a, s'))
    (hs' : I s') : Sound I view x s := by
  constructor <;> rw [h]
  · exact .ok a
  · exact hs'
  · nofun

theorem Sound.error {x : ExceptT (Failure ε) (StateM σ) α} {e : ε} (hs : I s)
    (h : x.run.run s = (.error (.error e), s)) : Sound I view x s := by
  constructor <;> rw [h]
  · exact .error e
  · exact hs
  · exact fun _ _ => rfl

theorem Sound.map {x : ExceptT (Failure ε) (StateM σ) α} (h : Sound I view x s) (f : α → β) :
    Sound I view (f <$> x) s := by
  constructor <;> rw [run_map]
  · obtain ⟨a, ha⟩ | ⟨e, he⟩ := h.noFault.cases
    · exact ha ▸ .ok _
    · exact he ▸ .error e
  · exact h.holds
  · intro e he
    refine h.unchanged e ?_
    cases hx : (x.run.run s).1 with
    | ok a => simp [hx, Functor.map, Except.map] at he
    | error e' => simpa [hx, Functor.map, Except.map] using he

theorem Sound.bind_ok {x : ExceptT (Failure ε) (StateM σ) α}
    {f : α → ExceptT (Failure ε) (StateM σ) β} {a : α} (hx : x.run.run s = (.ok a, s))
    (h : Sound I view (f a) s) : Sound I view (x >>= f) s := by
  constructor <;> rw [run_bind_ok hx]
  · exact h.noFault
  · exact h.holds
  · exact h.unchanged

theorem Sound.get_bind {f : σ → ExceptT (Failure ε) (StateM σ) β} (h : Sound I view (f s) s) :
    Sound I view (get >>= f) s := .bind_ok (run_get s) h

theorem Sound.lift {x : Except (Failure ε) α} (hs : I s) (hx : NoFault x) :
    Sound I view (liftM x : ExceptT (Failure ε) (StateM σ) α) s := by
  obtain ⟨a, rfl⟩ | ⟨e, rfl⟩ := hx.cases
  · exact .ok (run_lift _ s) hs
  · exact .error hs (run_lift _ s)

/-- A step that only computes, without a fault, may come first. -/
theorem Sound.lift_bind {x : Except (Failure ε) α} {f : α → ExceptT (Failure ε) (StateM σ) β}
    (hs : I s) (hx : NoFault x) (hf : ∀ a, x = .ok a → Sound I view (f a) s) :
    Sound I view (liftM x >>= f) s := by
  obtain ⟨a, rfl⟩ | ⟨e, rfl⟩ := hx.cases
  · exact hf a rfl
  · exact .error hs rfl

theorem Sound.check_bind {x : Except ε α} {f : α → ExceptT (Failure ε) (StateM σ) β} (hs : I s)
    (hf : ∀ a, x = .ok a → Sound I view (f a) s) : Sound I view (liftM x >>= f) s := by
  cases x with
  | ok a => exact hf a rfl
  | error e => exact .error hs rfl

end Runs

end Tabular
