import Mathlib.Logic.Basic
import Mathlib.Data.Option.Basic

/-!
Runs of a system given by a partial step function.

`step s a = none` says that the action `a` is not enabled in `s`.  `run step s as`
takes the actions one after the other; a state is `Reachable` when some list of
actions leads to it from the initial state.  A fact about every reachable state
is proved from two goals (`Reachable.invariant`): it holds initially, and one
step keeps it.
-/

namespace Runs

variable {σ α : Type*}

/-- The actions `as` in order, from `s`; `none` as soon as one is not enabled. -/
def run (step : σ → α → Option σ) : σ → List α → Option σ
  | s, [] => some s
  | s, a :: as => (step s a).bind fun t => run step t as

theorem run_cons_eq_some (step : σ → α → Option σ) (s u : σ) (a : α) (as : List α) :
    run step s (a :: as) = some u ↔ ∃ t, step s a = some t ∧ run step t as = some u := by
  simp only [run, Option.bind_eq_some_iff]

theorem run_append_eq_some (step : σ → α → Option σ) (as bs : List α) (s u : σ) :
    run step s (as ++ bs) = some u ↔ ∃ t, run step s as = some t ∧ run step t bs = some u := by
  induction as generalizing s with
  | nil => simp [run]
  | cons a as ih =>
    rw [List.cons_append, run_cons_eq_some]
    constructor
    · rintro ⟨t, ht, h⟩
      obtain ⟨t', h1, h2⟩ := (ih t).mp h
      exact ⟨t', (run_cons_eq_some _ _ _ _ _).mpr ⟨t, ht, h1⟩, h2⟩
    · rintro ⟨t', h1, h2⟩
      obtain ⟨t, ht, h⟩ := (run_cons_eq_some _ _ _ _ _).mp h1
      exact ⟨t, ht, (ih t).mpr ⟨t', h, h2⟩⟩

/-- What one step keeps, a run keeps. -/
theorem run_invariant (step : σ → α → Option σ) (I : σ → Prop)
    (hstep : ∀ s a t, I s → step s a = some t → I t) (as : List α) (s t : σ)
    (hs : I s) (h : run step s as = some t) : I t := by
  induction as generalizing s with
  | nil =>
    obtain rfl : s = t := by simpa [run] using h
    exact hs
  | cons a as ih =>
    obtain ⟨u, hu, h⟩ := (run_cons_eq_some _ _ _ _ _).mp h
    exact ih u (hstep s a u hs hu) h

/-- If `I` holds where a run starts and not where it ends, one of its steps breaks it. -/
theorem run_breaks (step : σ → α → Option σ) (I : σ → Prop) (as : List α) (s t : σ)
    (h : run step s as = some t) (hs : I s) (ht : ¬ I t) :
    ∃ bs a cs u v, as = bs ++ a :: cs ∧ run step s bs = some u ∧ I u ∧ step u a = some v ∧ ¬ I v ∧
      run step v cs = some t := by
  induction as generalizing s with
  | nil =>
    obtain rfl : s = t := by simpa [run] using h
    exact absurd hs ht
  | cons a as ih =>
    obtain ⟨u, hu, h⟩ := (run_cons_eq_some _ _ _ _ _).mp h
    by_cases hI : I u
    · obtain ⟨bs, b, cs, v, w, rfl, hv, hrest⟩ := ih u h hI
      exact ⟨a :: bs, b, cs, v, w, rfl, (run_cons_eq_some _ _ _ _ _).mpr ⟨u, hu, hv⟩, hrest⟩
    · exact ⟨[], a, as, s, u, rfl, rfl, hs, hu, hI, h⟩

/-- Some list of actions leads from `init` to `s`. -/
def Reachable (step : σ → α → Option σ) (init s : σ) : Prop := ∃ as, run step init as = some s

theorem Reachable.refl (step : σ → α → Option σ) (s : σ) : Reachable step s s := ⟨[], rfl⟩

theorem Reachable.step {step : σ → α → Option σ} {init s t : σ} (h : Reachable step init s)
    (a : α) (ha : step s a = some t) : Reachable step init t := by
  obtain ⟨as, h⟩ := h
  exact ⟨as ++ [a], (run_append_eq_some _ _ _ _ _).mpr ⟨s, h, by simp [run, ha]⟩⟩

/-- **Invariant rule.**  True at the start and kept by each step: true of every reachable state. -/
theorem Reachable.invariant {step : σ → α → Option σ} {init s : σ} (h : Reachable step init s)
    (I : σ → Prop) (h0 : I init) (hstep : ∀ s a t, I s → step s a = some t → I t) : I s := by
  obtain ⟨as, h⟩ := h
  exact run_invariant step I hstep as init s h0 h

/-- The invariant rule where the step may also use that the state before it is reachable,
and with it every invariant proved so far. -/
theorem Reachable.induction {step : σ → α → Option σ} {init s : σ} (h : Reachable step init s)
    (I : σ → Prop) (h0 : I init)
    (hstep : ∀ s a t, Reachable step init s → I s → step s a = some t → I t) : I s := by
  refine (h.invariant (fun s => Reachable step init s ∧ I s) ⟨.refl _ _, h0⟩ ?_).2
  rintro s a t ⟨hr, hi⟩ ht
  exact ⟨hr.step a ht, hstep s a t hr hi ht⟩

/-- **Simulation rule.**  If under `f` each step from a reachable state is a step of another system or
changes nothing, reachable states go to reachable states. -/
theorem Reachable.simulates {τ β : Type*} {step : σ → α → Option σ} {init s : σ}
    (h : Reachable step init s) (step' : τ → β → Option τ) (f : σ → τ)
    (hsim : ∀ s a t, Reachable step init s → step s a = some t →
      f t = f s ∨ ∃ b, step' (f s) b = some (f t)) : Reachable step' (f init) (f s) := by
  refine h.induction (fun s => Reachable step' (f init) (f s)) (.refl _ _) fun s a t hr hs ht => ?_
  rcases hsim s a t hr ht with heq | ⟨b, hb⟩
  · rw [heq]
    exact hs
  · exact hs.step b hb

/-- From a reachable state, a run of steps that lower a measure is no longer than the measure
it starts with. -/
theorem Reachable.length_le {step : σ → α → Option σ} {init s : σ} (h : Reachable step init s)
    (m : σ → Nat) (hm : ∀ s a t, Reachable step init s → step s a = some t → m t < m s)
    (as : List α) (t : σ) (ht : run step s as = some t) : as.length + m t ≤ m s := by
  induction as generalizing s with
  | nil =>
    obtain rfl : s = t := by simpa [run] using ht
    simp
  | cons a as ih =>
    obtain ⟨u, hu, ht⟩ := (run_cons_eq_some _ _ _ _ _).mp ht
    have h1 := hm s a u h hu
    have h2 := ih (h.step a hu) ht
    rw [List.length_cons]
    omega

/-- **Progress rule.**  If steps lower a measure, and a reachable state that is not `Done`
has a step, then every reachable state has a run to one that is. -/
theorem Reachable.completes {step : σ → α → Option σ} {init s : σ} (h : Reachable step init s)
    (m : σ → Nat) (hm : ∀ s a t, Reachable step init s → step s a = some t → m t < m s)
    (Done : σ → Prop) (hgo : ∀ s, Reachable step init s → Done s ∨ ∃ a t, step s a = some t) :
    ∃ as t, run step s as = some t ∧ Done t := by
  induction hk : m s using Nat.strongRecOn generalizing s with
  | ind k ih =>
    rcases hgo s h with hd | ⟨a, t, ht⟩
    · exact ⟨[], s, rfl, hd⟩
    · obtain ⟨as, u, hu, hd⟩ := ih (m t) (hk ▸ hm s a t h ht) (h.step a ht) rfl
      exact ⟨a :: as, u, (run_cons_eq_some _ _ _ _ _).mpr ⟨t, ht, hu⟩, hd⟩

/-- If every state that is not `Done` has a step that lowers a measure, every state has a run to one
that is. -/
theorem run_descends (step : σ → α → Option σ) (m : σ → Nat) (Done : σ → Prop)
    (hgo : ∀ s, Done s ∨ ∃ a t, step s a = some t ∧ m t < m s) (s : σ) :
    ∃ as t, run step s as = some t ∧ Done t := by
  induction hk : m s using Nat.strongRecOn generalizing s with
  | ind k ih =>
    rcases hgo s with hd | ⟨a, t, ht, hlt⟩
    · exact ⟨[], s, rfl, hd⟩
    · obtain ⟨as, u, hu, hd⟩ := ih (m t) (hk ▸ hlt) t rfl
      exact ⟨a :: as, u, (run_cons_eq_some _ _ _ _ _).mpr ⟨t, ht, hu⟩, hd⟩

/-- Each action of the run meets `C` in the state it is taken in. -/
def Meets (step : σ → α → Option σ) (C : σ → α → Prop) : σ → List α → Prop
  | _, [] => True
  | s, a :: as => C s a ∧ ∀ t, step s a = some t → Meets step C t as

instance Meets.decidable (step : σ → α → Option σ) (C : σ → α → Prop)
    [∀ s a, Decidable (C s a)] : ∀ s as, Decidable (Meets step C s as)
  | _, [] => .isTrue trivial
  | s, a :: as =>
    match h : step s a with
    | none => decidable_of_iff (C s a) (by simp [Meets, h])
    | some t =>
      have := Meets.decidable step C t as
      decidable_of_iff (C s a ∧ Meets step C t as) (by simp [Meets, h])

/-- What a step that meets `C` keeps, a run whose steps all meet `C` keeps. -/
theorem Meets.invariant {step : σ → α → Option σ} {C : σ → α → Prop} {as : List α} {s t : σ}
    (hC : Meets step C s as) (h : run step s as = some t) (I : σ → Prop) (hs : I s)
    (hstep : ∀ s a t, I s → C s a → step s a = some t → I t) : I t := by
  induction as generalizing s with
  | nil =>
    obtain rfl : s = t := by simpa [run] using h
    exact hs
  | cons a as ih =>
    obtain ⟨u, hu, h⟩ := (run_cons_eq_some _ _ _ _ _).mp h
    exact ih (hC.2 u hu) h (hstep s a u hs hC.1 hu)

end Runs
