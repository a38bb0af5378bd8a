import SistemasDistribuidos.Lib.Runs
import Mathlib.Data.Fintype.Basic
import Mathlib.Data.Fintype.Pi
import Mathlib.Logic.Function.Basic

/-!
What a barrier is for, without saying how it is done.

`came p` and `gone p` count how often party `p` has come to the barrier and gone from it.  A party comes when it is
outside, and goes when everybody has come as often as it has.  A system with a barrier is shown to have one by
`Runs.Reachable.simulates`: each of its steps is one of the two here, or none.

    gone p ≤ came q             nobody goes before all have come
    came p ≤ came q + 1         nobody is two rounds ahead
-/

namespace Meet

open Runs

structure State (ι : Type*) where
  came : ι → Nat
  gone : ι → Nat

inductive Act (ι : Type*) where
  | come (p : ι)
  | go (p : ι)

variable {ι : Type*} [DecidableEq ι]

def step [Fintype ι] (s : State ι) : Act ι → Option (State ι)
  | .come p => if s.came p = s.gone p then some { s with came := Function.update s.came p (s.came p + 1) } else none
  | .go p => if ∀ q, s.gone p < s.came q then some { s with gone := Function.update s.gone p (s.gone p + 1) } else none

def init : State ι := ⟨fun _ => 0, fun _ => 0⟩

/-- Whoever is inside is inside once, and nobody has left anybody behind. -/
structure Inv (s : State ι) : Prop where
  inside : ∀ p, s.came p ≤ s.gone p + 1
  behind : ∀ p q, s.gone p ≤ s.came q

omit [DecidableEq ι] in
theorem inv_init : Inv (init : State ι) := ⟨fun _ => Nat.zero_le _, fun _ _ => le_rfl⟩

theorem Inv.come {s : State ι} (h : Inv s) {p : ι} (hp : s.came p = s.gone p) :
    Inv { s with came := Function.update s.came p (s.came p + 1) } := by
  refine ⟨fun q => ?_, fun q r => ?_⟩
  · by_cases hq : q = p
    · subst hq
      simp only [Function.update_self]
      omega
    · simp only [Function.update_of_ne hq]
      exact h.inside q
  · have hqr := h.behind q r
    by_cases hr : r = p
    · subst hr
      simp only [Function.update_self]
      omega
    · simp only [Function.update_of_ne hr]
      exact hqr

theorem Inv.go {s : State ι} (h : Inv s) {p : ι} (hp : ∀ q, s.gone p < s.came q) :
    Inv { s with gone := Function.update s.gone p (s.gone p + 1) } := by
  refine ⟨fun q => ?_, fun q r => ?_⟩
  · have hq := h.inside q
    by_cases hqp : q = p
    · subst hqp
      simp only [Function.update_self]
      omega
    · simp only [Function.update_of_ne hqp]
      exact hq
  · by_cases hqp : q = p
    · subst hqp
      simp only [Function.update_self]
      exact hp r
    · simp only [Function.update_of_ne hqp]
      exact h.behind q r

theorem Inv.step [Fintype ι] {s t : State ι} (h : Inv s) {a : Act ι} (ha : step s a = some t) : Inv t := by
  cases a with
  | come p =>
    obtain ⟨hp, ⟨⟩⟩ := Option.ite_none_right_eq_some.mp ha
    exact h.come hp
  | go p =>
    obtain ⟨hp, ⟨⟩⟩ := Option.ite_none_right_eq_some.mp ha
    exact h.go hp

theorem inv_of_reachable [Fintype ι] {s : State ι} (h : Reachable Meet.step init s) : Inv s :=
  h.invariant Inv inv_init fun _ _ _ hs ha => hs.step ha

/-- Nobody goes before all have come, and nobody is two rounds ahead. -/
theorem came_le [Fintype ι] {s : State ι} (h : Reachable Meet.step init s) (p q : ι) :
    s.gone p ≤ s.came q ∧ s.came p ≤ s.came q + 1 := by
  have hinv := inv_of_reachable h
  have hp := hinv.inside p
  have hpq := hinv.behind p q
  exact ⟨hpq, by omega⟩

end Meet
