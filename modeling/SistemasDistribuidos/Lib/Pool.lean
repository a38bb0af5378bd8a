import Mathlib.Data.Fintype.Card
import Mathlib.Data.Fintype.Option
import Mathlib.Data.List.FinRange
import Mathlib.Logic.Function.Basic

/-!
A pool of resources lent to clients, each client holding at most one.

`free i` is the flag the owner keeps for resource `i`, `held k` is what client
`k` holds.  The two are kept by different parties; `Lent` says they agree: a
resource is marked busy exactly when a client holds it, and no resource is held
twice.  The two moves of the protocol, `grant` and `release`, keep `Lent`, and
`Lent.card_free_add_card_held` turns it into the count of free resources.
-/

structure Pool (ι κ : Type*) where
  free : ι → Bool
  held : κ → Option ι

namespace Pool

variable {ι κ : Type*}

/-- The owner's flags and the clients' holdings agree. -/
structure Lent (p : Pool ι κ) : Prop where
  busy_iff : ∀ i, p.free i = false ↔ ∃ k, p.held k = some i
  holder_unique : ∀ k l i, p.held k = some i → p.held l = some i → k = l

/-- Nothing is lent. -/
def idle : Pool ι κ := ⟨fun _ => true, fun _ => none⟩

theorem lent_idle : Lent (idle : Pool ι κ) :=
  ⟨by simp [idle], by simp [idle]⟩

section Moves

variable [DecidableEq ι] [DecidableEq κ]

/-- Client `k` receives resource `i`. -/
def grant (p : Pool ι κ) (k : κ) (i : ι) : Pool ι κ :=
  ⟨Function.update p.free i false, Function.update p.held k (some i)⟩

/-- Client `k` gives resource `i` back. -/
def release (p : Pool ι κ) (k : κ) (i : ι) : Pool ι κ :=
  ⟨Function.update p.free i true, Function.update p.held k none⟩

/-- One move of the protocol: a free resource goes to a client that holds none, a client
gives back what it holds, or nothing is lent or returned. -/
inductive Step (p : Pool ι κ) : Pool ι κ → Prop
  | grant (k : κ) (i : ι) (hk : p.held k = none) (hi : p.free i = true) : Step p (p.grant k i)
  | release (k : κ) (i : ι) (hk : p.held k = some i) : Step p (p.release k i)
  | idle : Step p p

theorem Lent.grant {p : Pool ι κ} (h : Lent p) (k : κ) (i : ι) (hk : p.held k = none)
    (hi : p.free i = true) : Lent (p.grant k i) := by
  have hnone : ∀ l, p.held l ≠ some i := by
    intro l hl
    have := (h.busy_iff i).mpr ⟨l, hl⟩
    rw [hi] at this
    cases this
  refine ⟨fun j => ?_, fun a b j ha hb => ?_⟩
  · by_cases hj : j = i
    · subst hj
      simp only [Pool.grant, Function.update_self, true_iff]
      exact ⟨k, by simp⟩
    · simp only [Pool.grant, Function.update_of_ne hj]
      rw [h.busy_iff j]
      constructor
      · rintro ⟨l, hl⟩
        have hlk : l ≠ k := fun e => by rw [e, hk] at hl; cases hl
        exact ⟨l, by rw [Function.update_of_ne hlk]; exact hl⟩
      · rintro ⟨l, hl⟩
        by_cases hlk : l = k
        · subst hlk
          rw [Function.update_self] at hl
          exact absurd (Option.some.inj hl).symm hj
        · exact ⟨l, by rwa [Function.update_of_ne hlk] at hl⟩
  · simp only [Pool.grant] at ha hb
    by_cases hak : a = k
    · by_cases hbk : b = k
      · rw [hak, hbk]
      · rw [hak, Function.update_self] at ha
        rw [Function.update_of_ne hbk, ← Option.some.inj ha] at hb
        exact absurd hb (hnone b)
    · rw [Function.update_of_ne hak] at ha
      by_cases hbk : b = k
      · rw [hbk, Function.update_self] at hb
        rw [← Option.some.inj hb] at ha
        exact absurd ha (hnone a)
      · rw [Function.update_of_ne hbk] at hb
        exact h.holder_unique a b j ha hb

theorem Lent.release {p : Pool ι κ} (h : Lent p) (k : κ) (i : ι) (hk : p.held k = some i) :
    Lent (p.release k i) := by
  refine ⟨fun j => ?_, fun a b j ha hb => ?_⟩
  · by_cases hj : j = i
    · subst hj
      simp only [Pool.release, Function.update_self, Bool.true_eq_false, false_iff]
      rintro ⟨l, hl⟩
      by_cases hlk : l = k
      · rw [hlk, Function.update_self] at hl; cases hl
      · rw [Function.update_of_ne hlk] at hl
        exact hlk (h.holder_unique l k j hl hk)
    · simp only [Pool.release, Function.update_of_ne hj]
      rw [h.busy_iff j]
      constructor
      · rintro ⟨l, hl⟩
        have hlk : l ≠ k := fun e => by
          rw [e, hk] at hl
          exact hj (Option.some.inj hl).symm
        exact ⟨l, by rw [Function.update_of_ne hlk]; exact hl⟩
      · rintro ⟨l, hl⟩
        by_cases hlk : l = k
        · rw [hlk, Function.update_self] at hl; cases hl
        · exact ⟨l, by rwa [Function.update_of_ne hlk] at hl⟩
  · simp only [Pool.release] at ha hb
    have hak : a ≠ k := fun e => by rw [e, Function.update_self] at ha; cases ha
    have hbk : b ≠ k := fun e => by rw [e, Function.update_self] at hb; cases hb
    rw [Function.update_of_ne hak] at ha
    rw [Function.update_of_ne hbk] at hb
    exact h.holder_unique a b j ha hb

/-- **Every move keeps the flags and the holdings in agreement.** -/
theorem Lent.step {p q : Pool ι κ} (h : Lent p) (hs : Step p q) : Lent q := by
  cases hs with
  | grant k i hk hi => exact h.grant k i hk hi
  | release k i hk => exact h.release k i hk
  | idle => exact h

end Moves

/-- Free resources and clients in possession of one make up the whole pool. -/
theorem Lent.card_free_add_card_held [Fintype ι] [Fintype κ] {p : Pool ι κ} (h : Lent p) :
    (Finset.univ.filter fun i => p.free i = true).card +
      (Finset.univ.filter fun k => (p.held k).isSome = true).card = Fintype.card ι := by
  have hbij : (Finset.univ.filter fun k => (p.held k).isSome = true).card =
      (Finset.univ.filter fun i => ¬ p.free i = true).card := by
    -- a client in possession corresponds to the resource it holds
    refine Finset.card_bij (fun k hk => (p.held k).get (Finset.mem_filter.mp hk).2) ?_ ?_ ?_
    · intro k hk
      rw [Finset.mem_filter]
      refine ⟨Finset.mem_univ _, ?_⟩
      rw [Bool.not_eq_true, h.busy_iff]
      exact ⟨k, (Option.some_get _).symm⟩
    · intro k hk l hl e
      exact h.holder_unique k l _ (Option.some_get _).symm (by rw [e, Option.some_get])
    · intro i hi
      rw [Finset.mem_filter, Bool.not_eq_true, h.busy_iff] at hi
      obtain ⟨-, k, hk⟩ := hi
      exact ⟨k, by simp [hk], by simp [hk]⟩
  rw [hbij, Finset.card_filter_add_card_filter_not, Finset.card_univ]

end Pool
