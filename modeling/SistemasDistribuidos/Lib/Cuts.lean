import Mathlib.Algebra.BigOperators.Intervals
import Mathlib.Data.List.Range
import Mathlib.Order.Monotone.Basic

/-!
Cutting `0, ..., f k - 1` at the points of a monotone `f`.

Piece `p` is `f p, ..., f (p + 1) - 1`, possibly empty.  The pieces below `k`, one
after the other, are exactly `0, ..., f k - 1` (`flatMap_pieces`), summing over
them is summing over the whole (`sum_pieces`), and each index lies in one piece
only (`existsUnique_piece`).
-/

namespace Cuts

/-- The indices of piece `p`, in order. -/
def piece (f : Nat → Nat) (p : Nat) : List Nat := List.range' (f p) (f (p + 1) - f p)

theorem range_append_range' (a m : Nat) :
    List.range a ++ List.range' a m = List.range (a + m) := by
  rw [List.range_eq_range', List.range_eq_range', ← List.range'_append_1, Nat.zero_add]

theorem flatMap_pieces (f : Nat → Nat) (h0 : f 0 = 0) (hf : Monotone f) (k : Nat) :
    (List.range k).flatMap (piece f) = List.range (f k) := by
  induction k with
  | zero => simp [h0]
  | succ k ih =>
    have hk : f k ≤ f (k + 1) := hf (Nat.le_succ k)
    rw [List.range_succ, List.flatMap_append, ih, List.flatMap_singleton, piece,
      range_append_range', Nat.add_sub_cancel' hk]

theorem sum_pieces {M : Type*} [AddCommMonoid M] (f : Nat → Nat) (g : Nat → M) (h0 : f 0 = 0)
    (hf : Monotone f) (k : Nat) :
    ∑ p ∈ Finset.range k, ∑ i ∈ Finset.Ico (f p) (f (p + 1)), g i
      = ∑ i ∈ Finset.range (f k), g i := by
  induction k with
  | zero => simp [h0]
  | succ k ih =>
    have hk : f k ≤ f (k + 1) := hf (Nat.le_succ k)
    rw [Finset.sum_range_succ, ih, Finset.range_eq_Ico, Finset.range_eq_Ico,
      Finset.sum_Ico_consecutive g (Nat.zero_le _) hk]

theorem exists_piece (f : Nat → Nat) (h0 : f 0 = 0) (k i : Nat) (hi : i < f k) :
    ∃ p, p < k ∧ f p ≤ i ∧ i < f (p + 1) := by
  induction k with
  | zero => omega
  | succ k ih =>
    by_cases h : i < f k
    · obtain ⟨p, hp, h1, h2⟩ := ih h
      exact ⟨p, by omega, h1, h2⟩
    · exact ⟨k, by omega, by omega, hi⟩

theorem piece_unique (f : Nat → Nat) (hf : Monotone f) (p q i : Nat) (hp : f p ≤ i)
    (hp' : i < f (p + 1)) (hq : f q ≤ i) (hq' : i < f (q + 1)) : p = q := by
  rcases Nat.lt_trichotomy p q with h | h | h
  · have : f (p + 1) ≤ f q := hf h
    omega
  · exact h
  · have : f (q + 1) ≤ f p := hf h
    omega

/-- Each index below `f k` lies in exactly one of the pieces below `k`. -/
theorem existsUnique_piece (f : Nat → Nat) (h0 : f 0 = 0) (hf : Monotone f) (k i : Nat)
    (hi : i < f k) : ∃! p : Fin k, f p ≤ i ∧ i < f (p + 1) := by
  obtain ⟨p, hp, h1, h2⟩ := exists_piece f h0 k i hi
  refine ⟨⟨p, hp⟩, ⟨h1, h2⟩, ?_⟩
  rintro ⟨q, hq⟩ ⟨h3, h4⟩
  exact Fin.ext (piece_unique f hf q p i h3 h4 h1 h2)

end Cuts
