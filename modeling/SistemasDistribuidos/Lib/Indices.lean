import Mathlib.Data.Fintype.Card
import Mathlib.Data.List.MinMax
import Mathlib.Data.List.Sort

/-!
Loops over the indices of an array of `n` elements.

`List.finRange n` is the order in which `for (i = 0; i < n; i++)` visits them.  A loop
that stops at the first match is `find?` and ends on the least one; a loop that counts is
`countP`; a loop that keeps a strict running minimum is `argmin`, and over the indices
that pass a test it ends on the least of the nearest.
-/

namespace Indices

variable {n : Nat}

/-- The first match is the least. -/
theorem find?_eq_some (p : Fin n → Bool) (i : Fin n) :
    (List.finRange n).find? p = some i ↔ p i = true ∧ ∀ j, j < i → p j = false := by
  rw [List.find?_eq_some_iff_getElem]
  constructor
  · rintro ⟨hi, k, hk, rfl, hbefore⟩
    refine ⟨hi, fun j hj => ?_⟩
    rw [List.getElem_finRange] at hj
    simpa using hbefore j (by simpa [Fin.lt_def] using hj)
  · rintro ⟨hi, hbefore⟩
    refine ⟨hi, i, by simp, by simp, fun j hj => ?_⟩
    simpa using hbefore ⟨j, hj.trans i.isLt⟩ hj

theorem find?_eq_none (p : Fin n → Bool) :
    (List.finRange n).find? p = none ↔ ∀ i, p i = false := by
  simp [List.find?_eq_none]

/-- Counting the flags with a loop. -/
theorem countP_finRange (f : Fin n → Bool) :
    (List.finRange n).countP f = (Finset.univ.filter fun i => f i = true).card := by
  rw [List.countP_eq_length_filter, Finset.card_def, Finset.filter_val, Fin.univ_def]
  simp

/-- In an increasing list the first minimum is the least one. -/
theorem le_of_mem_argmin {ι β : Type*} [LinearOrder ι] [LinearOrder β] (f : ι → β) (l : List ι)
    (hl : l.SortedLT) (i j : ι) (hi : i ∈ l.argmin f) (hj : j ∈ l) (hf : f j ≤ f i) : i ≤ j := by
  have hil := List.idxOf_lt_length_of_mem (List.argmin_mem hi)
  have hjl := List.idxOf_lt_length_of_mem hj
  have h : l[l.idxOf i] ≤ l[l.idxOf j] :=
    hl.sortedLE.getElem_le_getElem_of_le (List.index_of_argmin hi hj hf)
  rwa [List.getElem_idxOf, List.getElem_idxOf] at h

/-- The minimum over the indices that pass a test: it passes, is least in value, and of least index
among those of its value. -/
theorem argmin_filter {β : Type*} [LinearOrder β] (p : Fin n → Bool) (f : Fin n → β) (i : Fin n)
    (h : ((List.finRange n).filter p).argmin f = some i) :
    p i = true ∧ (∀ j, p j = true → f i ≤ f j) ∧ ∀ j, p j = true → f j = f i → i ≤ j := by
  have hmem : ∀ j, j ∈ (List.finRange n).filter p ↔ p j = true := by simp
  have hsorted : ((List.finRange n).filter p).SortedLT :=
    ((List.sortedLT_finRange n).pairwise.filter _).sortedLT
  refine ⟨(hmem i).mp (List.argmin_mem h), fun j hj => ?_, fun j hj heq => ?_⟩
  · exact List.le_of_mem_argmin ((hmem j).mpr hj) h
  · exact le_of_mem_argmin f _ hsorted i j h ((hmem j).mpr hj) (le_of_eq heq)

end Indices
