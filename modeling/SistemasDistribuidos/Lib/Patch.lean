import Mathlib.Data.List.Pairwise

/-!
Patches: runs of values written over a list.

A run is a position and the values written from there on; a patch is a list of runs,
written one after the other.  `merge v t q` is what a patch from `t` to `v` should make of
any third list `q`: the values of `v` where `v` and `t` differ, those of `q` elsewhere.
Patches of changes at different positions can be written in any order (`mergeAll_perm`).
-/

namespace Patch

variable {α : Type*}

/-- The values `ws` from position `i` on. -/
def write : List α → Nat → List α → List α
  | q, _, [] => q
  | q, i, w :: ws => write (q.set i w) (i + 1) ws

def apply (q : List α) (rs : List (Nat × List α)) : List α := rs.foldl (fun q r => write q r.1 r.2) q

/-- The changes from `t` to `v`, made to `q`. -/
def merge [DecidableEq α] : List α → List α → List α → List α
  | v :: vs, t :: ts, q :: qs => (if v = t then q else v) :: merge vs ts qs
  | _, _, qs => qs

@[simp] theorem write_length (q : List α) (i : Nat) (ws : List α) : (write q i ws).length = q.length := by
  induction ws generalizing q i with
  | nil => rfl
  | cons w ws ih => rw [write, ih, List.length_set]

theorem write_append (q : List α) (i : Nat) (ws us : List α) :
    write q i (ws ++ us) = write (write q i ws) (i + ws.length) us := by
  induction ws generalizing q i with
  | nil => rfl
  | cons w ws ih =>
    rw [List.cons_append, write, write, ih, List.length_cons]
    congr 1
    omega

theorem getElem?_write (q : List α) (i : Nat) (ws : List α) (j : Nat) :
    (write q i ws)[j]? =
      if i ≤ j ∧ j < i + ws.length ∧ j < q.length then ws[j - i]? else q[j]? := by
  induction ws generalizing q i with
  | nil =>
    rw [if_neg (by simp only [List.length_nil]; omega)]
    rfl
  | cons w ws ih =>
    rw [write, ih, List.length_set, List.length_cons]
    by_cases hj : i = j
    · subst hj
      rw [if_neg (by omega)]
      by_cases hq : i < q.length
      · rw [if_pos (by omega), List.getElem?_set_self hq]
        simp
      · rw [if_neg (by omega), List.getElem?_eq_none (by simp; omega), List.getElem?_eq_none (by omega)]
    · by_cases hin : i + 1 ≤ j ∧ j < i + 1 + ws.length ∧ j < q.length
      · rw [if_pos hin, if_pos (by omega)]
        have hji : j - i = (j - (i + 1)) + 1 := by omega
        rw [hji, List.getElem?_cons_succ]
      · rw [if_neg hin, if_neg (by omega), List.getElem?_set_ne hj]

@[simp] theorem apply_nil (q : List α) : apply q [] = q := rfl

theorem apply_append (q : List α) (rs us : List (Nat × List α)) :
    apply q (rs ++ us) = apply (apply q rs) us :=
  List.foldl_append

@[simp] theorem apply_singleton (q : List α) (r : Nat × List α) : apply q [r] = write q r.1 r.2 := rfl

@[simp] theorem apply_length (q : List α) (rs : List (Nat × List α)) : (apply q rs).length = q.length := by
  induction rs generalizing q with
  | nil => rfl
  | cons r rs ih =>
    show (apply (write q r.1 r.2) rs).length = q.length
    rw [ih, write_length]

section Merge

variable [DecidableEq α]

theorem getElem?_merge (v t q : List α) (hv : v.length = q.length) (ht : t.length = q.length) (j : Nat) :
    (merge v t q)[j]? = if v[j]? = t[j]? then q[j]? else v[j]? := by
  induction q generalizing v t j with
  | nil =>
    obtain rfl := List.length_eq_zero_iff.mp hv
    obtain rfl := List.length_eq_zero_iff.mp ht
    simp [merge]
  | cons q qs ih =>
    obtain ⟨v, vs, rfl⟩ := List.exists_cons_of_length_eq_add_one hv
    obtain ⟨t, ts, rfl⟩ := List.exists_cons_of_length_eq_add_one ht
    rw [merge]
    cases j with
    | zero =>
      simp only [List.getElem?_cons_zero, Option.some.injEq]
      split <;> rfl
    | succ j =>
      simp only [List.getElem?_cons_succ]
      exact ih vs ts (by simpa using hv) (by simpa using ht) j

theorem merge_length (v t q : List α) (hv : v.length = q.length) (ht : t.length = q.length) :
    (merge v t q).length = q.length := by
  induction q generalizing v t with
  | nil =>
    obtain rfl := List.length_eq_zero_iff.mp hv
    rfl
  | cons q qs ih =>
    obtain ⟨v, vs, rfl⟩ := List.exists_cons_of_length_eq_add_one hv
    obtain ⟨t, ts, rfl⟩ := List.exists_cons_of_length_eq_add_one ht
    rw [merge, List.length_cons, ih vs ts (by simpa using hv) (by simpa using ht), List.length_cons]

/-- The list the changes were made to becomes the changed one. -/
theorem merge_self (v t : List α) (h : v.length = t.length) : merge v t t = v := by
  refine List.ext_getElem? fun j => ?_
  rw [getElem?_merge v t t h rfl j]
  split
  · next heq => exact heq.symm
  · rfl

theorem getElem?_merge_of_eq (v t q : List α) (j : Nat) (h : v[j]? = t[j]?) :
    (merge v t q)[j]? = q[j]? := by
  induction q generalizing v t j with
  | nil => cases v <;> cases t <;> rfl
  | cons q qs ih =>
    match v, t with
    | [], _ => rfl
    | _ :: _, [] => rfl
    | v :: vs, t :: ts =>
      rw [merge]
      cases j with
      | zero =>
        simp only [List.getElem?_cons_zero, Option.some.injEq] at h
        rw [if_pos h]
        rfl
      | succ j => exact ih vs ts j h

theorem getElem?_merge_congr (v t q q' : List α) (j : Nat) (h : q[j]? = q'[j]?) :
    (merge v t q)[j]? = (merge v t q')[j]? := by
  induction v generalizing t q q' j with
  | nil => exact h
  | cons v vs ih =>
    match t, q, q' with
    | [], _, _ => exact h
    | _ :: _, [], [] => rfl
    | t :: ts, [], q' :: qs' | t :: ts, q' :: qs', [] =>
      cases j with
      | zero => simp at h
      | succ j => simpa [merge] using ih ts [] qs' j (by simpa using h)
    | t :: ts, q :: qs, q' :: qs' =>
      cases j with
      | zero =>
        simp only [List.getElem?_cons_zero, Option.some.injEq] at h
        rw [merge, merge, h]
        rfl
      | succ j => exact ih ts qs qs' j h

/-- Changes at different positions. -/
def Disjoint (p p' : List α × List α) : Prop := ∀ j : Nat, p.1[j]? = p.2[j]? ∨ p'.1[j]? = p'.2[j]?

instance : Std.Symm (@Disjoint α) where
  symm _ _ h j := (h j).symm

theorem merge_comm (p p' : List α × List α) (q : List α) (hdis : Disjoint p p') :
    merge p.1 p.2 (merge p'.1 p'.2 q) = merge p'.1 p'.2 (merge p.1 p.2 q) := by
  refine List.ext_getElem? fun j => ?_
  rcases hdis j with h | h
  · rw [getElem?_merge_of_eq _ _ _ j h]
    exact getElem?_merge_congr _ _ _ _ j (getElem?_merge_of_eq _ _ _ j h).symm
  · rw [getElem?_merge_of_eq _ _ (merge p.1 p.2 q) j h]
    exact getElem?_merge_congr _ _ _ _ j (getElem?_merge_of_eq _ _ _ j h)

/-- Several changes, the first of the list first. -/
def mergeAll (ps : List (List α × List α)) (q : List α) : List α :=
  ps.foldl (fun q p => merge p.1 p.2 q) q

/-- Changes at different positions can be made in any order. -/
theorem mergeAll_perm {ps ps' : List (List α × List α)} (hperm : ps.Perm ps')
    (hdis : ps.Pairwise Disjoint) (q : List α) : mergeAll ps q = mergeAll ps' q := by
  refine hperm.foldl_eq' (fun p hp p' hp' q => ?_) q
  by_cases heq : p = p'
  · rw [heq]
  · exact (merge_comm p p' q (hdis.forall hp hp' heq)).symm

theorem getElem?_mergeAll_of_eq {ps : List (List α × List α)} {q : List α} {j : Nat}
    (h : ∀ p ∈ ps, p.1[j]? = p.2[j]?) : (mergeAll ps q)[j]? = q[j]? := by
  induction ps generalizing q with
  | nil => rfl
  | cons p ps ih =>
    have hrest := ih (q := merge p.1 p.2 q) fun p' hp' => h p' (.tail _ hp')
    exact hrest.trans (getElem?_merge_of_eq p.1 p.2 q j (h p (.head _)))

theorem getElem?_mergeAll_of_ne {ps : List (List α × List α)} {q : List α} {p : List α × List α} {j : Nat}
    (hdis : ps.Pairwise Disjoint) (hps : ∀ p ∈ ps, p.1.length = q.length ∧ p.2.length = q.length)
    (hp : p ∈ ps) (hne : p.1[j]? ≠ p.2[j]?) : (mergeAll ps q)[j]? = p.1[j]? := by
  -- `p` first, so that all that follows leaves the position as it is
  obtain ⟨qs, hperm⟩ : ∃ qs, ps.Perm (p :: qs) := by
    obtain ⟨as, bs, rfl⟩ := List.append_of_mem hp
    exact ⟨as ++ bs, List.perm_middle⟩
  have hdis' : ∀ p' ∈ qs, Disjoint p p' := (List.pairwise_cons.mp (hdis.perm hperm (Std.Symm.symm _ _))).1
  obtain ⟨h1, h2⟩ := hps p hp
  rw [mergeAll_perm hperm hdis q]
  have hrest : (mergeAll qs (merge p.1 p.2 q))[j]? = (merge p.1 p.2 q)[j]? :=
    getElem?_mergeAll_of_eq fun p' hp' => (hdis' p' hp' j).resolve_left hne
  have hfirst := getElem?_merge p.1 p.2 q h1 h2 j
  rw [if_neg hne] at hfirst
  exact hrest.trans hfirst
end Merge

end Patch
