import Mathlib.Data.List.Nodup
import Mathlib.Data.List.Pairwise

/-!
Ordering by what knows what.

`knows b a` says that `b` came after `a` and has seen it; two elements may not know each
other.  A list is `NewestFirst` when nothing in it is known by something before it.  An
element is put before the first one that it knows (`place`); a chain of elements, each of
which knows the next, can be inserted in one pass (`insertAll`), because none of them knows
what the one before it was put behind.
-/

namespace Causal

variable {α : Type*} (knows : α → α → Prop)

/-- Knowledge among the elements of `S` is passed on, and never mutual. -/
structure IsCausal (S : α → Prop) : Prop where
  trans : ∀ a b c, S a → S b → S c → knows c b → knows b a → knows c a
  antisymm : ∀ a b, S a → S b → knows a b → knows b a → a = b

def NewestFirst (l : List α) : Prop := l.Pairwise fun newer older => ¬ knows older newer

section Order

variable {knows} {S : α → Prop}

/-- Before the first element that it knows, `w` stands right. -/
theorem NewestFirst.insert (hS : IsCausal knows S) {l : List α} {w : α} {j : Nat} (h : NewestFirst knows l)
    (hl : ∀ u ∈ l, S u) (hw : S w) (hnew : w ∉ l) (hbefore : ∀ u ∈ l.take j, ¬ knows w u)
    (hnext : ∀ u, (l.drop j).head? = some u → knows w u) : NewestFirst knows (l.take j ++ w :: l.drop j) := by
  have hsplit : NewestFirst knows (l.take j ++ l.drop j) := by rwa [List.take_append_drop]
  obtain ⟨htake, hdrop, hcross⟩ := List.pairwise_append.mp hsplit
  refine List.pairwise_append.mpr ⟨htake, List.pairwise_cons.mpr ⟨fun x hx hxw => ?_, hdrop⟩, fun a ha b hb => ?_⟩
  · have hmem : ∀ x ∈ l.drop j, x ∈ l := fun x hx => List.mem_of_mem_drop hx
    cases hd : l.drop j with
    | nil => rw [hd] at hx; cases hx
    | cons u us =>
      rw [hd] at hx hdrop hmem
      have hwu := hnext u (by rw [hd]; rfl)
      rcases List.mem_cons.mp hx with rfl | hxus
      · exact hnew (hS.antisymm w x hw (hl x (hmem x hx)) hwu hxw ▸ hmem x hx)
      · -- `x` would know `u`, which stands before it
        exact (List.pairwise_cons.mp hdrop).1 x hxus
          (hS.trans u w x (hl u (hmem u (.head _))) hw (hl x (hmem x hx)) hxw hwu)
  · rcases List.mem_cons.mp hb with rfl | hb
    · exact hbefore a ha
    · exact hcross a ha b hb

end Order

variable [DecidableRel knows]

/-- How many elements at the beginning of the list `w` does not know. -/
def place (w : α) : List α → Nat
  | [] => 0
  | u :: l => if knows w u then 0 else place w l + 1

/-- The elements of a chain, each placed from behind the one before it on. -/
def insertAll : List α → Nat → List α → List α
  | [], _, l => l
  | w :: ws, j, l =>
    let j := j + place knows w (l.drop j)
    insertAll ws (j + 1) (l.take j ++ w :: l.drop j)

variable {knows} {S : α → Prop}

theorem place_le (w : α) (l : List α) : place knows w l ≤ l.length := by
  induction l with
  | nil => exact Nat.le_refl 0
  | cons u l ih =>
    rw [place]
    split
    · exact Nat.zero_le _
    · exact Nat.succ_le_succ ih

theorem not_knows_of_mem_take (w : α) (l : List α) : ∀ u ∈ l.take (place knows w l), ¬ knows w u := by
  induction l with
  | nil => simp
  | cons u l ih =>
    rw [place]
    split
    · simp
    · next h =>
      rw [List.take_succ_cons]
      intro v hv
      rcases List.mem_cons.mp hv with rfl | hv
      · exact h
      · exact ih v hv

theorem knows_of_head?_drop (w : α) (l : List α) (u : α) (hu : (l.drop (place knows w l)).head? = some u) :
    knows w u := by
  induction l with
  | nil => simp at hu
  | cons v l ih =>
    rw [place] at hu
    split at hu
    · next h =>
      simp only [List.drop_zero, List.head?_cons, Option.some.injEq] at hu
      exact hu ▸ h
    · rw [List.drop_succ_cons] at hu
      exact ih hu

/-- **Inserting a chain.** -/
theorem insertAll_spec (hS : IsCausal knows S) (ws : List α) (j : Nat) (l : List α) (h : NewestFirst knows l)
    (hj : j ≤ l.length) (hchain : ws.Pairwise knows) (hws : ∀ w ∈ ws, S w) (hl : ∀ u ∈ l, S u)
    (hnd : (ws ++ l).Nodup) (hbefore : ∀ u ∈ l.take j, ∀ w ∈ ws, ¬ knows w u) :
    NewestFirst knows (insertAll knows ws j l) ∧ (insertAll knows ws j l).Perm (ws ++ l) := by
  induction ws generalizing j l with
  | nil => exact ⟨h, .refl _⟩
  | cons w ws ih =>
    obtain ⟨hwws, hchain⟩ := List.pairwise_cons.mp hchain
    obtain ⟨hwnew, hnd'⟩ := List.nodup_cons.mp hnd
    have hwl : w ∉ l := fun hmem => hwnew (List.mem_append_right _ hmem)
    have hwS := hws w (.head _)
    have hdrop : (l.drop j).drop (place knows w (l.drop j)) = l.drop (j + place knows w (l.drop j)) :=
      List.drop_drop
    have htake : l.take (j + place knows w (l.drop j)) = l.take j ++ (l.drop j).take (place knows w (l.drop j)) :=
      List.take_add
    have hle : j + place knows w (l.drop j) ≤ l.length := by
      have hplace : place knows w (l.drop j) ≤ (l.drop j).length := place_le w _
      rw [List.length_drop] at hplace
      omega
    rw [insertAll]
    generalize hk : j + place knows w (l.drop j) = k at *
    -- nothing before the new place is known by `w`, nor by what follows it in the chain
    have hbefore' : ∀ u ∈ l.take k, ¬ knows w u := by
      intro u hu
      rw [htake] at hu
      rcases List.mem_append.mp hu with hu | hu
      · exact hbefore u hu w (.head _)
      · exact not_knows_of_mem_take w (l.drop j) u hu
    have hnext : ∀ u, (l.drop k).head? = some u → knows w u := by
      intro u hu
      rw [← hdrop] at hu
      exact knows_of_head?_drop w (l.drop j) u hu
    have hperm : (l.take k ++ w :: l.drop k).Perm (w :: l) := by
      have hmid : (l.take k ++ w :: l.drop k).Perm (w :: (l.take k ++ l.drop k)) := List.perm_middle
      rwa [List.take_append_drop] at hmid
    have htake' : (l.take k ++ w :: l.drop k).take (k + 1) = l.take k ++ [w] := by
      have hlen : (l.take k).length = k := List.length_take_of_le hle
      rw [List.take_append, hlen, List.take_of_length_le (by omega)]
      simp
    obtain ⟨hnf, hp⟩ := ih (k + 1) (l.take k ++ w :: l.drop k)
      (h.insert hS hl hwS hwl hbefore' hnext)
      (by rw [hperm.length_eq, List.length_cons]; omega) hchain
      (fun w' hw' => hws w' (.tail _ hw'))
      (fun u hu => by
        rcases List.mem_cons.mp (hperm.mem_iff.mp hu) with rfl | hu
        · exact hwS
        · exact hl u hu)
      (by
        refine (List.Perm.nodup_iff ?_).mpr hnd
        exact (hperm.append_left ws).trans List.perm_middle)
      (fun u hu w' hw' hknows => by
        rw [htake'] at hu
        have hw'S := hws w' (.tail _ hw')
        rcases List.mem_append.mp hu with hu | hu
        · exact hbefore' u hu (hS.trans u w' w (hl u (List.mem_of_mem_take hu)) hw'S hwS (hwws w' hw') hknows)
        · rw [List.mem_singleton.mp hu] at hknows
          have heq := hS.antisymm w w' hwS hw'S (hwws w' hw') hknows
          exact hwnew (List.mem_append_left _ (heq ▸ hw')))
    refine ⟨hnf, hp.trans ?_⟩
    exact (hperm.append_left ws).trans List.perm_middle

end Causal
