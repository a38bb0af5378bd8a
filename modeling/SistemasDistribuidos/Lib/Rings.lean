import Mathlib.Data.List.Chain
import Mathlib.Data.List.Nodup
import Mathlib.Logic.Function.Basic

/-!
Doubly linked rings.

A ring is a head and the elements linked behind it, each to the next one and back; the
last is linked to the head again.  `IsRing l head xs` says that the links `l` are those of
the elements `xs` in this order.  An element is linked in before the head (`insertTail`) or
out (`unlink`) by four or two assignments, and `walk` follows one kind of link from the
head until it comes back to it.
-/

namespace Rings

variable {α : Type*}

structure Links (α : Type*) where
  prev : α → α
  next : α → α

def Links.Linked (l : Links α) (x y : α) : Prop := l.next x = y ∧ l.prev y = x

structure IsRing (l : Links α) (head : α) (xs : List α) : Prop where
  nodup : (head :: xs).Nodup
  chain : List.IsChain l.Linked (head :: xs ++ [head])

/-- Links that are the same where the chain uses them. -/
theorem isChain_congr {R S : α → α → Prop} {xs : List α} (h : List.IsChain R xs)
    (hRS : ∀ x ∈ xs.dropLast, ∀ y ∈ xs.tail, R x y → S x y) : List.IsChain S xs := by
  induction xs with
  | nil => exact .nil
  | cons x xs ih =>
    cases xs with
    | nil => exact .singleton x
    | cons y ys =>
      rw [List.isChain_cons_cons] at h ⊢
      refine ⟨hRS x (by simp) y (by simp) h.1, ih h.2 fun a ha b hb => hRS a ?_ b ?_⟩
      · rw [List.dropLast_cons_cons]
        exact .tail _ ha
      · exact .tail _ hb

theorem isRing_nil (l : Links α) (head : α) (hp : l.prev head = head) (hn : l.next head = head) :
    IsRing l head [] :=
  ⟨List.nodup_singleton head, List.isChain_pair.mpr ⟨hn, hp⟩⟩

theorem exists_last (head : α) (xs : List α) : ∃ ys last, head :: xs = ys ++ [last] :=
  ⟨_, _, (List.dropLast_append_getLast (List.cons_ne_nil head xs)).symm⟩

variable [DecidableEq α]

/-- Behind the last element, between it and the head. -/
def Links.insertTail (l : Links α) (head x : α) : Links α :=
  let last := l.prev head
  { prev := Function.update (Function.update l.prev x last) head x
    next := Function.update (Function.update l.next x head) last x }

def Links.unlink (l : Links α) (x : α) : Links α :=
  { prev := Function.update l.prev (l.next x) (l.prev x)
    next := Function.update l.next (l.prev x) (l.next x) }

/-- `head->prev = head->next = head` -/
def Links.reset (l : Links α) (head : α) : Links α :=
  { prev := Function.update l.prev head head
    next := Function.update l.next head head }

/-- The elements met from `x` on along `f`, up to the head. -/
def walk (f : α → α) (head : α) : Nat → α → List α
  | 0, _ => []
  | n + 1, x => if x = head then [] else x :: walk f head n (f x)

theorem isRing_reset (l : Links α) (head : α) : IsRing (l.reset head) head [] :=
  isRing_nil _ head (by simp [Links.reset]) (by simp [Links.reset])

/-- **Linking in.** -/
theorem IsRing.insertTail {l : Links α} {head : α} {xs : List α} (h : IsRing l head xs) {x : α}
    (hx : x ∉ head :: xs) : IsRing (l.insertTail head x) head (xs ++ [x]) := by
  obtain ⟨ys, last, hys⟩ := exists_last head xs
  have hchain := h.chain
  rw [hys, List.append_assoc, List.singleton_append, List.isChain_append_cons_cons] at hchain
  obtain ⟨hchain, ⟨-, hlast⟩, -⟩ := hchain
  have hnd := h.nodup
  have htail : (ys ++ [last]).tail = xs := by rw [← hys, List.tail_cons]
  refine ⟨?_, ?_⟩
  · rw [← List.cons_append, List.nodup_append]
    exact ⟨h.nodup, List.nodup_singleton x, fun a ha b hb hab => hx (by simp_all)⟩
  · rw [← List.cons_append, hys, List.append_assoc, List.append_assoc, List.singleton_append,
      List.singleton_append, List.isChain_append_cons_cons]
    rw [hys] at hx hnd
    have hlx : last ≠ x := fun heq => hx (by simp [heq])
    have hhx : head ≠ x := fun heq => hx (by rw [← hys, heq]; exact .head _)
    refine ⟨isChain_congr hchain fun a ha b hb hab => ?_, ?_, List.isChain_pair.mpr ?_⟩
    · rw [List.dropLast_concat] at ha
      rw [htail] at hb
      have hal : a ≠ last := fun heq => by
        rw [heq] at ha
        exact (List.nodup_append.mp hnd).2.2 last ha last (by simp) rfl
      have hax : a ≠ x := fun heq => hx (by simp [← heq, ha])
      have hbh : b ≠ head := fun heq => (List.nodup_cons.mp h.nodup).1 (heq ▸ hb)
      have hbx : b ≠ x := fun heq => hx (by rw [← hys, ← heq]; exact .tail _ hb)
      exact ⟨by simp [Links.insertTail, hlast, hal, hax, hab.1],
        by simp [Links.insertTail, hlast, hbh, hbx, hab.2]⟩
    · exact ⟨by simp [Links.insertTail, hlast],
        by simp [Links.insertTail, hlast, hhx.symm]⟩
    · exact ⟨by simp [Links.insertTail, hlast, hlx.symm], by simp [Links.insertTail]⟩

/-- **Linking out.** -/
theorem IsRing.unlink {l : Links α} {head x : α} {as bs : List α} (h : IsRing l head (as ++ x :: bs)) :
    IsRing (l.unlink x) head (as ++ bs) := by
  obtain ⟨ys, p, hys⟩ := exists_last head as
  obtain ⟨n, zs, hzs⟩ : ∃ n zs, bs ++ [head] = n :: zs :=
    List.exists_cons_of_ne_nil (by simp)
  have hnd : (ys ++ [p] ++ x :: bs).Nodup := by rw [← hys]; exact h.nodup
  have hchain := h.chain
  rw [List.cons_append, List.append_assoc, ← List.cons_append, hys, List.cons_append, hzs, List.append_assoc,
    List.singleton_append, List.isChain_append_cons_cons, List.isChain_cons_cons] at hchain
  obtain ⟨hpre, ⟨-, hp⟩, ⟨hn, -⟩, hpost⟩ := hchain
  have hpys : p ∉ ys := fun hmem =>
    (List.nodup_append.mp (List.nodup_append.mp hnd).1).2.2 p hmem p (by simp) rfl
  have hdis : ∀ a ∈ ys ++ [p], ∀ b ∈ bs, a ≠ b := fun a ha b hb =>
    (List.nodup_append.mp hnd).2.2 a ha b (.tail _ hb)
  have hhead : head ∉ as := fun hmem =>
    (List.nodup_cons.mp h.nodup).1 (List.mem_append_left _ hmem)
  have htail : (ys ++ [p]).tail = as := by rw [← hys, List.tail_cons]
  refine ⟨?_, ?_⟩
  · have hsub : (head :: (as ++ bs)).Sublist (head :: (as ++ x :: bs)) :=
      ((List.Sublist.refl as).append (List.sublist_cons_self x bs)).cons_cons head
    exact hsub.nodup h.nodup
  · rw [List.cons_append, List.append_assoc, ← List.cons_append, hys, hzs, List.append_assoc,
      List.singleton_append, List.isChain_append_cons_cons]
    refine ⟨isChain_congr hpre fun a ha b hb hab => ?_, ?_, isChain_congr hpost fun a ha b hb hab => ?_⟩
    · rw [List.dropLast_concat] at ha
      rw [htail] at hb
      have hap : a ≠ p := fun heq => hpys (heq ▸ ha)
      have hbn : b ≠ n := fun heq => by
        have hmem : n ∈ bs ++ [head] := by rw [hzs]; exact .head _
        rcases List.mem_append.mp hmem with hmem | hmem
        · exact hdis b (by rw [← hys]; exact .tail _ hb) n hmem heq
        · exact hhead (by rw [← List.mem_singleton.mp hmem, ← heq]; exact hb)
      exact ⟨by simp [Links.unlink, hp, hap, hab.1], by simp [Links.unlink, hn, hbn, hab.2]⟩
    · exact ⟨by simp [Links.unlink, hp, hn], by simp [Links.unlink, hp, hn]⟩
    · have ha' : a ∈ bs := by
        rw [← hzs, List.dropLast_concat] at ha
        exact ha
      have hap : a ≠ p := fun heq => hdis p (by simp) a ha' heq.symm
      have hbn : b ≠ n := by
        rintro rfl
        cases bs with
        | nil =>
          simp only [List.nil_append, List.cons.injEq] at hzs
          obtain ⟨-, rfl⟩ := hzs
          simp at hb
        | cons c cs =>
          simp only [List.cons_append, List.cons.injEq] at hzs
          obtain ⟨rfl, rfl⟩ := hzs
          rw [List.tail_cons] at hb
          rcases List.mem_append.mp hb with hb | hb
          · have hcs := (List.nodup_append.mp hnd).2.1
            simp only [List.nodup_cons] at hcs
            exact hcs.2.1 hb
          · exact hdis head (by rw [← hys]; exact .head _) c (.head _) (List.mem_singleton.mp hb).symm
      exact ⟨by simp [Links.unlink, hp, hap, hab.1], by simp [Links.unlink, hn, hbn, hab.2]⟩

theorem walk_prev_chain {l : Links α} {head : α} (xs : List α) (y : α) (n : Nat) (hhead : head ∉ xs)
    (h : List.IsChain l.Linked (head :: xs ++ [y])) (hn : xs.length < n) :
    walk l.prev head n (l.prev y) = xs.reverse := by
  induction xs using List.reverseRecOn generalizing y n with
  | nil =>
    obtain ⟨n, rfl⟩ := Nat.exists_eq_succ_of_ne_zero (Nat.ne_zero_of_lt hn)
    have hy : l.prev y = head := (List.isChain_pair.mp h).2
    rw [walk, if_pos hy, List.reverse_nil]
  | append_singleton xs x ih =>
    obtain ⟨n, rfl⟩ := Nat.exists_eq_succ_of_ne_zero (Nat.ne_zero_of_lt hn)
    rw [← List.cons_append, List.append_assoc, List.singleton_append, List.isChain_append_cons_cons] at h
    obtain ⟨hxs, ⟨-, hy⟩, -⟩ := h
    have hx : x ≠ head := fun heq => hhead (by simp [heq])
    rw [walk, hy, if_neg hx, ih x n (fun hmem => hhead (by simp [hmem])) hxs
      (by rw [List.length_append, List.length_singleton] at hn; omega)]
    simp

/-- **Walking back** from the head meets every element, the last one first. -/
theorem IsRing.walk_prev {l : Links α} {head : α} {xs : List α} (h : IsRing l head xs) (n : Nat)
    (hn : xs.length < n) : walk l.prev head n (l.prev head) = xs.reverse :=
  walk_prev_chain xs head n (List.nodup_cons.mp h.nodup).1 h.chain hn

end Rings
