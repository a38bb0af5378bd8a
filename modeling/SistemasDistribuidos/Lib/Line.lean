import Mathlib.Data.List.Nodup

/-!
A line of different elements, one behind the other.

`Behind q a b` says that `b` stands right behind `a` in the line `q`.  A line only grows at
its end (`behind_concat`) and only shrinks at its front (`Behind.of_cons`); everything but the
first has one element in front of it, everything but the last one behind it.
-/

namespace Line

variable {α : Type*} {q : List α} {a b c x : α}

/-- `b` stands right behind `a`. -/
def Behind (q : List α) (a b : α) : Prop := ∃ k, q[k]? = some a ∧ q[k + 1]? = some b

theorem Behind.mem_left (h : Behind q a b) : a ∈ q := by
  obtain ⟨k, hk, -⟩ := h
  exact List.mem_of_getElem? hk

theorem Behind.mem_tail (h : Behind q a b) : b ∈ q.tail := by
  obtain ⟨k, -, hk⟩ := h
  apply List.mem_of_getElem? (i := k)
  rw [List.getElem?_tail]
  exact hk

theorem Behind.mem_right (h : Behind q a b) : b ∈ q := List.mem_of_mem_tail h.mem_tail

theorem exists_behind (hb : b ∈ q.tail) : ∃ a, Behind q a b := by
  obtain ⟨k, hk⟩ := List.mem_iff_getElem?.mp hb
  rw [List.getElem?_tail] at hk
  have hlt := (List.getElem?_eq_some_iff.mp hk).1
  exact ⟨q[k], k, List.getElem?_eq_getElem (by omega), hk⟩

/-- The line is longer by one. -/
theorem behind_concat : Behind (q ++ [x]) a b ↔ Behind q a b ∨ (q.getLast? = some a ∧ b = x) := by
  rw [List.getLast?_eq_getElem?]
  constructor
  · rintro ⟨k, hk, hk'⟩
    have hlt := (List.getElem?_eq_some_iff.mp hk').1
    rw [List.length_append, List.length_singleton] at hlt
    rw [List.getElem?_append_left (by omega)] at hk
    by_cases hend : k + 1 < q.length
    · rw [List.getElem?_append_left hend] at hk'
      exact .inl ⟨k, hk, hk'⟩
    · right
      rw [List.getElem?_append_right (by omega), show k + 1 - q.length = 0 by omega] at hk'
      cases hk'
      rw [show q.length - 1 = k by omega]
      exact ⟨hk, rfl⟩
  · rintro (⟨k, hk, hk'⟩ | ⟨hlast, rfl⟩)
    · have hlt := (List.getElem?_eq_some_iff.mp hk').1
      exact ⟨k, by rw [List.getElem?_append_left (by omega), hk], by rw [List.getElem?_append_left hlt, hk']⟩
    · have hlt := (List.getElem?_eq_some_iff.mp hlast).1
      refine ⟨q.length - 1, by rw [List.getElem?_append_left hlt, hlast], ?_⟩
      rw [show q.length - 1 + 1 = q.length by omega]
      exact List.getElem?_concat_length ..

theorem Behind.of_cons (h : Behind q a b) : Behind (c :: q) a b := by
  obtain ⟨k, hk, hk'⟩ := h
  exact ⟨k + 1, hk, hk'⟩

theorem behind_cons (h : Behind (c :: q) a b) : (a = c ∧ q.head? = some b) ∨ Behind q a b := by
  obtain ⟨k, hk, hk'⟩ := h
  cases k with
  | zero =>
    left
    rw [List.head?_eq_getElem?]
    exact ⟨(Option.some.inj hk).symm, hk'⟩
  | succ k => exact .inr ⟨k, hk, hk'⟩

theorem Behind.right_unique (hnd : q.Nodup) (h : Behind q a b) (h' : Behind q a c) : b = c := by
  obtain ⟨k, hk, hb⟩ := h
  obtain ⟨l, hl, hc⟩ := h'
  have hlt := (List.getElem?_eq_some_iff.mp hk).1
  obtain rfl : k = l := (List.getElem?_inj hlt hnd).mp (hk.trans hl.symm)
  exact Option.some.inj (hb.symm.trans hc)

theorem Behind.left_unique (hnd : q.Nodup) (h : Behind q a b) (h' : Behind q c b) : a = c := by
  obtain ⟨k, ha, hk⟩ := h
  obtain ⟨l, hc, hl⟩ := h'
  have hlt := (List.getElem?_eq_some_iff.mp hk).1
  have heq : k + 1 = l + 1 := (List.getElem?_inj hlt hnd).mp (hk.trans hl.symm)
  obtain rfl : k = l := by omega
  exact Option.some.inj (ha.symm.trans hc)

theorem Behind.not_last (hnd : q.Nodup) (h : Behind q a b) : q.getLast? ≠ some a := by
  intro hlast
  rw [List.getLast?_eq_getElem?] at hlast
  obtain ⟨k, hk, hk'⟩ := h
  have hlt := (List.getElem?_eq_some_iff.mp hk).1
  have hlt' := (List.getElem?_eq_some_iff.mp hk').1
  have := (List.getElem?_inj hlt hnd).mp (hk.trans hlast.symm)
  omega

theorem exists_of_not_last (ha : a ∈ q) (hlast : q.getLast? ≠ some a) : ∃ b, Behind q a b := by
  obtain ⟨k, hk⟩ := List.mem_iff_getElem?.mp ha
  have hlt := (List.getElem?_eq_some_iff.mp hk).1
  have hne : k ≠ q.length - 1 := by
    rintro rfl
    rw [List.getLast?_eq_getElem?] at hlast
    exact hlast hk
  exact ⟨q[k + 1], k, hk, List.getElem?_eq_getElem (by omega)⟩

theorem Behind.ne (hnd : q.Nodup) (h : Behind q a b) : a ≠ b := by
  rintro rfl
  obtain ⟨k, hk, hk'⟩ := h
  have hlt := (List.getElem?_eq_some_iff.mp hk).1
  have := (List.getElem?_inj hlt hnd).mp (hk.trans hk'.symm)
  omega

/-- The first of the line is not behind anything. -/
theorem Behind.not_head (hnd : q.Nodup) (h : Behind q a b) : q.head? ≠ some b := by
  intro hhead
  cases q with
  | nil => cases hhead
  | cons c q =>
    cases hhead
    exact (List.nodup_cons.mp hnd).1 h.mem_tail

theorem mem_tail_of_not_head (ha : a ∈ q) (hhead : q.head? ≠ some a) : a ∈ q.tail := by
  cases q with
  | nil => cases ha
  | cons c q =>
    rcases List.mem_cons.mp ha with rfl | ha
    · exact absurd rfl hhead
    · exact ha

/-- A line whose first is its last. -/
theorem eq_singleton (hnd : q.Nodup) (hhead : q.head? = some a) (hlast : q.getLast? = some a) : q = [a] := by
  cases q with
  | nil => cases hhead
  | cons c q =>
    cases hhead
    cases q with
    | nil => rfl
    | cons b q => exact absurd hlast (Behind.not_last hnd ⟨0, rfl, rfl⟩)

end Line
