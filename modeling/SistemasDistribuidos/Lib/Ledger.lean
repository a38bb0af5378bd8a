import Mathlib.Data.List.Induction
import Mathlib.Tactic.Push

/-!
What a log says about resources that are granted and released.

`last f d log` is the value the last event of the log that sets one (`f e = some v`) gave,
`d` if none did.  `Throughout P log` says `P` of each event with what came before it.  A
resource is `busy` when the last event about it is its grant.  If no grant in the log is of
a busy resource (`Proper`), two grants of one resource have a release of it between them
(`Proper.release_between`).
-/

namespace Ledger

variable {ε β : Type*}

/-! ## The last value set -/

/-- The last value set in the log. -/
def last (f : ε → Option β) (d : β) (log : List ε) : β := (log.filterMap f).getLast?.getD d

theorem last_concat (f : ε → Option β) (d : β) (log : List ε) (e : ε) :
    last f d (log ++ [e]) = (f e).getD (last f d log) := by
  unfold last
  rw [List.filterMap_append]
  cases h : f e with
  | none => simp [h]
  | some v => simp [h]

/-- Where the last value comes from. -/
theorem last_cases (f : ε → Option β) (d : β) (log : List ε) :
    (∃ pre e post, log = pre ++ e :: post ∧ f e = some (last f d log) ∧ ∀ x ∈ post, f x = none) ∨
      ((∀ x ∈ log, f x = none) ∧ last f d log = d) := by
  induction log using List.reverseRecOn with
  | nil => exact .inr ⟨by simp, rfl⟩
  | append_singleton log e ih =>
    rw [last_concat]
    cases h : f e with
    | some v => exact .inl ⟨log, e, [], rfl, by simpa using h, by simp⟩
    | none =>
      rcases ih with ⟨pre, x, post, hlog, hx, hpost⟩ | ⟨hnone, hd⟩
      · refine .inl ⟨pre, x, post ++ [e], by simp [hlog], by simpa using hx, ?_⟩
        intro y hy
        rcases List.mem_append.mp hy with hy | hy
        · exact hpost y hy
        · rw [List.mem_singleton.mp hy, h]
      · refine .inr ⟨?_, by simpa using hd⟩
        intro y hy
        rcases List.mem_append.mp hy with hy | hy
        · exact hnone y hy
        · rw [List.mem_singleton.mp hy, h]

/-- An event that sets a value and is followed by none that does decides. -/
theorem last_eq_of_split (f : ε → Option β) (d v : β) (pre post : List ε) (e : ε)
    (he : f e = some v) (hpost : ∀ x ∈ post, f x = none) : last f d (pre ++ e :: post) = v := by
  have hnil : post.filterMap f = [] := List.filterMap_eq_nil_iff.mpr hpost
  simp [last, he, hnil]

/-! ## Each event with its past -/

/-- `P` holds of each event of the log and the events before it. -/
def Throughout (P : List ε → ε → Prop) (log : List ε) : Prop :=
  ∀ pre e post, log = pre ++ e :: post → P pre e

theorem throughout_nil (P : List ε → ε → Prop) : Throughout P [] := by
  intro pre e post h
  simp at h

theorem Throughout.concat {P : List ε → ε → Prop} {log : List ε} (h : Throughout P log) (e : ε)
    (he : P log e) : Throughout P (log ++ [e]) := by
  intro pre x post hlog
  rcases List.eq_nil_or_concat post with rfl | ⟨rest, y, rfl⟩
  · obtain ⟨rfl, hx⟩ := List.append_inj' hlog rfl
    obtain rfl : e = x := by simpa using hx
    exact he
  · rw [List.concat_eq_append, ← List.cons_append, ← List.append_assoc] at hlog
    exact h pre x rest (List.append_inj' hlog rfl).1

/-! ## Grants and releases -/

inductive Move (ι : Type*) where
  | grant (i : ι)
  | release (i : ι)
  | idle
deriving DecidableEq, Repr

variable {ι : Type*} [DecidableEq ι]

/-- What a move makes of resource `i`: busy, free, or what it was. -/
def mark (i : ι) : Move ι → Option Bool
  | .grant j => if j = i then some true else none
  | .release j => if j = i then some false else none
  | .idle => none

theorem mark_eq_true (i : ι) (m : Move ι) : mark i m = some true ↔ m = .grant i := by
  cases m <;> simp [mark]

theorem mark_eq_false (i : ι) (m : Move ι) : mark i m = some false ↔ m = .release i := by
  cases m <;> simp [mark]

theorem mark_eq_none (i : ι) (m : Move ι) :
    mark i m = none ↔ m ≠ .grant i ∧ m ≠ .release i := by
  cases m <;> simp [mark]

variable (move : ε → Move ι)

/-- The last event about `i` is its grant. -/
def busy (log : List ε) (i : ι) : Bool := last (fun e => mark i (move e)) false log

@[simp] theorem busy_nil (i : ι) : busy move [] i = false := rfl

theorem busy_concat (log : List ε) (e : ε) (i : ι) :
    busy move (log ++ [e]) i = (mark i (move e)).getD (busy move log i) :=
  last_concat _ _ _ _

/-- Busy: granted, and since that grant neither granted nor released. -/
theorem busy_iff (log : List ε) (i : ι) :
    busy move log i = true ↔ ∃ pre e post, log = pre ++ e :: post ∧ move e = .grant i ∧
      ∀ x ∈ post, move x ≠ .grant i ∧ move x ≠ .release i := by
  constructor
  · intro h
    rcases last_cases (fun e => mark i (move e)) false log with ⟨pre, e, post, hlog, he, hpost⟩ | ⟨-, hd⟩
    · refine ⟨pre, e, post, hlog, ?_, fun x hx => (mark_eq_none i _).mp (hpost x hx)⟩
      rw [← mark_eq_true, he]
      exact congrArg some h
    · rw [busy, hd] at h
      cases h
  · rintro ⟨pre, e, post, rfl, he, hpost⟩
    exact last_eq_of_split _ _ _ _ _ _ ((mark_eq_true i _).mpr he)
      fun x hx => (mark_eq_none i _).mpr (hpost x hx)

/-- Every grant of the log is of a resource that was not busy. -/
def Proper (log : List ε) : Prop :=
  Throughout (fun pre e => ∀ i, move e = .grant i → busy move pre i = false) log

variable {move}

/-- **Two grants of one resource have a release of it between them.** -/
theorem Proper.release_between {log pre mid post : List ε} {e e' : ε} {i : ι}
    (h : Proper move log) (hlog : log = pre ++ e :: (mid ++ e' :: post))
    (he : move e = .grant i) (he' : move e' = .grant i) : ∃ x ∈ mid, move x = .release i := by
  have hfree : busy move (pre ++ e :: mid) i = false :=
    h (pre ++ e :: mid) e' post (by simp [hlog]) i he'
  by_contra hno
  push Not at hno
  rcases last_cases (fun x => mark i (move x)) true mid with ⟨a, x, b, hmid, hx, hb⟩ | ⟨hnone, -⟩
  · -- the last event about `i` in the middle is a grant, so `i` is busy at `e'`
    have hmark : mark i (move x) = some true := by
      cases hm : mark i (move x) with
      | none => rw [hm] at hx; cases hx
      | some b =>
        cases b with
        | true => rfl
        | false =>
          exact absurd ((mark_eq_false i _).mp hm) (hno x (by simp [hmid]))
    have hbusy : busy move ((pre ++ e :: a) ++ x :: b) i = true :=
      last_eq_of_split _ _ _ _ _ _ hmark hb
    rw [hmid, show pre ++ e :: (a ++ x :: b) = (pre ++ e :: a) ++ x :: b by simp, hbusy] at hfree
    cases hfree
  · have hbusy : busy move (pre ++ e :: mid) i = true :=
      last_eq_of_split _ _ _ _ _ _ ((mark_eq_true i _).mpr he) hnone
    rw [hbusy] at hfree
    cases hfree

end Ledger
