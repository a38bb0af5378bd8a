import Mathlib.Data.List.Basic

/-!
A server that answers a sequence of calls, one at a time.

`handle s a` is the state after the call `a` and the reply to it.  `serve` keeps an
`Entry` for each call, `final` is the state at the end.  A fact that relates the state to
the whole history is proved one call at a time (`history_invariant`).

A server whose process may die while it handles a call is `orDead`: from then on it
neither answers nor changes.
-/

namespace Serve

variable {σ α ρ : Type*}

structure Entry (σ α ρ : Type*) where
  before : σ
  call : α
  reply : ρ
  after : σ

def entry (handle : σ → α → σ × ρ) (s : σ) (a : α) : Entry σ α ρ :=
  ⟨s, a, (handle s a).2, (handle s a).1⟩

@[simp] theorem entry_before (handle : σ → α → σ × ρ) (s : σ) (a : α) :
    (entry handle s a).before = s := rfl

@[simp] theorem entry_call (handle : σ → α → σ × ρ) (s : σ) (a : α) :
    (entry handle s a).call = a := rfl

@[simp] theorem entry_reply (handle : σ → α → σ × ρ) (s : σ) (a : α) :
    (entry handle s a).reply = (handle s a).2 := rfl

@[simp] theorem entry_after (handle : σ → α → σ × ρ) (s : σ) (a : α) :
    (entry handle s a).after = (handle s a).1 := rfl

/-- The calls `as` with what they met and what they got. -/
def serve (handle : σ → α → σ × ρ) : σ → List α → List (Entry σ α ρ)
  | _, [] => []
  | s, a :: as => entry handle s a :: serve handle (handle s a).1 as

def final (handle : σ → α → σ × ρ) : σ → List α → σ
  | s, [] => s
  | s, a :: as => final handle (handle s a).1 as

/-- What the clients see. -/
def replies (handle : σ → α → σ × ρ) (s : σ) (as : List α) : List ρ :=
  (serve handle s as).map Entry.reply

/-- Some calls lead from `s` to `t`. -/
def Reaches (handle : σ → α → σ × ρ) (s t : σ) : Prop := ∃ as, final handle s as = t

section Lemmas

variable (handle : σ → α → σ × ρ)

theorem final_append (s : σ) (as bs : List α) :
    final handle s (as ++ bs) = final handle (final handle s as) bs := by
  induction as generalizing s with
  | nil => rfl
  | cons a as ih => exact ih (handle s a).1

theorem serve_append (s : σ) (as bs : List α) :
    serve handle s (as ++ bs) = serve handle s as ++ serve handle (final handle s as) bs := by
  induction as generalizing s with
  | nil => rfl
  | cons a as ih =>
    rw [List.cons_append, serve, ih (handle s a).1]
    rfl

/-- **Invariant rule.**  What holds at the start and is kept by each call holds at the end. -/
theorem final_invariant (I : σ → Prop) (s : σ) (h0 : I s) (hstep : ∀ s a, I s → I (handle s a).1)
    (as : List α) : I (final handle s as) := by
  induction as generalizing s with
  | nil => exact h0
  | cons a as ih => exact ih (handle s a).1 (hstep s a h0)

/-- **Invariant rule with history.**  The log grows by one entry a call, behind what is in it. -/
theorem history_invariant (J : σ → List (Entry σ α ρ) → Prop) (s : σ) (log : List (Entry σ α ρ))
    (h0 : J s log)
    (hstep : ∀ s log a, J s log → J (handle s a).1 (log ++ [entry handle s a])) (as : List α) :
    J (final handle s as) (log ++ serve handle s as) := by
  induction as generalizing s log with
  | nil =>
    rw [serve, List.append_nil]
    exact h0
  | cons a as ih =>
    have := ih (handle s a).1 (log ++ [entry handle s a]) (hstep s log a h0)
    rwa [List.append_assoc] at this

/-- Each entry is a call met in the state the calls before it lead to. -/
theorem mem_serve (s : σ) (as : List α) (x : Entry σ α ρ) :
    x ∈ serve handle s as ↔
      ∃ pre a post, as = pre ++ a :: post ∧ x = entry handle (final handle s pre) a := by
  induction as generalizing s with
  | nil => simp [serve]
  | cons b as ih =>
    rw [serve, List.mem_cons, ih]
    constructor
    · rintro (rfl | ⟨pre, a, post, rfl, rfl⟩)
      · exact ⟨[], b, as, rfl, rfl⟩
      · exact ⟨b :: pre, a, post, rfl, rfl⟩
    · rintro ⟨pre, a, post, has, rfl⟩
      cases pre with
      | nil =>
        obtain ⟨rfl, rfl⟩ := List.cons.inj has
        exact .inl rfl
      | cons c pre =>
        obtain ⟨rfl, rfl⟩ := List.cons.inj has
        exact .inr ⟨pre, a, post, rfl, rfl⟩

theorem call_mem_of_mem_serve (s : σ) (as : List α) (x : Entry σ α ρ)
    (hx : x ∈ serve handle s as) : x.call ∈ as := by
  obtain ⟨pre, a, post, rfl, rfl⟩ := (mem_serve handle s as x).mp hx
  simp

end Lemmas

/-! ## A process that may die -/

/-- `handle s a = none` kills the process. -/
def orDead (handle : σ → α → Option (σ × ρ)) (s : Option σ) (a : α) : Option σ × Option ρ :=
  match s.bind fun s => handle s a with
  | none => (none, none)
  | some (t, r) => (some t, some r)

theorem orDead_some (handle : σ → α → Option (σ × ρ)) (s t : σ) (a : α) (r : ρ)
    (h : handle s a = some (t, r)) : orDead handle (some s) a = (some t, some r) := by
  simp [orDead, h]

theorem final_orDead_none (handle : σ → α → Option (σ × ρ)) (as : List α) :
    final (orDead handle) none as = none := by
  induction as with
  | nil => rfl
  | cons a as ih => exact ih

end Serve
