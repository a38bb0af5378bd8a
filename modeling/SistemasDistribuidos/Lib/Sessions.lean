import Mathlib.Algebra.BigOperators.Group.Finset.Basic
import Mathlib.Tactic.Abel
import SistemasDistribuidos.Lib.Runs
import SistemasDistribuidos.Lib.Pool

/-!
Clients that borrow once from a service.

A `Lender` is a service with three calls: `ask` may lend a resource, `giveBack`
returns the one a reply was about, `poll` looks at the state.  Replies name the
resource in the service's own way (`ρ`), so the index that `ask` also yields is a
ghost.  A client asks once; if it was lent something it may give it back once.
Calls of all clients interleave, each handled atomically (`step`).

`Lender.Laws` lists what the three calls must do to the flags of the service, where
`Ticket s i r` says that in `s` the reply `r` leads back to resource `i`.  From it,
in every reachable world flags and holdings agree (`Laws.reachable`).
-/

structure Lender (σ ι α β ρ : Type*) where
  init : σ
  ask : σ → α → σ × Option (ι × ρ)
  giveBack : σ → ρ → β → σ
  poll : σ → σ
  free : σ → ι → Bool

inductive Session (ι ρ : Type*) where
  | fresh
  | active (i : ι) (r : ρ)
  | refused
  | done (r : ρ)
deriving DecidableEq, Repr

namespace Session

variable {ι ρ : Type*}

/-- The resource a client holds. -/
def held : Session ι ρ → Option ι
  | .active i _ => some i
  | _ => none

/-- The session after the answer to `ask`. -/
def ofAnswer : Option (ι × ρ) → Session ι ρ
  | none => .refused
  | some (i, r) => .active i r

theorem held_eq_some (s : Session ι ρ) (i : ι) : s.held = some i ↔ ∃ r, s = .active i r := by
  cases s <;> simp [held]

@[simp] theorem held_ofAnswer (o : Option (ι × ρ)) :
    (ofAnswer o : Session ι ρ).held = o.map Prod.fst := by
  cases o <;> rfl

/-- The client was lent something, now or before. -/
def granted : Session ι ρ → Bool
  | .active _ _ => true
  | .done _ => true
  | _ => false

@[simp] theorem granted_ofAnswer (o : Option (ι × ρ)) :
    (ofAnswer o : Session ι ρ).granted = o.isSome := by
  cases o <;> rfl

end Session

namespace Lender

variable {σ ι α β ρ κ : Type*}

structure World (σ ι ρ κ : Type*) where
  srv : σ
  ses : κ → Session ι ρ

inductive Call (α β κ : Type*) where
  | ask (k : κ) (a : α)
  | giveBack (k : κ) (b : β)
  | poll

def world0 (L : Lender σ ι α β ρ) : World σ ι ρ κ := ⟨L.init, fun _ => .fresh⟩

/-- What is lent to whom. -/
def pool (L : Lender σ ι α β ρ) (w : World σ ι ρ κ) : Pool ι κ where
  free := L.free w.srv
  held := fun k => (w.ses k).held

section Step

variable [DecidableEq κ]

/-- One call is handled; `none` when that client does not make it now. -/
def step (L : Lender σ ι α β ρ) (w : World σ ι ρ κ) : Call α β κ → Option (World σ ι ρ κ)
  | .ask k a =>
    match w.ses k with
    | .fresh => some ⟨(L.ask w.srv a).1, Function.update w.ses k (.ofAnswer (L.ask w.srv a).2)⟩
    | _ => none
  | .giveBack k b =>
    match w.ses k with
    | .active _ r => some ⟨L.giveBack w.srv r b, Function.update w.ses k (.done r)⟩
    | _ => none
  | .poll => some { w with srv := L.poll w.srv }

/-- Everything one call can do. -/
theorem step_cases (L : Lender σ ι α β ρ) (w w' : World σ ι ρ κ) (c : Call α β κ)
    (h : L.step w c = some w') :
    (∃ k a, c = .ask k a ∧ w.ses k = .fresh ∧
      w' = ⟨(L.ask w.srv a).1, Function.update w.ses k (.ofAnswer (L.ask w.srv a).2)⟩) ∨
    (∃ k b i r, c = .giveBack k b ∧ w.ses k = .active i r ∧
      w' = ⟨L.giveBack w.srv r b, Function.update w.ses k (.done r)⟩) ∨
    (c = .poll ∧ w' = { w with srv := L.poll w.srv }) := by
  cases c with
  | ask k a =>
    left
    cases hk : w.ses k with
    | fresh => exact ⟨k, a, rfl, hk, by simpa [step, hk] using h.symm⟩
    | _ => simp [step, hk] at h
  | giveBack k b =>
    right; left
    cases hk : w.ses k with
    | active i r => exact ⟨k, b, i, r, rfl, hk, by simpa [step, hk] using h.symm⟩
    | _ => simp [step, hk] at h
  | poll =>
    right; right
    exact ⟨rfl, by simpa [step] using h.symm⟩

/-- A total over the clients changes by what one client's session changes. -/
theorem sum_update {M : Type*} [AddCommMonoid M] [Fintype κ] (f : Session ι ρ → M)
    (ses : κ → Session ι ρ) (k : κ) (s : Session ι ρ) :
    ∑ l, f (Function.update ses k s l) + f (ses k) = ∑ l, f (ses l) + f s := by
  have h : ∀ g : κ → Session ι ρ, ∑ l, f (g l) = f (g k) + ∑ l ∈ Finset.univ.erase k, f (g l) :=
    fun g => (Finset.add_sum_erase Finset.univ (fun l => f (g l)) (Finset.mem_univ k)).symm
  have hrest : ∑ l ∈ Finset.univ.erase k, f (Function.update ses k s l) =
      ∑ l ∈ Finset.univ.erase k, f (ses l) :=
    Finset.sum_congr rfl fun l hl => by rw [Function.update_of_ne (Finset.ne_of_mem_erase hl)]
  rw [h, h ses, hrest, Function.update_self]
  abel

/-- Updating the session of one client changes one holding. -/
theorem held_update (ses : κ → Session ι ρ) (k : κ) (s : Session ι ρ) :
    (fun l => (Function.update ses k s l).held) =
      Function.update (fun l => (ses l).held) k s.held := by
  funext l
  by_cases h : l = k
  · subst h; simp
  · simp [Function.update_of_ne h]

end Step

/-! ## Laws -/

section Laws

variable [DecidableEq ι]

/-- What `ask` and `poll` do: a free resource is lent and marked, or nothing changes. -/
structure AskLaws (L : Lender σ ι α β ρ) (Good : σ → Prop) (Ticket : σ → ι → ρ → Prop) : Prop where
  init : Good L.init
  init_free : ∀ i, L.free L.init i = true
  ask_good : ∀ s a, Good s → Good (L.ask s a).1
  ask_none : ∀ s a, Good s → (L.ask s a).2 = none → L.free (L.ask s a).1 = L.free s
  ask_some : ∀ s a i r, Good s → (L.ask s a).2 = some (i, r) →
    L.free s i = true ∧ L.free (L.ask s a).1 = Function.update (L.free s) i false ∧
      Ticket (L.ask s a).1 i r
  ask_ticket : ∀ s a i r, Good s → Ticket s i r → Ticket (L.ask s a).1 i r
  poll_good : ∀ s, Good s → Good (L.poll s)
  poll_free : ∀ s, Good s → L.free (L.poll s) = L.free s
  poll_ticket : ∀ s i r, Good s → Ticket s i r → Ticket (L.poll s) i r

/-- In addition, `giveBack` marks exactly the resource of its ticket free. -/
structure Laws (L : Lender σ ι α β ρ) (Good : σ → Prop) (Ticket : σ → ι → ρ → Prop) : Prop
    extends AskLaws L Good Ticket where
  back_good : ∀ s i r b, Good s → Ticket s i r → Good (L.giveBack s r b)
  back_free : ∀ s i r b, Good s → Ticket s i r →
    L.free (L.giveBack s r b) = Function.update (L.free s) i true
  back_ticket : ∀ s i r b j r', Good s → Ticket s i r → Ticket s j r' →
    Ticket (L.giveBack s r b) j r'

/-- The service is in order, tickets lead back to what is held, and flags agree with holdings. -/
structure Sound (L : Lender σ ι α β ρ) (Good : σ → Prop) (Ticket : σ → ι → ρ → Prop)
    (w : World σ ι ρ κ) : Prop where
  good : Good w.srv
  ticket : ∀ k i r, w.ses k = .active i r → Ticket w.srv i r
  lent : (L.pool w).Lent

variable {L : Lender σ ι α β ρ} {Good : σ → Prop} {Ticket : σ → ι → ρ → Prop}

theorem AskLaws.sound_world0 (hL : AskLaws L Good Ticket) :
    Sound L Good Ticket (L.world0 : World σ ι ρ κ) := by
  refine ⟨hL.init, fun k i r h => (nomatch h), ?_⟩
  have : L.pool (L.world0 : World σ ι ρ κ) = Pool.idle := by
    unfold pool Pool.idle world0
    congr 1
    funext i
    exact hL.init_free i
  rw [this]
  exact Pool.lent_idle

theorem AskLaws.sound_poll (hL : AskLaws L Good Ticket) (w : World σ ι ρ κ)
    (hw : Sound L Good Ticket w) : Sound L Good Ticket { w with srv := L.poll w.srv } := by
  refine ⟨hL.poll_good _ hw.good, fun k i r hk => hL.poll_ticket _ _ _ hw.good (hw.ticket k i r hk), ?_⟩
  have : L.pool { w with srv := L.poll w.srv } = L.pool w := by
    unfold pool
    rw [hL.poll_free _ hw.good]
  rw [this]
  exact hw.lent

variable [DecidableEq κ]

theorem AskLaws.sound_ask (hL : AskLaws L Good Ticket) (w : World σ ι ρ κ) (k : κ) (a : α)
    (hw : Sound L Good Ticket w) (hk : w.ses k = .fresh) :
    Sound L Good Ticket
      ⟨(L.ask w.srv a).1, Function.update w.ses k (.ofAnswer (L.ask w.srv a).2)⟩ := by
  refine ⟨hL.ask_good _ _ hw.good, fun l i r hl => ?_, hw.lent.step ?_⟩
  · by_cases hlk : l = k
    · subst hlk
      simp only [Function.update_self] at hl
      cases ho : (L.ask w.srv a).2 with
      | none => rw [ho] at hl; cases hl
      | some ir =>
        obtain ⟨j, r'⟩ := ir
        rw [ho] at hl
        cases hl
        exact (hL.ask_some _ _ _ _ hw.good ho).2.2
    · simp only [Function.update_of_ne hlk] at hl
      exact hL.ask_ticket _ _ _ _ hw.good (hw.ticket l i r hl)
  · have hheld : (L.pool w).held k = none := by simp [pool, hk, Session.held]
    cases ho : (L.ask w.srv a).2 with
    | none =>
      have : L.pool ⟨(L.ask w.srv a).1, Function.update w.ses k (.ofAnswer none)⟩ = L.pool w := by
        unfold pool
        rw [held_update, hL.ask_none _ _ hw.good ho]
        congr 1
        exact Function.update_eq_self_iff.mpr hheld.symm
      rw [this]
      exact .idle
    | some ir =>
      obtain ⟨i, r⟩ := ir
      obtain ⟨hfree, hupd, -⟩ := hL.ask_some _ _ _ _ hw.good ho
      have : L.pool ⟨(L.ask w.srv a).1, Function.update w.ses k (.ofAnswer (some (i, r)))⟩ =
          (L.pool w).grant k i := by
        unfold pool Pool.grant
        rw [held_update, hupd]
        rfl
      rw [this]
      exact .grant k i hheld hfree

theorem Laws.sound_giveBack (hL : Laws L Good Ticket) (w : World σ ι ρ κ) (k : κ) (b : β) (i : ι)
    (r : ρ) (hw : Sound L Good Ticket w) (hk : w.ses k = .active i r) :
    Sound L Good Ticket ⟨L.giveBack w.srv r b, Function.update w.ses k (.done r)⟩ := by
  have ht := hw.ticket k i r hk
  refine ⟨hL.back_good _ _ _ _ hw.good ht, fun l j r' hl => ?_, hw.lent.step ?_⟩
  · have hlk : l ≠ k := by
      rintro rfl
      simp at hl
    simp only [Function.update_of_ne hlk] at hl
    exact hL.back_ticket _ _ _ _ _ _ hw.good ht (hw.ticket l j r' hl)
  · have : L.pool ⟨L.giveBack w.srv r b, Function.update w.ses k (.done r)⟩ =
        (L.pool w).release k i := by
      unfold pool Pool.release
      rw [held_update, hL.back_free _ _ _ _ hw.good ht]
      rfl
    rw [this]
    exact .release k i (by simp [pool, hk, Session.held])

theorem Laws.sound_step (hL : Laws L Good Ticket) (w w' : World σ ι ρ κ) (c : Call α β κ)
    (hw : Sound L Good Ticket w) (h : L.step w c = some w') : Sound L Good Ticket w' := by
  obtain ⟨k, a, -, hk, rfl⟩ | ⟨k, b, i, r, -, hk, rfl⟩ | ⟨-, rfl⟩ := step_cases L w w' c h
  · exact hL.sound_ask w k a hw hk
  · exact hL.sound_giveBack w k b i r hw hk
  · exact hL.sound_poll w hw

/-- **A lawful service is sound in every reachable world.** -/
theorem Laws.reachable (hL : Laws L Good Ticket) (w : World σ ι ρ κ)
    (h : Runs.Reachable L.step L.world0 w) : Sound L Good Ticket w :=
  h.invariant _ hL.sound_world0 fun s c t hs => hL.sound_step s t c hs

end Laws

end Lender
