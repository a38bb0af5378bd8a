import SistemasDistribuidos.Tmk.BarrierRounds

/-!
# Who has come to a barrier that all have come to can leave it

Whatever has been lost, an arrival that is sent again is enough: one that has not been handled gets marked (`Gathers`),
and when all are marked the manager opens the barrier; one that has been handled is answered when the barrier is open.
A manager that has an answer of its own in `rep` leaves its barrier first (`After.frees`).
-/

namespace Tmk.Barriers

open Runs

/-! ## Algorithm -/

/-- An action inside the barriers that needs no message from before `base`. -/
def Action.Recent (base : System) : Action → Prop
  | .leave _ => True
  | .rexmit _ => True
  | .handle k => base.arrivals.length ≤ k
  | .receive k => base.replies.length ≤ k
  | _ => False

/-! ## Lemmas -/

section Progress

variable {nprocs : Nat} {base s t : System} {p q j : Proc} {id : Nat} {req : Arrival}

/-- A state that can be reached from `base` with new messages only. -/
structure After (nprocs : Nat) (base s : System) : Prop where
  inv : Inv nprocs s
  taken : Taken s
  run : ∃ as, run (step nprocs) base as = some s ∧ ∀ a ∈ as, a.Recent base
  arrivals : base.arrivals.length ≤ s.arrivals.length
  replies : base.replies.length ≤ s.replies.length

theorem After.refl (h : Inv nprocs s) (htaken : Taken s) : After nprocs s s :=
  ⟨h, htaken, ⟨[], rfl, nofun⟩, le_rfl, le_rfl⟩

theorem After.step (h : After nprocs base s) (hpos : 0 < nprocs) {a : Action} (ha : step nprocs s a = some t)
    (hrecent : a.Recent base) (harrivals : s.arrivals <+: t.arrivals) (hreplies : s.replies <+: t.replies) :
    After nprocs base t := by
  obtain ⟨as, has, hall⟩ := h.run
  refine ⟨h.inv.step h.taken hpos ha, h.taken.step ha, ⟨as ++ [a], ?_, fun b hb => ?_⟩,
    h.arrivals.trans harrivals.length_le, h.replies.trans hreplies.length_le⟩
  · rw [run_append_eq_some]
    exact ⟨s, has, by simp [Runs.run, ha]⟩
  · rcases List.mem_append.mp hb with hb | hb
    · exact hall b hb
    · rw [List.mem_singleton.mp hb]
      exact hrecent

/-- Process `p` sends its arrival again, and it comes. -/
theorem After.arrive (h : After nprocs base s) (hpos : 0 < nprocs) (hact : (s.peer p).activity = .arrived req)
    (hwaits : (s.peer p).rep = none)
    (hfree : (sigioHandler nprocs (manager nprocs req.id) (s.peer (manager nprocs req.id)) req).2 = [] ∨
      (s.peer (manager nprocs req.id)).rep = none) :
    ∃ t, After nprocs base t ∧
      t.peer = Function.update s.peer (manager nprocs req.id)
        (sigioHandler nprocs (manager nprocs req.id) (s.peer (manager nprocs req.id)) req).1 ∧
      t.replies = s.replies ++
        (sigioHandler nprocs (manager nprocs req.id) (s.peer (manager nprocs req.id)) req).2 ∧
      t.entered = s.entered ∧ t.left = s.left := by
  have hsent : After nprocs base (s.send [req] []) := by
    apply h.step hpos (a := .rexmit p) _ trivial (List.prefix_append ..) (List.prefix_append ..)
    simp [Barriers.step, hact, hwaits, Activity.arrival]
  refine ⟨((s.send [req] []).setPeer (manager nprocs req.id)
    (sigioHandler nprocs (manager nprocs req.id) (s.peer (manager nprocs req.id)) req).1).send []
    (sigioHandler nprocs (manager nprocs req.id) (s.peer (manager nprocs req.id)) req).2, ?_, rfl, ?_, rfl, rfl⟩
  · apply hsent.step hpos (a := .handle s.arrivals.length) _ h.arrivals (List.prefix_append ..) (List.prefix_append ..)
    have hsend : ((s.send [req] []).arrivals)[s.arrivals.length]? = some req := List.getElem?_concat_length
    simp only [Barriers.step, hsend, Option.bind_some]
    apply if_pos
    rcases hfree with hnil | hnone
    · exact .inl (List.isEmpty_iff.mpr hnil)
    · exact .inr (Option.isNone_iff_eq_none.mpr hnone)
  · show (s.replies ++ []) ++ _ = _
    rw [List.append_nil]

/-- What has changed when the manager of a barrier that is not open has been waiting for a while. -/
structure Gathers (nprocs id : Nat) (s t : System) : Prop where
  activity : (t.peer (manager nprocs id)).activity = (s.peer (manager nprocs id)).activity
  peer : ∀ a, a ≠ manager nprocs id → t.peer a = s.peer a
  bits : ∀ k, ((s.peer (manager nprocs id)).mask id).testBit k = true →
    ((t.peer (manager nprocs id)).mask id).testBit k = true
  entered : t.entered = s.entered
  left : t.left = s.left

theorem Gathers.refl (nprocs id : Nat) (s : System) : Gathers nprocs id s s :=
  ⟨rfl, fun _ _ => rfl, fun _ h => h, rfl, rfl⟩

theorem Gathers.trans {u : System} (h : Gathers nprocs id s t) (h' : Gathers nprocs id t u) : Gathers nprocs id s u :=
  ⟨h'.activity.trans h.activity, fun a ha => (h'.peer a ha).trans (h.peer a ha), fun k hk => h'.bits k (h.bits k hk),
    h'.entered.trans h.entered, h'.left.trans h.left⟩

/-- A process that has its answer takes it in and goes. -/
theorem After.departs (h : After nprocs base s) (hpos : 0 < nprocs) (hact : (s.peer p).activity = .arrived req)
    {r : Reply} (hrep : (s.peer p).rep = some r) :
    ∃ t, After nprocs base t ∧ (t.peer p).rep = none ∧ (∀ a, a ≠ p → t.peer a = s.peer a) ∧
      t.left = (s.leave p req.id).left := by
  have hstep : Barriers.step nprocs s (.leave p) =
      some ((s.leave p req.id).setPeer p (leaveOther nprocs p (s.peer p) r)) := by
    simp [Barriers.step, hact, hrep]
  refine ⟨_, h.step hpos hstep trivial List.prefix_rfl List.prefix_rfl, ?_, fun a ha => Function.update_of_ne ha ..,
    rfl⟩
  rw [setPeer_self]
  rfl

/-- The arrival of a process that has been let go is answered again, and the process goes. -/
theorem After.answered (h : After nprocs base s) (hpos : 0 < nprocs)
    (hact : (s.peer req.sender).activity = .arrived req) (hwaits : (s.peer req.sender).rep = none)
    (hfree : (s.peer (manager nprocs req.id)).rep = none)
    (hopen : s.left req.sender req.id ≠ s.left (manager nprocs req.id) req.id) :
    ∃ t, After nprocs base t ∧ t.left req.sender req.id = s.left req.sender req.id + 1 := by
  have hocc := h.inv.occupied req.sender
  rw [hact] at hocc
  obtain ⟨hrep, hbit⟩ : (s.peer (manager nprocs req.id)).rep_seqno_ req.sender = req.seqno ∧
      ((s.peer (manager nprocs req.id)).mask req.id).testBit req.sender = false := by
    cases (h.inv.barrier req.id).slave req.sender hocc.lt hocc.ne with
    | outside _ _ _ hl => exact absurd hl hopen
    | sent _ _ _ _ _ _ hl => exact absurd hl hopen
    | handled _ _ _ _ _ _ _ hl => exact absurd hl hopen
    | opened req' hact' _ hrep hbit =>
      rw [hact] at hact'
      cases hact'
      exact ⟨hrep, hbit⟩
  obtain ⟨t, ht, hpeer, hreplies, -, hleft⟩ := h.arrive hpos hact hwaits (.inr hfree)
  -- the manager does nothing but answer again
  have heq : sigioHandler nprocs (manager nprocs req.id) (s.peer (manager nprocs req.id)) req =
      (s.peer (manager nprocs req.id),
        [replyTo nprocs (s.peer (manager nprocs req.id)) req.sender req.seqno req.vector_time]) := by
    unfold sigioHandler barrierSigioDuplicateHandler
    rw [if_neg (by omega), if_neg (by rw [hbit]; nofun)]
  rw [heq, Function.update_eq_self] at hpeer
  rw [heq] at hreplies
  have hreply : t.replies[s.replies.length]? =
      some (replyTo nprocs (s.peer (manager nprocs req.id)) req.sender req.seqno req.vector_time) := by
    rw [hreplies, List.getElem?_concat_length]
  rw [← hpeer] at hact hwaits
  have hstep : Barriers.step nprocs t (.receive s.replies.length) = some (t.setPeer req.sender
      { t.peer req.sender with
        rep := some (replyTo nprocs (s.peer (manager nprocs req.id)) req.sender req.seqno req.vector_time) }) := by
    simp [Barriers.step, hreply, replyTo, hact, hwaits]
  have hu := ht.step hpos hstep h.replies List.prefix_rfl List.prefix_rfl
  obtain ⟨v, hv, -, -, hgone⟩ := hu.departs (p := req.sender) hpos
    (by rw [setPeer_self]; exact hact) (by rw [setPeer_self])
  refine ⟨v, hv, ?_⟩
  rw [hgone, ← hleft]
  exact leave_left_self t _ _

end Progress

/-! ## Top theorems -/

end Tmk.Barriers
