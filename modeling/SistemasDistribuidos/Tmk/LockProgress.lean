import SistemasDistribuidos.Tmk.LockCalls

/-!
# Progress of a lock

A process that waits for a lock can get it even if every message sent so far is lost
(`waiting_acquires`).  Its request, sent again, gets to the process in front of it, by way of the
manager.  The first of the line takes the lock and gives it to the second, and the line gets
shorter until the process is the first.
-/

namespace Tmk.Locks

open Runs Line

/-! ## Lemmas -/

section Progress

variable {nprocs : Nat} {s t : System} {id : Nat} {q : List Proc} {a b p : Proc} {w : Wait}
variable {base : System} {out : Out} {f : Proc} {req : Request}

/-- An action that needs no message that was sent before `base`. -/
def Action.Recent (base : System) : Action → Prop
  | .handle k => base.requests.length ≤ k
  | .receive k => base.replies.length ≤ k
  | _ => True

/-- State `s` comes after `base`, whatever happens to the messages that were sent until then. -/
structure After (nprocs : Nat) (base s : System) : Prop where
  run : ∃ as, run (step nprocs) base as = some s ∧ ∀ a ∈ as, a.Recent base
  requests : base.requests.length ≤ s.requests.length
  replies : base.replies.length ≤ s.replies.length
  inv : Inv nprocs s

theorem After.refl (h : Inv nprocs s) : After nprocs s s := ⟨⟨[], rfl, nofun⟩, le_rfl, le_rfl, h⟩

theorem After.put (h : After nprocs base s) {a : Action} (ha : enabled nprocs s a = true)
    (hact : act nprocs s a = some (s.put p out)) (hrecent : a.Recent base) : After nprocs base (s.put p out) := by
  have hstep : step nprocs s a = some (s.put p out) := by
    unfold step
    rw [if_pos ha, hact]
  obtain ⟨as, has, hall⟩ := h.run
  refine ⟨⟨as ++ [a], ?_, fun b hb => ?_⟩, ?_, ?_, h.inv.of_step hstep⟩
  · rw [run_append_eq_some]
    exact ⟨s, has, by simp [Runs.run, hstep]⟩
  · rcases List.mem_append.mp hb with hb | hb
    · exact hall b hb
    · rw [List.mem_singleton.mp hb]
      exact hrecent
  · exact h.requests.trans (by simp [System.put])
  · exact h.replies.trans (by simp [System.put])

theorem After.rexmit (h : After nprocs base s) (hw : (s.peer p).waiting = some w) :
    After nprocs base (s.put p ⟨s.peer p, [⟨w.target, p, w.seqno, w.id⟩], []⟩) := by
  apply h.put (a := .rexmit p)
  · simp [enabled, hw]
  · simp only [act, Locks.rexmit, hw]
    rfl
  · trivial

theorem After.handle (h : After nprocs base s) {k : Nat} (hk : base.requests.length ≤ k)
    (hreq : s.requests[k]? = some req) (hw : (s.peer req.sender).waiting = some w) (hseqno : w.seqno = req.seqno)
    (hout : sigioHandler nprocs req.dest (s.peer req.dest) req = some out) :
    After nprocs base (s.put req.dest out) := by
  apply h.put (a := .handle k)
  · simp [enabled, hreq, hw, hseqno]
  · simp only [act, hreq, Option.bind_some, hout]
    rfl
  · exact hk

theorem After.receive (h : After nprocs base s) {k : Nat} (hk : base.replies.length ≤ k)
    (hrep : s.replies[k]? = some ⟨p, w.seqno⟩) (hw : (s.peer p).waiting = some w) :
    After nprocs base (s.put p ⟨{ s.peer p with waiting := none }, [], []⟩) := by
  apply h.put (a := .receive k)
  · simp [enabled, hrep, hw]
  · simp only [act, Locks.receive, hrep]
    rfl
  · exact hk

theorem After.release (h : After nprocs base s) (hw : (s.peer p).waiting = none)
    (hheld : ((s.peer p).lock id).held = true) (hout : lockRelease p (s.peer p) id = some out) :
    After nprocs base (s.put p out) := by
  apply h.put (a := .release p id)
  · simp [enabled, hw, hheld]
  · simp only [act, hout]
    rfl
  · trivial

/-- A step that does nothing to the lock does nothing to the requests for it. -/
theorem Stage.same (hst : Stage s id q f w a) (hroute : Route nprocs s id f w a) (h : Same nprocs s t id q)
    (hnd : q.Nodup) (hw : Waits s id f w) : Route nprocs t id f w a ∧ Stage t id q f w a := by
  cases hst with
  | sent hbehind hun hnext hrep =>
    refine ⟨h.route hw (.inl hbehind) hroute, .sent hbehind (h.unanswered hw (hbehind.not_head hnd) hun) ?_ ?_⟩
    · rw [h.lock, hnext]
    · rw [h.rep f w hw]
      exact hrep
  | arrived hbehind hun hnext hrep hheld =>
    refine ⟨h.route hw (.inl hbehind) hroute, .arrived hbehind (h.unanswered hw (hbehind.not_head hnd) hun) ?_ ?_ ?_⟩
    · rw [h.lock, hnext]
    · rw [h.rep f w hw, hrep]
    · rw [h.lock, hheld]
  | granted hhead hrep hrel =>
    refine ⟨h.route hw (.inr hrel) hroute, .granted hhead ?_ ?_⟩
    · rw [h.rep f w hw, hrep]
    · rw [h.lock, hrel]

/-- The request of `f`, sent again, gets to `a`, unless the manager has an answer. -/
theorem After.deliver (h : After nprocs base s) (hq : LineInv nprocs s id q) (hw : Waits s id f w)
    (hroute : Route nprocs s id f w a) (hst : Stage s id q f w a) :
    ∃ t, After nprocs base t ∧ LineInv nprocs t id q ∧ Waits t id f w ∧ Route nprocs t id f w a ∧
      Stage t id q f w a ∧ t.peer = s.peer ∧
      ((∃ k, base.requests.length ≤ k ∧ t.requests[k]? = some ⟨a, f, w.seqno, id⟩) ∨
        (q.head? = some f ∧ ∃ k, base.replies.length ≤ k ∧ t.replies[k]? = some ⟨f, w.seqno⟩)) := by
  have hsame : Same nprocs s (s.put f ⟨s.peer f, [⟨w.target, f, w.seqno, w.id⟩], []⟩) id q := Same.rexmit hw.1
  have hafter := h.rexmit hw.1
  have hpeer : (s.put f ⟨s.peer f, [⟨w.target, f, w.seqno, w.id⟩], []⟩).peer = s.peer := funext (put_peer rfl)
  have hsent : (s.put f ⟨s.peer f, [⟨w.target, f, w.seqno, w.id⟩], []⟩).requests[s.requests.length]? =
      some ⟨w.target, f, w.seqno, id⟩ := by
    rw [← hw.2.1]
    exact List.getElem?_concat_length ..
  generalize s.put f ⟨s.peer f, [⟨w.target, f, w.seqno, w.id⟩], []⟩ = t at *
  have hq' := hq.same hsame
  have hw' := hsame.waits.mpr hw
  obtain ⟨hroute', hst'⟩ := hst.same hroute hsame hq.nodup hw
  by_cases htarget : w.target = a
  · rw [htarget] at hsent
    exact ⟨t, hafter, hq', hw', hroute', hst', hpeer, .inl ⟨_, h.requests, hsent⟩⟩
  · obtain ⟨hfm, hm, -⟩ := hroute'.forward rfl htarget
    have hold : ¬ (t.peer w.target).rep_seqno_ f < w.seqno := by
      have := (hroute'.indirect (hm ▸ hfm)).2.1
      rw [hm] at this
      omega
    -- the manager sends it on, or answers
    obtain ⟨out, heq, hout, hsame', -, hresult⟩ :=
      hq'.handle_again ⟨w.target, f, w.seqno, id⟩ hw' rfl hroute' hst' (.inl rfl) hold
    have hafter' := hafter.handle h.requests hsent hw'.1 rfl heq
    obtain ⟨hroute'', hst''⟩ := hst'.same hroute' hsame' hq.nodup hw'
    refine ⟨_, hafter', hq'.same hsame', hsame'.waits.mpr hw', hroute'', hst'',
      (funext (put_peer hout)).trans hpeer, ?_⟩
    rcases hresult htarget with ⟨hhead, hreplies⟩ | hrequests
    · refine .inr ⟨hhead, t.replies.length, hafter.replies, ?_⟩
      rw [show (t.put w.target out).replies = t.replies ++ [⟨f, w.seqno⟩] by rw [← hreplies]; rfl]
      exact List.getElem?_concat_length ..
    · refine .inl ⟨t.requests.length, hafter.requests, ?_⟩
      rw [show (t.put w.target out).requests = t.requests ++ [⟨a, f, w.seqno, id⟩] by rw [← hrequests]; rfl]
      exact List.getElem?_concat_length ..

/-- The first of the line, if it waits, can take the lock. -/
theorem After.take (h : After nprocs base s) (hq : LineInv nprocs s id q) (hhead : q.head? = some f)
    (hw : Waits s id f w) : ∃ t, After nprocs base t ∧ LineInv nprocs t id q ∧ (t.peer f).waiting = none ∧
      ((t.peer f).lock id).held = true := by
  -- it is enough that a reply comes
  have hreceive : ∀ t, After nprocs base t → LineInv nprocs t id q → Waits t id f w →
      (∃ k, base.replies.length ≤ k ∧ t.replies[k]? = some ⟨f, w.seqno⟩) → ∃ t, After nprocs base t ∧
        LineInv nprocs t id q ∧ (t.peer f).waiting = none ∧ ((t.peer f).lock id).held = true := by
    rintro t ht hqt ⟨hwt, rfl, hheld⟩ ⟨k, hk, hrep⟩
    refine ⟨_, ht.receive hk hrep hwt, (ht.inv.receive hwt hqt hhead).2, ?_⟩
    rw [put_self]
    exact ⟨rfl, hheld⟩
  obtain ⟨a, hroute, hst⟩ := hq.stage hw (List.mem_of_mem_head? hhead)
  obtain ⟨t, ht, hqt, hwt, hroute', hst', -, ⟨k, hk, hreq⟩ | ⟨-, hreply⟩⟩ := h.deliver hq hw hroute hst
  · have hold : ¬ (t.peer a).rep_seqno_ f < w.seqno := by
      cases hst' with
      | sent hbehind _ _ _ => exact absurd hhead (hbehind.not_head hq.nodup)
      | arrived _ _ _ hrep _ => omega
      | granted _ hrep _ => omega
    obtain ⟨out, heq, -, hsame, hreplies, -⟩ :=
      hqt.handle_again ⟨a, f, w.seqno, id⟩ hwt rfl hroute' hst' (.inr rfl) hold
    apply hreceive _ (ht.handle hk hreq hwt.1 rfl heq) (hqt.same hsame) (hsame.waits.mpr hwt)
    refine ⟨t.replies.length, ht.replies, ?_⟩
    rw [show (t.put a out).replies = t.replies ++ [⟨f, w.seqno⟩] by rw [← hreplies rfl hhead]; rfl]
    exact List.getElem?_concat_length ..
  · exact hreceive t ht hqt hwt hreply

/-- A lock that nobody holds can be sent to the second of the line. -/
theorem After.send (h : After nprocs base s) (hq : LineInv nprocs s id (p :: f :: q))
    (hheld : ((s.peer p).lock id).held = false) :
    ∃ t, After nprocs base t ∧ LineInv nprocs t id (f :: q) ∧ Granted nprocs t id f := by
  have hbehind : Behind (p :: f :: q) p f := ⟨0, rfl, rfl⟩
  obtain ⟨w, hw, hroute, hun, ⟨-, -, hheld'⟩ | ⟨hnext, hrep⟩⟩ := hq.linked p f hbehind
  · rw [hheld] at hheld'
    cases hheld'
  obtain ⟨t, ht, hqt, hwt, hroute', hst', hpeer, ⟨k, hk, hreq⟩ | ⟨hhead, -⟩⟩ :=
    h.deliver hq hw hroute (.sent hbehind hun hnext hrep)
  · rw [← hpeer] at hheld hrep
    obtain ⟨-, -, hun', hnext'⟩ := hst'.sent_of_new hroute' (.inr rfl) hrep
    obtain ⟨out, heq, ⟨hheld', -⟩ | ⟨-, hq', hgranted⟩⟩ :=
      hqt.handle_behind ⟨p, f, w.seqno, id⟩ ht.inv.seqnos hwt rfl hroute' hbehind hun' hnext' hrep
    · rw [hheld] at hheld'
      cases hheld'
    · exact ⟨_, ht.handle hk hreq hwt.1 rfl heq, hq', hgranted⟩
  · exact absurd hhead (hbehind.not_head hq.nodup)

/-- The first of the line, if it holds the lock and does not wait for another one, can give it to the second. -/
theorem After.pass (h : After nprocs base s) (hq : LineInv nprocs s id (p :: f :: q)) (hw : (s.peer p).waiting = none)
    (hheld : ((s.peer p).lock id).held = true) :
    ∃ t, After nprocs base t ∧ LineInv nprocs t id (f :: q) ∧ Granted nprocs t id f := by
  by_cases hnext : ((s.peer p).lock id).next = p
  · -- the request has not come yet
    obtain ⟨out, heq, -, hq', hheld'⟩ := h.inv.release_keep hq hw hheld hnext
    apply (h.release hw hheld heq).send hq'
    rw [put_self]
    exact hheld'
  · obtain ⟨out, heq, -, hq', hgranted⟩ := h.inv.release_next hq hw hheld hnext
    exact ⟨_, h.release hw hheld heq, hq', hgranted f rfl⟩

/-- The line can be made shorter. -/
theorem After.advance (h : After nprocs base s) (hq : LineInv nprocs s id (p :: f :: q))
    (hfree : s.Holds p id → (s.peer p).waiting = none) :
    ∃ t, After nprocs base t ∧ LineInv nprocs t id (f :: q) ∧ Granted nprocs t id f := by
  rcases hq.front p rfl with ⟨hnot, -⟩ | ⟨w, g, hw, -⟩
  · cases hheld : ((s.peer p).lock id).held with
    | true => exact h.pass hq (hfree ⟨hheld, hnot⟩) hheld
    | false => exact h.send hq hheld
  · obtain ⟨t, ht, hqt, hwaiting, hheld⟩ := h.take hq rfl hw
    exact ht.pass hqt hwaiting hheld

/-- Everybody in the line that waits can get the lock. -/
theorem After.acquire (h : After nprocs base s) (hq : LineInv nprocs s id q)
    (hfree : ∀ a, q.head? = some a → s.Holds a id → (s.peer a).waiting = none) (hp : p ∈ q) (hw : Waits s id p w) :
    ∃ t, After nprocs base t ∧ t.Holds p id := by
  -- by induction on the line, which gets shorter until `p` is the first
  induction q generalizing s w with
  | nil => cases hp
  | cons c q ih =>
    by_cases hpc : p = c
    · subst hpc
      obtain ⟨t, ht, -, hwaiting, hheld⟩ := h.take hq rfl hw
      exact ⟨t, ht, hheld, forall_of_none hwaiting⟩
    · have hpq : p ∈ q := (List.mem_cons.mp hp).resolve_left hpc
      cases q with
      | nil => cases hpq
      | cons f q =>
        obtain ⟨t, ht, hqt, hgranted⟩ := h.advance hq (hfree c rfl)
        obtain ⟨w', hw'⟩ : ∃ w', Waits t id p w' := by
          by_cases hpf : p = f
          · subst hpf
            obtain ⟨w', g, hw', -⟩ := hgranted
            exact ⟨w', hw'⟩
          · exact hqt.waits ((List.mem_cons.mp hpq).resolve_left hpf)
        refine ih ht hqt (fun a ha hholds => ?_) hpq hw'
        -- the new first waits
        obtain rfl : f = a := Option.some.inj ha
        obtain ⟨w'', g, hw'', -⟩ := hgranted
        exact absurd hw''.2.1 (hholds.2 w'' hw''.1)

/-- Handling a request does not change who holds a lock. -/
theorem Handled.holds (h : Handled (s.peer p) out req) (hf : (s.put p out).Holds f req.id) :
    s.Holds f req.id ∧ ((s.put p out).peer f).waiting = (s.peer f).waiting := by
  unfold System.Holds at hf ⊢
  by_cases hfp : f = p
  · subst hfp
    rw [put_self] at hf ⊢
    rw [h.held, h.waiting] at hf
    exact ⟨hf, h.waiting⟩
  · rw [put_of_ne hfp] at hf ⊢
    exact ⟨hf, rfl⟩

/-- A process that is not in the line can get into it. -/
theorem After.enter (h : After nprocs base s) (hq : LineInv nprocs s id q) (hp : p ∉ q) (hw : Waits s id p w) :
    ∃ t q', After nprocs base t ∧ LineInv nprocs t id q' ∧ p ∈ q' ∧ Waits t id p w ∧
      ∀ a, t.Holds a id → s.Holds a id ∧ (t.peer a).waiting = (s.peer a).waiting := by
  obtain ⟨hpm, htarget, -⟩ := hq.of_not_mem hw hp
  obtain ⟨hwaiting, rfl, hheld⟩ := hw
  have hafter := h.rexmit hwaiting
  have hsame : Same nprocs s (s.put p ⟨s.peer p, [⟨w.target, p, w.seqno, w.id⟩], []⟩) w.id q := Same.rexmit hwaiting
  have hpeer : (s.put p ⟨s.peer p, [⟨w.target, p, w.seqno, w.id⟩], []⟩).peer = s.peer := funext (put_peer rfl)
  have hsent : (s.put p ⟨s.peer p, [⟨w.target, p, w.seqno, w.id⟩], []⟩).requests[s.requests.length]? =
      some ⟨w.target, p, w.seqno, w.id⟩ := List.getElem?_concat_length ..
  generalize s.put p ⟨s.peer p, [⟨w.target, p, w.seqno, w.id⟩], []⟩ = t at *
  have hw' : Waits t w.id p w := hsame.waits.mpr ⟨hwaiting, rfl, hheld⟩
  obtain ⟨out, heq, q', hmem, hq'⟩ := (hq.same hsame).handle_outside ⟨w.target, p, w.seqno, w.id⟩ hafter.inv.seqnos hw'
    rfl hp htarget.symm
  refine ⟨_, q', hafter.handle h.requests hsent hw'.1 rfl heq, hq', hmem, ?_, fun a ha => ?_⟩
  · unfold Waits
    rw [put_of_ne (htarget ▸ hpm)]
    exact hw'
  · rw [← hpeer]
    unfold System.Holds
    rw [← hpeer]
    exact (sigioHandler_handled heq).holds ha

end Progress

/-! ## Top theorems -/

section Top

variable {nprocs : Nat} {s : System}

/-- **A process that waits can get the lock**, even if no message that was sent until now ever comes, as long as the
process that has the lock does not wait for another one. -/
theorem waiting_acquires (hs : Reachable (step nprocs) init s) {p : Proc} {w : Wait}
    (hw : (s.peer p).waiting = some w) (hfree : ∀ a, s.Holds a w.id → (s.peer a).waiting = none) :
    ∃ as t, run (step nprocs) s as = some t ∧ (∀ a ∈ as, a.Recent s) ∧ t.Holds p w.id := by
  have hinv := inv_of_reachable hs
  obtain ⟨q, hq⟩ := hinv.line w.id
  have hwaits := hq.waits_of_waiting hw
  obtain ⟨t, ht, hholds⟩ : ∃ t, After nprocs s t ∧ t.Holds p w.id := by
    by_cases hp : p ∈ q
    · exact (After.refl hinv).acquire hq (fun a _ ha => hfree a ha) hp hwaits
    · obtain ⟨t, q', ht, hq', hp', hwaits', hsame⟩ := (After.refl hinv).enter hq hp hwaits
      refine ht.acquire hq' (fun a _ ha => ?_) hp' hwaits'
      obtain ⟨ha', heq⟩ := hsame a ha
      rw [heq]
      exact hfree a ha'
  obtain ⟨as, has, hrecent⟩ := ht.run
  exact ⟨as, t, has, hrecent, hholds⟩

theorem waiting_acquires_threeAsk : ∃ s as t, run (step 3) init (threeAsk.take 5) = some s ∧
    run (step 3) s as = some t ∧ (∀ a ∈ as, a.Recent s) ∧ t.Holds 1 1 := by
  have hrun : (run (step 3) init (threeAsk.take 5)).any
      (fun s => ((s.peer 1).waiting.any fun w => w.id = 1) && ((s.peer 0).lock 1).held &&
        (s.peer 0).waiting.isNone) = true := by decide +kernel
  obtain ⟨s, hs, hany⟩ := (Option.any_eq_true _ _).mp hrun
  simp only [Bool.and_eq_true, Option.any_eq_true, decide_eq_true_eq, Option.isNone_iff_eq_none] at hany
  obtain ⟨⟨⟨w, hw, hid⟩, hheld⟩, hnone⟩ := hany
  -- process 0 has the lock, and nobody else
  obtain ⟨q, hq⟩ := (inv_of_reachable ⟨_, hs⟩).line 1
  have hfree : ∀ a, s.Holds a w.id → (s.peer a).waiting = none := by
    intro a ha
    rw [hid] at ha
    obtain rfl : 0 = a :=
      Option.some.inj ((hq.head_of_holds ⟨hheld, forall_of_none hnone⟩).symm.trans (hq.head_of_holds ha))
    exact hnone
  obtain ⟨as, t, has, hrecent, hholds⟩ := waiting_acquires ⟨_, hs⟩ hw hfree
  exact ⟨s, as, t, hs, has, hrecent, hid ▸ hholds⟩

end Top

end Tmk.Locks
