import SistemasDistribuidos.Tmk.Lock

/-!
# The calls of a lock, one by one

Each call, and each handler of a request, does one of the things that may happen to a line.

In every run, however requests and replies are lost, repeated, delayed and reordered, at most
one process is between acquire and release of a lock (`mutual_exclusion`), and no handler meets
a case that it has no answer for (`handlers_succeed`).  One thing the network must not do: deliver
a request, when the acquire that sent it has ended, to a process that has seen neither it nor
a later one.
-/

namespace Tmk.Locks

open Runs Line

/-! ## Lemmas -/

section Lemmas

variable {nprocs : Nat} {s t : System} {id : Nat} {q : List Proc} {a b p : Proc} {w : Wait}

/-! ### Acquire and release -/

section Calls

variable {out : Out} {f : Proc}

theorem forall_of_none {P : Wait → Prop} {o : Option Wait} (ho : o = none) (w : Wait) (hw : o = some w) : P w := by
  rw [ho] at hw
  cases hw

@[simp]
theorem setLock_lock_self (x : Peer) (lock : Lock) : (x.setLock id lock).lock id = lock := Function.update_self ..

theorem setLock_lock_of_ne {id' : Nat} (h : id' ≠ id) (x : Peer) (lock : Lock) :
    (x.setLock id lock).lock id' = x.lock id' := Function.update_of_ne h ..

/-- Only one lock changes its `release_seqno`. -/
theorem Seqnos.release_setLock (h : Seqnos s) {lock : Lock}
    (hlock : ∃ f : Proc, lock.release_seqno % NPROCS = f ∧ lock.release_seqno ≤ (s.peer f).req_seqno) (id' : Nat) :
    ∃ f : Proc, (((s.peer p).setLock id lock).lock id').release_seqno % NPROCS = f ∧
      (((s.peer p).setLock id lock).lock id').release_seqno ≤ (s.peer f).req_seqno := by
  by_cases hid : id' = id
  · subst hid
    rw [setLock_lock_self]
    exact hlock
  · rw [setLock_lock_of_ne hid]
    exact h.release p id'

/-- One lock changes, and the rest of the system keeps its lines. -/
theorem Inv.call (h : Inv nprocs s) (hcall : Call s p out id f) (hs : Seqnos (s.put p out))
    (hq : LineInv nprocs (s.put p out) id q) : Inv nprocs (s.put p out) := by
  refine ⟨hs, fun id' => ?_⟩
  by_cases hid : id' = id
  · subst hid
    exact ⟨q, hq⟩
  · obtain ⟨q', hq'⟩ := h.line id'
    exact ⟨q', hq'.same (hcall.same hid q')⟩

/-- A process that has nothing to do with the lock, and nobody behind it, is the only one that can have it. -/
theorem LineInv.head_of_next (hq : LineInv nprocs s id q) (hw : (s.peer p).waiting = none)
    (hnext : ((s.peer p).lock id).next = p) : q.head? = some p := by
  have hmem : p ∈ q := by
    by_contra hp
    rcases hq.outside p hp with ⟨-, -, hne⟩ | ⟨w, ⟨hw', -⟩, -⟩
    · exact hne hnext
    · rw [hw] at hw'
      cases hw'
  by_contra hhead
  obtain ⟨w, hw', -⟩ := hq.waits (mem_tail_of_not_head hmem hhead)
  rw [hw] at hw'
  cases hw'

/-- A process that must ask for the lock is not in the line. -/
theorem LineInv.not_mem_of_next (hq : LineInv nprocs s id q) (hw : (s.peer p).waiting = none)
    (hheld : ((s.peer p).lock id).held = false) (hnext : ((s.peer p).lock id).next ≠ p) : p ∉ q := by
  intro hmem
  by_cases hhead : q.head? = some p
  · rcases hq.front p hhead with ⟨-, hidle⟩ | ⟨w, g, ⟨hw', -⟩, -⟩
    · exact hnext (hidle hheld)
    · rw [hw] at hw'
      cases hw'
  · obtain ⟨w, hw', -⟩ := hq.waits (mem_tail_of_not_head hmem hhead)
    rw [hw] at hw'
    cases hw'

/-- A process that has the lock and knows another one behind it. -/
theorem LineInv.behind_of_next (hq : LineInv nprocs s id q) (hheld : ((s.peer p).lock id).held = true)
    (hnext : ((s.peer p).lock id).next ≠ p) : Behind q p ((s.peer p).lock id).next := by
  have hmem : p ∈ q := by
    by_contra hp
    rcases hq.outside p hp with ⟨-, hheld', -⟩ | ⟨w, -, -, -, hself, -⟩
    · rw [hheld] at hheld'
      cases hheld'
    · exact hnext hself
  obtain ⟨b, hb⟩ := exists_of_not_last hmem fun hlast => hnext (hq.lastNext p hlast)
  obtain ⟨w, -, -, -, ⟨hnb, -⟩ | ⟨hself, -⟩⟩ := hq.linked p b hb
  · rw [hnb]
    exact hb
  · exact absurd hself hnext

/-- Release by a process with nobody behind it. -/
theorem Inv.release_keep (h : Inv nprocs s) (hq : LineInv nprocs s id q) (hw : (s.peer p).waiting = none)
    (hheld : ((s.peer p).lock id).held = true) (hnext : ((s.peer p).lock id).next = p) :
    ∃ out, lockRelease p (s.peer p) id = some out ∧ Inv nprocs (s.put p out) ∧ LineInv nprocs (s.put p out) id q ∧
      (out.peer.lock id).held = false := by
  let out : Out := ⟨(s.peer p).setLock id { (s.peer p).lock id with held := false }, [], []⟩
  have hlock : out.peer.lock id = { (s.peer p).lock id with held := false } := setLock_lock_self ..
  have hcall : Call s p out id p :=
    ⟨fun id' hid => setLock_lock_of_ne hid .., fun _ _ => rfl, fun _ _ => rfl, nofun, nofun, .inl rfl, forall_of_none hw⟩
  have hline : LineInv nprocs (s.put p out) id q := by
    apply hq.keep h.seqnos (hq.head_of_next hw hnext) hcall
    · left
      rw [put_self, hlock]
      exact ⟨forall_of_none hw, fun _ => hnext⟩
    · rw [hlock]
    · rw [hlock]
    · rw [hlock]
    · exact .inr hnext
  refine ⟨out, ?_, h.call hcall ?_ hline, hline, by rw [hlock]⟩
  · unfold lockRelease
    rw [if_pos hheld, if_pos hnext]
  · exact h.seqnos.put le_rfl (h.seqnos.mod p) (h.seqnos.rep p) (h.seqnos.waiting p) nofun nofun
      (h.seqnos.release_setLock (h.seqnos.release p id))

/-- Release by a process that knows who is behind it. -/
theorem Inv.release_next (h : Inv nprocs s) (hq : LineInv nprocs s id (p :: q)) (hw : (s.peer p).waiting = none)
    (hheld : ((s.peer p).lock id).held = true) (hnext : ((s.peer p).lock id).next ≠ p) :
    ∃ out, lockRelease p (s.peer p) id = some out ∧ Inv nprocs (s.put p out) ∧ LineInv nprocs (s.put p out) id q ∧
      ∀ f, q.head? = some f → Granted nprocs (s.put p out) id f := by
  -- the process behind is known, and so is the number of its request
  have hbehind := hq.behind_of_next hheld hnext
  obtain ⟨w, hwf, hroute, -, ⟨-, hrep, -⟩ | ⟨hself, -⟩⟩ := hq.linked _ _ hbehind
  swap
  · exact absurd hself hnext
  generalize hf : ((s.peer p).lock id).next = f at *
  have hhead : q.head? = some f := by
    rcases behind_cons hbehind with ⟨-, hhead⟩ | hbehind
    · exact hhead
    · exact absurd hbehind.mem_left (List.nodup_cons.mp hq.nodup).1
  let lock : Lock := { (s.peer p).lock id with held := false, release_seqno := (s.peer p).rep_seqno_ f }
  let out : Out := ⟨(s.peer p).setLock id lock, [], [⟨f, (s.peer p).rep_seqno_ f⟩]⟩
  have hlock : out.peer.lock id = lock := setLock_lock_self ..
  have hcall : Call s p out id f := by
    refine ⟨fun id' hid => setLock_lock_of_ne hid .., fun _ _ => rfl, fun _ _ => rfl, nofun, fun r hr => ?_, .inl rfl,
      fun w' hw' => ?_⟩
    · rw [List.mem_singleton.mp hr]
    · obtain rfl : w' = w := Option.some.inj (hw'.symm.trans hwf.1)
      exact hwf.2.1
  have hpeer : ∀ c, ((s.put p out).peer c).rep_seqno_ f = (s.peer c).rep_seqno_ f ∧
      ((s.put p out).peer c).tail_ f = (s.peer c).tail_ f := fun c => by
    by_cases hc : c = p
    · subst hc
      rw [put_self]
      exact ⟨rfl, rfl⟩
    · rw [put_of_ne hc]
      exact ⟨rfl, rfl⟩
  have hgranted : Granted nprocs (s.put p out) id f := by
    refine ⟨w, p, ?_, hroute.congr (hpeer _).1 (hpeer _).2 fun r hr _ => ?_, ?_, ?_⟩
    · unfold Waits
      rw [put_of_ne hnext]
      exact hwf
    · simpa [System.put, out] using hr
    · rw [(hpeer p).1, hrep]
    · rw [put_self, hlock]
      exact hrep
  have hline : LineInv nprocs (s.put p out) id q := by
    apply hq.handOver h.seqnos hhead hcall hgranted
    · left
      rw [put_self, hlock]
      refine ⟨forall_of_none hw, rfl, ?_⟩
      rw [show lock.next = f from hf]
      exact hnext
    · rw [hlock]
    · exact ⟨w, hwf, by rw [hlock]; exact hrep⟩
  refine ⟨out, ?_, h.call hcall ?_ hline, hline, fun g hg => ?_⟩
  · unfold lockRelease
    rw [if_pos hheld, hf, if_neg hnext]
    simp only [out, lock, hf]
  · refine h.seqnos.put le_rfl (h.seqnos.mod p) (h.seqnos.rep p) (h.seqnos.waiting p) nofun (fun r hr => ?_)
      (h.seqnos.release_setLock ⟨f, ?_, h.seqnos.rep p f⟩)
    · rw [List.mem_singleton.mp hr]
      exact h.seqnos.rep p f
    · rw [show lock.release_seqno = _ from hrep, h.seqnos.waiting f w hwf.1]
      exact h.seqnos.mod f
  · obtain rfl : f = g := Option.some.inj (hhead.symm.trans hg)
    exact hgranted

/-- Acquire by a process that the lock has not left. -/
theorem Inv.acquire_keep (h : Inv nprocs s) (hw : (s.peer p).waiting = none)
    (hheld : ((s.peer p).lock id).held = false) (hnext : ((s.peer p).lock id).next = p) :
    ∃ out, lockAcquire nprocs p (s.peer p) id = some out ∧ Inv nprocs (s.put p out) := by
  obtain ⟨q, hq⟩ := h.line id
  let out : Out := ⟨(s.peer p).setLock id { (s.peer p).lock id with held := true }, [], []⟩
  have hlock : out.peer.lock id = { (s.peer p).lock id with held := true } := setLock_lock_self ..
  have hcall : Call s p out id p :=
    ⟨fun id' hid => setLock_lock_of_ne hid .., fun _ _ => rfl, fun _ _ => rfl, nofun, nofun, .inl rfl, forall_of_none hw⟩
  have hline : LineInv nprocs (s.put p out) id q := by
    apply hq.keep h.seqnos (hq.head_of_next hw hnext) hcall
    · left
      rw [put_self, hlock]
      exact ⟨forall_of_none hw, nofun⟩
    · rw [hlock]
    · rw [hlock]
    · rw [hlock]
    · exact .inr hnext
  refine ⟨out, ?_, h.call hcall ?_ hline⟩
  · unfold lockAcquire
    rw [if_neg (by rw [hheld]; exact Bool.false_ne_true), if_pos hnext]
  · exact h.seqnos.put le_rfl (h.seqnos.mod p) (h.seqnos.rep p) (h.seqnos.waiting p) nofun nofun
      (h.seqnos.release_setLock (h.seqnos.release p id))

/-- Acquire by a process that must ask for the lock. -/
theorem Inv.acquire_ask (h : Inv nprocs s) (hw : (s.peer p).waiting = none)
    (hheld : ((s.peer p).lock id).held = false) (hnext : ((s.peer p).lock id).next ≠ p) :
    ∃ out, lockAcquire nprocs p (s.peer p) id = some out ∧ Inv nprocs (s.put p out) := by
  obtain ⟨q, hq⟩ := h.line id
  have hpq := hq.not_mem_of_next hw hheld hnext
  have hfresh := h.seqnos.fresh p
  let target := if manager nprocs id = p then ((s.peer p).lock id).tail else manager nprocs id
  let tail := if manager nprocs id = p then p else ((s.peer p).lock id).tail
  let seqno := (s.peer p).req_seqno + NPROCS
  let lock : Lock := { (s.peer p).lock id with held := true, next := p, tail := tail }
  let w : Wait := ⟨id, target, seqno⟩
  let out : Out := ⟨{ (s.peer p).setLock id lock with req_seqno := seqno, waiting := some w },
    [⟨target, p, seqno, id⟩], []⟩
  have hlock : out.peer.lock id = lock := setLock_lock_self ..
  have hcall : Call s p out id p := by
    refine ⟨fun id' hid => setLock_lock_of_ne hid .., fun _ _ => rfl, fun _ _ => rfl, fun r hr => ?_, nofun,
      .inr ⟨rfl, fun w' hw' => ?_⟩, forall_of_none hw⟩
    · rw [List.mem_singleton.mp hr]
    · rw [← Option.some.inj hw']
  have hwaits : Waits (s.put p out) id p w := by
    unfold Waits
    rw [put_self, hlock]
    exact ⟨rfl, rfl, rfl⟩
  have hself : (((s.put p out).peer p).lock id).next = p := by
    rw [put_self, hlock]
  -- nothing in the system has the new number but the request that is sent
  have hun : Unanswered (s.put p out) id p w := by
    refine ⟨fun c => ?_, fun r hr hdest => ?_⟩
    · by_cases hc : c = p
      · subst hc
        rw [put_self, hlock]
        exact hfresh.release c id
      · rw [put_of_ne hc]
        exact hfresh.release c id
    · rcases List.mem_append.mp hr with hr | hr
      · exact hfresh.replies r hr hdest
      · cases hr
  have hreq : ∀ r ∈ (s.put p out).requests, r.sender = p → r.seqno = w.seqno → r.id = id ∧ r.dest = target := by
    intro r hr hsender hseqno
    rcases List.mem_append.mp hr with hr | hr
    · exact absurd hseqno (hfresh.requests r hr hsender)
    · rw [List.mem_singleton.mp hr]
      exact ⟨rfl, rfl⟩
  have hrep : ∀ c, ((s.put p out).peer c).rep_seqno_ p < w.seqno := by
    intro c
    by_cases hc : c = p
    · subst hc
      rw [put_self]
      exact hfresh.rep c
    · rw [put_of_ne hc]
      exact hfresh.rep c
  refine ⟨out, ?_, ?_⟩
  · unfold lockAcquire
    rw [if_neg (by rw [hheld]; exact Bool.false_ne_true), if_neg hnext]
  have hs : Seqnos (s.put p out) := by
    refine h.seqnos.put (Nat.le_add_right _ _) ?_ (h.seqnos.rep p) (fun w' hw' => ?_) (fun r hr => ?_) nofun
      (h.seqnos.release_setLock (h.seqnos.release p id))
    · rw [show out.peer.req_seqno = (s.peer p).req_seqno + NPROCS from rfl, Nat.add_mod_right]
      exact h.seqnos.mod p
    · rw [← Option.some.inj hw']
    · rw [List.mem_singleton.mp hr, put_self]
  by_cases hm : manager nprocs id = p
  · -- the manager puts itself at the end of the line
    have htarget : target = ((s.peer p).lock id).tail := if_pos hm
    have hlast := hq.last
    rw [hm, ← htarget] at hlast
    have hline : LineInv nprocs (s.put p out) id (q ++ [p]) := by
      apply hq.join h.seqnos hpq hcall
      · intro a ha
        obtain rfl : a = target := Option.some.inj (ha.symm.trans hlast)
        have hap : target ≠ p := fun hap => hpq (hap ▸ List.mem_of_getLast? ha)
        refine ⟨w, hwaits, ⟨fun _ => rfl, fun hne => absurd hm.symm hne, fun r hr hsender hseqno => ?_⟩, hun,
          .inr ⟨?_, hrep _⟩⟩
        · obtain ⟨hid, hdest⟩ := hreq r hr hsender hseqno
          exact ⟨hid, .inl hdest⟩
        · rw [put_of_ne hap]
          exact hq.lastNext _ ha
      · rw [hm, put_self, hlock]
        exact if_pos hm
      · exact hself
      · exact .inr rfl
      · exact fun b hb => absurd hb.mem_left hpq
      · exact fun hhead => absurd (List.mem_of_mem_head? hhead) hpq
      · exact .inr (.inl rfl)
      · rw [hlock]
      · exact fun hne => absurd rfl hne
    exact h.call hcall hs hline
  · have htarget : target = manager nprocs id := if_neg hm
    have hline : LineInv nprocs (s.put p out) id q := by
      apply hq.stay h.seqnos hpq hcall
      · refine .inr ⟨w, hwaits, fun hp => hm hp.symm, htarget, hself, hun, hrep, fun r hr hsender hseqno => ?_⟩
        rw [← htarget]
        exact hreq r hr hsender hseqno
      · rw [hlock]
        exact if_neg hm
      · rw [hlock]
    exact h.call hcall hs hline

end Calls

/-! ### The handlers of a request -/

section Handlers

variable {out : Out} {f : Proc} {req : Request}

/-- A call that handles the request `req` and, if it answers anybody, answers that. -/
structure Handled (x : Peer) (out : Out) (req : Request) : Prop where
  req_seqno : out.peer.req_seqno = x.req_seqno
  waiting : out.peer.waiting = x.waiting
  lock : ∀ id, id ≠ req.id → out.peer.lock id = x.lock id
  held : (out.peer.lock req.id).held = (x.lock req.id).held
  rep : ∀ b, b ≠ req.sender → out.peer.rep_seqno_ b = x.rep_seqno_ b
  rep_sender : out.peer.rep_seqno_ req.sender = x.rep_seqno_ req.sender ∨ out.peer.rep_seqno_ req.sender = req.seqno
  tail_ : ∀ b, b ≠ req.sender → out.peer.tail_ b = x.tail_ b
  requests : ∀ r ∈ out.requests, r.sender = req.sender ∧ r.seqno = req.seqno
  replies : ∀ r ∈ out.replies, r.dest = req.sender ∧ r.seqno = req.seqno
  release : (out.peer.lock req.id).release_seqno = (x.lock req.id).release_seqno ∨
    (out.peer.lock req.id).release_seqno = req.seqno

theorem Handled.call (h : Handled (s.peer p) out req) (hw : (s.peer req.sender).waiting = some w)
    (hid : w.id = req.id) : Call s p out req.id req.sender := by
  refine ⟨h.lock, h.rep, h.tail_, fun r hr => (h.requests r hr).1, fun r hr => (h.replies r hr).1, .inl h.waiting,
    fun w' hw' => ?_⟩
  rw [← Option.some.inj (hw.symm.trans hw')]
  exact hid

theorem Handled.seqnos (h : Handled (s.peer p) out req) (hs : Seqnos s) (hw : (s.peer req.sender).waiting = some w)
    (hseqno : w.seqno = req.seqno) : Seqnos (s.put p out) := by
  have hreq : req.seqno = (s.peer req.sender).req_seqno := by
    rw [← hseqno]
    exact hs.waiting _ w hw
  refine hs.put h.req_seqno.ge ?_ (fun b => ?_) (fun w' hw' => ?_) (fun r hr => ?_) (fun r hr => ?_) (fun id => ?_)
  · rw [h.req_seqno]
    exact hs.mod p
  · by_cases hb : b = req.sender
    · subst hb
      rcases h.rep_sender with heq | heq
      · rw [heq]
        exact hs.rep p _
      · rw [heq]
        exact hreq.le
    · rw [h.rep b hb]
      exact hs.rep p b
  · rw [h.waiting] at hw'
    rw [h.req_seqno]
    exact hs.waiting p w' hw'
  · obtain ⟨hsender, hn⟩ := h.requests r hr
    rw [hsender, hn, hreq]
    by_cases hp : req.sender = p
    · rw [hp, put_self, h.req_seqno]
    · rw [put_of_ne hp]
  · obtain ⟨hdest, hn⟩ := h.replies r hr
    rw [hdest, hn]
    exact hreq.le
  · by_cases hid : id = req.id
    · subst hid
      rcases h.release with heq | heq
      · rw [heq]
        exact hs.release p _
      · rw [heq, hreq]
        exact ⟨req.sender, hs.mod _, le_rfl⟩
    · rw [h.lock id hid]
      exact hs.release p id

/-- The handlers do nothing else. -/
theorem sigioHandler_handled {x : Peer} (h : sigioHandler nprocs p x req = some out) : Handled x out req := by
  unfold sigioHandler at h
  split at h
  · have hrep : ∀ b, b ≠ req.sender → Function.update x.rep_seqno_ req.sender req.seqno b = x.rep_seqno_ b :=
      fun b hb => Function.update_of_ne hb ..
    have hsender : Function.update x.rep_seqno_ req.sender req.seqno req.sender = req.seqno := Function.update_self ..
    simp only [lockSigioHandler] at h
    split at h
    · split at h
      · cases h
        exact ⟨rfl, rfl, fun id hid => setLock_lock_of_ne hid .., by rw [setLock_lock_self], hrep, .inr hsender,
          fun _ _ => rfl, nofun, nofun, .inl (by rw [setLock_lock_self])⟩
      · cases h
        exact ⟨rfl, rfl, fun id hid => setLock_lock_of_ne hid .., by rw [setLock_lock_self], hrep, .inr hsender,
          fun _ _ => rfl, nofun, List.forall_mem_singleton.mpr ⟨rfl, rfl⟩, .inr (by rw [setLock_lock_self])⟩
    · split at h
      · cases h
        exact ⟨rfl, rfl, fun id hid => setLock_lock_of_ne hid .., by simp only [setLock_lock_self], hrep, .inr hsender,
          fun b hb => Function.update_of_ne hb .., List.forall_mem_singleton.mpr ⟨rfl, rfl⟩, nofun,
          .inl (by simp only [setLock_lock_self])⟩
      · cases h
  · -- a duplicate changes nothing
    simp only [lockSigioDuplicateHandler] at h
    split at h
    · cases h
      exact ⟨rfl, rfl, fun _ _ => rfl, rfl, fun _ _ => rfl, .inl rfl, fun _ _ => rfl, nofun,
        List.forall_mem_singleton.mpr ⟨rfl, rfl⟩, .inl rfl⟩
    · split at h
      · cases h
        exact ⟨rfl, rfl, fun _ _ => rfl, rfl, fun _ _ => rfl, .inl rfl, fun _ _ => rfl, nofun, nofun, .inl rfl⟩
      · split at h
        · cases h
          exact ⟨rfl, rfl, fun _ _ => rfl, rfl, fun _ _ => rfl, .inl rfl, fun _ _ => rfl,
            List.forall_mem_singleton.mpr ⟨rfl, rfl⟩, nofun, .inl rfl⟩
        · cases h
          exact ⟨rfl, rfl, fun _ _ => rfl, rfl, fun _ _ => rfl, .inl rfl, fun _ _ => rfl, nofun, nofun, .inl rfl⟩

/-- It is enough to follow the line of the lock that is asked for. -/
theorem Inv.handled (h : Inv nprocs s) (hh : Handled (s.peer p) out req) (hw : (s.peer req.sender).waiting = some w)
    (hid : w.id = req.id) (hseqno : w.seqno = req.seqno) (hq : LineInv nprocs (s.put p out) req.id q) :
    Inv nprocs (s.put p out) := h.call (hh.call hw hid) (hh.seqnos h.seqnos hw hseqno) hq

theorem put_release (hrel : (out.peer.lock id).release_seqno = ((s.peer p).lock id).release_seqno) (c : Proc) :
    (((s.put p out).peer c).lock id).release_seqno = ((s.peer c).lock id).release_seqno := by
  by_cases hc : c = p
  · subst hc
    rw [put_self, hrel]
  · rw [put_of_ne hc]

/-- A call that answers nobody. -/
theorem Unanswered.put (h : Unanswered s id b w)
    (hrel : (out.peer.lock id).release_seqno = ((s.peer p).lock id).release_seqno) (hreplies : out.replies = []) :
    Unanswered (s.put p out) id b w := by
  refine ⟨fun c => ?_, fun r hr => ?_⟩
  · rw [put_release hrel]
    exact h.release c
  · apply h.replies r
    simpa [System.put, hreplies] using hr

/-- A process that has not been let into the line. -/
theorem LineInv.of_not_mem (hq : LineInv nprocs s id q) (hw : Waits s id f w) (hf : f ∉ q) :
    f ≠ manager nprocs id ∧ w.target = manager nprocs id ∧ ((s.peer f).lock id).next = f ∧ Unanswered s id f w ∧
      (∀ c, (s.peer c).rep_seqno_ f < w.seqno) ∧
      ∀ r ∈ s.requests, r.sender = f → r.seqno = w.seqno → r.id = id ∧ r.dest = manager nprocs id := by
  rcases hq.outside f hf with ⟨hnot, -⟩ | ⟨w', hw', hrest⟩
  · exact absurd hw.2.1 (hnot w hw.1)
  · obtain rfl : w' = w := Option.some.inj (hw'.1.symm.trans hw.1)
    exact hrest

/-- A manager that knows nobody behind it is the last of the line. -/
theorem LineInv.manager_last (hq : LineInv nprocs s id q)
    (hnext : ((s.peer (manager nprocs id)).lock id).next = manager nprocs id) :
    q.getLast? = some (manager nprocs id) := by
  have hmem : manager nprocs id ∈ q := by
    by_contra hm
    rcases hq.outside _ hm with ⟨-, -, hne⟩ | ⟨w, -, hne, -⟩
    · exact hne hnext
    · exact hne rfl
  apply hq.eq_last hmem hnext
  -- the manager has seen the requests of all the others in the line
  intro b w hb hw hlt
  obtain ⟨w', hw', hroute, -⟩ := hq.linked _ b hb
  obtain rfl : w' = w := Option.some.inj (hw'.1.symm.trans hw.1)
  have := (hroute.indirect (hb.ne hq.nodup).symm).2.1
  omega

/-- The first copy of a request that finds the process holding the lock, or waiting for it, with nobody behind it. -/
theorem sigioHandler_link (nprocs : Nat) {x : Peer} (hnew : x.rep_seqno_ req.sender < req.seqno) (hnext : (x.lock req.id).next = p)
    (hheld : (x.lock req.id).held = true) : ∃ out, sigioHandler nprocs p x req = some out ∧
      out.peer.lock req.id = { x.lock req.id with
        next := req.sender, tail := if manager nprocs req.id = p then req.sender else (x.lock req.id).tail } ∧
      out.peer.rep_seqno_ req.sender = req.seqno ∧ out.peer.tail_ = x.tail_ ∧ out.requests = [] ∧ out.replies = [] := by
  unfold sigioHandler lockSigioHandler
  rw [if_pos hnew, if_pos hnext, if_pos hheld]
  exact ⟨_, rfl, setLock_lock_self .., Function.update_self .., rfl, rfl, rfl⟩

/-- The first copy of a request that finds the lock with the process and free. -/
theorem sigioHandler_grant (nprocs : Nat) {x : Peer} (hnew : x.rep_seqno_ req.sender < req.seqno) (hnext : (x.lock req.id).next = p)
    (hheld : (x.lock req.id).held = false) : ∃ out, sigioHandler nprocs p x req = some out ∧
      out.peer.lock req.id = { x.lock req.id with
        release_seqno := req.seqno, next := req.sender,
        tail := if manager nprocs req.id = p then req.sender else (x.lock req.id).tail } ∧
      out.peer.rep_seqno_ req.sender = req.seqno ∧ out.peer.tail_ = x.tail_ ∧ out.requests = [] := by
  unfold sigioHandler lockSigioHandler
  rw [if_pos hnew, if_pos hnext, if_neg (by rw [hheld]; exact Bool.false_ne_true)]
  exact ⟨_, rfl, setLock_lock_self .., Function.update_self .., rfl, rfl⟩

/-- The first copy of a request that comes to a manager with another process behind it. -/
theorem sigioHandler_forward {x : Peer} (hnew : x.rep_seqno_ req.sender < req.seqno) (hnext : (x.lock req.id).next ≠ p)
    (hm : manager nprocs req.id = p) : ∃ out, sigioHandler nprocs p x req = some out ∧
      out.peer.lock req.id = { x.lock req.id with tail := req.sender } ∧ out.peer.rep_seqno_ req.sender = req.seqno ∧
      out.peer.tail_ req.sender = (x.lock req.id).tail ∧ out.requests = [{ req with dest := (x.lock req.id).tail }] ∧
      out.replies = [] := by
  unfold sigioHandler lockSigioHandler
  rw [if_pos hnew, if_neg hnext, if_pos hm]
  exact ⟨_, rfl, setLock_lock_self .., Function.update_self .., Function.update_self .., rfl, rfl⟩

/-- The lock is sent to a process whose requests come by way `hroute`. -/
theorem Granted.put (hw : Waits s id f w) (hfp : f ≠ p) (hroute : Route nprocs (s.put p out) id f w p)
    (hrep : out.peer.rep_seqno_ f = w.seqno) (hrel : (out.peer.lock id).release_seqno = w.seqno) :
    Granted nprocs (s.put p out) id f := by
  refine ⟨w, p, ?_, hroute, by rw [put_self, hrep], by rw [put_self, hrel]⟩
  unfold Waits
  rw [put_of_ne hfp]
  exact hw

/-- The requests of a process come to the manager, and no further. -/
theorem Route.at_manager (hw : w.target = manager nprocs id) (hf : f ≠ manager nprocs id)
    (hm : manager nprocs id = p) (hrep : out.peer.rep_seqno_ f = w.seqno) (hreq : out.requests = [])
    (hs : ∀ r ∈ s.requests, r.sender = f → r.seqno = w.seqno → r.id = id ∧ r.dest = manager nprocs id) :
    Route nprocs (s.put p out) id f w p where
  direct h := absurd h hf
  indirect _ := by
    refine ⟨hw, ?_, fun h => absurd hm.symm h⟩
    rw [hm, put_self]
    exact hrep
  requests r hr hsender hseqno := by
    rw [show (s.put p out).requests = s.requests by simp [System.put, hreq]] at hr
    obtain ⟨hid, hdest⟩ := hs r hr hsender hseqno
    exact ⟨hid, .inl (hdest.trans hw.symm)⟩

/-- A process that is not in the line gets into it when the manager handles its request. -/
theorem LineInv.handle_outside (req : Request) (hq : LineInv nprocs s req.id q) (hs : Seqnos s)
    (hw : Waits s req.id req.sender w) (hseqno : w.seqno = req.seqno) (hf : req.sender ∉ q) (hm : manager nprocs req.id = p) :
    ∃ out, sigioHandler nprocs p (s.peer p) req = some out ∧
      ∃ q', req.sender ∈ q' ∧ LineInv nprocs (s.put p out) req.id q' := by
  obtain ⟨hfm, htarget, hself, hun, hrep, hreq⟩ := hq.of_not_mem hw hf
  have hfp : req.sender ≠ p := hm ▸ hfm
  have hnew : (s.peer p).rep_seqno_ req.sender < req.seqno := hseqno ▸ hrep p
  by_cases hnext : ((s.peer p).lock req.id).next = p
  · have hlast : q.getLast? = some p := by
      have := hq.manager_last (by rw [hm]; exact hnext)
      rwa [hm] at this
    cases hheld : ((s.peer p).lock req.id).held with
    | true =>
      obtain ⟨out, heq, hlock, hrep', -, hrequests, hreplies⟩ := sigioHandler_link nprocs hnew hnext hheld
      have hh := sigioHandler_handled heq
      rw [← hseqno] at hrep'
      refine ⟨out, heq, q ++ [req.sender], List.mem_append_right _ (.head _), ?_⟩
      apply hq.join hs hf (hh.call hw.1 hw.2.1)
      · intro a ha
        obtain rfl : p = a := Option.some.inj (hlast.symm.trans ha)
        refine ⟨w, ?_, Route.at_manager htarget hfm hm hrep' hrequests hreq,
          hun.put (by rw [hlock]) hreplies, .inl ?_⟩
        · unfold Waits
          rw [put_of_ne hfp]
          exact hw
        · rw [put_self, hlock, hrep']
          exact ⟨rfl, rfl, hheld⟩
      · rw [hm, put_self, hlock]
        exact if_pos hm
      · rw [put_of_ne hfp]
        exact hself
      · rw [hlock]
        exact .inl rfl
      · exact fun b hb => absurd hlast (hb.not_last hq.nodup)
      · rw [hlock]
        intro _ hh'
        rw [show ((s.peer p).lock req.id).held = false from hh'] at hheld
        cases hheld
      · exact .inl (List.mem_of_getLast? hlast)
      · rw [hlock]
      · exact fun _ => hh.waiting
    | false =>
      -- nobody has the lock, so that the manager is alone in the line
      have hhead : q.head? = some p := by
        by_contra hhead
        obtain ⟨w', -, -, hheld'⟩ := hq.waits (mem_tail_of_not_head (List.mem_of_getLast? hlast) hhead)
        rw [hheld] at hheld'
        cases hheld'
      obtain rfl := eq_singleton hq.nodup hhead hlast
      obtain ⟨out, heq, hlock, hrep', -, hrequests⟩ := sigioHandler_grant nprocs hnew hnext hheld
      have hh := sigioHandler_handled heq
      rw [← hseqno] at hrep' hlock
      refine ⟨out, heq, [req.sender], .head _, ?_⟩
      apply hq.restart hs hm hfp (hh.call hw.1 hw.2.1)
      · exact Granted.put hw hfp (Route.at_manager htarget hfm hm hrep' hrequests hreq) hrep' (by rw [hlock])
      · exact hself
      · left
        rw [put_self, hlock, hh.waiting]
        refine ⟨?_, hheld, hfp⟩
        rcases hq.front p rfl with ⟨hnot, -⟩ | ⟨w', g, ⟨-, -, hheld'⟩, -⟩
        · exact hnot
        · rw [hheld] at hheld'
          cases hheld'
      · rw [hlock]
        exact if_pos hm
      · exact ⟨w, hw, by rw [hlock]⟩
  · obtain ⟨out, heq, hlock, hrep', htail, hrequests, hreplies⟩ := sigioHandler_forward hnew hnext hm
    have hh := sigioHandler_handled heq
    rw [← hseqno] at hrep'
    refine ⟨out, heq, q ++ [req.sender], List.mem_append_right _ (.head _), ?_⟩
    apply hq.join hs hf (hh.call hw.1 hw.2.1)
    · intro a ha
      have hlast := hq.last
      rw [hm] at hlast
      obtain rfl : a = ((s.peer p).lock req.id).tail := Option.some.inj (ha.symm.trans hlast)
      generalize ((s.peer p).lock req.id).tail = a at *
      have hap : a ≠ p := by
        rintro rfl
        exact hnext (hq.lastNext a ha)
      refine ⟨w, ?_, ⟨fun h => absurd h hfm, fun _ => ⟨htarget, ?_, fun _ => ?_⟩, fun r hr hsender hseq => ?_⟩,
        hun.put (by rw [hlock]) hreplies, .inr ?_⟩
      · unfold Waits
        rw [put_of_ne hfp]
        exact hw
      · rw [hm, put_self]
        exact hrep'
      · rw [hm, put_self]
        exact htail
      · rcases List.mem_append.mp hr with hr | hr
        · obtain ⟨hid, hdest⟩ := hreq r hr hsender hseq
          exact ⟨hid, .inl (hdest.trans htarget.symm)⟩
        · rw [hrequests] at hr
          rw [List.mem_singleton.mp hr]
          exact ⟨rfl, .inr rfl⟩
      · rw [put_of_ne hap]
        exact ⟨hq.lastNext a ha, hrep a⟩
    · rw [hm, put_self, hlock]
    · rw [put_of_ne hfp]
      exact hself
    · rw [hlock]
      exact .inl rfl
    · rw [hlock]
      exact fun _ _ => rfl
    · rw [hlock]
      intro hhead hheld
      rcases hq.front p hhead with ⟨-, hidle⟩ | ⟨w', g, ⟨-, -, hheld'⟩, -⟩
      · exact hidle hheld
      · rw [show ((s.peer p).lock req.id).held = false from hheld] at hheld'
        cases hheld'
    · rw [hlock]
      exact .inr (.inr rfl)
    · rw [hlock]
    · exact fun _ => hh.waiting

/-- How far the request of `f`, in the line, has come on its way to `a`. -/
inductive Stage (s : System) (id : Nat) (q : List Proc) (f : Proc) (w : Wait) (a : Proc) : Prop
  | sent (behind : Behind q a f) (unanswered : Unanswered s id f w) (next : ((s.peer a).lock id).next = a)
      (rep : (s.peer a).rep_seqno_ f < w.seqno)
  | arrived (behind : Behind q a f) (unanswered : Unanswered s id f w) (next : ((s.peer a).lock id).next = f)
      (rep : (s.peer a).rep_seqno_ f = w.seqno) (held : ((s.peer a).lock id).held = true)
  | granted (head : q.head? = some f) (rep : (s.peer a).rep_seqno_ f = w.seqno)
      (release : ((s.peer a).lock id).release_seqno = w.seqno)

theorem LineInv.stage (hq : LineInv nprocs s id q) (hw : Waits s id f w) (hf : f ∈ q) :
    ∃ a, Route nprocs s id f w a ∧ Stage s id q f w a := by
  by_cases hhead : q.head? = some f
  · rcases hq.front f hhead with ⟨hnot, -⟩ | ⟨w', g, hw', hroute, hrep, hrel⟩
    · exact absurd hw.2.1 (hnot w hw.1)
    · obtain rfl : w' = w := Option.some.inj (hw'.1.symm.trans hw.1)
      exact ⟨g, hroute, .granted hhead hrep hrel⟩
  · obtain ⟨a, ha⟩ := exists_behind (mem_tail_of_not_head hf hhead)
    obtain ⟨w', hw', hroute, hun, hcase⟩ := hq.linked a f ha
    obtain rfl : w' = w := Option.some.inj (hw'.1.symm.trans hw.1)
    rcases hcase with ⟨hnext, hrep, hheld⟩ | ⟨hnext, hrep⟩
    · exact ⟨a, hroute, .arrived ha hun hnext hrep hheld⟩
    · exact ⟨a, hroute, .sent ha hun hnext hrep⟩

theorem Stage.mem (h : Stage s id q f w a) : f ∈ q := by
  cases h with
  | sent hbehind _ _ _ => exact hbehind.mem_right
  | arrived hbehind _ _ _ _ => exact hbehind.mem_right
  | granted hhead _ _ => exact List.mem_of_mem_head? hhead

theorem Stage.eq_of_behind (h : Stage s id q f w a) (hnd : q.Nodup) (hp : Behind q p f) : p = a := by
  cases h with
  | sent hbehind _ _ _ => exact hp.left_unique hnd hbehind
  | arrived hbehind _ _ _ _ => exact hp.left_unique hnd hbehind
  | granted hhead _ _ => exact absurd hhead (hp.not_head hnd)

/-- The request of `f` comes to the process in front of it. -/
theorem LineInv.handle_behind (req : Request) (hq : LineInv nprocs s req.id q) (hs : Seqnos s)
    (hw : Waits s req.id req.sender w) (hseqno : w.seqno = req.seqno) (hroute : Route nprocs s req.id req.sender w p) (hp : Behind q p req.sender)
    (hun : Unanswered s req.id req.sender w) (hnext : ((s.peer p).lock req.id).next = p)
    (hrep : (s.peer p).rep_seqno_ req.sender < w.seqno) :
    ∃ out, sigioHandler nprocs p (s.peer p) req = some out ∧
      ((((s.peer p).lock req.id).held = true ∧ LineInv nprocs (s.put p out) req.id q) ∨
        (((s.peer p).lock req.id).held = false ∧ LineInv nprocs (s.put p out) req.id q.tail ∧
          Granted nprocs (s.put p out) req.id req.sender)) := by
  have hfp : req.sender ≠ p := (hp.ne hq.nodup).symm
  have hnew : (s.peer p).rep_seqno_ req.sender < req.seqno := hseqno ▸ hrep
  -- the manager has seen the request already
  have hm : manager nprocs req.id ≠ p := by
    rintro hm
    have := (hroute.indirect (hm ▸ hfp)).2.1
    rw [hm] at this
    omega
  have hroute' : ∀ out : Out, out.requests = [] → Route nprocs (s.put p out) req.id req.sender w p := by
    intro out hout
    apply hroute.congr
    · rw [put_of_ne hm]
    · rw [put_of_ne hm]
    · intro r hr _
      simpa [System.put, hout] using hr
  cases hheld : ((s.peer p).lock req.id).held with
  | true =>
    obtain ⟨out, heq, hlock, hrep', -, hrequests, hreplies⟩ := sigioHandler_link nprocs hnew hnext hheld
    have hh := sigioHandler_handled heq
    rw [← hseqno] at hrep'
    refine ⟨out, heq, .inl ⟨rfl, ?_⟩⟩
    apply hq.link hs hp (hh.call hw.1 hw.2.1)
    · refine ⟨w, ?_, hroute' out hrequests, hun.put (by rw [hlock]) hreplies, .inl ?_⟩
      · unfold Waits
        rw [put_of_ne hfp]
        exact hw
      · rw [put_self, hlock]
        exact ⟨rfl, hrep', hheld⟩
    · rw [hlock]
      exact if_neg hm
    · rw [hlock]
      exact ⟨hheld, hheld⟩
    · rw [hlock]
    · exact hh.waiting
  | false =>
    -- who does not hold the lock, and does not wait, is the first
    have hhead : q.head? = some p := by
      by_contra hhead
      obtain ⟨w', -, -, hheld'⟩ := hq.waits (mem_tail_of_not_head hp.mem_left hhead)
      rw [hheld] at hheld'
      cases hheld'
    obtain ⟨out, heq, hlock, hrep', -, hrequests⟩ := sigioHandler_grant nprocs hnew hnext hheld
    have hh := sigioHandler_handled heq
    rw [← hseqno] at hrep' hlock
    have hgranted : Granted nprocs (s.put p out) req.id req.sender :=
      Granted.put hw hfp (hroute' out hrequests) hrep' (by rw [hlock])
    refine ⟨out, heq, .inr ⟨rfl, ?_, hgranted⟩⟩
    obtain ⟨q, rfl⟩ : ∃ q', q = p :: q' := List.head?_eq_some_iff.mp hhead
    apply hq.handOver hs _ (hh.call hw.1 hw.2.1) hgranted
    · left
      rw [put_self, hlock, hh.waiting]
      refine ⟨?_, hheld, hfp⟩
      rcases hq.front p hhead with ⟨hnot, -⟩ | ⟨w', g, ⟨-, -, hheld'⟩, -⟩
      · exact hnot
      · rw [hheld] at hheld'
        cases hheld'
    · rw [hlock]
      exact if_neg hm
    · exact ⟨w, hw, by rw [hlock]⟩
    · rcases behind_cons hp with ⟨-, hhead'⟩ | hp
      · exact hhead'
      · exact absurd hp.mem_left (List.nodup_cons.mp hq.nodup).1

theorem put_peer (hpeer : out.peer = s.peer p) (c : Proc) : (s.put p out).peer c = s.peer c := by
  by_cases hc : c = p
  · subst hc
    rw [put_self, hpeer]
  · rw [put_of_ne hc]

/-- A call that only sends something again. -/
theorem Same.resend (hpeer : out.peer = s.peer p)
    (hreq : ∀ b w, Waits s id b w → ∀ r ∈ out.requests, r.sender = b → r.seqno = w.seqno → r.id = id ∧
      (r.dest = w.target ∨ (b ∈ q ∧ ∀ a, Behind q a b ∨ ((s.peer a).lock id).release_seqno = w.seqno →
        Route nprocs s id b w a → r.dest = a)))
    (hreply : ∀ b w, Waits s id b w → ∀ r ∈ out.replies, r.dest = b → r.seqno = w.seqno → q.head? = some b) :
    Same nprocs s (s.put p out) id q := by
  refine ⟨fun a => ?_, fun a w _ => ?_, fun b w _ c => ?_, fun b w _ c => ?_, fun b w hw r hr hsender hseqno => ?_,
    fun b w hw r hr hdest hseqno => ?_⟩
  · rw [put_peer hpeer]
  · rw [put_peer hpeer]
  · rw [put_peer hpeer]
  · rw [put_peer hpeer]
  · rcases List.mem_append.mp hr with hr | hr
    · exact .inl hr
    · exact .inr (hreq b w hw r hr hsender hseqno)
  · rcases List.mem_append.mp hr with hr | hr
    · exact .inl hr
    · exact .inr (hreply b w hw r hr hdest hseqno)

/-- A request that is not where it is to go is at the manager, which knows where that is. -/
theorem Route.forward (hroute : Route nprocs s id f w a) (hp : p = w.target) (hpa : p ≠ a) :
    f ≠ p ∧ manager nprocs id = p ∧ (s.peer p).tail_ f = a := by
  have hf : f ≠ manager nprocs id := fun hf => hpa (hp.trans (hroute.direct hf))
  obtain ⟨htarget, -, htail⟩ := hroute.indirect hf
  have hm : manager nprocs id = p := htarget.symm.trans hp.symm
  rw [hm] at hf htail
  exact ⟨hf, hm, htail hpa.symm⟩

/-- A request that was handled before is answered again, if there is an answer, or passed on. -/
theorem LineInv.handle_again (req : Request) (hq : LineInv nprocs s req.id q) (hw : Waits s req.id req.sender w)
    (hseqno : w.seqno = req.seqno) (hroute : Route nprocs s req.id req.sender w a)
    (hst : Stage s req.id q req.sender w a) (hp : p = w.target ∨ p = a)
    (hold : ¬ (s.peer p).rep_seqno_ req.sender < req.seqno) :
    ∃ out, sigioHandler nprocs p (s.peer p) req = some out ∧ out.peer = s.peer p ∧
      Same nprocs s (s.put p out) req.id q ∧
      (p = a → q.head? = some req.sender → out.replies = [⟨req.sender, req.seqno⟩]) ∧
      (p ≠ a → (q.head? = some req.sender ∧ out.replies = [⟨req.sender, req.seqno⟩]) ∨
        out.requests = [{ req with dest := a }]) := by
  unfold sigioHandler lockSigioDuplicateHandler
  rw [if_neg hold]
  by_cases hrel : ((s.peer p).lock req.id).release_seqno = req.seqno
  · -- it was answered here, so that the lock is on the way to its sender
    have hhead : q.head? = some req.sender := by
      cases hst with
      | sent _ hun _ _ => exact absurd (hrel.trans hseqno.symm) (hun.release p)
      | arrived _ hun _ _ _ => exact absurd (hrel.trans hseqno.symm) (hun.release p)
      | granted hhead _ _ => exact hhead
    rw [if_pos hrel]
    refine ⟨_, rfl, rfl, Same.resend rfl (fun _ _ _ => nofun) fun b w' _ r hr hdest _ => ?_, fun _ _ => rfl,
      fun _ => .inl ⟨hhead, rfl⟩⟩
    rw [← hdest, List.mem_singleton.mp hr]
    exact hhead
  rw [if_neg hrel]
  by_cases hpa : p = a
  · subst hpa
    cases hst with
    | sent _ _ _ hrep => exact absurd (hseqno ▸ hrep) hold
    | granted _ _ hrel' => exact absurd (hrel'.trans hseqno) hrel
    | arrived hbehind _ hnext _ hheld =>
      rw [if_pos ⟨hheld, hnext⟩]
      exact ⟨_, rfl, rfl, Same.resend rfl (fun _ _ _ => nofun) fun _ _ _ => nofun, fun _ hhead => absurd hhead (hbehind.not_head hq.nodup),
        fun h => absurd rfl h⟩
  · obtain ⟨hfp, hm, htail⟩ := hroute.forward (hp.resolve_right hpa) hpa
    have hnot : ¬ (((s.peer p).lock req.id).held = true ∧ ((s.peer p).lock req.id).next = req.sender) := by
      rintro ⟨hheld, hnext⟩
      have hbehind := hq.behind_of_next hheld (by rw [hnext]; exact hfp)
      rw [hnext] at hbehind
      exact hpa (hst.eq_of_behind hq.nodup hbehind)
    rw [if_neg hnot, if_pos hm, htail]
    refine ⟨_, rfl, rfl, Same.resend rfl (fun b w' hw' r hr hsender _ => ?_) fun _ _ _ => nofun,
      fun h => absurd h hpa, fun _ => .inr rfl⟩
    rw [List.mem_singleton.mp hr] at hsender ⊢
    obtain rfl : req.sender = b := hsender
    obtain rfl : w' = w := Option.some.inj (hw'.1.symm.trans hw.1)
    refine ⟨rfl, .inr ⟨hst.mem, fun c hc hroute' => ?_⟩⟩
    -- the manager is not the one that answers
    have hcp : c ≠ manager nprocs req.id := by
      rintro rfl
      rw [hm] at hc
      rcases hc with hc | hc
      · exact hpa (hst.eq_of_behind hq.nodup hc)
      · exact hrel (hc.trans hseqno)
    have := (hroute'.indirect (hm ▸ hfp)).2.2 hcp
    rw [hm, htail] at this
    exact this

/-- A process that waits for a lock is to get it. -/
theorem LineInv.waits_of_waiting (hq : LineInv nprocs s w.id q) (hw : (s.peer f).waiting = some w) :
    Waits s w.id f w := by
  have hsome : ∀ w', Waits s w.id f w' → Waits s w.id f w := fun w' hw' => by
    rwa [Option.some.inj (hw'.1.symm.trans hw)] at hw'
  by_cases hf : f ∈ q
  · by_cases hhead : q.head? = some f
    · rcases hq.front f hhead with ⟨hnot, -⟩ | ⟨w', g, hw', -⟩
      · exact absurd rfl (hnot w hw)
      · exact hsome w' hw'
    · obtain ⟨w', hw'⟩ := hq.waits (mem_tail_of_not_head hf hhead)
      exact hsome w' hw'
  · rcases hq.outside f hf with ⟨hnot, -⟩ | ⟨w', hw', -⟩
    · exact absurd rfl (hnot w hw)
    · exact hsome w' hw'

/-- A request from the line that is new where it comes is at the process in front of its sender. -/
theorem Stage.sent_of_new (h : Stage s id q f w a) (hroute : Route nprocs s id f w a) (hp : p = w.target ∨ p = a)
    (hnew : (s.peer p).rep_seqno_ f < w.seqno) : p = a ∧ Behind q a f ∧ Unanswered s id f w ∧
      ((s.peer a).lock id).next = a := by
  by_cases hpa : p = a
  · subst hpa
    cases h with
    | sent hbehind hun hnext _ => exact ⟨rfl, hbehind, hun, hnext⟩
    | arrived _ _ _ hrep _ => omega
    | granted _ hrep _ => omega
  · obtain ⟨hfp, hm, -⟩ := hroute.forward (hp.resolve_right hpa) hpa
    have := (hroute.indirect (hm ▸ hfp)).2.1
    rw [hm] at this
    omega

/-- **A request is handled**, the first copy of it and the later ones. -/
theorem Inv.handle (h : Inv nprocs s) (hr : req ∈ s.requests) (hw : (s.peer req.sender).waiting = some w)
    (hseqno : w.seqno = req.seqno) : ∃ out, sigioHandler nprocs req.dest (s.peer req.dest) req = some out ∧
      Inv nprocs (s.put req.dest out) := by
  obtain ⟨q, hq⟩ := h.line w.id
  have hwaits := hq.waits_of_waiting hw
  by_cases hf : req.sender ∈ q
  · obtain ⟨a, hroute, hst⟩ := hq.stage hwaits hf
    obtain ⟨hid, hdest⟩ := hroute.requests req hr rfl hseqno.symm
    rw [← hid] at hq hwaits hroute hst
    by_cases hnew : (s.peer req.dest).rep_seqno_ req.sender < w.seqno
    · obtain ⟨rfl, hbehind, hun, hnext⟩ := hst.sent_of_new hroute hdest hnew
      obtain ⟨out, heq, ⟨-, hq'⟩ | ⟨-, hq', -⟩⟩ :=
        hq.handle_behind req h.seqnos hwaits hseqno hroute hbehind hun hnext hnew
      · exact ⟨out, heq, h.handled (sigioHandler_handled heq) hw hid.symm hseqno hq'⟩
      · exact ⟨out, heq, h.handled (sigioHandler_handled heq) hw hid.symm hseqno hq'⟩
    · rw [hseqno] at hnew
      obtain ⟨out, heq, -, hsame, -⟩ := hq.handle_again req hwaits hseqno hroute hst hdest hnew
      exact ⟨out, heq, h.handled (sigioHandler_handled heq) hw hid.symm hseqno (hq.same hsame)⟩
  · obtain ⟨-, -, -, -, -, hreq⟩ := hq.of_not_mem hwaits hf
    obtain ⟨hid, hdest⟩ := hreq req hr rfl hseqno.symm
    rw [← hid] at hq hwaits hdest
    obtain ⟨out, heq, q', -, hq'⟩ := hq.handle_outside req h.seqnos hwaits hseqno hf hdest.symm
    exact ⟨out, heq, h.handled (sigioHandler_handled heq) hw hid.symm hseqno hq'⟩

theorem lockSigioDuplicateHandler_peer (nprocs : Nat) (p : Proc) (x : Peer) (req : Request) :
    (lockSigioDuplicateHandler nprocs p x req).peer = x := by
  simp only [lockSigioDuplicateHandler]
  split
  · rfl
  · split
    · rfl
    · split
      · rfl
      · rfl

/-- A request that comes too late makes no difference. -/
theorem Inv.handle_late (h : Inv nprocs s) (hr : req ∈ s.requests)
    (hold : req.seqno ≤ (s.peer req.dest).rep_seqno_ req.sender)
    (hlate : ∀ w, (s.peer req.sender).waiting = some w → w.seqno ≠ req.seqno) :
    ∃ out, sigioHandler nprocs req.dest (s.peer req.dest) req = some out ∧ Inv nprocs (s.put req.dest out) := by
  have heq : sigioHandler nprocs req.dest (s.peer req.dest) req =
      some (lockSigioDuplicateHandler nprocs req.dest (s.peer req.dest) req) := if_neg (Nat.not_lt.mpr hold)
  have hh := sigioHandler_handled heq
  have hpeer := lockSigioDuplicateHandler_peer nprocs req.dest (s.peer req.dest) req
  generalize lockSigioDuplicateHandler nprocs req.dest (s.peer req.dest) req = out at *
  refine ⟨out, heq, ?_, fun id => ?_⟩
  · refine h.seqnos.put ?_ ?_ ?_ ?_ (fun r hr' => ?_) (fun r hr' => ?_) ?_
    · rw [hpeer]
    · rw [hpeer]
      exact h.seqnos.mod _
    · rw [hpeer]
      exact h.seqnos.rep _
    · rw [hpeer]
      exact h.seqnos.waiting _
    · rw [put_peer hpeer, (hh.requests r hr').1, (hh.requests r hr').2]
      exact h.seqnos.requests req hr
    · rw [(hh.replies r hr').1, (hh.replies r hr').2]
      exact h.seqnos.requests req hr
    · rw [hpeer]
      exact h.seqnos.release _
  · obtain ⟨q, hq⟩ := h.line id
    refine ⟨q, hq.same (Same.resend hpeer (fun b w hw r hr' hsender hseqno => ?_) fun b w hw r hr' hdest hseqno => ?_)⟩
    · rw [(hh.requests r hr').1] at hsender
      subst hsender
      exact absurd (hseqno.symm.trans (hh.requests r hr').2) (hlate w hw.1)
    · rw [(hh.replies r hr').1] at hdest
      subst hdest
      exact absurd (hseqno.symm.trans (hh.replies r hr').2) (hlate w hw.1)

end Handlers

/-! ### Every step -/

section Steps

/-- A reply is only sent to the first of the line. -/
theorem LineInv.head_of_reply (hq : LineInv nprocs s id q) (hw : Waits s id p w) {r : Reply} (hr : r ∈ s.replies)
    (hdest : r.dest = p) (hseqno : r.seqno = w.seqno) : q.head? = some p := by
  have hmem : p ∈ q := by
    by_contra hp
    exact (hq.of_not_mem hw hp).2.2.2.1.replies r hr hdest hseqno
  obtain ⟨a, -, hst⟩ := hq.stage hw hmem
  cases hst with
  | sent _ hun _ _ => exact absurd hseqno (hun.replies r hr hdest)
  | arrived _ hun _ _ _ => exact absurd hseqno (hun.replies r hr hdest)
  | granted hhead _ _ => exact hhead

/-- The first of the line takes the lock. -/
theorem Inv.receive (h : Inv nprocs s) (hw : (s.peer p).waiting = some w) (hq : LineInv nprocs s w.id q)
    (hhead : q.head? = some p) : Inv nprocs (s.put p ⟨{ s.peer p with waiting := none }, [], []⟩) ∧
      LineInv nprocs (s.put p ⟨{ s.peer p with waiting := none }, [], []⟩) w.id q := by
  have hheld := (hq.waits_of_waiting hw).2.2
  have hcall : Call s p ⟨{ s.peer p with waiting := none }, [], []⟩ w.id p := by
    refine ⟨fun _ _ => rfl, fun _ _ => rfl, fun _ _ => rfl, nofun, nofun, .inr ⟨rfl, nofun⟩, fun w' hw' => ?_⟩
    rw [Option.some.inj (hw.symm.trans hw')]
  have hline : LineInv nprocs (s.put p ⟨{ s.peer p with waiting := none }, [], []⟩) w.id q := by
    apply hq.keep h.seqnos hhead hcall
    · left
      rw [put_self]
      refine ⟨nofun, fun hheld' => ?_⟩
      rw [show ((s.peer p).lock w.id).held = false from hheld'] at hheld
      cases hheld
    · rfl
    · rfl
    · rfl
    · exact .inl hheld
  refine ⟨h.call hcall ?_ hline, hline⟩
  exact h.seqnos.put le_rfl (h.seqnos.mod p) (h.seqnos.rep p) nofun nofun nofun (h.seqnos.release p)

/-- The request that `p` waits for is sent again. -/
theorem Same.rexmit (hw : (s.peer p).waiting = some w) :
    Same nprocs s (s.put p ⟨s.peer p, [⟨w.target, p, w.seqno, w.id⟩], []⟩) id q := by
  refine Same.resend rfl (fun b w' hw' r hr hsender _ => ?_) fun _ _ _ => nofun
  rw [List.mem_singleton.mp hr] at hsender ⊢
  obtain rfl : p = b := hsender
  obtain rfl : w = w' := Option.some.inj (hw.symm.trans hw'.1)
  exact ⟨hw'.2.1, .inl rfl⟩

theorem Inv.rexmit (h : Inv nprocs s) (hw : (s.peer p).waiting = some w) :
    Inv nprocs (s.put p ⟨s.peer p, [⟨w.target, p, w.seqno, w.id⟩], []⟩) := by
  refine ⟨?_, fun id => ?_⟩
  · refine h.seqnos.put le_rfl (h.seqnos.mod p) (h.seqnos.rep p) (h.seqnos.waiting p) (fun r hr => ?_) nofun
      (h.seqnos.release p)
    rw [List.mem_singleton.mp hr, put_self]
    exact (h.seqnos.waiting p w hw).le
  · obtain ⟨q, hq⟩ := h.line id
    exact ⟨q, hq.same (Same.rexmit hw)⟩

/-- Something happens to the numbers of a process that does not wait. -/
theorem Same.aside {c : Proc} {x : Peer} (hp : (s.peer p).waiting = none) (hlock : x.lock = (s.peer c).lock)
    (hwaiting : x.waiting = (s.peer c).waiting) (htail : x.tail_ = (s.peer c).tail_)
    (hrep : ∀ b, b ≠ p → x.rep_seqno_ b = (s.peer c).rep_seqno_ b) : Same nprocs s (s.put c ⟨x, [], []⟩) id q := by
  have hne : ∀ b w, Waits s id b w → b ≠ p := by
    rintro b w ⟨hw, -⟩ rfl
    exact absurd hw (by rw [hp]; nofun)
  have hpeer : ∀ a, ((s.put c ⟨x, [], []⟩).peer a).lock = (s.peer a).lock ∧
      ((s.put c ⟨x, [], []⟩).peer a).waiting = (s.peer a).waiting ∧
      ((s.put c ⟨x, [], []⟩).peer a).tail_ = (s.peer a).tail_ ∧
      ∀ b, b ≠ p → ((s.put c ⟨x, [], []⟩).peer a).rep_seqno_ b = (s.peer a).rep_seqno_ b := by
    intro a
    by_cases ha : a = c
    · subst ha
      rw [put_self]
      exact ⟨hlock, hwaiting, htail, hrep⟩
    · rw [put_of_ne ha]
      exact ⟨rfl, rfl, rfl, fun _ _ => rfl⟩
  refine ⟨fun a => ?_, fun a w _ => ?_, fun b w hw a => (hpeer a).2.2.2 b (hne b w hw), fun b w _ a => ?_,
    fun b w _ r hr _ _ => .inl ?_, fun b w _ r hr _ _ => .inl ?_⟩
  · rw [(hpeer a).1]
  · rw [(hpeer a).2.1]
  · rw [(hpeer a).2.2.1]
  · simpa [System.put] using hr
  · simpa [System.put] using hr

/-- Other requests use up a number, and tell it to one process. -/
theorem Inv.other (h : Inv nprocs s) (hp : (s.peer p).waiting = none) {dest : Proc} :
    Inv nprocs (other s p dest) := by
  let n := (s.peer p).req_seqno + NPROCS
  let s' := s.put p ⟨{ s.peer p with req_seqno := n }, [], []⟩
  have hp' : s'.peer p = { s.peer p with req_seqno := n } := put_self ..
  have hs : Seqnos s' := by
    refine h.seqnos.put (Nat.le_add_right _ _) ?_ (h.seqnos.rep p) (forall_of_none hp) nofun nofun (h.seqnos.release p)
    rw [show n % NPROCS = (s.peer p).req_seqno % NPROCS from Nat.add_mod_right ..]
    exact h.seqnos.mod p
  refine ⟨?_, fun id => ?_⟩
  · refine hs.put le_rfl (hs.mod dest) (fun b => ?_) (hs.waiting dest) nofun nofun (hs.release dest)
    by_cases hb : b = p
    · subst hb
      rw [hp']
      exact (Function.update_self ..).le
    · have heq : Function.update (s'.peer dest).rep_seqno_ p n b = (s'.peer dest).rep_seqno_ b :=
        Function.update_of_ne hb ..
      exact heq.le.trans (hs.rep dest b)
  · obtain ⟨q, hq⟩ := h.line id
    have hq' : LineInv nprocs s' id q := hq.same (Same.aside hp rfl rfl rfl fun _ _ => rfl)
    refine ⟨q, hq'.same (Same.aside (p := p) ?_ rfl rfl rfl fun b hb => Function.update_of_ne hb ..)⟩
    rw [hp']
    exact hp

/-- **Every step that can be taken** succeeds and keeps the invariant. -/
theorem Inv.act (h : Inv nprocs s) {a : Action} (ha : enabled nprocs s a = true) :
    ∃ t, act nprocs s a = some t ∧ Inv nprocs t := by
  cases a with
  | acquire p id =>
    simp only [enabled, Bool.and_eq_true, decide_eq_true_eq, Option.isNone_iff_eq_none, Bool.not_eq_true'] at ha
    obtain ⟨⟨⟨-, hw⟩, hheld⟩, -⟩ := ha
    by_cases hnext : ((s.peer p).lock id).next = p
    · obtain ⟨out, heq, hout⟩ := h.acquire_keep hw hheld hnext
      exact ⟨_, by simp only [Locks.act, heq]; rfl, hout⟩
    · obtain ⟨out, heq, hout⟩ := h.acquire_ask hw hheld hnext
      exact ⟨_, by simp only [Locks.act, heq]; rfl, hout⟩
  | release p id =>
    simp only [enabled, Bool.and_eq_true, Option.isNone_iff_eq_none] at ha
    obtain ⟨hw, hheld⟩ := ha
    obtain ⟨q, hq⟩ := h.line id
    by_cases hnext : ((s.peer p).lock id).next = p
    · obtain ⟨out, heq, hout, -⟩ := h.release_keep hq hw hheld hnext
      exact ⟨_, by simp only [Locks.act, heq]; rfl, hout⟩
    · obtain ⟨q, rfl⟩ : ∃ q', q = p :: q' := List.head?_eq_some_iff.mp (hq.head_of_holds ⟨hheld, forall_of_none hw⟩)
      obtain ⟨out, heq, hout, -⟩ := h.release_next hq hw hheld hnext
      exact ⟨_, by simp only [Locks.act, heq]; rfl, hout⟩
  | rexmit p =>
    obtain ⟨w, hw⟩ := Option.isSome_iff_exists.mp ha
    exact ⟨_, by simp only [Locks.act, Locks.rexmit, hw]; rfl, h.rexmit hw⟩
  | handle k =>
    simp only [enabled, Option.any_eq_true, Bool.or_eq_true, decide_eq_true_eq] at ha
    obtain ⟨req, hreq, ha⟩ := ha
    have hmem := List.mem_of_getElem? hreq
    by_cases hlive : ∃ w, (s.peer req.sender).waiting = some w ∧ w.seqno = req.seqno
    · obtain ⟨w, hw, hseqno⟩ := hlive
      obtain ⟨out, heq, hout⟩ := h.handle hmem hw hseqno
      exact ⟨_, by simp only [Locks.act, hreq, Option.bind_some, heq]; rfl, hout⟩
    · obtain ⟨out, heq, hout⟩ := h.handle_late hmem (ha.resolve_left hlive) fun w hw hseqno => hlive ⟨w, hw, hseqno⟩
      exact ⟨_, by simp only [Locks.act, hreq, Option.bind_some, heq]; rfl, hout⟩
  | receive k =>
    simp only [enabled, Option.any_eq_true, decide_eq_true_eq] at ha
    obtain ⟨rep, hrep, w, hw, hseqno⟩ := ha
    obtain ⟨q, hq⟩ := h.line w.id
    have hhead := hq.head_of_reply (hq.waits_of_waiting hw) (List.mem_of_getElem? hrep) rfl hseqno.symm
    exact ⟨_, by simp only [Locks.act, Locks.receive, hrep]; rfl, (h.receive hw hq hhead).1⟩
  | other p dest =>
    simp only [enabled, Bool.and_eq_true, Option.isNone_iff_eq_none, decide_eq_true_eq] at ha
    exact ⟨_, rfl, h.other ha.1.1⟩

theorem Inv.of_step (h : Inv nprocs s) {a : Action} (hstep : step nprocs s a = some t) : Inv nprocs t := by
  unfold step at hstep
  split at hstep
  · next ha =>
    obtain ⟨t', ht', hinv⟩ := h.act ha
    rwa [Option.some.inj (hstep.symm.trans ht')]
  · cases hstep

/-- At the start process 0 stands alone in every line. -/
theorem inv_init (nprocs : Nat) : Inv nprocs init := by
  refine ⟨⟨fun p => Nat.mod_eq_of_lt p.isLt, fun _ _ => Nat.zero_le _, nofun, nofun, nofun, fun _ _ => ⟨0, rfl, ?_⟩⟩,
    fun id => ⟨[0], ?_⟩⟩
  · exact Nat.zero_le _
  · refine ⟨List.nodup_singleton 0, rfl, fun a ha => Option.some.inj ha, fun f hf => ?_, fun a b hab => ?_,
      fun a ha => ?_⟩
    · obtain rfl : 0 = f := Option.some.inj hf
      exact .inl ⟨nofun, fun _ => rfl⟩
    · cases hab.mem_tail
    · exact .inl ⟨nofun, rfl, fun h => ha (List.mem_singleton.mpr h.symm)⟩

theorem inv_of_reachable (h : Reachable (step nprocs) init s) : Inv nprocs s :=
  h.invariant (Inv nprocs) (inv_init nprocs) fun _ _ _ hs hstep => hs.of_step hstep

/-! ### No number wraps -/

theorem lockAcquire_req_seqno {x : Peer} {out : Out} (h : lockAcquire nprocs p x id = some out) :
    out.peer.req_seqno = x.req_seqno ∨ ((x.lock id).next ≠ p ∧ out.peer.req_seqno = x.req_seqno + NPROCS) := by
  by_cases hheld : (x.lock id).held = true
  · simp [lockAcquire, hheld] at h
  · by_cases hnext : (x.lock id).next = p
    · simp only [lockAcquire, if_neg hheld, if_pos hnext] at h
      cases h
      exact .inl rfl
    · simp only [lockAcquire, if_neg hheld, if_neg hnext] at h
      cases h
      exact .inr ⟨hnext, rfl⟩

theorem lockRelease_req_seqno {x : Peer} {out : Out} (h : lockRelease p x id = some out) :
    out.peer.req_seqno = x.req_seqno := by
  simp only [lockRelease] at h
  split_ifs at h <;> cases h <;> rfl

theorem sigioHandler_req_seqno {x : Peer} {req : Request} {out : Out} (h : sigioHandler nprocs p x req = some out) :
    out.peer.req_seqno = x.req_seqno := by
  unfold sigioHandler at h
  split_ifs at h
  · unfold lockSigioHandler at h
    simp only at h
    split_ifs at h <;> cases h <;> rfl
  · cases h
    unfold lockSigioDuplicateHandler
    simp only
    split_ifs <;> rfl

/-- Only a number that fits is given out. -/
theorem req_seqno_step {a : Action} (hstep : step nprocs s a = some t) (b : Proc)
    (hs : (s.peer b).req_seqno < 2 ^ 32) : (t.peer b).req_seqno < 2 ^ 32 := by
  -- a call of `p` that leaves its number as it is, or the next one
  have hput : ∀ (p : Proc) (out : Out),
      (out.peer.req_seqno = (s.peer p).req_seqno ∨ out.peer.req_seqno < 2 ^ 32) →
        ((s.put p out).peer b).req_seqno < 2 ^ 32 := by
    intro p out hout
    by_cases hb : b = p
    · subst hb
      rw [put_self]
      rcases hout with heq | hlt
      · rwa [heq]
      · exact hlt
    · rwa [put_of_ne hb]
  unfold step at hstep
  split at hstep
  case isFalse => cases hstep
  case isTrue ha =>
    cases a with
    | acquire p id =>
      obtain ⟨out, hout, rfl⟩ := Option.map_eq_some_iff.mp hstep
      simp only [enabled, Peer.fits, Bool.and_eq_true, Bool.or_eq_true, decide_eq_true_eq] at ha
      apply hput
      rcases lockAcquire_req_seqno hout with heq | ⟨hnext, heq⟩
      · exact .inl heq
      · exact .inr (heq ▸ ha.2.resolve_left hnext)
    | release p id =>
      obtain ⟨out, hout, rfl⟩ := Option.map_eq_some_iff.mp hstep
      exact hput _ _ (.inl (lockRelease_req_seqno hout))
    | rexmit p =>
      obtain ⟨w, -, rfl⟩ := Option.map_eq_some_iff.mp hstep
      exact hput _ _ (.inl rfl)
    | handle k =>
      obtain ⟨req, -, hstep⟩ := Option.bind_eq_some_iff.mp hstep
      obtain ⟨out, hout, rfl⟩ := Option.map_eq_some_iff.mp hstep
      exact hput _ _ (.inl (sigioHandler_req_seqno hout))
    | receive k =>
      obtain ⟨rep, -, rfl⟩ := Option.map_eq_some_iff.mp hstep
      exact hput _ _ (.inl rfl)
    | other p dest =>
      simp only [enabled, Peer.fits, Bool.and_eq_true, decide_eq_true_eq] at ha
      cases hstep
      have hnext := hput p ⟨{ s.peer p with req_seqno := (s.peer p).req_seqno + NPROCS }, [], []⟩ (.inr ha.2)
      unfold other
      by_cases hb : b = dest
      · subst hb
        rw [put_self]
        exact hnext
      · rwa [put_of_ne hb]

end Steps

end Lemmas

/-! ## Top theorems -/

section Top

variable {nprocs : Nat} {s : System}

/-- **Mutual exclusion**: in every reachable state at most one process is between acquire and release of a lock. -/
theorem mutual_exclusion (hs : Reachable (step nprocs) init s) {p p' : Proc} {id : Nat} (hp : s.Holds p id)
    (hp' : s.Holds p' id) : p = p' := by
  obtain ⟨q, hq⟩ := (inv_of_reachable hs).line id
  exact Option.some.inj ((hq.head_of_holds hp).symm.trans (hq.head_of_holds hp'))

/-- Process 0 has lock 1, process 2 asks for it, and then process 1, its manager, does.  The request of process 2 is
sent twice and goes by way of the manager. -/
def threeAsk : List Action :=
  [.acquire 0 1, .acquire 2 1, .handle 0, .acquire 1 1, .handle 1, .rexmit 2, .handle 3, .handle 4, .handle 2,
    .release 0 1, .receive 0]

theorem mutual_exclusion_threeAsk : ∃ s, run (step 3) init threeAsk = some s ∧ s.Holds 2 1 ∧ ∀ p, s.Holds p 1 → p = 2 := by
  have hrun : (run (step 3) init threeAsk).any
      (fun s => ((s.peer 2).lock 1).held && (s.peer 2).waiting.isNone) = true := by decide +kernel
  obtain ⟨s, hs, hany⟩ := (Option.any_eq_true _ _).mp hrun
  obtain ⟨hheld, hwaiting⟩ := (Bool.and_eq_true _ _).mp hany
  have hholds : s.Holds 2 1 := ⟨hheld, forall_of_none (Option.isNone_iff_eq_none.mp hwaiting)⟩
  exact ⟨s, hs, hholds, fun p hp => mutual_exclusion ⟨_, hs⟩ hp hholds⟩

/-- **No sequence number wraps**: in every reachable state each of them is an `unsigned`. -/
theorem seqnos_fit (hs : Reachable (step nprocs) init s) :
    (∀ p, (s.peer p).req_seqno < 2 ^ 32) ∧ (∀ a p, (s.peer a).rep_seqno_ p < 2 ^ 32) ∧
      (∀ a id, ((s.peer a).lock id).release_seqno < 2 ^ 32) ∧ (∀ r ∈ s.requests, r.seqno < 2 ^ 32) ∧
      ∀ r ∈ s.replies, r.seqno < 2 ^ 32 := by
  have hreq : ∀ p, (s.peer p).req_seqno < 2 ^ 32 := by
    refine hs.invariant (fun s => ∀ p, (s.peer p).req_seqno < 2 ^ 32) (fun p => ?_) fun s a t hs hstep p =>
      req_seqno_step hstep p (hs p)
    exact p.isLt.trans (by decide)
  have h := (inv_of_reachable hs).seqnos
  refine ⟨hreq, fun a p => (h.rep a p).trans_lt (hreq p), fun a id => ?_,
    fun r hr => (h.requests r hr).trans_lt (hreq _), fun r hr => (h.replies r hr).trans_lt (hreq _)⟩
  obtain ⟨p, -, hle⟩ := h.release a id
  exact hle.trans_lt (hreq p)

/-- **No handler fails**: whatever a process may do in a reachable state, and whatever request or reply comes to it while
its sender waits, it has something to do. -/
theorem handlers_succeed (hs : Reachable (step nprocs) init s) {a : Action} (ha : enabled nprocs s a = true) :
    ∃ t, step nprocs s a = some t := by
  obtain ⟨t, ht, -⟩ := (inv_of_reachable hs).act ha
  refine ⟨t, ?_⟩
  unfold step
  rw [if_pos ha, ht]

theorem handlers_succeed_threeAsk : ∃ s t, run (step 3) init (threeAsk.take 6) = some s ∧
    step 3 s (.handle 3) = some t := by
  have hrun : (run (step 3) init (threeAsk.take 6)).any (fun s => enabled 3 s (.handle 3)) = true := by decide +kernel
  obtain ⟨s, hs, ha⟩ := (Option.any_eq_true _ _).mp hrun
  obtain ⟨t, ht⟩ := handlers_succeed ⟨_, hs⟩ ha
  exact ⟨s, t, hs, ht⟩

end Top

end Tmk.Locks
