import SistemasDistribuidos.Lib.Line
import SistemasDistribuidos.Lib.Runs
import SistemasDistribuidos.Tmk.Interval

/-!
# Locks: `Tmk/src/lock.c`, with the sequence numbers of `Tmk/src/sigio.c`

Each lock has a manager, which knows the last process that asked for it (`tail`) and sends
the next request there.  The processes so form a line: each one has in `next` the process
behind it, or itself as long as no request has reached it, and gives the lock to `next` when it
releases it.

    line    q0  →  q1  →  q2  ...  qn          q0 has the lock, or it is on the way to q0
                                  tail         q1 ... qn wait

A request is sent again until it is answered.  A process handles the first copy that reaches
it (`rep_seqno_[from] < seqno`) and passes on, or answers again, what comes later.

Sequence numbers are `unsigned`.  The runs here end before one of them wraps: a process that
has used up its numbers asks for nothing more (`enabled`), and so every number of the system is
below 2^32 (`seqnos_fit`).

This module has the calls, the system that they make up and the invariant of its lines, with what
may happen to a line: it stays, a process joins it at its end, or its first one hands the lock
over.  The calls themselves come next (`LockCalls`), and then progress (`LockProgress`).
-/

namespace Tmk.Locks

open Runs Line

/-! ## Algorithm -/

/-- `struct lock`, without its `manager`. -/
structure Lock where
  tail : Proc
  held : Bool
  next : Proc
  release_seqno : Nat

/-- `struct req_syn` of type `REQ_LOCK`, to `dest`. -/
structure Request where
  dest : Proc
  sender : Proc
  seqno : Nat
  id : Nat

structure Reply where
  dest : Proc
  seqno : Nat

/-- Where `Tmk_lock_acquire` waits: the lock, the process that it sent the request to (`from`), and `req_acquire.seqno`. -/
structure Wait where
  id : Nat
  target : Proc
  seqno : Nat

/-- One process. -/
structure Peer where
  lock : Nat → Lock
  tail_ : Proc → Proc
  rep_seqno_ : Proc → Nat
  req_seqno : Nat
  waiting : Option Wait

/-- What a call leaves and sends. -/
structure Out where
  peer : Peer
  requests : List Request
  replies : List Reply

def Peer.setLock (p : Peer) (id : Nat) (lock : Lock) : Peer := { p with lock := Function.update p.lock id lock }

section Calls

variable (nprocs : Nat)

def manager (id : Nat) : Proc := Fin.ofNat NPROCS (id % nprocs)

variable (me : Proc) (p : Peer)

/-- `none` is the exit of a process that has the lock already. -/
def lockAcquire (id : Nat) : Option Out :=
  let lock := p.lock id
  if lock.held then none
  else if lock.next = me then some ⟨p.setLock id { lock with held := true }, [], []⟩
  else
    let target := if manager nprocs id = me then lock.tail else manager nprocs id
    let tail := if manager nprocs id = me then me else lock.tail
    let seqno := p.req_seqno + NPROCS
    some ⟨{ p.setLock id { lock with held := true, next := me, tail := tail } with
      req_seqno := seqno, waiting := some ⟨id, target, seqno⟩ }, [⟨target, me, seqno, id⟩], []⟩

/-- `none` is the exit of a process that cannot do anything with the request. -/
def lockSigioHandler (req : Request) : Option Out :=
  let lock := p.lock req.id
  if lock.next = me then
    let tail := if manager nprocs req.id = me then req.sender else lock.tail
    if lock.held then some ⟨p.setLock req.id { lock with next := req.sender, tail := tail }, [], []⟩
    else
      some ⟨p.setLock req.id { lock with release_seqno := req.seqno, next := req.sender, tail := tail }, [],
        [⟨req.sender, req.seqno⟩]⟩
  else if manager nprocs req.id = me then
    some ⟨{ p.setLock req.id { lock with tail := req.sender } with
      tail_ := Function.update p.tail_ req.sender lock.tail }, [{ req with dest := lock.tail }], []⟩
  else none

/-- The last branch only prints what has come. -/
def lockSigioDuplicateHandler (req : Request) : Out :=
  let lock := p.lock req.id
  if lock.release_seqno = req.seqno then ⟨p, [], [⟨req.sender, req.seqno⟩]⟩
  else if lock.held ∧ lock.next = req.sender then ⟨p, [], []⟩
  else if manager nprocs req.id = me then ⟨p, [{ req with dest := p.tail_ req.sender }], []⟩
  else ⟨p, [], []⟩

/-- `sigio_handler`, for a request of type `REQ_LOCK`. -/
def sigioHandler (req : Request) : Option Out :=
  if p.rep_seqno_ req.sender < req.seqno then
    lockSigioHandler nprocs me { p with rep_seqno_ := Function.update p.rep_seqno_ req.sender req.seqno } req
  else some (lockSigioDuplicateHandler nprocs me p req)

/-- `none` is the exit of a process that does not have the lock. -/
def lockRelease (id : Nat) : Option Out :=
  let lock := p.lock id
  if lock.held then
    if lock.next = me then some ⟨p.setLock id { lock with held := false }, [], []⟩
    else
      let seqno := p.rep_seqno_ lock.next
      some ⟨p.setLock id { lock with held := false, release_seqno := seqno }, [], [⟨lock.next, seqno⟩]⟩
  else none

end Calls

/-- The processes, and every message that was sent. -/
structure System where
  peer : Proc → Peer
  requests : List Request
  replies : List Reply

inductive Action where
  | acquire (p : Proc) (id : Nat)
  | release (p : Proc) (id : Nat)
  | rexmit (p : Proc)
  | handle (k : Nat)
  | receive (k : Nat)
  | other (p dest : Proc)

def System.put (s : System) (p : Proc) (out : Out) : System :=
  ⟨Function.update s.peer p out.peer, s.requests ++ out.requests, s.replies ++ out.replies⟩

def rexmit (s : System) (p : Proc) : Option System :=
  (s.peer p).waiting.map fun w => s.put p ⟨s.peer p, [⟨w.target, p, w.seqno, w.id⟩], []⟩

def receive (s : System) (k : Nat) : Option System :=
  s.replies[k]?.map fun rep => s.put rep.dest ⟨{ s.peer rep.dest with waiting := none }, [], []⟩

/-- A request of another type, for a page or for diffs, say, with its answer. -/
def other (s : System) (p dest : Proc) : System :=
  let seqno := (s.peer p).req_seqno + NPROCS
  let s := s.put p ⟨{ s.peer p with req_seqno := seqno }, [], []⟩
  s.put dest ⟨{ s.peer dest with rep_seqno_ := Function.update (s.peer dest).rep_seqno_ p seqno }, [], []⟩

def act (nprocs : Nat) (s : System) : Action → Option System
  | .acquire p id => (lockAcquire nprocs p (s.peer p) id).map (s.put p)
  | .release p id => (lockRelease p (s.peer p) id).map (s.put p)
  | .rexmit p => rexmit s p
  | .handle k =>
    s.requests[k]?.bind fun req => (sigioHandler nprocs req.dest (s.peer req.dest) req).map (s.put req.dest)
  | .receive k => receive s k
  | .other p dest => some (other s p dest)

/-- `req_seqno += SEQNO_INCR` does not wrap. -/
def Peer.fits (p : Peer) : Bool := decide (p.req_seqno + NPROCS < 2 ^ 32)

/-- A process calls acquire for a lock that it does not have, and release for one that it has; it gives out no number
that is not `unsigned`.  A request that comes when its sender does not wait for the answer any more comes to a process
that has seen it, or a later one.  A reply is taken if its sequence number is the one waited for. -/
def enabled (nprocs : Nat) (s : System) : Action → Bool
  | .acquire p id => decide (p < nprocs) && (s.peer p).waiting.isNone && !((s.peer p).lock id).held &&
    (decide (((s.peer p).lock id).next = p) || (s.peer p).fits)
  | .release p id => (s.peer p).waiting.isNone && ((s.peer p).lock id).held
  | .rexmit p => (s.peer p).waiting.isSome
  | .handle k => s.requests[k]?.any fun req =>
    ((s.peer req.sender).waiting.any fun w => decide (w.seqno = req.seqno)) ||
      decide (req.seqno ≤ (s.peer req.dest).rep_seqno_ req.sender)
  | .receive k => s.replies[k]?.any fun rep => (s.peer rep.dest).waiting.any fun w => decide (w.seqno = rep.seqno)
  | .other p dest => (s.peer p).waiting.isNone && decide (p ≠ dest) && (s.peer p).fits

def step (nprocs : Nat) (s : System) (a : Action) : Option System :=
  if enabled nprocs s a then act nprocs s a else none

/-- `Tmk_lock_initialize`: process 0 has every lock. -/
def init : System where
  peer p := ⟨fun _ => ⟨0, false, 0, 0⟩, fun _ => 0, fun _ => 0, p, none⟩
  requests := []
  replies := []

/-- Between acquire and release. -/
def System.Holds (s : System) (p : Proc) (id : Nat) : Prop :=
  ((s.peer p).lock id).held = true ∧ ∀ w, (s.peer p).waiting = some w → w.id ≠ id

/-! ## The invariant -/

/-- Every sequence number was given out by its process; those of different processes differ. -/
structure Seqnos (s : System) : Prop where
  mod : ∀ p, (s.peer p).req_seqno % NPROCS = p
  rep : ∀ a p, (s.peer a).rep_seqno_ p ≤ (s.peer p).req_seqno
  waiting : ∀ p w, (s.peer p).waiting = some w → w.seqno = (s.peer p).req_seqno
  requests : ∀ r ∈ s.requests, r.seqno ≤ (s.peer r.sender).req_seqno
  replies : ∀ r ∈ s.replies, r.seqno ≤ (s.peer r.dest).req_seqno
  release : ∀ a id, ∃ p : Proc, ((s.peer a).lock id).release_seqno % NPROCS = p ∧
    ((s.peer a).lock id).release_seqno ≤ (s.peer p).req_seqno

section Invariant

variable (nprocs : Nat) (s : System) (id : Nat)

/-- Process `p` waits for the lock. -/
def Waits (p : Proc) (w : Wait) : Prop := (s.peer p).waiting = some w ∧ w.id = id ∧ ((s.peer p).lock id).held = true

/-- How the requests of `b` come to `a`: at once if `b` is the manager, else by way of the manager. -/
structure Route (b : Proc) (w : Wait) (a : Proc) : Prop where
  direct : b = manager nprocs id → w.target = a
  indirect : b ≠ manager nprocs id → w.target = manager nprocs id ∧
    (s.peer (manager nprocs id)).rep_seqno_ b = w.seqno ∧
    (a ≠ manager nprocs id → (s.peer (manager nprocs id)).tail_ b = a)
  requests : ∀ r ∈ s.requests, r.sender = b → r.seqno = w.seqno → r.id = id ∧ (r.dest = w.target ∨ r.dest = a)

/-- Nobody has answered the request of `b`. -/
structure Unanswered (b : Proc) (w : Wait) : Prop where
  release : ∀ c, ((s.peer c).lock id).release_seqno ≠ w.seqno
  replies : ∀ r ∈ s.replies, r.dest = b → r.seqno ≠ w.seqno

/-- `b` is behind `a`, which has got its request, or not yet. -/
def Linked (a b : Proc) : Prop :=
  ∃ w, Waits s id b w ∧ Route nprocs s id b w a ∧ Unanswered s id b w ∧
    ((((s.peer a).lock id).next = b ∧ (s.peer a).rep_seqno_ b = w.seqno ∧ ((s.peer a).lock id).held = true) ∨
      (((s.peer a).lock id).next = a ∧ (s.peer a).rep_seqno_ b < w.seqno))

/-- The lock was sent to `f` by `g`. -/
def Granted (f : Proc) : Prop :=
  ∃ w g, Waits s id f w ∧ Route nprocs s id f w g ∧ (s.peer g).rep_seqno_ f = w.seqno ∧
    ((s.peer g).lock id).release_seqno = w.seqno

/-- The first of the line has the lock, or it is on the way. -/
def Front (f : Proc) : Prop :=
  ((∀ w, (s.peer f).waiting = some w → w.id ≠ id) ∧
    (((s.peer f).lock id).held = false → ((s.peer f).lock id).next = f)) ∨ Granted nprocs s id f

/-- A process that is not in the line: it has nothing to do with the lock, or its request has not reached the manager. -/
def Outside (a : Proc) : Prop :=
  ((∀ w, (s.peer a).waiting = some w → w.id ≠ id) ∧ ((s.peer a).lock id).held = false ∧
    ((s.peer a).lock id).next ≠ a) ∨
  ∃ w, Waits s id a w ∧ a ≠ manager nprocs id ∧ w.target = manager nprocs id ∧ ((s.peer a).lock id).next = a ∧
    Unanswered s id a w ∧ (∀ c, (s.peer c).rep_seqno_ a < w.seqno) ∧
    ∀ r ∈ s.requests, r.sender = a → r.seqno = w.seqno → r.id = id ∧ r.dest = manager nprocs id

/-- The line of one lock. -/
structure LineInv (q : List Proc) : Prop where
  nodup : q.Nodup
  last : q.getLast? = some ((s.peer (manager nprocs id)).lock id).tail
  lastNext : ∀ a, q.getLast? = some a → ((s.peer a).lock id).next = a
  front : ∀ f, q.head? = some f → Front nprocs s id f
  linked : ∀ a b, Behind q a b → Linked nprocs s id a b
  outside : ∀ a, a ∉ q → Outside nprocs s id a

end Invariant

structure Inv (nprocs : Nat) (s : System) : Prop where
  seqnos : Seqnos s
  line : ∀ id, ∃ q, LineInv nprocs s id q

/-! ## Lemmas -/

section Lemmas

variable {nprocs : Nat} {s t : System} {id : Nat} {q : List Proc} {a b p : Proc} {w : Wait}

theorem Linked.waits (h : Linked nprocs s id a b) : ∃ w, Waits s id b w := by
  obtain ⟨w, hw, -⟩ := h
  exact ⟨w, hw⟩

/-- Everybody in the line but the first waits. -/
theorem LineInv.waits (h : LineInv nprocs s id q) (hp : p ∈ q.tail) : ∃ w, Waits s id p w := by
  obtain ⟨a, ha⟩ := exists_behind hp
  exact (h.linked a p ha).waits

/-- Who has the lock stands first. -/
theorem LineInv.head_of_holds (h : LineInv nprocs s id q) (hp : s.Holds p id) : q.head? = some p := by
  have hmem : p ∈ q := by
    by_contra hp'
    rcases h.outside p hp' with ⟨-, hheld, -⟩ | ⟨w, ⟨hw, hid, -⟩, -⟩
    · rw [hp.1] at hheld
      cases hheld
    · exact hp.2 w hw hid
  by_contra hhead
  obtain ⟨w, hw, hid, -⟩ := h.waits (mem_tail_of_not_head hmem hhead)
  exact hp.2 w hw hid

/-- A process that knows nobody behind it is the last of the line or has not been let in. -/
theorem LineInv.eq_last (h : LineInv nprocs s id q) (hp : p ∈ q) (hnext : ((s.peer p).lock id).next = p)
    (hrep : ∀ b w, Behind q p b → Waits s id b w → ¬ (s.peer p).rep_seqno_ b < w.seqno) : q.getLast? = some p := by
  by_contra hlast
  obtain ⟨b, hb⟩ := exists_of_not_last hp hlast
  obtain ⟨w, hw, -, -, ⟨hnb, -⟩ | ⟨-, hlt⟩⟩ := h.linked p b hb
  · exact hb.ne h.nodup (hnext.symm.trans hnb)
  · exact hrep b w hb hw hlt

/-- A step that does nothing to the lock: it concerns another one, or sends a message again. -/
structure Same (nprocs : Nat) (s t : System) (id : Nat) (q : List Proc) : Prop where
  lock : ∀ a, (t.peer a).lock id = (s.peer a).lock id
  waiting : ∀ a w, w.id = id → ((t.peer a).waiting = some w ↔ (s.peer a).waiting = some w)
  rep : ∀ b w, Waits s id b w → ∀ c, (t.peer c).rep_seqno_ b = (s.peer c).rep_seqno_ b
  tail_ : ∀ b w, Waits s id b w → ∀ c, (t.peer c).tail_ b = (s.peer c).tail_ b
  requests : ∀ b w, Waits s id b w → ∀ r ∈ t.requests, r.sender = b → r.seqno = w.seqno → r ∈ s.requests ∨
    (r.id = id ∧ (r.dest = w.target ∨ (b ∈ q ∧ ∀ a, Behind q a b ∨ ((s.peer a).lock id).release_seqno = w.seqno →
      Route nprocs s id b w a → r.dest = a)))
  replies : ∀ b w, Waits s id b w → ∀ r ∈ t.replies, r.dest = b → r.seqno = w.seqno →
    r ∈ s.replies ∨ q.head? = some b

theorem Same.waits (h : Same nprocs s t id q) : Waits t id b w ↔ Waits s id b w := by
  unfold Waits
  rw [h.lock b]
  constructor
  · rintro ⟨hw, hid, hheld⟩
    exact ⟨(h.waiting b w hid).mp hw, hid, hheld⟩
  · rintro ⟨hw, hid, hheld⟩
    exact ⟨(h.waiting b w hid).mpr hw, hid, hheld⟩

theorem Same.not_waiting (h : Same nprocs s t id q) (ha : ∀ w, (s.peer a).waiting = some w → w.id ≠ id) :
    ∀ w, (t.peer a).waiting = some w → w.id ≠ id := fun w hw hid => ha w ((h.waiting a w hid).mp hw) hid

theorem Same.route (h : Same nprocs s t id q) (hw : Waits s id b w)
    (ha : Behind q a b ∨ ((s.peer a).lock id).release_seqno = w.seqno) (hr : Route nprocs s id b w a) :
    Route nprocs t id b w a where
  direct := hr.direct
  indirect hb := by
    rw [h.rep b w hw, h.tail_ b w hw]
    exact hr.indirect hb
  requests r hrt hsender hseqno := by
    rcases h.requests b w hw r hrt hsender hseqno with hrs | ⟨hid, hdest | ⟨-, hdest⟩⟩
    · exact hr.requests r hrs hsender hseqno
    · exact ⟨hid, .inl hdest⟩
    · exact ⟨hid, .inr (hdest a ha hr)⟩

theorem Same.unanswered (h : Same nprocs s t id q) (hw : Waits s id b w) (hb : q.head? ≠ some b)
    (hu : Unanswered s id b w) : Unanswered t id b w where
  release c := by
    rw [h.lock c]
    exact hu.release c
  replies r hrt hdest hseqno := by
    rcases h.replies b w hw r hrt hdest hseqno with hrs | hhead
    · exact hu.replies r hrs hdest hseqno
    · exact hb hhead

/-- **A step that does nothing to the lock** leaves its line as it was. -/
theorem LineInv.same (hq : LineInv nprocs s id q) (h : Same nprocs s t id q) : LineInv nprocs t id q where
  nodup := hq.nodup
  last := by
    rw [h.lock]
    exact hq.last
  lastNext a ha := by
    rw [h.lock]
    exact hq.lastNext a ha
  front f hf := by
    rcases hq.front f hf with ⟨hnot, hidle⟩ | ⟨w, g, hw, hr, hrep, hrel⟩
    · refine .inl ⟨h.not_waiting hnot, ?_⟩
      rw [h.lock]
      exact hidle
    · exact .inr ⟨w, g, h.waits.mpr hw, h.route hw (.inr hrel) hr, by rw [h.rep f w hw, hrep], by rw [h.lock, hrel]⟩
  linked a b hab := by
    obtain ⟨w, hw, hr, hu, hcase⟩ := hq.linked a b hab
    refine ⟨w, h.waits.mpr hw, h.route hw (.inl hab) hr, h.unanswered hw (hab.not_head hq.nodup) hu, ?_⟩
    rw [h.lock, h.rep b w hw]
    exact hcase
  outside a ha := by
    rcases hq.outside a ha with ⟨hnot, hheld, hnext⟩ | ⟨w, hw, hm, htarget, hnext, hu, hrep, hreq⟩
    · refine .inl ⟨h.not_waiting hnot, ?_⟩
      rw [h.lock]
      exact ⟨hheld, hnext⟩
    · refine .inr ⟨w, h.waits.mpr hw, hm, htarget, by rw [h.lock, hnext],
        h.unanswered hw (fun hhead => ha (List.mem_of_mem_head? hhead)) hu, fun c => ?_, fun r hrt hsender hseqno => ?_⟩
      · rw [h.rep a w hw]
        exact hrep c
      · rcases h.requests a w hw r hrt hsender hseqno with hrs | ⟨hid, hdest | ⟨hmem, -⟩⟩
        · exact hreq r hrs hsender hseqno
        · exact ⟨hid, hdest.trans htarget⟩
        · exact absurd hmem ha

theorem put_self (out : Out) : (s.put p out).peer p = out.peer := Function.update_self ..

theorem put_of_ne (ha : a ≠ p) (out : Out) : (s.put p out).peer a = s.peer a := Function.update_of_ne ha ..

/-- Two processes that wait have different sequence numbers. -/
theorem Seqnos.ne (h : Seqnos s) {w' : Wait} (hw : (s.peer a).waiting = some w) (hw' : (s.peer b).waiting = some w')
    (hab : a ≠ b) : w.seqno ≠ w'.seqno := by
  intro heq
  apply hab
  apply Fin.ext
  rw [← h.mod a, ← h.mod b, ← h.waiting a w hw, ← h.waiting b w' hw', heq]

/-- A call of process `p` that has to do with one lock, and with the request of `f` for it. -/
structure Call (s : System) (p : Proc) (out : Out) (id : Nat) (f : Proc) : Prop where
  lock : ∀ id', id' ≠ id → out.peer.lock id' = (s.peer p).lock id'
  rep : ∀ b, b ≠ f → out.peer.rep_seqno_ b = (s.peer p).rep_seqno_ b
  tail_ : ∀ b, b ≠ f → out.peer.tail_ b = (s.peer p).tail_ b
  requests : ∀ r ∈ out.requests, r.sender = f
  replies : ∀ r ∈ out.replies, r.dest = f
  waiting : out.peer.waiting = (s.peer p).waiting ∨ (p = f ∧ ∀ w, out.peer.waiting = some w → w.id = id)
  subject : ∀ w, (s.peer f).waiting = some w → w.id = id

theorem Call.requests_of_ne {out : Out} {f : Proc} (h : Call s p out id f) (hb : b ≠ f) {r : Request}
    (hr : r ∈ (s.put p out).requests) (hsender : r.sender = b) : r ∈ s.requests := by
  rcases List.mem_append.mp hr with hr | hr
  · exact hr
  · exact absurd (hsender.symm.trans (h.requests r hr)) hb

theorem Call.replies_of_ne {out : Out} {f : Proc} (h : Call s p out id f) (hb : b ≠ f) {r : Reply}
    (hr : r ∈ (s.put p out).replies) (hdest : r.dest = b) : r ∈ s.replies := by
  rcases List.mem_append.mp hr with hr | hr
  · exact hr
  · exact absurd (hdest.symm.trans (h.replies r hr)) hb

theorem Call.rep_of_ne {out : Out} {f : Proc} (h : Call s p out id f) (hb : b ≠ f) (c : Proc) :
    ((s.put p out).peer c).rep_seqno_ b = (s.peer c).rep_seqno_ b := by
  by_cases hc : c = p
  · subst hc
    rw [put_self]
    exact h.rep b hb
  · rw [put_of_ne hc]

theorem Call.tail_of_ne {out : Out} {f : Proc} (h : Call s p out id f) (hb : b ≠ f) (c : Proc) :
    ((s.put p out).peer c).tail_ b = (s.peer c).tail_ b := by
  by_cases hc : c = p
  · subst hc
    rw [put_self]
    exact h.tail_ b hb
  · rw [put_of_ne hc]

/-- The other locks do not notice it. -/
theorem Call.same {out : Out} {f : Proc} (h : Call s p out id f) {id' : Nat} (hid : id' ≠ id) (q : List Proc) :
    Same nprocs s (s.put p out) id' q := by
  -- the process the call is about does not wait for `id'`
  have hne : ∀ b w, Waits s id' b w → b ≠ f := by
    rintro b w ⟨hw, hwid, -⟩ rfl
    exact hid (hwid.symm.trans (h.subject w hw))
  refine ⟨fun a => ?_, fun a w hw => ?_, fun b w hw c => h.rep_of_ne (hne b w hw) c,
    fun b w hw c => h.tail_of_ne (hne b w hw) c,
    fun b w hw r hr hsender _ => .inl (h.requests_of_ne (hne b w hw) hr hsender),
    fun b w hw r hr hdest _ => .inl (h.replies_of_ne (hne b w hw) hr hdest)⟩
  · by_cases ha : a = p
    · subst ha
      rw [put_self]
      exact h.lock id' hid
    · rw [put_of_ne ha]
  · by_cases ha : a = p
    · subst ha
      rw [put_self]
      rcases h.waiting with heq | ⟨rfl, hout⟩
      · rw [heq]
      · constructor
        · intro hw'
          exact absurd (hw.symm.trans (hout w hw')) hid
        · intro hw'
          exact absurd (hw.symm.trans (h.subject w hw')) hid
    · rw [put_of_ne ha]

/-- The request of `b` comes the same way as before. -/
theorem Route.congr (h : Route nprocs s id b w a)
    (hrep : (t.peer (manager nprocs id)).rep_seqno_ b = (s.peer (manager nprocs id)).rep_seqno_ b)
    (htail : (t.peer (manager nprocs id)).tail_ b = (s.peer (manager nprocs id)).tail_ b)
    (hreq : ∀ r ∈ t.requests, r.sender = b → r ∈ s.requests) : Route nprocs t id b w a where
  direct := h.direct
  indirect hb := by
    rw [hrep, htail]
    exact h.indirect hb
  requests r hr hsender := h.requests r (hreq r hr hsender) hsender

/-- The request of `b` is left alone. -/
structure Untouched (s t : System) (id : Nat) (b : Proc) : Prop where
  waits : ∀ w, Waits s id b w → Waits t id b w
  rep : ∀ c, (t.peer c).rep_seqno_ b = (s.peer c).rep_seqno_ b
  tail_ : ∀ c, (t.peer c).tail_ b = (s.peer c).tail_ b
  requests : ∀ r ∈ t.requests, r.sender = b → r ∈ s.requests
  replies : ∀ r ∈ t.replies, r.dest = b → r ∈ s.replies
  release : ∀ w, Waits s id b w → ∀ c, ((t.peer c).lock id).release_seqno = w.seqno →
    ((s.peer c).lock id).release_seqno = w.seqno

theorem Untouched.route (h : Untouched s t id b) (hr : Route nprocs s id b w a) : Route nprocs t id b w a :=
  hr.congr (h.rep _) (h.tail_ _) h.requests

theorem Untouched.unanswered (h : Untouched s t id b) (hw : Waits s id b w) (hu : Unanswered s id b w) :
    Unanswered t id b w where
  release c hc := hu.release c (h.release w hw c hc)
  replies r hrt hdest := hu.replies r (h.replies r hrt hdest) hdest

theorem Untouched.linked (h : Untouched s t id b) (hl : Linked nprocs s id a b)
    (hnext : ((t.peer a).lock id).next = ((s.peer a).lock id).next)
    (hheld : ((s.peer a).lock id).held = true → ((s.peer a).lock id).next = b → ((t.peer a).lock id).held = true) :
    Linked nprocs t id a b := by
  obtain ⟨w, hw, hr, hu, hcase⟩ := hl
  refine ⟨w, h.waits w hw, h.route hr, h.unanswered hw hu, ?_⟩
  rw [hnext, h.rep]
  rcases hcase with ⟨hn, hrep, hh⟩ | hcase
  · exact .inl ⟨hn, hrep, hheld hh hn⟩
  · exact .inr hcase

theorem Untouched.granted {out : Out} (h : Untouched s (s.put p out) id b) (hg : Granted nprocs s id b)
    (hrel : (out.peer.lock id).release_seqno = ((s.peer p).lock id).release_seqno) :
    Granted nprocs (s.put p out) id b := by
  obtain ⟨w, g, hw, hr, hrep, hg⟩ := hg
  refine ⟨w, g, h.waits w hw, h.route hr, by rw [h.rep, hrep], ?_⟩
  by_cases hgp : g = p
  · subst hgp
    rw [put_self, hrel]
    exact hg
  · rwa [put_of_ne hgp]

theorem Untouched.outside (h : Untouched s t id b) (ho : Outside nprocs s id b)
    (hheld : ((t.peer b).lock id).held = ((s.peer b).lock id).held)
    (hnext : ((t.peer b).lock id).next = ((s.peer b).lock id).next)
    (hwaiting : (t.peer b).waiting = (s.peer b).waiting) : Outside nprocs t id b := by
  rcases ho with ⟨hnot, hh, hn⟩ | ⟨w, hw, hm, htarget, hn, hu, hrep, hreq⟩
  · left
    rw [hheld, hnext, hwaiting]
    exact ⟨hnot, hh, hn⟩
  · refine .inr ⟨w, h.waits w hw, hm, htarget, by rw [hnext, hn], h.unanswered hw hu, fun c => ?_,
      fun r hrt hsender => hreq r (h.requests r hrt hsender) hsender⟩
    rw [h.rep]
    exact hrep c

theorem Untouched.outside_of_ne {out : Out} (h : Untouched s (s.put p out) id b) (ho : Outside nprocs s id b)
    (hb : b ≠ p) : Outside nprocs (s.put p out) id b :=
  h.outside ho (by rw [put_of_ne hb]) (by rw [put_of_ne hb]) (by rw [put_of_ne hb])

/-- All requests but that of `f` are left alone. -/
theorem Call.untouched {out : Out} {f : Proc} (h : Call s p out id f) (hs : Seqnos s) (hb : b ≠ f)
    (hheld : b = p → ((s.peer p).lock id).held = true → (out.peer.lock id).held = true)
    (hrel : (out.peer.lock id).release_seqno = ((s.peer p).lock id).release_seqno ∨
      ∃ w, Waits s id f w ∧ (out.peer.lock id).release_seqno = w.seqno) : Untouched s (s.put p out) id b := by
  refine ⟨fun w hw => ?_, h.rep_of_ne hb, h.tail_of_ne hb, fun r => h.requests_of_ne hb, fun r => h.replies_of_ne hb,
    fun w hw c hc => ?_⟩
  · obtain ⟨hw, hid, hh⟩ := hw
    unfold Waits
    by_cases hbp : b = p
    · subst hbp
      rw [put_self]
      rcases h.waiting with heq | ⟨rfl, -⟩
      · exact ⟨heq.trans hw, hid, hheld rfl hh⟩
      · exact absurd rfl hb
    · rw [put_of_ne hbp]
      exact ⟨hw, hid, hh⟩
  · by_cases hcp : c = p
    · subst hcp
      rw [put_self] at hc
      rcases hrel with heq | ⟨w', hw', heq⟩
      · rw [← heq]
        exact hc
      · exact absurd (hc.symm.trans heq) (hs.ne hw.1 hw'.1 hb)
    · rwa [put_of_ne hcp] at hc

/-! ### What may happen to a line -/

section Lines

variable {out : Out} {f : Proc}

/-- The process in front takes the lock that it has, or lets go of it with nobody behind it. -/
theorem LineInv.keep (hq : LineInv nprocs s id q) (hs : Seqnos s) (hp : q.head? = some p)
    (hcall : Call s p out id p) (hfront : Front nprocs (s.put p out) id p)
    (hnext : (out.peer.lock id).next = ((s.peer p).lock id).next)
    (htail : (out.peer.lock id).tail = ((s.peer p).lock id).tail)
    (hrel : (out.peer.lock id).release_seqno = ((s.peer p).lock id).release_seqno)
    (hheld : (out.peer.lock id).held = true ∨ ((s.peer p).lock id).next = p) : LineInv nprocs (s.put p out) id q := by
  have hun : ∀ b, b ≠ p → Untouched s (s.put p out) id b := fun b hb =>
    hcall.untouched hs hb (fun h => absurd h hb) (.inl hrel)
  have hlock : ∀ a, ((s.put p out).peer a).lock id = (s.peer a).lock id ∨ a = p := fun a => by
    by_cases ha : a = p
    · exact .inr ha
    · exact .inl (by rw [put_of_ne ha])
  have hsame : ∀ a, (((s.put p out).peer a).lock id).next = ((s.peer a).lock id).next ∧
      (((s.put p out).peer a).lock id).tail = ((s.peer a).lock id).tail := fun a => by
    rcases hlock a with heq | rfl
    · rw [heq]
      exact ⟨rfl, rfl⟩
    · rw [put_self]
      exact ⟨hnext, htail⟩
  refine ⟨hq.nodup, by rw [(hsame _).2]; exact hq.last, fun a ha => ?_, fun g hg => ?_, fun a b hab => ?_,
    fun a ha => ?_⟩
  · rw [(hsame a).1]
    exact hq.lastNext a ha
  · obtain rfl : p = g := Option.some.inj (hp.symm.trans hg)
    exact hfront
  · have hb : b ≠ p := by
      rintro rfl
      exact hab.not_head hq.nodup hp
    apply (hun b hb).linked (hq.linked a b hab) (hsame a).1
    intro hh hn
    rcases hlock a with heq | rfl
    · rw [heq]
      exact hh
    · rw [put_self]
      rcases hheld with hheld | hself
      · exact hheld
      · exact absurd (hself.symm.trans hn) hb.symm
  · have hap : a ≠ p := by
      rintro rfl
      exact ha (List.mem_of_mem_head? hp)
    exact (hun a hap).outside_of_ne (hq.outside a ha) hap

/-- The first of the line sends the lock to the next one. -/
theorem LineInv.handOver (hq : LineInv nprocs s id (p :: q)) (hs : Seqnos s) (hf : q.head? = some f)
    (hcall : Call s p out id f) (hgranted : Granted nprocs (s.put p out) id f)
    (hout : Outside nprocs (s.put p out) id p) (htail : (out.peer.lock id).tail = ((s.peer p).lock id).tail)
    (hrel : ∃ w, Waits s id f w ∧ (out.peer.lock id).release_seqno = w.seqno) :
    LineInv nprocs (s.put p out) id q := by
  obtain ⟨hpq, hnd⟩ := List.nodup_cons.mp hq.nodup
  have hun : ∀ b, b ≠ f → b ≠ p → Untouched s (s.put p out) id b := fun b hb hbp =>
    hcall.untouched hs hb (fun h => absurd h hbp) (.inr hrel)
  have hne : ∀ a ∈ q, a ≠ p := fun a ha h => hpq (h ▸ ha)
  have hlast : q.getLast? = (p :: q).getLast? := by
    cases q with
    | nil => cases hf
    | cons c q => rfl
  refine ⟨hnd, ?_, fun a ha => ?_, fun g hg => ?_, fun a b hab => ?_, fun a ha => ?_⟩
  · rw [hlast, hq.last]
    by_cases hm : manager nprocs id = p
    · rw [hm, put_self, htail]
    · rw [put_of_ne hm]
  · rw [put_of_ne (hne a (List.mem_of_getLast? ha))]
    exact hq.lastNext a (hlast ▸ ha)
  · obtain rfl : f = g := Option.some.inj (hf.symm.trans hg)
    exact .inr hgranted
  · have hb : b ≠ f := by
      rintro rfl
      exact hab.not_head hnd hf
    have ha := hne a hab.mem_left
    apply (hun b hb (hne b hab.mem_right)).linked (hq.linked a b hab.of_cons)
    · rw [put_of_ne ha]
    · rw [put_of_ne ha]
      exact fun hh _ => hh
  · by_cases hap : a = p
    · subst hap
      exact hout
    · have haf : a ≠ f := by
        rintro rfl
        exact ha (List.mem_of_mem_head? hf)
      have hmem : a ∉ p :: q := by
        intro hmem
        rcases List.mem_cons.mp hmem with h | h
        · exact hap h
        · exact ha h
      exact (hun a haf hap).outside_of_ne (hq.outside a hmem) hap

/-- A process joins the line at its end. -/
theorem LineInv.join (hq : LineInv nprocs s id q) (hs : Seqnos s) (hf : f ∉ q) (hcall : Call s p out id f)
    (hlinked : ∀ a, q.getLast? = some a → Linked nprocs (s.put p out) id a f)
    (htail : (((s.put p out).peer (manager nprocs id)).lock id).tail = f)
    (hself : (((s.put p out).peer f).lock id).next = f)
    (hheld : (out.peer.lock id).held = ((s.peer p).lock id).held ∨ p = f)
    (hnext : ∀ b, Behind q p b → (out.peer.lock id).next = ((s.peer p).lock id).next)
    (hidle : q.head? = some p → (out.peer.lock id).held = false → (out.peer.lock id).next = p)
    (hpq : p ∈ q ∨ p = f ∨ (out.peer.lock id).next = ((s.peer p).lock id).next)
    (hrel : (out.peer.lock id).release_seqno = ((s.peer p).lock id).release_seqno)
    (hwaiting : p ≠ f → out.peer.waiting = (s.peer p).waiting) : LineInv nprocs (s.put p out) id (q ++ [f]) := by
  have hkeep : p ≠ f → (out.peer.lock id).held = ((s.peer p).lock id).held := fun hne => hheld.resolve_right hne
  have hun : ∀ b, b ≠ f → Untouched s (s.put p out) id b := fun b hb =>
    hcall.untouched hs hb (fun hbp hh => by rw [hkeep (hbp ▸ hb)]; exact hh) (.inl hrel)
  have hne : ∀ a ∈ q, a ≠ f := fun a ha h => hf (h ▸ ha)
  have hqne : q ≠ [] := by
    rintro rfl
    have := hq.last
    cases this
  refine ⟨?_, by rw [List.getLast?_concat, htail], fun a ha => ?_, fun g hg => ?_, fun a b hab => ?_, fun a ha => ?_⟩
  · exact List.nodup_append.mpr ⟨hq.nodup, List.nodup_singleton f, fun a ha b hb => by
      rw [List.mem_singleton.mp hb]
      exact hne a ha⟩
  · rw [List.getLast?_concat] at ha
    cases ha
    exact hself
  · have hg : q.head? = some g := by
      rwa [List.head?_append_of_ne_nil q hqne] at hg
    have hgf := hne g (List.mem_of_mem_head? hg)
    rcases hq.front g hg with ⟨hnot, hid⟩ | hgr
    · left
      by_cases hgp : g = p
      · subst hgp
        rw [put_self, hwaiting hgf]
        exact ⟨hnot, hidle hg⟩
      · rw [put_of_ne hgp]
        exact ⟨hnot, hid⟩
    · exact .inr ((hun g hgf).granted hgr hrel)
  · rcases behind_concat.mp hab with hab | ⟨hlast, rfl⟩
    · apply (hun b (hne b hab.mem_right)).linked (hq.linked a b hab)
      · by_cases hap : a = p
        · subst hap
          rw [put_self]
          exact hnext b hab
        · rw [put_of_ne hap]
      · intro hh _
        by_cases hap : a = p
        · subst hap
          rw [put_self, hkeep (hne a hab.mem_left)]
          exact hh
        · rwa [put_of_ne hap]
    · exact hlinked a hlast
  · have haf : a ≠ f := fun h => ha (List.mem_append_right _ (h ▸ .head _))
    have haq : a ∉ q := fun h => ha (List.mem_append_left _ h)
    by_cases hap : a = p
    · subst hap
      apply (hun a haf).outside (hq.outside a haq)
      · rw [put_self, hkeep haf]
      · rw [put_self]
        exact (hpq.resolve_left haq).resolve_left haf
      · rw [put_self]
        exact hwaiting haf
    · exact (hun a haf).outside_of_ne (hq.outside a haq) hap

/-- A process that asks for the lock is not in the line yet. -/
theorem LineInv.stay (hq : LineInv nprocs s id q) (hs : Seqnos s) (hp : p ∉ q) (hcall : Call s p out id p)
    (hout : Outside nprocs (s.put p out) id p) (htail : (out.peer.lock id).tail = ((s.peer p).lock id).tail)
    (hrel : (out.peer.lock id).release_seqno = ((s.peer p).lock id).release_seqno) :
    LineInv nprocs (s.put p out) id q := by
  have hun : ∀ b, b ≠ p → Untouched s (s.put p out) id b := fun b hb =>
    hcall.untouched hs hb (fun h => absurd h hb) (.inl hrel)
  have hne : ∀ a ∈ q, a ≠ p := fun a ha h => hp (h ▸ ha)
  refine ⟨hq.nodup, ?_, fun a ha => ?_, fun g hg => ?_, fun a b hab => ?_, fun a ha => ?_⟩
  · rw [hq.last]
    by_cases hm : manager nprocs id = p
    · rw [hm, put_self, htail]
    · rw [put_of_ne hm]
  · rw [put_of_ne (hne a (List.mem_of_getLast? ha))]
    exact hq.lastNext a ha
  · have hgp := hne g (List.mem_of_mem_head? hg)
    rcases hq.front g hg with hfront | hgr
    · left
      rw [put_of_ne hgp]
      exact hfront
    · exact .inr ((hun g hgp).granted hgr hrel)
  · have ha := hne a hab.mem_left
    apply (hun b (hne b hab.mem_right)).linked (hq.linked a b hab)
    · rw [put_of_ne ha]
    · rw [put_of_ne ha]
      exact fun hh _ => hh
  · by_cases hap : a = p
    · subst hap
      exact hout
    · exact (hun a hap).outside_of_ne (hq.outside a ha) hap

/-- The request of `f` has come to the process in front of it, which has the lock or waits for it. -/
theorem LineInv.link (hq : LineInv nprocs s id q) (hs : Seqnos s) (hp : Behind q p f) (hcall : Call s p out id f)
    (hlinked : Linked nprocs (s.put p out) id p f) (htail : (out.peer.lock id).tail = ((s.peer p).lock id).tail)
    (hheld : ((s.peer p).lock id).held = true ∧ (out.peer.lock id).held = true)
    (hrel : (out.peer.lock id).release_seqno = ((s.peer p).lock id).release_seqno)
    (hwaiting : out.peer.waiting = (s.peer p).waiting) : LineInv nprocs (s.put p out) id q := by
  have hun : ∀ b, b ≠ f → Untouched s (s.put p out) id b := fun b hb =>
    hcall.untouched hs hb (fun _ _ => hheld.2) (.inl hrel)
  refine ⟨hq.nodup, ?_, fun a ha => ?_, fun g hg => ?_, fun a b hab => ?_, fun a ha => ?_⟩
  · rw [hq.last]
    by_cases hm : manager nprocs id = p
    · rw [hm, put_self, htail]
    · rw [put_of_ne hm]
  · have hap : a ≠ p := by
      rintro rfl
      exact hp.not_last hq.nodup ha
    rw [put_of_ne hap]
    exact hq.lastNext a ha
  · have hgf : g ≠ f := by
      rintro rfl
      exact hp.not_head hq.nodup hg
    rcases hq.front g hg with hfront | hgr
    · left
      by_cases hgp : g = p
      · subst hgp
        rw [put_self, hwaiting, hheld.2]
        exact ⟨hfront.1, fun h => absurd h (by decide)⟩
      · rw [put_of_ne hgp]
        exact hfront
    · exact .inr ((hun g hgf).granted hgr hrel)
  · by_cases hbf : b = f
    · subst hbf
      obtain rfl := hab.left_unique hq.nodup hp
      exact hlinked
    · have hap : a ≠ p := by
        rintro rfl
        exact hbf (hab.right_unique hq.nodup hp)
      apply (hun b hbf).linked (hq.linked a b hab)
      · rw [put_of_ne hap]
      · rw [put_of_ne hap]
        exact fun hh _ => hh
  · have hap : a ≠ p := by
      rintro rfl
      exact ha hp.mem_left
    have haf : a ≠ f := by
      rintro rfl
      exact ha hp.mem_right
    exact (hun a haf).outside_of_ne (hq.outside a ha) hap

/-- The manager, alone in the line and without the lock, sends it to `f`. -/
theorem LineInv.restart (hq : LineInv nprocs s id [p]) (hs : Seqnos s) (hm : manager nprocs id = p) (hfp : f ≠ p)
    (hcall : Call s p out id f) (hgranted : Granted nprocs (s.put p out) id f)
    (hself : ((s.peer f).lock id).next = f) (hout : Outside nprocs (s.put p out) id p)
    (htail : (out.peer.lock id).tail = f) (hrel : ∃ w, Waits s id f w ∧ (out.peer.lock id).release_seqno = w.seqno) :
    LineInv nprocs (s.put p out) id [f] := by
  refine ⟨List.nodup_singleton f, ?_, fun a ha => ?_, fun g hg => ?_, fun a b hab => ?_, fun a ha => ?_⟩
  · rw [hm, put_self, htail]
    rfl
  · obtain rfl : f = a := Option.some.inj ha
    rw [put_of_ne hfp]
    exact hself
  · cases hg
    exact .inr hgranted
  · cases hab.mem_tail
  · have haf : a ≠ f := fun h => ha (List.mem_singleton.mpr h)
    by_cases hap : a = p
    · subst hap
      exact hout
    · have hmem : a ∉ [p] := fun h => hap (List.mem_singleton.mp h)
      exact (hcall.untouched hs haf (fun h => absurd h hap) (.inr hrel)).outside_of_ne (hq.outside a hmem) hap

end Lines

/-! ### Sequence numbers -/

section Numbers

variable {out : Out} {f : Proc}

/-- A call of one process that gives out numbers in order. -/
theorem Seqnos.put (h : Seqnos s) (hle : (s.peer p).req_seqno ≤ out.peer.req_seqno)
    (hmod : out.peer.req_seqno % NPROCS = p) (hrep : ∀ b, out.peer.rep_seqno_ b ≤ (s.peer b).req_seqno)
    (hwaiting : ∀ w, out.peer.waiting = some w → w.seqno = out.peer.req_seqno)
    (hreq : ∀ r ∈ out.requests, r.seqno ≤ ((s.put p out).peer r.sender).req_seqno)
    (hreply : ∀ r ∈ out.replies, r.seqno ≤ (s.peer r.dest).req_seqno)
    (hrel : ∀ id, ∃ f : Proc, (out.peer.lock id).release_seqno % NPROCS = f ∧
      (out.peer.lock id).release_seqno ≤ (s.peer f).req_seqno) : Seqnos (s.put p out) := by
  have hmono : ∀ a, (s.peer a).req_seqno ≤ ((s.put p out).peer a).req_seqno := fun a => by
    by_cases ha : a = p
    · subst ha
      rw [put_self]
      exact hle
    · rw [put_of_ne ha]
  refine ⟨fun a => ?_, fun a b => ?_, fun a w hw => ?_, fun r hr => ?_, fun r hr => ?_, fun a id => ?_⟩
  · by_cases ha : a = p
    · subst ha
      rw [put_self]
      exact hmod
    · rw [put_of_ne ha]
      exact h.mod a
  · refine le_trans ?_ (hmono b)
    by_cases ha : a = p
    · subst ha
      rw [put_self]
      exact hrep b
    · rw [put_of_ne ha]
      exact h.rep a b
  · by_cases ha : a = p
    · subst ha
      rw [put_self] at hw ⊢
      exact hwaiting w hw
    · rw [put_of_ne ha] at hw ⊢
      exact h.waiting a w hw
  · rcases List.mem_append.mp hr with hr | hr
    · exact (h.requests r hr).trans (hmono _)
    · exact hreq r hr
  · rcases List.mem_append.mp hr with hr | hr
    · exact (h.replies r hr).trans (hmono _)
    · exact (hreply r hr).trans (hmono _)
  · obtain ⟨f, hmod', hle'⟩ : ∃ f : Proc, (((s.put p out).peer a).lock id).release_seqno % NPROCS = f ∧
        (((s.put p out).peer a).lock id).release_seqno ≤ (s.peer f).req_seqno := by
      by_cases ha : a = p
      · subst ha
        rw [put_self]
        exact hrel id
      · rw [put_of_ne ha]
        exact h.release a id
    exact ⟨f, hmod', hle'.trans (hmono f)⟩

/-- The next sequence number of a process is nowhere in the system. -/
structure Fresh (s : System) (p : Proc) (n : Nat) : Prop where
  requests : ∀ r ∈ s.requests, r.sender = p → r.seqno ≠ n
  replies : ∀ r ∈ s.replies, r.dest = p → r.seqno ≠ n
  release : ∀ c id, ((s.peer c).lock id).release_seqno ≠ n
  rep : ∀ c, (s.peer c).rep_seqno_ p < n

theorem Seqnos.fresh (h : Seqnos s) (p : Proc) : Fresh s p ((s.peer p).req_seqno + NPROCS) := by
  have hpos : 0 < NPROCS := by decide
  refine ⟨fun r hr hsender => ?_, fun r hr hdest => ?_, fun c id heq => ?_, fun c => ?_⟩
  · have := h.requests r hr
    rw [hsender] at this
    omega
  · have := h.replies r hr
    rw [hdest] at this
    omega
  · obtain ⟨f, hmod, hle⟩ := h.release c id
    rw [heq, Nat.add_mod_right, h.mod p] at hmod
    obtain rfl : p = f := Fin.ext hmod
    omega
  · have := h.rep c p
    omega

end Numbers

end Lemmas

end Tmk.Locks
