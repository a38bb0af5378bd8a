import SistemasDistribuidos.Lib.Runs
import SistemasDistribuidos.Tmk.Incorporate

/-!
# Barriers: `Tmk/src/barrier.c`, with the sequence numbers of `Tmk/src/sigio.c`

Each barrier has a manager.  The other processes send it an arrival and wait.  The manager marks
those that have come in `mask`, the bit of its own once it has come itself, and when all bits are
set it clears them and answers everybody.

    arrival    the intervals of the sender after `inverse_time_[manager]`
    reply      the intervals of everybody that the sender of the arrival did not know

Of its own intervals a process sends only those that it thinks the manager does not have:
`inverse_time_[j]` is what it has told process `j`, in a reply of a lock or at a barrier, or has
learnt that `j` knows.  It is written when the message is sent, not when it comes.

Arrivals are sent again until they are answered; they and the replies may be lost, repeated,
delayed and reordered in any way.  Locks come in with what they mean for vector times: a process
that waits for a lock gets the intervals of the one that grants it.  The messages hold records; that
the bytes of `Interval` mean these is `messages_incorporate`.  The `Tmk_interval_create` of a barrier
is an action of its own that may come before `enter`.

The runs of `step` are those in which

* no heap fills up.  `Tmk_diff_repo_test` and `Tmk_interval_repo_test` return 0 whenever a process
  comes to a barrier, so every arrival is a `REQ_ARRIVAL`, `rep.repo` stays 0 and nobody calls
  `Tmk_repo`;
* no number wraps.  Sequence numbers are `unsigned` and vector times `unsigned short`: they stay
  below 2^32 and 2^16 (`numbers_fit`);
* no answer is overwritten.  `rep` is static, and SIGIO is open while a process waits in
  `Tmk_barrier`.  From the check of `rep.seqno` to SIG_BLOCK the process must not answer an arrival
  for a barrier of its own again, which would write over the records that it is about to take in.
-/

namespace Tmk.Barriers

open Runs

/-! ## Algorithm -/

def NBARRIERS : Nat := 32

/-- `struct req_syn` of type `REQ_ARRIVAL`. -/
structure Arrival where
  sender : Proc
  seqno : Nat
  id : Nat
  vector_time : VectorTime
  records : List Interval

/-- The answer to an arrival, or to the request of a lock.  `time` is not in the message: it is the vector time of the
process that sent it. -/
structure Reply where
  dest : Proc
  seqno : Nat
  records : List Interval
  time : VectorTime

/-- What a process is doing: it runs, it is in `Tmk_barrier` as the manager or as one of the others, or it is in
`Tmk_lock_acquire`, where `granter` is the process that has sent it the lock. -/
inductive Activity where
  | running
  | spinning (id : Nat)
  | arrived (req : Arrival)
  | acquiring (seqno : Nat) (vector_time : VectorTime) (granter : Option Proc)

/-- One process.  `rep` is the static record of this name, from the check of its number until its data have been used:
SIGIO is open in between. -/
structure Peer where
  activity : Activity
  time : VectorTime
  log : Proc → List Interval
  inverse_time_ : Proc → Nat
  mask : Nat → Nat
  req_from_ : Proc → Option Arrival
  rep_seqno_ : Proc → Nat
  req_seqno : Nat
  rep : Option Reply

def procs (nprocs : Nat) : List Proc := (List.finRange NPROCS).take nprocs

/-- The records of `Tmk_interval_request`. -/
def request (nprocs : Nat) (log : Proc → List Interval) (vector_time : VectorTime) : List Interval :=
  (procs nprocs).flatMap fun i => newer (log i) i (vector_time i)

section Calls

variable (nprocs : Nat)

def manager (id : Nat) : Proc := Fin.ofNat NPROCS (id % nprocs)

/-- `((1 << (Tmk_nprocs - 1)) << 1) - 1`, also when the first part is `2 ^ 32` and does not fit. -/
def spinmask : Nat := 2 ^ nprocs - 1

variable (me : Proc)

def others : List Proc := (procs nprocs).filter fun j => decide (j ≠ me)

/-- The vector time and the new record of `Tmk_interval_create`, for a process that has written the pages `ranges`. -/
def intervalCreate (ranges : List (Nat × Nat)) (p : Peer) : Peer :=
  let time := Function.update p.time me (p.time me + 1)
  { p with time := time, log := Function.update p.log me (p.log me ++ [⟨me, time, ranges⟩]) }

/-- What `Tmk_interval_incorporate` does with a record that is new. -/
def insertRecord (p : Peer) (r : Interval) : Peer :=
  { p with
    time := Function.update p.time r.id (r.vector_time r.id)
    log := Function.update p.log r.id (p.log r.id ++ [r])
    inverse_time_ := Function.update p.inverse_time_ r.id (max (p.inverse_time_ r.id) (r.vector_time me)) }

def incorporateOne (p : Peer) (r : Interval) : Peer :=
  if r.vector_time r.id > p.time r.id then insertRecord me p r else p

def intervalIncorporate (p : Peer) (records : List Interval) : Peer := records.foldl (incorporateOne me) p

/-- The manager takes in the records of process `j`, if its arrival has come. -/
def takeIn (id : Nat) (p : Peer) (j : Proc) : Peer :=
  if (p.mask id).testBit j then ((p.req_from_ j).map fun req => intervalIncorporate me p req.records).getD p else p

/-- `Tmk_barrier` of the manager, up to the loop that waits. -/
def enterManager (p : Peer) (id : Nat) : Peer :=
  let p := (others nprocs me).foldl (takeIn me id) p
  { p with mask := Function.update p.mask id (p.mask id ||| 1 <<< me.val), activity := .spinning id }

/-- `Tmk_barrier` of the others, up to the loop that waits, and the arrival. -/
def enterOther (p : Peer) (id : Nat) : Peer × Arrival :=
  let seqno := p.req_seqno + NPROCS
  let req : Arrival := ⟨me, seqno, id, p.time, newer (p.log me) me (p.inverse_time_ (manager nprocs id))⟩
  ({ p with req_seqno := seqno, activity := .arrived req }, req)

/-- What all do at the end of `Tmk_barrier`, where `rep.repo` is 0. -/
def leaveBarrier (p : Peer) : Peer :=
  { p with
    inverse_time_ := fun j => if j ∈ others nprocs me then p.time me else p.inverse_time_ j
    activity := .running
    rep := none }

/-- The answer of a process to an arrival or to the request of a lock. -/
def replyTo (p : Peer) (dest : Proc) (seqno : Nat) (vector_time : VectorTime) : Reply :=
  ⟨dest, seqno, request nprocs p.log vector_time, p.time⟩

/-- `Tmk_barrier` of the manager, after the loop that waits. -/
def leaveManager (p : Peer) (id : Nat) : Peer × List Reply :=
  let p := { p with mask := Function.update p.mask id 0 }
  (leaveBarrier nprocs me p,
    (others nprocs me).filterMap fun j => (p.req_from_ j).map fun req => replyTo nprocs p j req.seqno req.vector_time)

/-- `Tmk_barrier` of the others, after the loop that waits. -/
def leaveOther (p : Peer) (rep : Reply) : Peer := leaveBarrier nprocs me (intervalIncorporate me p rep.records)

def barrierSigioHandler (p : Peer) (req : Arrival) : Peer :=
  let p := { p with mask := Function.update p.mask req.id (p.mask req.id ||| 1 <<< req.sender.val) }
  if (p.mask req.id).testBit me then intervalIncorporate me p req.records else p

def barrierSigioDuplicateHandler (p : Peer) (req : Arrival) : List Reply :=
  if (p.mask req.id).testBit req.sender then [] else [replyTo nprocs p req.sender req.seqno req.vector_time]

/-- `sigio_handler`, for a request of type `REQ_ARRIVAL`. -/
def sigioHandler (p : Peer) (req : Arrival) : Peer × List Reply :=
  if p.rep_seqno_ req.sender < req.seqno then
    (barrierSigioHandler me { p with
      rep_seqno_ := Function.update p.rep_seqno_ req.sender req.seqno
      req_from_ := Function.update p.req_from_ req.sender (some req) } req, [])
  else (p, barrierSigioDuplicateHandler nprocs p req)

end Calls

/-- The processes, and every message that was sent.  `entered` and `left` are no variables of the program: the time of
each process at each of its calls of `Tmk_barrier`, and the number of calls that have returned. -/
structure System where
  peer : Proc → Peer
  arrivals : List Arrival
  replies : List Reply
  entered : Proc → Nat → List Nat
  left : Proc → Nat → Nat

/-- `repo` is what `Tmk_diff_repo_test` and `Tmk_interval_repo_test` say. -/
inductive Action where
  | interval (p : Proc) (ranges : List (Nat × Nat))
  | enter (p : Proc) (id : Nat) (repo : Bool)
  | leave (p : Proc)
  | rexmit (p : Proc)
  | handle (k : Nat)
  | receive (k : Nat)
  | acquire (p : Proc)
  | grant (g p : Proc)
  | number (p : Proc)
  | hear (p dest : Proc) (seqno : Nat)

def Activity.isRunning : Activity → Bool
  | .running => true
  | _ => false

/-- An interval ends when a process gives a lock away, also while it waits for another one; in a barrier it has nothing
to end. -/
def Activity.mayEnd : Activity → Bool
  | .running => true
  | .acquiring _ _ _ => true
  | _ => false

def Activity.arrival : Activity → Option Arrival
  | .arrived req => some req
  | _ => none

def System.setPeer (s : System) (p : Proc) (x : Peer) : System := { s with peer := Function.update s.peer p x }

def System.enter (s : System) (p : Proc) (id : Nat) : System :=
  let calls := Function.update (s.entered p) id (s.entered p id ++ [(s.peer p).time p])
  { s with entered := Function.update s.entered p calls }

def System.leave (s : System) (p : Proc) (id : Nat) : System :=
  { s with left := Function.update s.left p (Function.update (s.left p) id (s.left p id + 1)) }

def System.send (s : System) (arrivals : List Arrival) (replies : List Reply) : System :=
  { s with arrivals := s.arrivals ++ arrivals, replies := s.replies ++ replies }

/-- `req_seqno += SEQNO_INCR` does not wrap. -/
def Peer.fits (p : Peer) : Bool := decide (p.req_seqno + NPROCS < 2 ^ 32)

/-- `none` if the process cannot do this, or in a run that is left out.  A process hears of a request of another type,
which has a number of its own, at any time. -/
def step (nprocs : Nat) (s : System) : Action → Option System
  | .interval p ranges =>
    if p < nprocs ∧ (s.peer p).activity.mayEnd ∧ (s.peer p).time p + 1 < 2 ^ 16 then
      some (s.setPeer p (intervalCreate p ranges (s.peer p)))
    else none
  | .enter p id repo =>
    if p < nprocs ∧ (s.peer p).activity.isRunning ∧ id < NBARRIERS ∧ repo = false then
      if manager nprocs id = p then some ((s.enter p id).setPeer p (enterManager nprocs p (s.peer p) id))
      else if (s.peer p).fits then
        let out := enterOther nprocs p (s.peer p) id
        some (((s.enter p id).setPeer p out.1).send [out.2] [])
      else none
    else none
  | .leave p =>
    match (s.peer p).activity with
    | .spinning id =>
      if (s.peer p).mask id = spinmask nprocs then
        let out := leaveManager nprocs p (s.peer p) id
        some (((s.leave p id).setPeer p out.1).send [] out.2)
      else none
    | .arrived req =>
      (s.peer p).rep.map fun rep => (s.leave p req.id).setPeer p (leaveOther nprocs p (s.peer p) rep)
    | _ => none
  | .rexmit p =>
    if (s.peer p).rep.isNone then (s.peer p).activity.arrival.map fun req => s.send [req] [] else none
  | .handle k =>
    s.arrivals[k]?.bind fun req =>
      let m := manager nprocs req.id
      let out := sigioHandler nprocs m (s.peer m) req
      -- an answer is written to `rep` first
      if out.2.isEmpty ∨ (s.peer m).rep.isNone then some ((s.setPeer m out.1).send [] out.2) else none
  | .receive k =>
    s.replies[k]?.bind fun rep =>
      let x := s.peer rep.dest
      match x.activity with
      | .arrived req =>
        if rep.seqno = req.seqno ∧ x.rep.isNone then some (s.setPeer rep.dest { x with rep := some rep }) else none
      | .acquiring seqno _ _ =>
        if rep.seqno = seqno then
          some (s.setPeer rep.dest { intervalIncorporate rep.dest x rep.records with activity := .running })
        else none
      | _ => none
  | .acquire p =>
    if p < nprocs ∧ (s.peer p).activity.isRunning ∧ (s.peer p).fits then
      let seqno := (s.peer p).req_seqno + NPROCS
      some (s.setPeer p { s.peer p with req_seqno := seqno, activity := .acquiring seqno (s.peer p).time none })
    else none
  | .grant g p =>
    match (s.peer p).activity with
    | .acquiring seqno vector_time none =>
      if g < nprocs ∧ g ≠ p then
        let x := s.peer g
        let s := s.setPeer p { s.peer p with activity := .acquiring seqno vector_time (some g) }
        let s := s.setPeer g { x with inverse_time_ := Function.update x.inverse_time_ p (x.time g) }
        some (s.send [] [replyTo nprocs x p seqno vector_time])
      else none
    | .acquiring seqno vector_time (some g') =>
      if g = g' then some (s.send [] [replyTo nprocs (s.peer g) p seqno vector_time]) else none
    | _ => none
  | .number p =>
    if (s.peer p).activity.isRunning ∧ (s.peer p).fits then
      some (s.setPeer p { s.peer p with req_seqno := (s.peer p).req_seqno + NPROCS })
    else none
  | .hear p dest seqno =>
    if (s.peer dest).rep_seqno_ p < seqno ∧ seqno ≤ (s.peer p).req_seqno ∧
        (s.peer p).activity.arrival.all fun req => decide (req.seqno ≠ seqno) then
      some (s.setPeer dest { s.peer dest with rep_seqno_ := Function.update (s.peer dest).rep_seqno_ p seqno })
    else none

def init : System where
  peer p := ⟨.running, fun _ => 0, fun _ => [], fun _ => 0, fun _ => 0, fun _ => none, fun _ => 0, p, none⟩
  arrivals := []
  replies := []
  entered _ _ := []
  left _ _ := 0

/-! ## The invariant -/

/-- The number that a process waits for. -/
def Activity.waits : Activity → Option Nat
  | .arrived req => some req.seqno
  | .acquiring seqno _ _ => some seqno
  | _ => none

/-- All the intervals of process `i`. -/
def System.history (s : System) (i : Proc) : List Interval := (s.peer i).log i

/-- The records that a process has are the first ones of each history. -/
structure Knows (H : Proc → List Interval) (x : Peer) : Prop where
  le : ∀ i, x.time i ≤ (H i).length
  log : ∀ i, x.log i = (H i).take (x.time i)

section Invariant

variable (nprocs : Nat) (s : System)

structure Histories : Prop where
  idle : ∀ i : Proc, nprocs ≤ i → s.history i = []
  length : ∀ i, (s.history i).length = (s.peer i).time i
  numbered : ∀ i, Numbered i (s.history i)
  below : ∀ i, ∀ iv ∈ s.history i, ∀ j, iv.vector_time j ≤ (s.peer i).time j
  knows : ∀ p, Knows s.history (s.peer p)
  short : ∀ i, (s.peer i).time i < 2 ^ 16

/-- Process `src` has answered the request that `q` waits for. -/
def Answered (q src : Proc) : Prop :=
  (∃ req, (s.peer q).activity = .arrived req ∧ src = manager nprocs req.id ∧
    (s.peer src).rep_seqno_ q = req.seqno ∧ ((s.peer src).mask req.id).testBit q = false) ∨
  ∃ seqno vector_time, (s.peer q).activity = .acquiring seqno vector_time (some src)

/-- A reply that its receiver waits for. -/
def Live (r : Reply) : Prop := (s.peer r.dest).activity.waits = some r.seqno

/-- Process `q` has the first `t` intervals of process `i`, or will have them before it does anything else. -/
def Owed (q i : Proc) (t : Nat) : Prop :=
  t ≤ (s.peer q).time i ∨
  ∃ src, Answered nprocs s q src ∧ t ≤ (s.peer src).time i ∧ ∀ r ∈ s.replies, r.dest = q → Live s r → t ≤ r.time i

/-- Everybody has entered the barrier `c` times, and `T` covers the intervals from before. -/
def Met (id c : Nat) (T : VectorTime) : Prop :=
  ∀ i : Proc, i < nprocs → ∀ k < c, ∃ t, (s.entered i id)[k]? = some t ∧ t ≤ T i

/-- What a process that waits has sent. -/
structure Arrived (p : Proc) (req : Arrival) : Prop where
  sender : req.sender = p
  seqno : req.seqno = (s.peer p).req_seqno
  vector_time : req.vector_time = (s.peer p).time
  lt : p < nprocs
  ne : p ≠ manager nprocs req.id
  records : ∃ t ≤ (s.peer p).inverse_time_ (manager nprocs req.id), req.records = (s.history p).drop t
  last : (s.entered p req.id).getLast? = some ((s.peer p).time p)

structure Acquiring (p : Proc) (seqno : Nat) (vector_time : VectorTime) (granter : Option Proc) : Prop where
  seqno : seqno = (s.peer p).req_seqno
  vector_time : ∀ i, vector_time i ≤ (s.peer p).time i
  ne : granter ≠ some p

structure Spinning (p : Proc) (id : Nat) : Prop where
  manager : p = manager nprocs id
  last : (s.entered p id).getLast? = some ((s.peer p).time p)

def Occupied (p : Proc) : Activity → Prop
  | .running => True
  | .spinning id => Spinning nprocs s p id
  | .arrived req => Arrived nprocs s p req
  | .acquiring seqno vector_time granter => Acquiring s p seqno vector_time granter

/-- The vector time of the request that a process waits with. -/
def Activity.request : Activity → VectorTime
  | .arrived req => req.vector_time
  | .acquiring _ vector_time _ => vector_time
  | _ => fun _ => 0

/-- A reply brings what its sender knew. -/
structure Carries (r : Reply) : Prop where
  answered : ∃ src, Answered nprocs s r.dest src
  le : ∀ i, r.time i ≤ (s.history i).length
  records : r.records =
    records nprocs (fun i => (s.history i).take (r.time i)) (s.peer r.dest).activity.request
  met : ∀ req, (s.peer r.dest).activity = .arrived req →
    Met nprocs s req.id (s.left (manager nprocs req.id) req.id) r.time

structure Messages : Prop where
  rep : ∀ a p, (s.peer a).rep_seqno_ p ≤ (s.peer p).req_seqno
  arrivals : ∀ r ∈ s.arrivals, (s.peer r.sender).activity = .arrived r ∨
    (r.seqno ≤ (s.peer (manager nprocs r.id)).rep_seqno_ r.sender ∧ (s.peer r.sender).activity.waits ≠ some r.seqno)
  sent : ∀ r ∈ s.arrivals, r.seqno ≤ (s.peer r.sender).req_seqno
  ne : ∀ r ∈ s.arrivals, r.sender ≠ manager nprocs r.id
  replies : ∀ r ∈ s.replies, r.seqno ≤ (s.peer r.dest).req_seqno
  live : ∀ r ∈ s.replies, Live s r → Carries nprocs s r

/-- Where process `p` can be, when the manager has opened the barrier `c` times. -/
inductive Slave (id : Nat) (p : Proc) : Prop
  | outside (away : ∀ req, (s.peer p).activity = .arrived req → req.id ≠ id)
      (bit : ((s.peer (manager nprocs id)).mask id).testBit p = false)
      (entered : (s.entered p id).length = s.left (manager nprocs id) id)
      (left : s.left p id = s.left (manager nprocs id) id)
  | sent (req : Arrival) (activity : (s.peer p).activity = .arrived req) (eq : req.id = id)
      (rep : (s.peer (manager nprocs id)).rep_seqno_ p < req.seqno)
      (bit : ((s.peer (manager nprocs id)).mask id).testBit p = false)
      (entered : (s.entered p id).length = s.left (manager nprocs id) id + 1)
      (left : s.left p id = s.left (manager nprocs id) id)
  | handled (req : Arrival) (activity : (s.peer p).activity = .arrived req) (eq : req.id = id)
      (rep : (s.peer (manager nprocs id)).rep_seqno_ p = req.seqno)
      (bit : ((s.peer (manager nprocs id)).mask id).testBit p = true)
      (req_from : (s.peer (manager nprocs id)).req_from_ p = some req)
      (entered : (s.entered p id).length = s.left (manager nprocs id) id + 1)
      (left : s.left p id = s.left (manager nprocs id) id)
      (known : ((s.peer (manager nprocs id)).mask id).testBit (manager nprocs id) = true →
        (s.peer p).time p ≤ (s.peer (manager nprocs id)).time p)
  | opened (req : Arrival) (activity : (s.peer p).activity = .arrived req) (eq : req.id = id)
      (rep : (s.peer (manager nprocs id)).rep_seqno_ p = req.seqno)
      (bit : ((s.peer (manager nprocs id)).mask id).testBit p = false)
      (entered : (s.entered p id).length = s.left (manager nprocs id) id)
      (left : s.left p id + 1 = s.left (manager nprocs id) id)

/-- One barrier. -/
structure BarrierInv (id : Nat) : Prop where
  bits : ∀ j, ((s.peer (manager nprocs id)).mask id).testBit j = true → j < nprocs
  manager :
    ((s.peer (manager nprocs id)).activity = .spinning id ∧
      ((s.peer (manager nprocs id)).mask id).testBit (manager nprocs id) = true ∧
      (s.entered (manager nprocs id) id).length = s.left (manager nprocs id) id + 1) ∨
    ((s.peer (manager nprocs id)).activity ≠ .spinning id ∧
      ((s.peer (manager nprocs id)).mask id).testBit (manager nprocs id) = false ∧
      (s.entered (manager nprocs id) id).length = s.left (manager nprocs id) id)
  slave : ∀ p : Proc, p < nprocs → p ≠ Barriers.manager nprocs id → Slave nprocs s id p
  met : ∀ p : Proc, p < nprocs → Met nprocs s id (s.left p id) (s.peer p).time

structure Inv : Prop where
  histories : Histories nprocs s
  messages : Messages nprocs s
  occupied : ∀ p, Occupied nprocs s p (s.peer p).activity
  inverse : ∀ p q, q ≠ p → (s.peer p).inverse_time_ q ≤ (s.peer p).time p ∧
    Owed nprocs s q p ((s.peer p).inverse_time_ q)
  barrier : ∀ id, BarrierInv nprocs s id

end Invariant

/-! ## Lemmas -/

/-! ### Taking in records -/

/-- The loop over the bytes of a message takes its records in one by one.  Two pages that follow each other come as two
ranges; nothing here looks at the ranges. -/
theorem incorporate_eq (me : Proc) (x : Peer) (rs : List Interval) (hrs : ∀ iv ∈ rs, iv.Wf) :
    incorporate Peer.time (fun x iv => some (insertRecord me x iv)) x (rs.flatMap encodeInterval) =
      some (intervalIncorporate me x (rs.map Interval.wire)) := by
  rw [incorporate_encode _ _ x rs hrs]
  unfold intervalIncorporate
  clear hrs
  induction rs generalizing x with
  | nil => rfl
  | cons r rs ih =>
    have hone : Tmk.incorporateOne Peer.time (fun x iv => some (insertRecord me x iv)) x r =
        some (incorporateOne me x r.wire) := by
      unfold Tmk.incorporateOne incorporateOne
      show (if r.vector_time r.id > x.time r.id then some (insertRecord me x r.wire) else some x) =
        some (if r.vector_time r.id > x.time r.id then insertRecord me x r.wire else x)
      split <;> rfl
    rw [List.foldlM_cons, hone, List.map_cons, List.foldl_cons]
    exact ih _

section Knowledge

variable {nprocs : Nat} {H : Proc → List Interval} {x y z : Peer} {me : Proc}

/-- **The messages.**  What is written for an arrival and for an answer does to the process that reads it what the
records of the arrival and of the answer do. -/
theorem messages_incorporate (nprocs : Nat) (me : Proc) (x p : Peer) (hp : ∀ i, ∀ iv ∈ p.log i, iv.Wf) :
    (∀ (sender : Proc) (id : Nat),
      incorporate Peer.time (fun x iv => some (insertRecord me x iv)) x
          (intervalRequestProc (p.log sender) sender (p.inverse_time_ (manager nprocs id))) =
        some (intervalIncorporate me x ((enterOther nprocs sender p id).2.records.map Interval.wire))) ∧
    ∀ (dest : Proc) (seqno : Nat) (v : VectorTime),
      incorporate Peer.time (fun x iv => some (insertRecord me x iv)) x (intervalRequest nprocs p.log v) =
        some (intervalIncorporate me x ((replyTo nprocs p dest seqno v).records.map Interval.wire)) := by
  have hnewer : ∀ i t, ∀ iv ∈ newer (p.log i) i t, iv.Wf := by
    intro i t iv hiv
    unfold newer at hiv
    exact hp i iv (List.mem_reverse.mp ((List.takeWhile_prefix _).subset (List.mem_reverse.mp hiv)))
  refine ⟨fun sender id => ?_, fun dest seqno v => ?_⟩
  · exact incorporate_eq me x _ (hnewer sender _)
  · have hbytes : intervalRequest nprocs p.log v = (request nprocs p.log v).flatMap encodeInterval := by
      unfold intervalRequest request procs
      rw [List.flatMap_assoc]
      rfl
    rw [hbytes]
    refine incorporate_eq me x _ fun iv hiv => ?_
    obtain ⟨i, -, hiv⟩ := List.mem_flatMap.mp hiv
    exact hnewer i _ iv hiv

/-- Records of the histories have been taken in; the rest of the process is as it was. -/
structure Learns (me : Proc) (H : Proc → List Interval) (x y : Peer) : Prop where
  knows : Knows H y
  le : ∀ i, x.time i ≤ y.time i
  inverse_le : ∀ i, x.inverse_time_ i ≤ y.inverse_time_ i
  inverse : ∀ i, y.inverse_time_ i = x.inverse_time_ i ∨ ∃ iv ∈ H i, y.inverse_time_ i = iv.vector_time me
  activity : y.activity = x.activity
  mask : y.mask = x.mask
  req_from : y.req_from_ = x.req_from_
  rep : y.rep_seqno_ = x.rep_seqno_
  req_seqno : y.req_seqno = x.req_seqno

theorem Learns.refl (h : Knows H x) : Learns me H x x :=
  ⟨h, fun _ => le_rfl, fun _ => le_rfl, fun _ => .inl rfl, rfl, rfl, rfl, rfl, rfl⟩

theorem Learns.trans (h : Learns me H x y) (h' : Learns me H y z) : Learns me H x z where
  knows := h'.knows
  le i := (h.le i).trans (h'.le i)
  inverse_le i := (h.inverse_le i).trans (h'.inverse_le i)
  inverse i := by
    rcases h'.inverse i with heq | hiv
    · rw [heq]
      exact h.inverse i
    · exact .inr hiv
  activity := h'.activity.trans h.activity
  mask := h'.mask.trans h.mask
  req_from := h'.req_from.trans h.req_from
  rep := h'.rep.trans h.rep
  req_seqno := h'.req_seqno.trans h.req_seqno

/-- One record, new or not, that leaves no gap. -/
theorem incorporateOne_learns (me : Proc) (hH : ∀ i, Numbered i (H i)) (hx : Knows H x) {w : Interval}
    (hw : w ∈ H w.id) (hgap : w.vector_time w.id ≤ x.time w.id + 1) :
    Learns me H x (incorporateOne me x w) ∧ (incorporateOne me x w).time = bump x.time w := by
  unfold incorporateOne insertRecord bump
  split
  · next hnew =>
    have heq : w.vector_time w.id = x.time w.id + 1 := by omega
    obtain ⟨k, hk⟩ := List.mem_iff_getElem?.mp hw
    have hk' : k = x.time w.id := by
      have := (hH w.id k w hk).2
      omega
    subst hk'
    have hlt := (List.getElem?_eq_some_iff.mp hk).1
    refine ⟨⟨⟨fun i => ?_, fun i => ?_⟩, fun i => ?_, fun i => ?_, fun i => ?_, rfl, rfl, rfl, rfl, rfl⟩, ?_⟩
    · by_cases hi : i = w.id
      · subst hi
        simp only [Function.update_self]
        omega
      · simp only [Function.update_of_ne hi]
        exact hx.le i
    · by_cases hi : i = w.id
      · subst hi
        simp only [Function.update_self]
        rw [heq, List.take_add_one, hk, hx.log w.id]
        rfl
      · simp only [Function.update_of_ne hi]
        exact hx.log i
    · by_cases hi : i = w.id
      · subst hi
        simp only [Function.update_self]
        omega
      · simp only [Function.update_of_ne hi]
        exact le_rfl
    · by_cases hi : i = w.id
      · subst hi
        simp only [Function.update_self]
        exact le_max_left _ _
      · simp only [Function.update_of_ne hi]
        exact le_rfl
    · by_cases hi : i = w.id
      · subst hi
        simp only [Function.update_self]
        rcases max_choice (x.inverse_time_ w.id) (w.vector_time me) with hmax | hmax
        · exact .inl hmax
        · exact .inr ⟨w, hw, hmax⟩
      · simp only [Function.update_of_ne hi]
        exact .inl trivial
    · show Function.update x.time w.id (w.vector_time w.id) = _
      rw [max_eq_right (by omega)]
  · next hold =>
    refine ⟨Learns.refl hx, ?_⟩
    rw [max_eq_left (by omega), Function.update_eq_self]

theorem intervalIncorporate_learns (me : Proc) (hH : ∀ i, Numbered i (H i)) (ws : List Interval) (hx : Knows H x)
    (hws : ∀ w ∈ ws, w ∈ H w.id) (hgap : Contiguous x.time ws) :
    Learns me H x (intervalIncorporate me x ws) ∧ (intervalIncorporate me x ws).time = ws.foldl bump x.time := by
  unfold intervalIncorporate
  induction ws generalizing x with
  | nil => exact ⟨Learns.refl hx, rfl⟩
  | cons w ws ih =>
    obtain ⟨hone, htime⟩ := incorporateOne_learns me hH hx (hws w (.head _)) hgap.1
    obtain ⟨hrest, htimes⟩ := ih hone.knows (fun w' hw' => hws w' (.tail _ hw')) (by rw [htime]; exact hgap.2)
    refine ⟨hone.trans hrest, ?_⟩
    rw [List.foldl_cons, List.foldl_cons, htimes, htime]

/-- The newest records of one process. -/
theorem learns_drop (me : Proc) (hH : ∀ i, Numbered i (H i)) (hx : Knows H x) (p : Proc) {t : Nat}
    (ht : t ≤ x.time p) :
    Learns me H x (intervalIncorporate me x ((H p).drop t)) ∧
      (intervalIncorporate me x ((H p).drop t)).time = Function.update x.time p (H p).length := by
  have hnum : ∀ k w, ((H p).drop t)[k]? = some w → w.id = p ∧ w.vector_time p = t + k + 1 := by
    intro k w hw
    rw [List.getElem?_drop] at hw
    exact hH p _ w hw
  have hmem : ∀ w ∈ (H p).drop t, w ∈ H w.id := by
    intro w hw
    obtain ⟨k, hk⟩ := List.mem_iff_getElem?.mp hw
    rw [(hnum k w hk).1]
    exact List.mem_of_mem_drop hw
  obtain ⟨hcontig, hfold⟩ := contiguous_slice p ((H p).drop t) t x.time hnum ht
  obtain ⟨hlearns, htime⟩ := intervalIncorporate_learns me hH ((H p).drop t) hx hmem hcontig
  refine ⟨hlearns, ?_⟩
  have hle := hx.le p
  rw [htime, hfold, List.length_drop, max_eq_right (by omega), show t + ((H p).length - t) = (H p).length by omega]

/-- What a process with vector time `T` sends to one that has `v` and more. -/
theorem learns_records (me : Proc) (hH : ∀ i, Numbered i (H i)) (hidle : ∀ i : Proc, nprocs ≤ i → H i = [])
    (hx : Knows H x) {T v : VectorTime} (hT : ∀ i, T i ≤ (H i).length) (hv : ∀ i, v i ≤ x.time i) :
    Learns me H x (intervalIncorporate me x (records nprocs (fun i => (H i).take (T i)) v)) ∧
      ∀ i, (intervalIncorporate me x (records nprocs (fun i => (H i).take (T i)) v)).time i =
        max (x.time i) (T i) := by
  have hnum : ∀ i k w, (((H i).take (T i)).drop (v i))[k]? = some w → w.id = i ∧ w.vector_time i = v i + k + 1 := by
    intro i k w hw
    rw [List.getElem?_drop] at hw
    have hlt := (List.getElem?_eq_some_iff.mp hw).1
    rw [List.length_take] at hlt
    rw [List.getElem?_take_of_lt (by omega)] at hw
    exact hH i _ w hw
  have hnd : ((List.finRange NPROCS).take nprocs).Nodup :=
    (List.nodup_finRange NPROCS).sublist (List.take_sublist _ _)
  have hmem : ∀ w ∈ records nprocs (fun i => (H i).take (T i)) v, w ∈ H w.id := by
    intro w hw
    obtain ⟨i, -, hw⟩ := List.mem_flatMap.mp hw
    obtain ⟨k, hk⟩ := List.mem_iff_getElem?.mp hw
    rw [(hnum i k w hk).1]
    exact List.mem_of_mem_take (List.mem_of_mem_drop hw)
  obtain ⟨hcontig, hfold⟩ :=
    contiguous_slices _ hnd (fun i => ((H i).take (T i)).drop (v i)) v x.time hnum hv
  obtain ⟨hlearns, htime⟩ := intervalIncorporate_learns me hH _ hx hmem hcontig
  refine ⟨hlearns, fun i => ?_⟩
  have hTi := hT i
  have hvi := hv i
  unfold records at htime ⊢
  rw [htime, hfold i, List.length_drop, List.length_take]
  split
  · omega
  · next hi =>
    have hge : nprocs ≤ i := by
      by_contra hlt
      exact hi (List.mem_take_iff_getElem.mpr ⟨i, by simp; omega, by simp⟩)
    rw [hidle i hge, List.length_nil] at hTi
    omega

/-- The code goes through the records from the newest back. -/
theorem request_eq (hH : ∀ i, Numbered i (H i)) (hx : Knows H x) (v : VectorTime) :
    request nprocs x.log v = records nprocs (fun i => (H i).take (x.time i)) v := by
  unfold request records procs
  refine List.flatMap_congr fun i _ => ?_
  rw [hx.log i]
  apply newer_eq_drop
  intro k iv hk
  have hlt := (List.getElem?_eq_some_iff.mp hk).1
  rw [List.length_take] at hlt
  rw [List.getElem?_take_of_lt (by omega)] at hk
  exact hH i k iv hk

end Knowledge

/-! ### What a step of one process leaves as it is -/

section Frame

variable {nprocs : Nat} {s t : System} {x p q src : Proc} {id : Nat}

theorem Answered.unique {src' : Proc} (h : Answered nprocs s q src) (h' : Answered nprocs s q src') : src = src' := by
  rcases h with ⟨req, hact, rfl, -⟩ | ⟨n, v, hact⟩
  · rcases h' with ⟨req', hact', rfl, -⟩ | ⟨n', v', hact'⟩
    · rw [hact] at hact'
      cases hact'
      rfl
    · rw [hact] at hact'
      cases hact'
  · rcases h' with ⟨req', hact', -⟩ | ⟨n', v', hact'⟩
    · rw [hact] at hact'
      cases hact'
    · rw [hact] at hact'
      cases hact'
      rfl

theorem Answered.waits (h : Answered nprocs s q src) : ∃ n, (s.peer q).activity.waits = some n := by
  rcases h with ⟨req, hact, -⟩ | ⟨n, v, hact⟩
  · exact ⟨req.seqno, by rw [hact]; rfl⟩
  · exact ⟨n, by rw [hact]; rfl⟩

/-- A process does not answer itself. -/
theorem Inv.answered_ne (h : Inv nprocs s) (ha : Answered nprocs s q src) : src ≠ q := by
  have hocc := h.occupied q
  rcases ha with ⟨req, hact, rfl, -⟩ | ⟨n, v, hact⟩
  · rw [hact] at hocc
    exact hocc.ne.symm
  · rw [hact] at hocc
    rintro rfl
    exact hocc.ne rfl

theorem Met.mono {c : Nat} {T T' : VectorTime} (h : Met nprocs s id c T) (hT : ∀ i, T i ≤ T' i)
    (hent : ∀ p, s.entered p id <+: t.entered p id) : Met nprocs t id c T' := by
  intro i hi k hk
  obtain ⟨e, he, hle⟩ := h i hi k hk
  obtain ⟨l, hl⟩ := hent i
  refine ⟨e, ?_, hle.trans (hT i)⟩
  rw [← hl, List.getElem?_append_left (List.getElem?_eq_some_iff.mp he).1]
  exact he

theorem manager_lt (h : 0 < nprocs) (id : Nat) : (manager nprocs id : Nat) < nprocs :=
  (Nat.mod_le _ _).trans_lt (Nat.mod_lt _ h)

/-- A process goes on with what it is doing. -/
theorem Occupied.mono {a : Activity} (ho : Occupied nprocs s p a) (hhist : t.history p = s.history p)
    (hentered : t.entered p = s.entered p) (hreq : (t.peer p).req_seqno = (s.peer p).req_seqno)
    (htime : (t.peer p).time = (s.peer p).time)
    (hinv : ∀ q, q ≠ p → (s.peer p).inverse_time_ q ≤ (t.peer p).inverse_time_ q) : Occupied nprocs t p a := by
  cases a with
  | running => trivial
  | spinning id => exact ⟨ho.manager, by rw [hentered, htime]; exact ho.last⟩
  | arrived req =>
    obtain ⟨e, he, hrec⟩ := ho.records
    refine ⟨ho.sender, ?_, ?_, ho.lt, ho.ne, ⟨e, he.trans (hinv _ ho.ne.symm), ?_⟩, ?_⟩
    · rw [hreq]
      exact ho.seqno
    · rw [htime]
      exact ho.vector_time
    · rw [hhist]
      exact hrec
    · rw [hentered, htime]
      exact ho.last
  | acquiring n v g =>
    refine ⟨?_, ?_, ho.ne⟩
    · rw [hreq]
      exact ho.seqno
    · rw [htime]
      exact ho.vector_time

/-- How what process `x` is doing changes, when it becomes `y`. -/
inductive Turn (nprocs : Nat) (s : System) (x : Proc) (y : Peer) : Prop
  | same (h : y.activity = (s.peer x).activity)
  | start (h : (s.peer x).activity.waits = none)
      (new : ∀ n, y.activity.waits = some n → (s.peer x).req_seqno < n)
  | granted (g : Proc) (n : Nat) (v : VectorTime) (h : (s.peer x).activity = .acquiring n v none)
      (h' : y.activity = .acquiring n v (some g))
  | stop (h : y.activity.waits = none)
      (rep : ∀ req, (s.peer x).activity = .arrived req →
        req.seqno ≤ (s.peer (manager nprocs req.id)).rep_seqno_ x)
      (owed : ∀ i e, Owed nprocs s x i e → e ≤ y.time i)

/-- Process `x` does something, and sends the arrivals `A` and the replies `R`. -/
structure Frame (nprocs : Nat) (s t : System) (x : Proc) (A : List Arrival) (R : List Reply) : Prop where
  peer : ∀ a, a ≠ x → t.peer a = s.peer a
  knows : Knows s.history (t.peer x)
  time : ∀ i, (s.peer x).time i ≤ (t.peer x).time i
  arrivals : t.arrivals = s.arrivals ++ A
  replies : t.replies = s.replies ++ R
  entered : ∀ p id, s.entered p id <+: t.entered p id
  entered_ne : ∀ p, p ≠ x → t.entered p = s.entered p
  left_ne : ∀ p, p ≠ x → t.left p = s.left p
  rep : ∀ p, (s.peer x).rep_seqno_ p ≤ (t.peer x).rep_seqno_ p ∧ (t.peer x).rep_seqno_ p ≤ (t.peer p).req_seqno
  req_seqno : (s.peer x).req_seqno ≤ (t.peer x).req_seqno
  turn : Turn nprocs s x (t.peer x)
  answered : ∀ q src, q ≠ x → Answered nprocs s q src → Answered nprocs t q src
  left : ∀ q req, (s.peer q).activity = .arrived req → Answered nprocs s q (manager nprocs req.id) → q ≠ x →
    t.left (manager nprocs req.id) req.id = s.left (manager nprocs req.id) req.id
  newArrival : ∀ r ∈ A, r.sender = x ∧ (t.peer x).activity = .arrived r ∧ r.seqno ≤ (t.peer x).req_seqno ∧
    x ≠ manager nprocs r.id
  newReply : ∀ r ∈ R, r.dest ≠ x ∧ r.seqno ≤ (s.peer r.dest).req_seqno ∧
    (Live s r → Answered nprocs t r.dest x ∧ r.time = (s.peer x).time ∧
      r.records = records nprocs (fun i => (s.history i).take (r.time i)) (s.peer r.dest).activity.request ∧
      ∀ req, (s.peer r.dest).activity = .arrived req →
        Met nprocs t req.id (t.left (manager nprocs req.id) req.id) r.time)

section

variable {A : List Arrival} {R : List Reply} (hf : Frame nprocs s t x A R)
include hf

theorem Frame.times (p i : Proc) : (s.peer p).time i ≤ (t.peer p).time i := by
  by_cases hp : p = x
  · subst hp
    exact hf.time i
  · rw [hf.peer p hp]

theorem Frame.req_seqnos (p : Proc) : (s.peer p).req_seqno ≤ (t.peer p).req_seqno := by
  by_cases hp : p = x
  · subst hp
    exact hf.req_seqno
  · rw [hf.peer p hp]

theorem Frame.reps (a p : Proc) : (s.peer a).rep_seqno_ p ≤ (t.peer a).rep_seqno_ p := by
  by_cases ha : a = x
  · subst ha
    exact (hf.rep p).1
  · rw [hf.peer a ha]

variable (h : Inv nprocs s)
include h

theorem Frame.own_time : (t.peer x).time x = (s.peer x).time x := by
  apply le_antisymm
  · have := hf.knows.le x
    rwa [h.histories.length x] at this
  · exact hf.time x

theorem Frame.history : t.history = s.history := by
  funext i
  unfold System.history
  by_cases hi : i = x
  · subst hi
    have := hf.knows.log i
    rw [hf.own_time h, ← h.histories.length i, List.take_length] at this
    exact this
  · rw [hf.peer i hi]

theorem Frame.own_times (p : Proc) : (t.peer p).time p = (s.peer p).time p := by
  by_cases hp : p = x
  · subst hp
    exact hf.own_time h
  · rw [hf.peer p hp]

theorem Frame.histories : Histories nprocs t := by
  have hhist := hf.history h
  refine ⟨fun i hi => ?_, fun i => ?_, fun i => ?_, fun i iv hiv j => ?_, fun p => ?_, fun i => ?_⟩
  · rw [hhist]
    exact h.histories.idle i hi
  · rw [hhist, hf.own_times h]
    exact h.histories.length i
  · rw [hhist]
    exact h.histories.numbered i
  · rw [hhist] at hiv
    exact (h.histories.below i iv hiv j).trans (hf.times i j)
  · rw [hhist]
    by_cases hp : p = x
    · subst hp
      exact hf.knows
    · rw [hf.peer p hp]
      exact h.histories.knows p
  · rw [hf.own_times h]
    exact h.histories.short i

/-- A reply that is live after the step was live before it. -/
theorem Frame.live {r : Reply} (hr : r ∈ s.replies) (hlive : Live t r) : Live s r := by
  unfold Live at hlive ⊢
  by_cases hd : r.dest = x
  · rw [hd] at hlive ⊢
    cases hf.turn with
    | same heq =>
      rw [heq] at hlive
      exact hlive
    | start _ hnew =>
      have hlt := hnew _ hlive
      have hle := h.messages.replies r hr
      rw [hd] at hle
      omega
    | granted g n v heq heq' =>
      rw [heq'] at hlive
      rw [heq]
      exact hlive
    | stop hnone _ _ =>
      rw [hnone] at hlive
      cases hlive
  · rw [hf.peer _ hd] at hlive
    exact hlive

/-- A request that was answered, and still is not received. -/
theorem Frame.answered_of_waits (ha : Answered nprocs s q src) {n : Nat} (hn : (t.peer q).activity.waits = some n) :
    Answered nprocs t q src ∧ (t.peer q).activity = (s.peer q).activity := by
  by_cases hq : q = x
  · subst hq
    obtain ⟨m, hm⟩ := ha.waits
    cases hf.turn with
    | same heq =>
      refine ⟨?_, heq⟩
      unfold Answered at ha ⊢
      rw [heq]
      rcases ha with ⟨req, hact, rfl, hrest⟩ | hacq
      · have hne := h.answered_ne (.inl ⟨req, hact, rfl, hrest⟩)
        rw [hact]
        exact .inl ⟨req, rfl, rfl, by rw [hf.peer _ hne]; exact hrest⟩
      · exact .inr hacq
    | start hnone _ =>
      rw [hnone] at hm
      cases hm
    | granted g m v heq _ =>
      rcases ha with ⟨req, hact, -⟩ | ⟨m', v', hact⟩
      · rw [heq] at hact
        cases hact
      · rw [heq] at hact
        cases hact
    | stop hnone _ _ =>
      rw [hnone] at hn
      cases hn
  · exact ⟨hf.answered q src hq ha, by rw [hf.peer q hq]⟩

/-- What is promised stays promised. -/
theorem Frame.owed {i : Proc} {e : Nat} (ho : Owed nprocs s q i e) : Owed nprocs t q i e := by
  have ho' := ho
  rcases ho with hle | ⟨src, ha, hle, hreplies⟩
  · exact .inl (hle.trans (hf.times q i))
  · cases hw : (t.peer q).activity.waits with
    | none =>
      -- the process has received what it was waiting for
      obtain ⟨n, hn⟩ := ha.waits
      have hq : q = x := by
        by_contra hq
        rw [hf.peer q hq, hn] at hw
        cases hw
      subst hq
      cases hf.turn with
      | same heq =>
        rw [heq, hn] at hw
        cases hw
      | start hnone _ =>
        rw [hnone] at hn
        cases hn
      | granted g m v heq heq' =>
        rw [heq'] at hw
        cases hw
      | stop _ _ howed => exact .inl (howed i e ho')
    | some n =>
      obtain ⟨ha', -⟩ := hf.answered_of_waits h ha hw
      refine .inr ⟨src, ha', hle.trans (hf.times src i), fun r hr hdest hlive => ?_⟩
      rw [hf.replies] at hr
      rcases List.mem_append.mp hr with hr | hr
      · exact hreplies r hr hdest (hf.live h hr hlive)
      · obtain ⟨hne, -, hnew⟩ := hf.newReply r hr
        have hlive' : Live s r := by
          unfold Live at hlive ⊢
          rwa [hf.peer _ hne] at hlive
        obtain ⟨hax, htime, -⟩ := hnew hlive'
        rw [hdest] at hax
        obtain rfl := ha'.unique hax
        rw [htime]
        exact hle

theorem Frame.occupied {a : Activity} (hp : p ≠ x) (ho : Occupied nprocs s p a) : Occupied nprocs t p a := by
  apply ho.mono
  · rw [hf.history h]
  · exact hf.entered_ne p hp
  · rw [hf.peer p hp]
  · rw [hf.peer p hp]
  · rw [hf.peer p hp]
    exact fun _ _ => le_rfl

/-- The parts of a live reply. -/
theorem Frame.carries {r : Reply} (hr : r ∈ s.replies) (hlive : Live t r) : Carries nprocs t r := by
  obtain ⟨⟨src, ha⟩, hle, hrec, hmet⟩ := h.messages.live r hr (hf.live h hr hlive)
  obtain ⟨ha', hact⟩ := hf.answered_of_waits h ha hlive
  have hhist := hf.history h
  refine ⟨⟨src, ha'⟩, ?_, ?_, fun req hreq => ?_⟩
  · rw [hhist]
    exact hle
  · rw [hhist, hact]
    exact hrec
  · rw [hact] at hreq
    have hm : src = manager nprocs req.id := by
      rcases ha with ⟨req', hact', heq, -⟩ | ⟨n, v, hact'⟩
      · rw [hreq] at hact'
        cases hact'
        exact heq
      · rw [hreq] at hact'
        cases hact'
    subst hm
    have hleft : t.left (manager nprocs req.id) req.id = s.left (manager nprocs req.id) req.id := by
      by_cases hd : r.dest = x
      · have hne := h.answered_ne ha
        rw [hd] at hne
        rw [hf.left_ne _ hne]
      · exact hf.left r.dest req hreq ha hd
    rw [hleft]
    exact (hmet req hreq).mono (fun _ => le_rfl) fun p => hf.entered p req.id

/-- An arrival that was sent before: its sender waits with it, or has its answer. -/
theorem Frame.arrival {r : Arrival} (hr : r ∈ s.arrivals) : (t.peer r.sender).activity = .arrived r ∨
    (r.seqno ≤ (t.peer (manager nprocs r.id)).rep_seqno_ r.sender ∧
      (t.peer r.sender).activity.waits ≠ some r.seqno) := by
  have hmono := hf.reps (manager nprocs r.id) r.sender
  by_cases hx : r.sender = x
  · have hsent := h.messages.sent r hr
    rw [hx] at hsent hmono ⊢
    rcases h.messages.arrivals r hr with hact | ⟨hrep, hwaits⟩
    · rw [hx] at hact
      cases hf.turn with
      | same heq => exact .inl (heq.trans hact)
      | start hnone _ =>
        rw [hact] at hnone
        cases hnone
      | granted g n v heq _ =>
        rw [hact] at heq
        cases heq
      | stop hnone hrep _ => exact .inr ⟨(hrep r hact).trans hmono, by rw [hnone]; nofun⟩
    · rw [hx] at hrep hwaits
      refine .inr ⟨hrep.trans hmono, ?_⟩
      cases hf.turn with
      | same heq =>
        rw [heq]
        exact hwaits
      | start _ hnew =>
        intro hn
        have := hnew _ hn
        omega
      | granted g n v heq heq' =>
        rw [heq] at hwaits
        rw [heq']
        exact hwaits
      | stop hnone _ _ =>
        rw [hnone]
        nofun
  · rw [hf.peer _ hx]
    rcases h.messages.arrivals r hr with hact | ⟨hrep, hwaits⟩
    · exact .inl hact
    · exact .inr ⟨hrep.trans hmono, hwaits⟩

theorem Frame.messages : Messages nprocs t := by
  have hhist := hf.history h
  refine ⟨fun a p => ?_, fun r hr => ?_, fun r hr => ?_, fun r hr => ?_, fun r hr => ?_, fun r hr hlive => ?_⟩
  · by_cases ha : a = x
    · subst ha
      exact (hf.rep p).2
    · rw [hf.peer a ha]
      exact (h.messages.rep a p).trans (hf.req_seqnos p)
  · rw [hf.arrivals] at hr
    rcases List.mem_append.mp hr with hr | hr
    · exact hf.arrival h hr
    · obtain ⟨hsender, hact, -⟩ := hf.newArrival r hr
      rw [hsender]
      exact .inl hact
  · rw [hf.arrivals] at hr
    rcases List.mem_append.mp hr with hr | hr
    · exact (h.messages.sent r hr).trans (hf.req_seqnos _)
    · obtain ⟨hsender, -, hle, -⟩ := hf.newArrival r hr
      rw [hsender]
      exact hle
  · rw [hf.arrivals] at hr
    rcases List.mem_append.mp hr with hr | hr
    · exact h.messages.ne r hr
    · obtain ⟨hsender, -, -, hne⟩ := hf.newArrival r hr
      rw [hsender]
      exact hne
  · rw [hf.replies] at hr
    rcases List.mem_append.mp hr with hr | hr
    · exact (h.messages.replies r hr).trans (hf.req_seqnos _)
    · exact (hf.newReply r hr).2.1.trans (hf.req_seqnos _)
  · rw [hf.replies] at hr
    rcases List.mem_append.mp hr with hr | hr
    · exact hf.carries h hr hlive
    · obtain ⟨hne, -, hnew⟩ := hf.newReply r hr
      have hpeer := hf.peer _ hne
      unfold Live at hlive
      rw [hpeer] at hlive
      obtain ⟨ha, htime, hrec, hmet⟩ := hnew hlive
      refine ⟨⟨x, ha⟩, fun i => ?_, ?_, fun req hreq => ?_⟩
      · rw [htime, hhist]
        exact (h.histories.knows x).le i
      · rw [hhist, hpeer]
        exact hrec
      · rw [hpeer] at hreq
        exact hmet req hreq

/-- The invariant after the step of process `x`: what is left to see. -/
theorem Inv.frame (hocc : Occupied nprocs t x (t.peer x).activity)
    (hinv : ∀ q, q ≠ x → (t.peer x).inverse_time_ q ≤ (t.peer x).time x ∧
      Owed nprocs t q x ((t.peer x).inverse_time_ q)) (hbar : ∀ id, BarrierInv nprocs t id) : Inv nprocs t := by
  refine ⟨hf.histories h, hf.messages h, fun p => ?_, fun p q hq => ?_, hbar⟩
  · by_cases hp : p = x
    · subst hp
      exact hocc
    · rw [hf.peer p hp]
      exact hf.occupied h hp (h.occupied p)
  · by_cases hp : p = x
    · subst hp
      exact hinv q hq
    · rw [hf.peer p hp]
      obtain ⟨hle, ho⟩ := h.inverse p q hq
      exact ⟨hle, hf.owed h ho⟩

/-- The intervals that others are said to know, when records have been taken in. -/
theorem Frame.inverse (hl : (t.peer x).inverse_time_ q = (s.peer x).inverse_time_ q ∨
      ∃ iv ∈ s.history q, (t.peer x).inverse_time_ q = iv.vector_time x) (hq : q ≠ x) :
    (t.peer x).inverse_time_ q ≤ (t.peer x).time x ∧ Owed nprocs t q x ((t.peer x).inverse_time_ q) := by
  rcases hl with heq | ⟨iv, hiv, heq⟩
  · obtain ⟨hle, ho⟩ := h.inverse x q hq
    rw [heq]
    exact ⟨hle.trans (hf.time x), hf.owed h ho⟩
  · have hle := h.histories.below q iv hiv x
    rw [heq]
    refine ⟨?_, .inl (hle.trans (hf.times q x))⟩
    rw [hf.own_time h, ← h.histories.length x]
    exact hle.trans ((h.histories.knows q).le x)

end

/-- Nothing happens to process `p` at the barrier. -/
structure Aside (nprocs : Nat) (s t : System) (id : Nat) (p : Proc) : Prop where
  activity : (t.peer p).activity = (s.peer p).activity ∨
    ((∀ req, (s.peer p).activity = .arrived req → req.id ≠ id) ∧
      ∀ req, (t.peer p).activity = .arrived req → req.id ≠ id)
  bit : ((t.peer (manager nprocs id)).mask id).testBit p = ((s.peer (manager nprocs id)).mask id).testBit p
  entered : t.entered p id = s.entered p id
  left : t.left p id = s.left p id
  opened : t.left (manager nprocs id) id = s.left (manager nprocs id) id
  rep : ∀ req, (s.peer p).activity = .arrived req → req.id = id →
    (t.peer (manager nprocs id)).rep_seqno_ p = (s.peer (manager nprocs id)).rep_seqno_ p ∨
    ((s.peer (manager nprocs id)).rep_seqno_ p < req.seqno ∧ (t.peer (manager nprocs id)).rep_seqno_ p < req.seqno)
  req_from : ∀ req, (s.peer p).activity = .arrived req → req.id = id →
    (t.peer (manager nprocs id)).req_from_ p = (s.peer (manager nprocs id)).req_from_ p
  known : ∀ req, (s.peer p).activity = .arrived req → req.id = id →
    ((s.peer (manager nprocs id)).mask id).testBit p = true →
    ((t.peer (manager nprocs id)).mask id).testBit (manager nprocs id) = true →
    (((s.peer (manager nprocs id)).mask id).testBit (manager nprocs id) = true ∧
      (t.peer p).time p = (s.peer p).time p ∧
      (s.peer (manager nprocs id)).time p ≤ (t.peer (manager nprocs id)).time p) ∨
    (t.peer p).time p ≤ (t.peer (manager nprocs id)).time p

theorem Slave.aside (h : Slave nprocs s id p) (ha : Aside nprocs s t id p) : Slave nprocs t id p := by
  -- a process that is at the barrier does what it did
  have hstay : ∀ req, (s.peer p).activity = .arrived req → req.id = id → (t.peer p).activity = .arrived req := by
    intro req hact hid
    rcases ha.activity with heq | ⟨haway, -⟩
    · exact heq.trans hact
    · exact absurd hid (haway req hact)
  cases h with
  | outside haway hbit hent hleft =>
    refine .outside (fun req hact => ?_) (ha.bit.trans hbit) ?_ ?_
    · rcases ha.activity with heq | ⟨-, haway'⟩
      · exact haway req (heq ▸ hact)
      · exact haway' req hact
    · rw [ha.entered, ha.opened, hent]
    · rw [ha.left, ha.opened, hleft]
  | sent req hact hid hrep hbit hent hleft =>
    refine .sent req (hstay req hact hid) hid ?_ (ha.bit.trans hbit) ?_ ?_
    · rcases ha.rep req hact hid with heq | ⟨-, hlt⟩
      · rw [heq]
        exact hrep
      · exact hlt
    · rw [ha.entered, ha.opened, hent]
    · rw [ha.left, ha.opened, hleft]
  | handled req hact hid hrep hbit hfrom hent hleft hknown =>
    refine .handled req (hstay req hact hid) hid ?_ (ha.bit.trans hbit) ((ha.req_from req hact hid).trans hfrom) ?_ ?_
      fun hown => ?_
    · rcases ha.rep req hact hid with heq | ⟨hlt, -⟩
      · rw [heq, hrep]
      · omega
    · rw [ha.entered, ha.opened, hent]
    · rw [ha.left, ha.opened, hleft]
    · rcases ha.known req hact hid hbit hown with ⟨hown', htime, hle⟩ | hle
      · rw [htime]
        exact (hknown hown').trans hle
      · exact hle
  | opened req hact hid hrep hbit hent hleft =>
    refine .opened req (hstay req hact hid) hid ?_ (ha.bit.trans hbit) ?_ ?_
    · rcases ha.rep req hact hid with heq | ⟨hlt, -⟩
      · rw [heq, hrep]
      · omega
    · rw [ha.entered, ha.opened, hent]
    · rw [ha.left, ha.opened, hleft]

/-- Nothing happens at the barrier. -/
structure Apart (nprocs : Nat) (s t : System) (id : Nat) : Prop where
  slave : ∀ p : Proc, p < nprocs → p ≠ manager nprocs id → Aside nprocs s t id p
  mask : (t.peer (manager nprocs id)).mask id = (s.peer (manager nprocs id)).mask id
  spinning : (t.peer (manager nprocs id)).activity = .spinning id ↔
    (s.peer (manager nprocs id)).activity = .spinning id
  entered : ∀ p, t.entered p id = s.entered p id
  left : ∀ p, t.left p id = s.left p id
  time : ∀ p i, (s.peer p).time i ≤ (t.peer p).time i

theorem BarrierInv.apart (h : BarrierInv nprocs s id) (ha : Apart nprocs s t id) : BarrierInv nprocs t id where
  bits j := by
    rw [ha.mask]
    exact h.bits j
  manager := by
    rw [ha.mask, ha.spinning, ha.entered, ha.left, ne_eq, ha.spinning]
    exact h.manager
  slave p hp hm := (h.slave p hp hm).aside (ha.slave p hp hm)
  met p hp := by
    rw [ha.left]
    refine (h.met p hp).mono (ha.time p) fun p' => ?_
    rw [ha.entered]

end Frame

end Tmk.Barriers
