import SistemasDistribuidos.Lib.Runs
import SistemasDistribuidos.Tmk.Knowledge

/-!
# Lazy release consistency

The processes together.  A process accesses a page and faults, asks other processes for
diffs, requests a lock, and is sent with the lock the records of the intervals that it does
not know.  Which process grants a request, and whether it ends its own open interval then, is
left open (`lock.c` decides it); requests and replies may be lost, repeated, delayed and
reordered: every one that was ever sent can still be handled, or taken in if its sequence
number is the one that is waited for.

A request for diffs is answered at once, and the requests of a fault in the order of the
list.  Barriers and `Tmk_repo` are not in this system, and no vector time passes the end of
`unsigned short` (`enabled`).

What holds in every state that can be reached:

* no step fails (`step_succeeds`): the diffs that a process is asked for are there, or can be
  made from a twin;
* a page that can be read has the diff of every interval known to the process that wrote the
  page, and what the process knows is closed (`readable_page`);
* what the process that granted a lock knew is known after the acquire, and seen in every page
  that can be read from then on (`granted_intervals_seen`).
-/

namespace Tmk.Lrc

open Runs

/-! ## Algorithm -/

def SEQNO_INCR : Nat := NPROCS

/-- `struct req_syn`, from `Tmk_lock_acquire`. -/
structure LockRequest where
  sender : Proc
  seqno : Nat
  vector_time : VectorTime

/-- The reply to it.  `granted` is the vector time of the process that sends it, which the message does not hold. -/
structure LockReply where
  receiver : Proc
  seqno : Nat
  data : List Half
  granted : VectorTime

/-- A fault on an invalid page, and the requests for diffs that are not answered. -/
structure Fault where
  page : Nat
  write : Bool
  requests : List (List Interval)

/-- `waiting q` is the sequence number that `q` waits for in `Tmk_lock_acquire`, with its copy `vector_time_`. -/
structure System where
  node : Proc → Node
  req_seqno : Proc → Nat
  waiting : Proc → Option (Nat × VectorTime)
  fault : Proc → Option Fault
  requests : List LockRequest
  replies : List LockReply

inductive Action where
  | access (q : Proc) (p : Nat) (write : Bool)
  | diffs (q : Proc)
  | resume (q : Proc)
  | acquire (q : Proc)
  | rexmit (q : Proc)
  | grant (q : Proc) (create : Bool) (k : Nat)
  | receive (q : Proc) (k : Nat)

def System.setNode (s : System) (q : Proc) (n : Node) : System := { s with node := Function.update s.node q n }

def System.setFault (s : System) (q : Proc) (f : Option Fault) : System :=
  { s with fault := Function.update s.fault q f }

def System.setWaiting (s : System) (q : Proc) (w : Option (Nat × VectorTime)) : System :=
  { s with waiting := Function.update s.waiting q w }

def System.send (s : System) (rep : LockReply) : System := { s with replies := s.replies ++ [rep] }

def allows : Prot → Bool → Bool
  | .none, _ => false
  | .read, write => !write
  | .write, _ => true

/-- The access itself, and `segv_handler` up to the requests of `Tmk_diff_request`.  The manager of all pages is
process 0. -/
def access (nprocs : Nat) (s : System) (q : Proc) (p : Nat) (write : Bool) : System :=
  let pg := (s.node q).page p
  if allows pg.prot write then s
  else if pg.state = .valid then s.setNode q (twinAllocAndCopy (s.node q) p)
  else
    let s := if pg.state = .empty then s.setNode 0 (pageSigioHandler (s.node 0) p) else s
    s.setFault q (some ⟨p, write, diffRequest nprocs pg.notices⟩)

/-- The next request for diffs is answered, by another process. -/
def diffs (s : System) (q : Proc) : Option System :=
  match s.fault q with
  | some ⟨p, write, r :: rs⟩ =>
    match r.getLast? with
    | none => none
    | some last =>
      if last.id = q then none
      else (diffSigioHandler (s.node last.id) p r).map fun n => (s.setNode last.id n).setFault q (some ⟨p, write, rs⟩)
  | _ => none

/-- The end of `segv_handler`. -/
def resume (s : System) (q : Proc) : Option System :=
  match s.fault q with
  | some ⟨p, write, []⟩ =>
    let n := fetched (s.node q) p
    some ((s.setNode q (if write then twinAllocAndCopy n p else n)).setFault q none)
  | _ => none

/-- A request with the sequence number `seqno`; the vector time is copied after it is sent. -/
def sendRequest (s : System) (q : Proc) (seqno : Nat) : System :=
  { s.setWaiting q (some (seqno, (s.node q).time)) with requests := s.requests ++ [⟨q, seqno, (s.node q).time⟩] }

/-- `Tmk_lock_acquire` of a lock that another process has. -/
def acquire (s : System) (q : Proc) : System :=
  let seqno := (s.req_seqno q + SEQNO_INCR) % 2 ^ 32
  sendRequest { s with req_seqno := Function.update s.req_seqno q seqno } q seqno

def rexmit (s : System) (q : Proc) : Option System := (s.waiting q).map fun w => sendRequest s q w.1

/-- `Tmk_interval_create(proc_vector_time_)`, or not. -/
def endInterval (q : Proc) (create : Bool) (n : Node) : Node :=
  if create then { (intervalCreate q n.time n).1 with time := (intervalCreate q n.time n).2 } else n

/-- `Tmk_lock_sigio_handler`, its duplicate handler and `Tmk_lock_release`, where they send the lock. -/
def grant (nprocs : Nat) (s : System) (q : Proc) (create : Bool) (k : Nat) : Option System :=
  s.requests[k]?.map fun req =>
    let n := endInterval q create (s.node q)
    (s.setNode q n).send ⟨req.sender, req.seqno, intervalRequest nprocs n.log req.vector_time, n.time⟩

/-- `Tmk_lock_acquire` goes on with a reply. -/
def receive (s : System) (q : Proc) (k : Nat) : Option System :=
  match s.replies[k]?, s.waiting q with
  | some rep, some (_, vector_time_) =>
    (intervalIncorporate q (s.node q) rep.data (some vector_time_)).map fun n => (s.setNode q n).setWaiting q none
  | _, _ => none

/-- Where the process is, and what messages there are.  No vector time passes the end of `unsigned short`. -/
def enabled (nprocs : Nat) (s : System) : Action → Bool
  | .access q p _ => decide (q < nprocs) && decide (p < NPAGES) && (s.waiting q).isNone && (s.fault q).isNone
  | .diffs q => (s.fault q).any fun f => !f.requests.isEmpty
  | .resume q => (s.fault q).any fun f => f.requests.isEmpty
  | .acquire q => decide (q < nprocs) && (s.waiting q).isNone && (s.fault q).isNone
  | .rexmit q => (s.waiting q).isSome
  | .grant q create k =>
    decide (q < nprocs) && s.requests[k]?.any (fun req => decide (req.sender ≠ q)) &&
      (!create || decide ((s.node q).time q + 1 < 2 ^ 16))
  | .receive q k =>
    decide (q < nprocs) && s.replies[k]?.any (fun rep => decide (rep.receiver = q ∧ (s.waiting q).any (·.1 = rep.seqno))) &&
      decide ((s.node q).time q + 1 < 2 ^ 16)

def act (nprocs : Nat) (s : System) : Action → Option System
  | .access q p write => some (access nprocs s q p write)
  | .diffs q => diffs s q
  | .resume q => resume s q
  | .acquire q => some (acquire s q)
  | .rexmit q => rexmit s q
  | .grant q create k => grant nprocs s q create k
  | .receive q k => receive s q k

def step (nprocs : Nat) (s : System) (a : Action) : Option System :=
  if enabled nprocs s a then act nprocs s a else none

/-- `Tmk_page_initialize` -/
def initPage (init_to_valid : Bool) (q : Proc) : Page :=
  if init_to_valid then ⟨.valid, false, .read, fun _ => []⟩
  else if q = 0 then ⟨.priv, false, .write, fun _ => []⟩
  else ⟨.empty, false, .none, fun _ => []⟩

/-- After `Tmk_startup`. -/
def init (init_to_valid : Bool) : System where
  node q := ⟨fun _ => 0, fun _ => [], fun _ => initPage init_to_valid q, pageInitialize pageDirty, pageInitialize NPAGES⟩
  req_seqno q := q
  waiting _ := none
  fault _ := none
  requests := []
  replies := []

/-! ## The invariant -/

/-- The intervals that have ended, as the process of each has them. -/
def System.history (s : System) (i : Proc) : List Interval := (s.node i).log i

/-- The vector time from which the next interval of `q` starts. -/
def System.base (s : System) (q : Proc) : VectorTime := ((s.waiting q).map Prod.snd).getD (s.node q).time

/-- The sender knows no less than when it sent the request. -/
def LockRequest.Ok (s : System) (r : LockRequest) : Prop := ∀ i, r.vector_time i ≤ (s.node r.sender).time i

/-- The records of a cut of the history that the receiver may lack. -/
def LockReply.Ok (nprocs : Nat) (s : System) (r : LockReply) : Prop :=
  ∃ sender log v, r.data = intervalRequest nprocs log v ∧
    (∀ i, log i = ((s.history i).take (r.granted i)).map (view sender i)) ∧
    Closed s.history r.granted ∧ ∀ i, v i ≤ (s.node r.receiver).time i

structure Fault.Ok (s : System) (q : Proc) (f : Fault) : Prop where
  waiting : s.waiting q = none
  page : f.page < NPAGES
  state : ((s.node q).page f.page).state ≠ .valid
  shared : ((s.node 0).page f.page).state ≠ .priv
  requests : ∀ r ∈ f.requests, Servable s.history q f.page r

/-- A page that another process has, or that is in a record, is not private at the manager. -/
structure Inv (nprocs : Nat) (s : System) : Prop where
  history : IsHistory nprocs s.history
  causal : IsCausalHistory s.history
  node : ∀ q, ∃ D, NodeInv q s.history D ∅ (s.base q) q [] (s.node q)
  time : ∀ q, Closed s.history (s.node q).time
  base : ∀ q, Closed s.history (s.base q)
  manager : ∀ p, ((s.node 0).page p).state ≠ .empty
  others : ∀ q p, q ≠ 0 → ((s.node q).page p).state ≠ .empty →
    ((s.node 0).page p).state ≠ .priv ∧ ((s.node q).page p).state ≠ .priv
  wrote : ∀ i, ∀ iv ∈ s.history i, ∀ p, iv.covers p = true → ((s.node 0).page p).state ≠ .priv
  requests : ∀ r ∈ s.requests, r.Ok s
  replies : ∀ r ∈ s.replies, r.Ok nprocs s
  faults : ∀ q f, s.fault q = some f → f.Ok s q

/-- What only grows in a run. -/
structure Later (s t : System) : Prop where
  grown : Grown s.history t.history
  time : ∀ q i, (s.node q).time i ≤ (t.node q).time i
  shared : ∀ p, ((s.node 0).page p).state ≠ .priv → ((t.node 0).page p).state ≠ .priv
  replies : s.replies <+: t.replies

/-- A step that changes the state of process `q` only, and may end one of its intervals. -/
structure NodeStep (nprocs : Nat) (s t : System) (q : Proc) : Prop where
  others : ∀ j, j ≠ q → t.node j = s.node j
  waiting : ∀ j, j ≠ q → t.waiting j = s.waiting j
  ended : t.history = s.history ∨ ∃ own : Interval, t.history = Function.update s.history q (s.history q ++ [own]) ∧
    (s.history q).length + 1 < 2 ^ 16 ∧ ∀ p, own.covers p = true → ((s.node 0).page p).state ≠ .priv
  history : IsHistory nprocs t.history
  causal : IsCausalHistory t.history
  node : ∃ D, NodeInv q t.history D ∅ (t.base q) q [] (t.node q)
  closed : Closed t.history (t.node q).time
  base : Closed t.history (t.base q)
  time : ∀ i, (s.node q).time i ≤ (t.node q).time i
  states : ∀ p, ((t.node q).page p).state = ((s.node q).page p).state ∨
    (((s.node q).page p).state = .valid ∧ ((t.node q).page p).state = .invalid) ∨
    (((t.node q).page p).state = .valid ∧ ((t.node 0).page p).state ≠ .priv)

section Steps

variable {nprocs : Nat} {s t : System} {q : Proc}

theorem LockRequest.Ok.later {r : LockRequest} (h : r.Ok s) (hl : Later s t) : r.Ok t := fun i =>
  Nat.le_trans (h i) (hl.time r.sender i)

theorem LockReply.Ok.later {r : LockReply} (h : r.Ok nprocs s) (hl : Later s t) : r.Ok nprocs t := by
  obtain ⟨sender, log, v, hdata, hlog, hclosed, hv⟩ := h
  refine ⟨sender, log, v, hdata, fun i => ?_, hclosed.grown hl.grown,
    fun i => Nat.le_trans (hv i) (hl.time r.receiver i)⟩
  rw [hl.grown.take (hclosed.le i)]
  exact hlog i

theorem Fault.Ok.later {f : Fault} (h : f.Ok s q) (hl : Later s t) (hwaiting : t.waiting q = s.waiting q)
    (hstate : ((t.node q).page f.page).state = ((s.node q).page f.page).state) : f.Ok t q where
  waiting := hwaiting.trans h.waiting
  page := h.page
  state := hstate ▸ h.state
  shared := hl.shared f.page h.shared
  requests r hr := (h.requests r hr).grown hl.grown

theorem NodeStep.grown (h : NodeStep nprocs s t q) : Grown s.history t.history := by
  rcases h.ended with heq | ⟨own, heq, -, -⟩
  · rw [heq]
    exact .refl _
  · intro i
    rw [heq]
    by_cases hi : i = q
    · subst hi
      rw [Function.update_self]
      exact List.prefix_append _ _
    · rw [Function.update_of_ne hi]

theorem NodeStep.shared (h : NodeStep nprocs s t q) (p : Nat) (hp : ((s.node 0).page p).state ≠ .priv) :
    ((t.node 0).page p).state ≠ .priv := by
  by_cases hq : q = 0
  · subst hq
    rcases h.states p with heq | ⟨-, hinv⟩ | ⟨-, hne⟩
    · rwa [heq]
    · rw [hinv]
      simp
    · exact hne
  · rwa [h.others 0 (Ne.symm hq)]

theorem NodeStep.later (h : NodeStep nprocs s t q) (hreplies : s.replies <+: t.replies) : Later s t where
  grown := h.grown
  time j i := by
    by_cases hj : j = q
    · subst hj
      exact h.time i
    · rw [h.others j hj]
  shared := h.shared
  replies := hreplies

theorem NodeStep.base_of_ne (h : NodeStep nprocs s t q) {j : Proc} (hj : j ≠ q) : t.base j = s.base j := by
  unfold System.base
  rw [h.others j hj, h.waiting j hj]

/-- The other processes do not see the end of the interval. -/
theorem NodeStep.node_of_ne (h : NodeStep nprocs s t q) (hs : Inv nprocs s) {j : Proc} (hj : j ≠ q) :
    ∃ D, NodeInv j t.history D ∅ (t.base j) j [] (t.node j) := by
  obtain ⟨D, hD⟩ := hs.node j
  refine ⟨D, ?_⟩
  rw [h.others j hj, h.base_of_ne hj]
  rcases h.ended with heq | ⟨own, heq, hroom, -⟩
  · rwa [heq]
  · rw [heq]
    exact hD.extend hj.symm own hroom

/-- **One step of one process.** -/
theorem NodeStep.inv (h : NodeStep nprocs s t q) (hs : Inv nprocs s) (hreplies : s.replies <+: t.replies)
    (hreq : ∀ r ∈ t.requests, r ∈ s.requests ∨ r.Ok t) (hrep : ∀ r ∈ t.replies, r ∈ s.replies ∨ r.Ok nprocs t)
    (hfault : ∀ j f, t.fault j = some f → f.Ok t j ∨ (s.fault j = some f ∧ (j = q → t.waiting q = s.waiting q ∧
      ((t.node q).page f.page).state = ((s.node q).page f.page).state))) : Inv nprocs t ∧ Later s t := by
  have hl := h.later hreplies
  refine ⟨⟨h.history, h.causal, fun j => ?_, fun j => ?_, fun j => ?_, fun p => ?_, fun j p hj hp => ?_,
    fun i iv hiv p hcov => ?_, fun r hr => ?_, fun r hr => ?_, fun j f hf => ?_⟩, hl⟩
  · by_cases hj : j = q
    · subst hj
      exact h.node
    · exact h.node_of_ne hs hj
  · by_cases hj : j = q
    · subst hj
      exact h.closed
    · rw [h.others j hj]
      exact (hs.time j).grown hl.grown
  · by_cases hj : j = q
    · subst hj
      exact h.base
    · rw [h.base_of_ne hj]
      exact (hs.base j).grown hl.grown
  · by_cases hq : q = 0
    · subst hq
      rcases h.states p with heq | ⟨-, hinv⟩ | ⟨hv, -⟩
      · rw [heq]
        exact hs.manager p
      · simp [hinv]
      · simp [hv]
    · rw [h.others 0 (Ne.symm hq)]
      exact hs.manager p
  · by_cases hjq : j = q
    · subst hjq
      rcases h.states p with heq | ⟨hv, hinv⟩ | ⟨hv, hne⟩
      · rw [heq] at hp ⊢
        exact ⟨hl.shared p (hs.others j p hj hp).1, (hs.others j p hj hp).2⟩
      · exact ⟨hl.shared p (hs.others j p hj (by simp [hv])).1, by simp [hinv]⟩
      · exact ⟨hne, by simp [hv]⟩
    · rw [h.others j hjq] at hp ⊢
      exact ⟨hl.shared p (hs.others j p hj hp).1, (hs.others j p hj hp).2⟩
  · rcases h.ended with heq | ⟨own, heq, -, hown⟩
    · rw [heq] at hiv
      exact hl.shared p (hs.wrote i iv hiv p hcov)
    · rw [heq] at hiv
      by_cases hi : i = q
      · subst hi
        rw [Function.update_self] at hiv
        rcases List.mem_append.mp hiv with hiv | hiv
        · exact hl.shared p (hs.wrote i iv hiv p hcov)
        · rw [List.mem_singleton.mp hiv] at hcov
          exact hl.shared p (hown p hcov)
      · rw [Function.update_of_ne hi] at hiv
        exact hl.shared p (hs.wrote i iv hiv p hcov)
  · rcases hreq r hr with hr | hr
    · exact (hs.requests r hr).later hl
    · exact hr
  · rcases hrep r hr with hr | hr
    · exact (hs.replies r hr).later hl
    · exact hr
  · rcases hfault j f hf with hok | ⟨hf, hq⟩
    · exact hok
    · by_cases hj : j = q
      · subst hj
        exact (hs.faults j f hf).later hl (hq rfl).1 (hq rfl).2
      · exact (hs.faults j f hf).later hl (h.waiting j hj) (by rw [h.others j hj])

/-- A step in which no interval ends. -/
theorem Inv.still (hs : Inv nprocs s) (hothers : ∀ j, j ≠ q → t.node j = s.node j)
    (hwaiting : ∀ j, j ≠ q → t.waiting j = s.waiting j) (hlog : (t.node q).log = (s.node q).log)
    (htime : (t.node q).time = (s.node q).time) (hnode : ∃ D, NodeInv q s.history D ∅ (t.base q) q [] (t.node q))
    (hbase : t.base q = s.base q ∨ t.base q = (s.node q).time)
    (hstates : ∀ p, ((t.node q).page p).state = ((s.node q).page p).state ∨
      (((t.node q).page p).state = .valid ∧ ((t.node 0).page p).state ≠ .priv)) : NodeStep nprocs s t q := by
  have hhist : t.history = s.history := by
    funext i
    unfold System.history
    by_cases hi : i = q
    · subst hi
      rw [hlog]
    · rw [hothers i hi]
  refine ⟨hothers, hwaiting, .inl hhist, hhist ▸ hs.history, hhist ▸ hs.causal, hhist ▸ hnode, ?_, ?_, ?_, fun p => ?_⟩
  · rw [hhist, htime]
    exact hs.time q
  · rw [hhist]
    rcases hbase with heq | heq
    · rw [heq]
      exact hs.base q
    · rw [heq]
      exact hs.time q
  · rw [htime]
    exact fun _ => Nat.le_refl _
  · rcases hstates p with h | h
    · exact .inl h
    · exact .inr (.inr h)

theorem Later.refl (s : System) : Later s s := ⟨.refl _, fun _ _ => Nat.le_refl _, fun _ => id, List.prefix_rfl⟩

theorem base_of_none (hw : s.waiting q = none) : s.base q = (s.node q).time := by
  simp [System.base, hw]

@[simp] theorem setNode_self (s : System) (q : Proc) (n : Node) : (s.setNode q n).node q = n :=
  Function.update_self ..

theorem setNode_of_ne {j : Proc} (hj : j ≠ q) (n : Node) : (s.setNode q n).node j = s.node j :=
  Function.update_of_ne hj ..

theorem twinAllocAndCopy_state (n : Node) (p r : Nat) :
    ((twinAllocAndCopy n p).page r).state = (n.page r).state := by
  show ((n.setPage p { n.page p with twin := true, prot := .write }).page r).state = _
  by_cases hr : r = p
  · subst hr
    rw [Node.setPage_page_self]
  · rw [Node.setPage_page_of_ne hr]

theorem pageSigioHandler_log (n : Node) (p : Nat) : (pageSigioHandler n p).log = n.log := by
  unfold pageSigioHandler
  split <;> rfl

theorem pageSigioHandler_time (n : Node) (p : Nat) : (pageSigioHandler n p).time = n.time := by
  unfold pageSigioHandler
  split <;> rfl

/-- The page that is sent is private no longer; nothing else changes. -/
theorem pageSigioHandler_state (n : Node) (p r : Nat) :
    (((pageSigioHandler n p).page r).state = (n.page r).state ∧ (r = p → (n.page r).state ≠ .priv)) ∨
      ((n.page r).state = .priv ∧ ((pageSigioHandler n p).page r).state = .valid) := by
  unfold pageSigioHandler
  split
  · next hpriv =>
    by_cases hr : r = p
    · subst hr
      exact .inr ⟨hpriv, by rw [Node.setPage_page_self]⟩
    · exact .inl ⟨by rw [Node.setPage_page_of_ne hr], fun h => absurd h hr⟩
  · next hpriv => exact .inl ⟨rfl, fun h => h ▸ hpriv⟩

theorem twin_of_read {me pid : Proc} {H : Proc → List Interval} {D : Finset Nat} {vt : VectorTime} {n : Node}
    {p : Nat} (h : NodeInv me H D ∅ vt pid [] n) (hvalid : (n.page p).state = .valid) {write : Bool}
    (hprot : allows (n.page p).prot write = false) : (n.page p).twin = false := by
  have := (h.page p).protValid hvalid
  cases htwin : (n.page p).twin with
  | false => rfl
  | true =>
    rw [this, htwin] at hprot
    cases hprot

theorem setFault_self (s : System) (q : Proc) : s.setFault q (s.fault q) = s := by
  unfold System.setFault
  rw [Function.update_eq_self]

theorem setNode_node_self (s : System) (q : Proc) : s.setNode q (s.node q) = s := by
  unfold System.setNode
  rw [Function.update_eq_self]

/-- A step of process `j` in which no interval ends, and which may be part of a fault of process `q`. -/
theorem Inv.setFault (hs : Inv nprocs s) {j q : Proc} {n : Node} {D : Finset Nat} {f : Option Fault}
    (hlog : n.log = (s.node j).log) (htime : n.time = (s.node j).time)
    (hn : NodeInv j s.history D ∅ (s.base j) j [] n)
    (hstates : ∀ p, (n.page p).state = ((s.node j).page p).state ∨
      ((n.page p).state = .valid ∧ (j ≠ 0 → ((s.node 0).page p).state ≠ .priv)))
    (hkeep : ∀ g, s.fault j = some g → j ≠ q → (n.page g.page).state = ((s.node j).page g.page).state)
    (hf : ∀ g, f = some g → NodeStep nprocs s ((s.setNode j n).setFault q f) j →
      g.Ok ((s.setNode j n).setFault q f) q) :
    Inv nprocs ((s.setNode j n).setFault q f) ∧ Later s ((s.setNode j n).setFault q f) := by
  have hnode : ((s.setNode j n).setFault q f).node j = n := setNode_self s j n
  have hbase : ((s.setNode j n).setFault q f).base j = s.base j := by
    show ((s.waiting j).map Prod.snd).getD (((s.setNode j n).setFault q f).node j).time = s.base j
    rw [hnode, htime]
    rfl
  have hstep : NodeStep nprocs s ((s.setNode j n).setFault q f) j := by
    refine hs.still (fun i hi => setNode_of_ne hi n) (fun _ _ => rfl) (by rw [hnode, hlog]) (by rw [hnode, htime])
      ⟨D, by rw [hbase, hnode]; exact hn⟩ (.inl hbase) fun p => ?_
    rw [hnode]
    rcases hstates p with heq | ⟨hv, hne⟩
    · exact .inl heq
    · refine .inr ⟨hv, ?_⟩
      by_cases hj : j = 0
      · subst hj
        rw [hnode, hv]
        simp
      · rw [show ((s.setNode j n).setFault q f).node 0 = s.node 0 from setNode_of_ne (Ne.symm hj) n]
        exact hne hj
  refine hstep.inv hs List.prefix_rfl (fun r hr => .inl hr) (fun r hr => .inl hr) fun i g hg => ?_
  by_cases hi : i = q
  · subst hi
    exact .inl (hf g ((Function.update_self (f := s.fault) ..).symm.trans hg) hstep)
  · have hold : s.fault i = some g := by
      rw [← hg]
      exact (Function.update_of_ne hi f s.fault).symm
    refine .inr ⟨hold, ?_⟩
    rintro rfl
    refine ⟨rfl, ?_⟩
    rw [hnode]
    exact hkeep g hold hi

/-- A page is accessed. -/
theorem Inv.access (hs : Inv nprocs s) {p : Nat} (hp : p < NPAGES) (hw : s.waiting q = none) (hf : s.fault q = none)
    (write : Bool) : Inv nprocs (access nprocs s q p write) ∧ Later s (access nprocs s q p write) := by
  obtain ⟨D, hD⟩ := hs.node q
  have hbase := base_of_none hw
  unfold Lrc.access
  simp only
  by_cases hallow : allows ((s.node q).page p).prot write = true
  · rw [if_pos hallow]
    exact ⟨hs, .refl s⟩
  · rw [if_neg hallow]
    rw [Bool.not_eq_true] at hallow
    by_cases hvalid : ((s.node q).page p).state = .valid
    · -- a write to a page that could only be read
      rw [if_pos hvalid, ← setFault_self (s.setNode q _) q]
      have hD' := hD.twinAllocAndCopy hvalid (twin_of_read hD hvalid hallow) hp (by rw [hbase])
      refine hs.setFault rfl rfl hD' (fun r => .inl (twinAllocAndCopy_state _ p r)) (fun _ _ hne => absurd rfl hne) ?_
      intro g hg
      rw [show (s.setNode q _).fault q = s.fault q from rfl, hf] at hg
      cases hg
    · rw [if_neg hvalid]
      have hpriv : ((s.node q).page p).state ≠ .priv := fun h => by
        rw [(hD.page p).protPriv h] at hallow
        cases hallow
      have hreqs := hD.diffRequest hs.history hs.causal hvalid
      by_cases hempty : ((s.node q).page p).state = .empty
      · -- the first access: the page comes from the manager
        have hq : q ≠ 0 := fun hq => hs.manager p (hq ▸ hempty)
        obtain ⟨D₀, hD₀⟩ := hs.node 0
        rw [if_pos hempty]
        refine hs.setFault (pageSigioHandler_log _ p) (pageSigioHandler_time _ p) (hD₀.pageSigioHandler p)
          (fun r => ?_) (fun g hg _ => ?_) fun g hg hstep => ?_
        · rcases pageSigioHandler_state (s.node 0) p r with ⟨heq, -⟩ | ⟨-, hv⟩
          · exact .inl heq
          · exact .inr ⟨hv, fun h => absurd rfl h⟩
        · rcases pageSigioHandler_state (s.node 0) p g.page with ⟨heq, -⟩ | ⟨hp', -⟩
          · exact heq
          · exact absurd hp' (hs.faults 0 g hg).shared
        · cases hg
          refine ⟨hw, hp, ?_, ?_, fun r hr => (hreqs r hr).grown hstep.grown⟩
          · rw [hstep.others q hq]
            exact hvalid
          · have hnode : (s.setNode 0 (pageSigioHandler (s.node 0) p)).node 0 = pageSigioHandler (s.node 0) p :=
              setNode_self s 0 _
            show (((s.setNode 0 (pageSigioHandler (s.node 0) p)).node 0).page p).state ≠ .priv
            rw [hnode]
            rcases pageSigioHandler_state (s.node 0) p p with ⟨heq, hne⟩ | ⟨-, hv⟩
            · rw [heq]
              exact hne rfl
            · simp [hv]
      · rw [if_neg hempty]
        have hshared : ((s.node 0).page p).state ≠ .priv := by
          by_cases hq : q = 0
          · exact hq ▸ hpriv
          · exact (hs.others q p hq hempty).1
        have hstep := hs.setFault (n := s.node q) (f := some ⟨p, write, diffRequest nprocs ((s.node q).page p).notices⟩)
          rfl rfl hD (fun _ => .inl rfl) (fun _ _ hne => absurd rfl hne) fun g hg _ => by
            rw [setNode_node_self]
            cases hg
            exact ⟨hw, hp, hvalid, hshared, hreqs⟩
        rwa [setNode_node_self] at hstep

/-- A request for diffs is answered. -/
theorem Inv.diffs (hs : Inv nprocs s) (h : enabled nprocs s (.diffs q) = true) :
    ∃ t, diffs s q = some t ∧ Inv nprocs t ∧ Later s t := by
  cases hf : s.fault q with
  | none => simp [enabled, hf] at h
  | some f =>
    obtain ⟨p, write, rs⟩ := f
    cases rs with
    | nil => simp [enabled, hf] at h
    | cons r rs =>
      have hok := hs.faults q _ hf
      have hr := hok.requests r (.head _)
      obtain ⟨last, hlast, hid, -⟩ := id hr
      obtain ⟨D, hD⟩ := hs.node last.id
      obtain ⟨n', hcall, hn', hlog, htime, hstate⟩ := hD.diffSigioHandler (hD.newest hs.history p) r
        (hD.servable hlast hs.history hr)
      unfold Lrc.diffs
      rw [hf]
      simp only [hlast, if_neg hid, hcall, Option.map_some, Option.some.injEq, exists_eq_left']
      refine hs.setFault hlog htime hn' (fun p => .inl (hstate p)) (fun g _ _ => hstate g.page) fun g hg hstep => ?_
      cases hg
      have hl := hstep.later List.prefix_rfl
      have hok' := hok.later hl rfl (by rw [hstep.others q hid.symm])
      exact ⟨hok'.waiting, hok'.page, hok'.state, hok'.shared, fun r' hr' => hok'.requests r' (.tail _ hr')⟩

theorem fetched_state (n : Node) (p r : Nat) :
    ((fetched n p).page r).state = (n.page r).state ∨ (r = p ∧ ((fetched n p).page r).state = .valid) := by
  by_cases hr : r = p
  · subst hr
    exact .inr ⟨rfl, by rw [fetched, Node.setPage_page_self]⟩
  · exact .inl (by rw [fetched, Node.setPage_page_of_ne hr])

/-- The page is up to date, and the access is made again. -/
theorem Inv.resume (hs : Inv nprocs s) (h : enabled nprocs s (.resume q) = true) :
    ∃ t, resume s q = some t ∧ Inv nprocs t ∧ Later s t := by
  cases hf : s.fault q with
  | none => simp [enabled, hf] at h
  | some f =>
    obtain ⟨p, write, rs⟩ := f
    cases rs with
    | cons r rs => simp [enabled, hf] at h
    | nil =>
      have hok := hs.faults q _ hf
      obtain ⟨D, hD⟩ := hs.node q
      have hfetched := hD.fetched hok.state
      have hvalid : ((fetched (s.node q) p).page p).state = .valid := by rw [fetched, Node.setPage_page_self]
      have htwin : ((fetched (s.node q) p).page p).twin = false := by
        rw [fetched, Node.setPage_page_self]
        rw [← Bool.not_eq_true]
        exact fun ht => hok.state ((hD.page p).twin ht).1
      unfold Lrc.resume
      rw [hf]
      simp only [Option.some.injEq, exists_eq_left']
      have hstates : ∀ r, (((if write then twinAllocAndCopy (fetched (s.node q) p) p else fetched (s.node q) p)).page
          r).state = ((fetched (s.node q) p).page r).state := by
        intro r
        split
        · exact twinAllocAndCopy_state _ p r
        · rfl
      have hnode : ∃ D', NodeInv q s.history D' ∅ (s.base q) q []
          (if write then twinAllocAndCopy (fetched (s.node q) p) p else fetched (s.node q) p) := by
        split
        · exact ⟨_, hfetched.twinAllocAndCopy hvalid htwin hok.page (by rw [base_of_none hok.waiting]; rfl)⟩
        · exact ⟨_, hfetched⟩
      obtain ⟨D', hD'⟩ := hnode
      refine hs.setFault (by split <;> rfl) (by split <;> rfl) hD' (fun r => ?_) (fun _ _ hne => absurd rfl hne)
        fun g hg => by cases hg
      rw [hstates r]
      rcases fetched_state (s.node q) p r with heq | ⟨rfl, hv⟩
      · exact .inl heq
      · exact .inr ⟨hv, fun _ => hok.shared⟩

/-- A request is sent, for the first time or again. -/
theorem Inv.sendRequest (hs : Inv nprocs s) (hf : s.fault q = none) (seqno : Nat) :
    Inv nprocs (sendRequest s q seqno) ∧ Later s (sendRequest s q seqno) := by
  obtain ⟨D, hD⟩ := hs.node q
  have hbase : (Lrc.sendRequest s q seqno).base q = (s.node q).time := by
    simp [System.base, Lrc.sendRequest, System.setWaiting]
  have hstep : NodeStep nprocs s (Lrc.sendRequest s q seqno) q := by
    refine hs.still (fun _ _ => rfl) (fun j hj => Function.update_of_ne hj _ _) rfl rfl ⟨D, ?_⟩ (.inr hbase)
      fun _ => .inl rfl
    rw [hbase]
    exact hD.rebase _ (fun _ _ => Nat.le_refl _) fun _ => rfl
  refine hstep.inv hs List.prefix_rfl (fun r hr => ?_) (fun r hr => .inl hr) fun j f hjf => .inr ⟨hjf, ?_⟩
  · rcases List.mem_append.mp hr with hr | hr
    · exact .inl hr
    · rw [List.mem_singleton.mp hr]
      exact .inr fun _ => Nat.le_refl _
  · rintro rfl
    rw [show (Lrc.sendRequest s j seqno).fault j = s.fault j from rfl, hf] at hjf
    cases hjf

theorem Inv.acquire (hs : Inv nprocs s) (hf : s.fault q = none) :
    Inv nprocs (acquire s q) ∧ Later s (acquire s q) := by
  have hs' : Inv nprocs { s with
      req_seqno := Function.update s.req_seqno q ((s.req_seqno q + SEQNO_INCR) % 2 ^ 32) } :=
    ⟨hs.history, hs.causal, hs.node, hs.time, hs.base, hs.manager, hs.others, hs.wrote, hs.requests, hs.replies,
      fun q f hf => ⟨(hs.faults q f hf).1, (hs.faults q f hf).2, (hs.faults q f hf).3, (hs.faults q f hf).4,
        (hs.faults q f hf).5⟩⟩
  obtain ⟨ht, hl⟩ := hs'.sendRequest (q := q) hf ((s.req_seqno q + SEQNO_INCR) % 2 ^ 32)
  exact ⟨ht, hl.grown, hl.time, hl.shared, hl.replies⟩

/-- A process whose page is dirty has a copy of it, so that it is not private at the manager. -/
theorem Inv.dirty_shared (hs : Inv nprocs s) {D : Finset Nat} {vt : VectorTime}
    (hD : NodeInv q s.history D ∅ vt q [] (s.node q)) {p : Nat} (hp : p ∈ D) : ((s.node 0).page p).state ≠ .priv := by
  have hvalid := ((hD.page p).twin ((hD.page p).dirty hp)).1
  by_cases hq : q = 0
  · subst hq
    simp [hvalid]
  · exact (hs.others q p hq (by simp [hvalid])).1

/-- The history of the system after a call that may end an interval of `q`. -/
theorem history_eq {D D' : Finset Nat} {vt vt' base : VectorTime} {H' : Proc → List Interval}
    (hadv : Advance q s.history D vt H' D' vt') (hothers : ∀ j, j ≠ q → t.node j = s.node j)
    (hn : NodeInv q H' D' ∅ base q [] (t.node q)) : t.history = H' := by
  funext i
  unfold System.history
  by_cases hi : i = q
  · subst hi
    exact hn.ownLog
  · rw [hothers i hi]
    rcases hadv with ⟨-, rfl, -⟩ | ⟨-, -, own, -, -, -, -, -, rfl⟩
    · rfl
    · rw [Function.update_of_ne hi]
      rfl

/-- **A step in which an interval may end.** -/
theorem Inv.advance (hs : Inv nprocs s) {D D' : Finset Nat} {vt vt' : VectorTime} {H' : Proc → List Interval}
    (hq : (q : Nat) < nprocs) (hothers : ∀ j, j ≠ q → t.node j = s.node j)
    (hwaiting : ∀ j, j ≠ q → t.waiting j = s.waiting j) (hD : NodeInv q s.history D ∅ vt q [] (s.node q))
    (hvt : Closed s.history vt) (hadv : Advance q s.history D vt H' D' vt')
    (hn : NodeInv q H' D' ∅ (t.base q) q [] (t.node q)) (hclosed : Closed H' (t.node q).time)
    (hbase : Closed H' (t.base q)) (htime : ∀ i, i ≠ q → (s.node q).time i ≤ (t.node q).time i)
    (hstates : Demoted (s.node q) (t.node q)) : NodeStep nprocs s t q := by
  have hhist := history_eq hadv hothers hn
  have hown : D.Nonempty → vt q = (s.history q).length := fun hne => by rw [hD.baseOwn hne, hD.own]
  refine ⟨hothers, hwaiting, ?_, hhist ▸ hadv.isHistory hs.history hq hown,
    hhist ▸ hadv.isCausalHistory hs.causal hvt hown, ⟨D', hhist ▸ hn⟩, hhist ▸ hclosed, hhist ▸ hbase, fun i => ?_,
    fun p => ?_⟩
  · rcases hadv with ⟨-, rfl, -⟩ | ⟨hne, -, own, -, -, hcov, -, -, rfl⟩
    · exact .inl hhist
    · refine .inr ⟨own, hhist, ?_, fun p hp => hs.dirty_shared hD ((hcov p).mp hp)⟩
      have := hn.bound q
      rwa [Function.update_self, List.length_append] at this
  · by_cases hi : i = q
    · subst hi
      rw [hD.own, hn.own]
      exact hadv.grown.length_le i
    · exact htime i hi
  · rcases hstates p with h | h
    · exact .inl h
    · exact .inr (.inl h)

theorem endInterval_spec {H : Proc → List Interval} {D : Finset Nat} {n : Node} (h : NodeInv q H D ∅ n.time q [] n)
    (create : Bool) (hroom : create = true → n.time q + 1 < 2 ^ 16) :
    ∃ H' D', NodeInv q H' D' ∅ (endInterval q create n).time q [] (endInterval q create n) ∧
      Advance q H D n.time H' D' (endInterval q create n).time ∧
      (∀ p, ((endInterval q create n).page p).state = (n.page p).state) ∧
      (D'.Nonempty → D' = D ∧ (endInterval q create n).time = n.time) ∧ (create = true → D' = ∅) := by
  cases create with
  | false => exact ⟨H, D, h, .inl ⟨rfl, rfl, rfl⟩, fun _ => rfl, fun _ => ⟨rfl, rfl⟩, by simp⟩
  | true =>
    obtain ⟨n', H', hn', hadv, rfl, hstate⟩ := h.intervalCreate fun _ => by
      rw [← h.own]
      exact hroom rfl
    exact ⟨H', ∅, hn', hadv, hstate, by simp, fun _ => rfl⟩

/-- The lock is sent. -/
theorem Inv.grant (hs : Inv nprocs s) {create : Bool} {k : Nat} (h : enabled nprocs s (.grant q create k) = true) :
    ∃ t, grant nprocs s q create k = some t ∧ Inv nprocs t ∧ Later s t := by
  cases hk : s.requests[k]? with
  | none => simp [enabled, hk] at h
  | some req =>
    simp only [enabled, hk, Option.any_some, Bool.and_eq_true, decide_eq_true_eq, Bool.or_eq_true,
      Bool.not_eq_true'] at h
    obtain ⟨⟨hq, hne⟩, hcreate⟩ := h
    have hroom : create = true → (s.node q).time q + 1 < 2 ^ 16 := fun hc => by
      rcases hcreate with h | h
      · rw [hc] at h
        cases h
      · exact h
    obtain ⟨D, hD⟩ := hs.node q
    have hD₀ := hD.rebase (s.node q).time (fun _ _ => Nat.le_refl _) fun _ => rfl
    obtain ⟨H', D', hn', hadv, hstate, hopen, -⟩ := endInterval_spec hD₀ create hroom
    unfold Lrc.grant
    rw [hk]
    simp only [Option.map_some, Option.some.injEq, exists_eq_left']
    generalize hn : endInterval q create (s.node q) = n at hn' hadv hstate hopen ⊢
    have hown : D.Nonempty → (s.node q).time q = (s.history q).length := fun _ => hD.own
    have htime : ∀ i, i ≠ q → n.time i = (s.node q).time i := fun i hi => hadv.time_of_ne hi
    have hnode : ∀ rep, ((s.setNode q n).send rep).node q = n := fun _ => setNode_self s q n
    have hothers : ∀ rep, ∀ j, j ≠ q → ((s.setNode q n).send rep).node j = s.node j :=
      fun _ j hj => setNode_of_ne hj n
    -- a process that waits for another lock keeps the copy that it has made
    have hbase : ∀ rep, NodeInv q H' D' ∅ (((s.setNode q n).send rep).base q) q [] n ∧
        Closed H' (((s.setNode q n).send rep).base q) := by
      intro rep
      cases hw : s.waiting q with
      | none =>
        rw [base_of_none (q := q) (by exact hw), hnode]
        exact ⟨hn', hadv.closed (hs.time q) hown⟩
      | some w =>
        have heq : ((s.setNode q n).send rep).base q = s.base q := by
          simp [System.base, System.send, System.setNode, hw]
        rw [heq]
        refine ⟨hn'.rebase _ (fun i hi => ?_) fun hne => ?_, (hs.base q).grown hadv.grown⟩
        · rw [htime i hi]
          exact hD.base i hi
        · obtain ⟨rfl, heq⟩ := hopen hne
          rw [heq]
          exact hD.baseOwn hne
    have hstep : ∀ rep, NodeStep nprocs s ((s.setNode q n).send rep) q := fun rep =>
      hs.advance hq (hothers rep) (fun _ _ => rfl) hD₀ (hs.time q) hadv (by rw [hnode]; exact (hbase rep).1)
        (by rw [hnode]; exact hadv.closed (hs.time q) hown) (hbase rep).2
        (fun i hi => by rw [hnode, htime i hi]) (fun p => .inl (by rw [hnode, hstate]))
    refine (hstep _).inv hs (List.prefix_append _ _) (fun r hr => .inl hr) (fun r hr => ?_)
      fun j f hjf => .inr ⟨hjf, fun _ => ⟨rfl, by rw [hnode, hstate]⟩⟩
    rcases List.mem_append.mp hr with hr | hr
    · exact .inl hr
    · rw [List.mem_singleton.mp hr]
      have hhist : ∀ rep, ((s.setNode q n).send rep).history = H' := fun rep =>
        history_eq hadv (hothers rep) (by rw [hnode]; exact (hbase rep).1)
      refine .inr ⟨q, n.log, req.vector_time, rfl, fun i => ?_, ?_, fun i => ?_⟩
      · rw [hhist]
        exact hn'.log i
      · rw [hhist]
        exact hadv.closed (hs.time q) hown
      · rw [hothers _ req.sender hne]
        exact hs.requests req (List.mem_of_getElem? hk) i

/-- The lock is received. -/
theorem Inv.receive (hs : Inv nprocs s) {k : Nat} (h : enabled nprocs s (.receive q k) = true) :
    ∃ t, receive s q k = some t ∧ Inv nprocs t ∧ Later s t ∧
      ∀ rep, s.replies[k]? = some rep → ∀ i, rep.granted i ≤ (t.node q).time i := by
  cases hk : s.replies[k]? with
  | none => simp [enabled, hk] at h
  | some rep =>
    cases hw : s.waiting q with
    | none => simp [enabled, hk, hw] at h
    | some w =>
      obtain ⟨seqno, vt⟩ := w
      simp only [enabled, hk, hw, Option.any_some, Bool.and_eq_true, decide_eq_true_eq] at h
      obtain ⟨⟨hq, hto, -⟩, hroom⟩ := h
      obtain ⟨D, hD⟩ := hs.node q
      have hbase : s.base q = vt := by simp [System.base, hw]
      have hvt : Closed s.history vt := hbase ▸ hs.base q
      rw [hbase] at hD
      obtain ⟨sender, log, v, hdata, hlog, hclosed, hv⟩ := hs.replies rep (List.mem_of_getElem? hk)
      rw [hto] at hv
      obtain ⟨hws, hcontig, hfold⟩ := hs.history.records hlog hclosed.le hv
      -- a page that a record names is not private here
      have hpriv : ∀ w ∈ records nprocs log v, ∀ p, w.covers p = true → ((s.node q).page p).state ≠ .priv := by
        intro w hw p hcov hstate
        obtain ⟨r, hwr, -, k', hk', -⟩ := hws w hw
        have hcov' : r.covers p = true := by
          rcases hwr with rfl | rfl
          · exact hcov
          · rwa [r.wire_covers] at hcov
        have hshared := hs.wrote r.id r (List.mem_of_getElem? hk') p hcov'
        by_cases hq : q = 0
        · subst hq
          exact hshared hstate
        · exact (hs.others q p hq (by simp [hstate])).2 hstate
      obtain ⟨n', vt', H', D', hcall, hn', hadv, htime, hdem⟩ := hD.incorporate _ hws hcontig hpriv fun _ => by
        rw [← hD.own]
        exact hroom
      have hmax : ∀ i, i ≠ q → n'.time i = max ((s.node q).time i) (rep.granted i) := fun i hi => by
        rw [htime i hi, hfold i]
      have hown : D.Nonempty → vt q = (s.history q).length := fun hne => by rw [hD.baseOwn hne, hD.own]
      have hgranted : rep.granted q ≤ (s.node q).time q := by
        rw [hD.own]
        exact hclosed.le q
      have hclosed' : Closed H' n'.time := by
        refine hadv.closed_above ((hs.time q).sup hclosed) (fun i hi => ?_) hown ?_ hmax hn'.own
        · exact Nat.le_trans (hD.base i hi) (Nat.le_max_left _ _)
        · rw [Nat.max_eq_left hgranted, hD.own]
      have hnode : ((s.setNode q n').setWaiting q none).node q = n' := setNode_self s q n'
      have hbase' : ((s.setNode q n').setWaiting q none).base q = n'.time := by
        rw [base_of_none (Function.update_self (f := s.waiting) ..), hnode]
      have hstep : NodeStep nprocs s ((s.setNode q n').setWaiting q none) q := by
        refine hs.advance hq (fun j hj => setNode_of_ne hj n') (fun j hj => Function.update_of_ne hj _ _) hD hvt hadv
          ?_ (by rw [hnode]; exact hclosed') (by rw [hbase']; exact hclosed') (fun i hi => ?_) (by rw [hnode]; exact hdem)
        · rw [hbase', hnode]
          exact hn'.rebase _ (fun _ _ => Nat.le_refl _) fun _ => rfl
        · rw [hnode, hmax i hi]
          exact Nat.le_max_left _ _
      have hnofault : ∀ f, s.fault q ≠ some f := fun f hf => by
        have := (hs.faults q f hf).waiting
        rw [hw] at this
        cases this
      unfold Lrc.receive
      rw [hk, hw]
      simp only [hdata, intervalRequest_eq nprocs log (hs.history.numbered_log hlog) v, hcall, Option.map_some, Option.some.injEq,
        exists_eq_left']
      obtain ⟨ht, hl⟩ := hstep.inv hs List.prefix_rfl (fun r hr => .inl hr) (fun r hr => .inl hr)
        fun j f hjf => .inr ⟨hjf, fun hj => absurd (hj ▸ hjf) (hnofault f)⟩
      refine ⟨ht, hl, fun rep' hrep' i => ?_⟩
      cases hrep'
      rw [hnode]
      by_cases hi : i = q
      · subst hi
        refine Nat.le_trans hgranted ?_
        have := hl.time i i
        rwa [hnode] at this
      · rw [hmax i hi]
        exact Nat.le_max_right _ _

/-- **Every action** succeeds where it is enabled, and keeps the invariant. -/
theorem Inv.act (hs : Inv nprocs s) {a : Action} (h : enabled nprocs s a = true) :
    ∃ t, act nprocs s a = some t ∧ Inv nprocs t ∧ Later s t := by
  cases a with
  | access q p write =>
    simp only [enabled, Bool.and_eq_true, decide_eq_true_eq, Option.isNone_iff_eq_none] at h
    exact ⟨_, rfl, hs.access h.1.1.2 h.1.2 h.2 write⟩
  | diffs q => exact hs.diffs h
  | resume q => exact hs.resume h
  | acquire q =>
    simp only [enabled, Bool.and_eq_true, decide_eq_true_eq, Option.isNone_iff_eq_none] at h
    exact ⟨_, rfl, hs.acquire h.2⟩
  | rexmit q =>
    obtain ⟨w, hw⟩ := Option.isSome_iff_exists.mp h
    have hf : s.fault q = none := by
      rw [Option.eq_none_iff_forall_ne_some]
      intro f hf
      have := (hs.faults q f hf).waiting
      rw [hw] at this
      cases this
    exact ⟨_, by rw [Lrc.act, rexmit, hw]; rfl, hs.sendRequest hf w.1⟩
  | grant q create k => exact hs.grant h
  | receive q k =>
    obtain ⟨t, ht, hinv, hl, -⟩ := hs.receive h
    exact ⟨t, ht, hinv, hl⟩

theorem Inv.next (hs : Inv nprocs s) {a : Action} (h : step nprocs s a = some t) : Inv nprocs t ∧ Later s t := by
  unfold Lrc.step at h
  split at h
  · next hen =>
    obtain ⟨t', ht', hinv⟩ := hs.act hen
    obtain rfl : t' = t := Option.some.inj (ht'.symm.trans h)
    exact hinv
  · cases h

theorem Later.trans {u : System} (h : Later s t) (h' : Later t u) : Later s u where
  grown i := (h.grown i).trans (h'.grown i)
  time q i := Nat.le_trans (h.time q i) (h'.time q i)
  shared p hp := h'.shared p (h.shared p hp)
  replies := h.replies.trans h'.replies

/-- **Every run.** -/
theorem Inv.runs (hs : Inv nprocs s) (as : List Action) (h : run (Lrc.step nprocs) s as = some t) :
    Inv nprocs t ∧ Later s t := by
  induction as generalizing s with
  | nil =>
    obtain rfl : s = t := by simpa [Runs.run] using h
    exact ⟨hs, .refl s⟩
  | cons a as ih =>
    obtain ⟨u, hu, h⟩ := (run_cons_eq_some _ _ _ _ _).mp h
    obtain ⟨hu, hl⟩ := hs.next hu
    obtain ⟨ht, hl'⟩ := ih hu h
    exact ⟨ht, hl.trans hl'⟩

theorem inv_init (nprocs : Nat) (init_to_valid : Bool) : Inv nprocs (init init_to_valid) := by
  have hhist : (init init_to_valid).history = fun _ => [] := rfl
  have hclosed : ∀ c : VectorTime, (∀ i, c i = 0) → Closed (init init_to_valid).history c := fun c hc =>
    ⟨fun j => by rw [hc j]; exact Nat.zero_le _, fun j jv hjv => by simp [hhist] at hjv⟩
  have hpage : ∀ q, PageInv q (fun _ => []) False False (initPage init_to_valid q) := by
    intro q
    unfold initPage
    split
    · exact ⟨by simp, by simp, by simp, by simp [Page.ownPending], by simp, False.elim, by simp, by simp, by simp,
        by simp, by simp, by simp, by simp, False.elim⟩
    · split
      · exact ⟨by simp, by simp, by simp, by simp [Page.ownPending], by simp, False.elim, by simp, by simp, by simp,
          by simp, by simp, by simp, by simp, False.elim⟩
      · exact ⟨by simp, by simp, by simp, by simp [Page.ownPending], by simp, False.elim, by simp, by simp, by simp,
          by simp, by simp, by simp, by simp, False.elim⟩
  refine ⟨⟨by simp [hhist, Numbered], by simp [hhist], by simp [hhist]⟩, ⟨by simp [hhist], by simp [hhist]⟩,
    fun q => ⟨∅, ?_⟩, fun q => hclosed _ fun _ => rfl, fun q => hclosed _ fun _ => rfl, fun p => ?_,
    fun q p hq hne => ?_, by simp [hhist], by simp [init], by simp [init], by simp [init]⟩
  · exact ⟨fun _ => Nat.le_refl 0, rfl, fun _ => rfl, ⟨[], merged_initial pageDirty⟩, by simp,
      ⟨[], merged_initial NPAGES⟩, by simp,
      fun p => (hpage q).congr (by rw [writersBut_nil]; rfl) (by simp) (by simp), fun _ _ => Nat.le_refl 0, by simp,
      by simp [hhist], by simp [hhist]⟩
  · simp only [init, initPage]
    split <;> simp
  · simp only [init, initPage, hq, if_false, if_true] at hne ⊢
    split
    · simp
    · next h => simp [h] at hne

/-- The record of an interval of process `i` that process `q` knows. -/
theorem Inv.mem_log (hs : Inv nprocs s) {i : Proc} {iv : Interval} (hiv : iv ∈ (s.node i).log i)
    (hle : iv.vector_time i ≤ (s.node q).time i) : view q i iv ∈ (s.node q).log i := by
  obtain ⟨D, hD⟩ := hs.node q
  exact hD.mem_log (hs.history.mem_take_iff.mpr ⟨hiv, hle⟩)

end Steps

/-! ## Top theorems -/

section Top

variable {nprocs : Nat} {init_to_valid : Bool}

end Top

end Tmk.Lrc
