import SistemasDistribuidos.Lib.Meet
import SistemasDistribuidos.Tmk.BarrierCalls

/-!
# Rounds: arrivals come, the manager opens the barrier, everybody goes

An arrival that comes is new or has been handled.  When it is new, its sender waits with it.  The manager takes the
records in only when it is at the barrier itself; then nothing is on its way to it, so that it has all that the sender
thinks it has, and there is no gap (`Inv.arrival_records`).  When the manager opens the barrier it knows all that was
done before (`Inv.met_all`), and a process that is let go may say that everybody will know what it had done
(`Inv.told`).
-/

namespace Tmk.Barriers

open Runs

/-! ## Lemmas -/

section Lemmas

variable {nprocs : Nat} {s t : System} {x p q j : Proc} {id : Nat} {y : Peer} {req : Arrival} {r : Reply}
  {H : Proc → List Interval}

/-! ### Arrivals -/

/-- An arrival with a new number is the one that its sender waits with. -/
theorem Inv.arrival_new (h : Inv nprocs s) (hmem : req ∈ s.arrivals)
    (hnew : (s.peer (manager nprocs req.id)).rep_seqno_ req.sender < req.seqno) :
    (s.peer req.sender).activity = .arrived req := by
  rcases h.messages.arrivals req hmem with hact | ⟨hle, -⟩
  · exact hact
  · omega

/-- What the manager knows after an arrival: with its own bit set, all that the sender had done. -/
theorem barrierSigioHandler_learns (me : Proc) (req : Arrival) (hH : ∀ i, Numbered i (H i)) (hy : Knows H y)
    (hreq : ((y.mask req.id ||| 1 <<< req.sender.val).testBit me = true) →
      ∃ e ≤ y.time req.sender, req.records = (H req.sender).drop e) :
    Learns me H { y with mask := Function.update y.mask req.id (y.mask req.id ||| 1 <<< req.sender.val) }
        (barrierSigioHandler me y req) ∧
      (((y.mask req.id ||| 1 <<< req.sender.val).testBit me = true ∧
          (H req.sender).length ≤ (barrierSigioHandler me y req).time req.sender) ∨
        ((y.mask req.id ||| 1 <<< req.sender.val).testBit me = false ∧
          (barrierSigioHandler me y req).time = y.time)) := by
  have hknows : Knows H { y with mask := Function.update y.mask req.id (y.mask req.id ||| 1 <<< req.sender.val) } :=
    ⟨hy.le, hy.log⟩
  unfold barrierSigioHandler
  simp only [Function.update_self]
  split
  · next hbit =>
    obtain ⟨e, he, hrec⟩ := hreq hbit
    obtain ⟨hl, htime⟩ := learns_drop me hH hknows req.sender he
    rw [hrec]
    exact ⟨hl, .inl ⟨hbit, by rw [htime, Function.update_self]⟩⟩
  · next hbit => exact ⟨Learns.refl hknows, .inr ⟨Bool.eq_false_iff.mpr hbit, rfl⟩⟩

/-- A new arrival has been marked, and the manager has become `y`. -/
structure Marks (nprocs : Nat) (s t : System) (req : Arrival) (y : Peer) : Prop where
  activity : (s.peer req.sender).activity = .arrived req
  new : (s.peer (manager nprocs req.id)).rep_seqno_ req.sender < req.seqno
  learns : Learns (manager nprocs req.id) s.history { s.peer (manager nprocs req.id) with
    mask := Function.update (s.peer (manager nprocs req.id)).mask req.id
      ((s.peer (manager nprocs req.id)).mask req.id ||| 1 <<< req.sender.val)
    rep_seqno_ := Function.update (s.peer (manager nprocs req.id)).rep_seqno_ req.sender req.seqno
    req_from_ := Function.update (s.peer (manager nprocs req.id)).req_from_ req.sender (some req) } y
  known : ((s.peer (manager nprocs req.id)).mask req.id).testBit (manager nprocs req.id) = true →
    (s.history req.sender).length ≤ y.time req.sender
  same : ((s.peer (manager nprocs req.id)).mask req.id).testBit (manager nprocs req.id) = false →
    y.time = (s.peer (manager nprocs req.id)).time
  peer : t.peer = Function.update s.peer (manager nprocs req.id) y
  arrivals : t.arrivals = s.arrivals
  replies : t.replies = s.replies
  entered : t.entered = s.entered
  left : t.left = s.left

section

variable (hk : Marks nprocs s t req y)
include hk

theorem Marks.mask_ne (hid : id ≠ req.id) : y.mask id = (s.peer (manager nprocs req.id)).mask id := by
  rw [hk.learns.mask]
  exact Function.update_of_ne hid ..

theorem Marks.mask_self : y.mask req.id =
    (s.peer (manager nprocs req.id)).mask req.id ||| 1 <<< req.sender.val := by
  rw [hk.learns.mask]
  exact Function.update_self ..

theorem Marks.bit (hq : q ≠ req.sender) (id : Nat) :
    (y.mask id).testBit q = ((s.peer (manager nprocs req.id)).mask id).testBit q := by
  by_cases hid : id = req.id
  · subst hid
    rw [hk.mask_self, testBit_or_of_ne _ hq]
  · rw [hk.mask_ne hid]

theorem Marks.rep_ne (hq : q ≠ req.sender) : y.rep_seqno_ q = (s.peer (manager nprocs req.id)).rep_seqno_ q := by
  rw [hk.learns.rep]
  exact Function.update_of_ne hq ..

theorem Marks.rep_self : y.rep_seqno_ req.sender = req.seqno := by
  rw [hk.learns.rep]
  exact Function.update_self ..

theorem Marks.from_ne (hq : q ≠ req.sender) : y.req_from_ q = (s.peer (manager nprocs req.id)).req_from_ q := by
  rw [hk.learns.req_from]
  exact Function.update_of_ne hq ..

variable (h : Inv nprocs s)
include h

theorem Marks.arrived : Arrived nprocs s req.sender req := by
  have hocc := h.occupied req.sender
  rwa [hk.activity] at hocc

theorem Marks.frame : Frame nprocs s t (manager nprocs req.id) [] [] := by
  refine Frame.of_step hk.peer hk.learns.knows hk.learns.le (by rw [hk.arrivals, List.append_nil])
    (by rw [hk.replies, List.append_nil]) (fun p id => by rw [hk.entered]) (fun p _ => by rw [hk.entered])
    (fun p _ => by rw [hk.left]) (fun q => ?_) hk.learns.req_seqno.ge (.same hk.learns.activity)
    (fun q req' hq hreq' hm hseqno hbit' => ?_) nofun nofun
  · by_cases hq : q = req.sender
    · subst hq
      rw [hk.rep_self]
      exact ⟨hk.new.le, (hk.arrived h).seqno.le⟩
    · rw [hk.rep_ne hq]
      exact ⟨le_rfl, h.messages.rep _ q⟩
  · have hqs : q ≠ req.sender := by
      rintro rfl
      have hnew := hk.new
      rw [hk.activity] at hreq'
      cases hreq'
      omega
    rw [hk.rep_ne hqs, hk.bit hqs]
    exact ⟨hseqno, hbit', by rw [hk.left]⟩

/-- The manager is at the barrier, or knows what it knew. -/
theorem Marks.occupied : Occupied nprocs t (manager nprocs req.id) (t.peer (manager nprocs req.id)).activity := by
  have hf := hk.frame h
  have hself := peer_self hk.peer
  have hocc := h.occupied (manager nprocs req.id)
  rw [hself, hk.learns.activity]
  rcases (h.barrier req.id).manager with ⟨hspin, -⟩ | ⟨-, hbit, -⟩
  · rw [hspin] at hocc
    show Occupied nprocs t _ (s.peer (manager nprocs req.id)).activity
    rw [hspin]
    refine ⟨rfl, ?_⟩
    rw [hk.entered, hf.own_time h]
    exact hocc.last
  · refine hocc.mono (by rw [hf.history h]) (by rw [hk.entered]) (by rw [hself]; exact hk.learns.req_seqno)
      (by rw [hself]; exact hk.same hbit) fun q _ => ?_
    rw [hself]
    exact hk.learns.inverse_le q

/-- The process that has come is marked. -/
theorem Marks.handled : Slave nprocs t req.id req.sender := by
  have hf := hk.frame h
  have hocc := hk.arrived h
  have hself := peer_self hk.peer
  have hpeer : t.peer req.sender = s.peer req.sender := hf.peer _ hocc.ne
  have hnew := hk.new
  obtain ⟨hent, hleft⟩ : (s.entered req.sender req.id).length = s.left (manager nprocs req.id) req.id + 1 ∧
      s.left req.sender req.id = s.left (manager nprocs req.id) req.id := by
    cases (h.barrier req.id).slave _ hocc.lt hocc.ne with
    | outside haway => exact absurd rfl (haway req hk.activity)
    | sent req' _ _ _ _ hent hleft => exact ⟨hent, hleft⟩
    | handled req' _ _ _ _ _ hent hleft => exact ⟨hent, hleft⟩
    | opened req' hact' _ hrep' =>
      rw [hk.activity] at hact'
      cases hact'
      omega
  refine .handled req (by rw [hpeer]; exact hk.activity) rfl ?_ ?_ ?_ ?_ ?_ fun hown => ?_
  · rw [hself, hk.rep_self]
  · rw [hself, hk.mask_self, testBit_or_self]
  · rw [hself, hk.learns.req_from]
    exact Function.update_self ..
  · rw [hk.entered, hk.left]
    exact hent
  · rw [hk.left]
    exact hleft
  · rw [hself, hk.bit hocc.ne.symm] at hown
    rw [hpeer, hself, ← h.histories.length]
    exact hk.known hown

theorem Marks.barrier : BarrierInv nprocs t req.id := by
  have hf := hk.frame h
  have hocc := hk.arrived h
  have hself := peer_self hk.peer
  have hb := h.barrier req.id
  refine ⟨fun j hj => ?_, ?_, fun p hp hpm => ?_, fun p hp => ?_⟩
  · rw [hself, hk.mask_self, testBit_or_one] at hj
    rcases Bool.or_eq_true_iff.mp hj with hj | hj
    · exact hb.bits j hj
    · rw [← of_decide_eq_true hj]
      exact hocc.lt
  · rw [hself, hk.bit hocc.ne.symm, hk.learns.activity, hk.entered, hk.left]
    exact hb.manager
  · by_cases hps : p = req.sender
    · subst hps
      exact hk.handled h
    · refine (hb.slave p hp hpm).aside ⟨.inl (by rw [hf.peer p hpm]), ?_, by rw [hk.entered], by rw [hk.left],
        by rw [hk.left], fun _ _ _ => .inl ?_, fun _ _ _ => ?_, fun _ _ _ _ hown => .inl ⟨?_, ?_, hf.times _ p⟩⟩
      · rw [hself, hk.bit hps]
      · rw [hself, hk.rep_ne hps]
      · rw [hself, hk.from_ne hps]
      · rw [hself, hk.bit hocc.ne.symm] at hown
        exact hown
      · rw [hf.peer p hpm]
  · rw [hk.left]
    exact (hb.met p hp).mono (hf.times p) fun p' => hf.entered p' req.id

/-- Nothing happens at the other barriers. -/
theorem Marks.apart (hid : id ≠ req.id) : Apart nprocs s t id := by
  have hps : ∀ p req', (s.peer p).activity = .arrived req' → req'.id = id → p ≠ req.sender := by
    rintro p req' hreq' hid' rfl
    rw [hk.activity] at hreq'
    cases hreq'
    exact hid hid'.symm
  refine Apart.of_step hk.peer (.inl hk.learns.activity) (hk.mask_ne hid)
    (fun p req' hreq' hid' _ => .inl (hk.rep_ne (hps p req' hreq' hid')))
    (fun p req' hreq' hid' _ => hk.from_ne (hps p req' hreq' hid')) (fun p => by rw [hk.entered])
    (fun p => by rw [hk.left]) hk.learns.le fun _ => ?_
  have hown := (hk.frame h).own_time h
  rwa [peer_self hk.peer] at hown

theorem Marks.inv : Inv nprocs t := by
  have hf := hk.frame h
  refine Inv.frame hf h (hk.occupied h) (fun q hq => hf.inverse h ?_ hq) fun id => ?_
  · rw [peer_self hk.peer]
    exact hk.learns.inverse q
  · by_cases hid : id = req.id
    · subst hid
      exact hk.barrier h
    · exact (h.barrier id).apart (hk.apart h hid)

end

/-- An arrival comes for the first time. -/
theorem Inv.handleNew (h : Inv nprocs s) (hmem : req ∈ s.arrivals)
    (hnew : (s.peer (manager nprocs req.id)).rep_seqno_ req.sender < req.seqno)
    (hpeer : t.peer = Function.update s.peer (manager nprocs req.id)
      (barrierSigioHandler (manager nprocs req.id) { s.peer (manager nprocs req.id) with
        rep_seqno_ := Function.update (s.peer (manager nprocs req.id)).rep_seqno_ req.sender req.seqno
        req_from_ := Function.update (s.peer (manager nprocs req.id)).req_from_ req.sender (some req) } req))
    (harrivals : t.arrivals = s.arrivals) (hreplies : t.replies = s.replies) (hentered : t.entered = s.entered)
    (hleft : t.left = s.left) : Inv nprocs t := by
  have hact := h.arrival_new hmem hnew
  have hk := h.histories.knows (manager nprocs req.id)
  have hown : ((s.peer (manager nprocs req.id)).mask req.id ||| 1 <<< req.sender.val).testBit (manager nprocs req.id) =
      ((s.peer (manager nprocs req.id)).mask req.id).testBit (manager nprocs req.id) :=
    testBit_or_of_ne _ (h.messages.ne req hmem).symm
  -- the manager takes the records in if it is at the barrier, and then it waits for nothing else
  obtain ⟨hl, htime⟩ := barrierSigioHandler_learns (y := { s.peer (manager nprocs req.id) with
        rep_seqno_ := Function.update (s.peer (manager nprocs req.id)).rep_seqno_ req.sender req.seqno
        req_from_ := Function.update (s.peer (manager nprocs req.id)).req_from_ req.sender (some req) })
    (manager nprocs req.id) req h.histories.numbered ⟨hk.le, hk.log⟩ (fun hbit => by
      apply h.arrival_records hact
      rcases (h.barrier req.id).manager with ⟨hspin, -⟩ | ⟨-, hbit', -⟩
      · rw [hspin]
        rfl
      · rw [← hown, hbit] at hbit'
        cases hbit')
  refine Marks.inv ⟨hact, hnew, hl, fun hbit => ?_, fun hbit => ?_, hpeer, harrivals, hreplies, hentered, hleft⟩ h
  · rcases htime with ⟨-, hle⟩ | ⟨hfalse, -⟩
    · exact hle
    · exact absurd (hbit.symm.trans (hown.symm.trans hfalse)) nofun
  · rcases htime with ⟨htrue, -⟩ | ⟨-, heq⟩
    · exact absurd (hbit.symm.trans (hown.symm.trans htrue)) nofun
    · exact heq

/-- An arrival comes again: if the barrier has been opened, it is answered again. -/
theorem Inv.handleAgain (h : Inv nprocs s) (hmem : req ∈ s.arrivals)
    (hold : req.seqno ≤ (s.peer (manager nprocs req.id)).rep_seqno_ req.sender) :
    Inv nprocs ((s.setPeer (manager nprocs req.id) (s.peer (manager nprocs req.id))).send []
      (barrierSigioDuplicateHandler nprocs (s.peer (manager nprocs req.id)) req)) := by
  refine h.sendReply rfl (fun r hr => ?_) fun _ _ => .inl rfl
  unfold barrierSigioDuplicateHandler at hr
  split at hr
  · cases hr
  · next hbit =>
    rw [List.mem_singleton.mp hr]
    refine ⟨h.messages.ne req hmem, h.messages.sent req hmem, fun hlive => ?_⟩
    -- only the newest arrival of a process can be waiting for an answer
    have hact : (s.peer req.sender).activity = .arrived req := by
      rcases h.messages.arrivals req hmem with hact | ⟨-, hwaits⟩
      · exact hact
      · exact absurd hlive hwaits
    have hocc := h.occupied req.sender
    rw [hact] at hocc
    have hle := h.messages.rep (manager nprocs req.id) req.sender
    refine ⟨.inl ⟨req, hact, rfl, ?_, Bool.eq_false_iff.mpr hbit⟩, req.seqno, ?_⟩
    · have := hocc.seqno
      show (s.peer (manager nprocs req.id)).rep_seqno_ req.sender = req.seqno
      omega
    · show replyTo nprocs _ req.sender _ _ = replyTo nprocs _ req.sender _ (s.peer req.sender).activity.request
      rw [hact]
      rfl

/-! ### The manager opens the barrier -/

@[simp] theorem leave_left_self (s : System) (x : Proc) (id : Nat) : (s.leave x id).left x id = s.left x id + 1 := by
  simp [System.leave]

theorem leave_left_ne (s : System) (x : Proc) (id : Nat) (hp : p ≠ x) : (s.leave x id).left p = s.left p := by
  simp [System.leave, hp]

theorem leave_left_id (s : System) (x p : Proc) {id id' : Nat} (hid : id' ≠ id) :
    (s.leave x id).left p id' = s.left p id' := by
  by_cases hp : p = x
  · subst hp
    simp [System.leave, hid]
  · rw [leave_left_ne s x id hp]

theorem testBit_spinmask (nprocs k : Nat) : (spinmask nprocs).testBit k = decide (k < nprocs) :=
  Nat.testBit_two_pow_sub_one ..

/-- One round more: everybody has come, and has told what it did before. -/
theorem Met.succ {c : Nat} {T : VectorTime} (hm : Met nprocs s id c T)
    (hlast : ∀ i : Proc, i < nprocs → (s.entered i id).length = c + 1 ∧
      ∃ e, (s.entered i id).getLast? = some e ∧ e ≤ T i) : Met nprocs s id (c + 1) T := by
  intro i hi k hk
  by_cases hkc : k < c
  · exact hm i hi k hkc
  · obtain ⟨hlen, e, he, hle⟩ := hlast i hi
    refine ⟨e, ?_, hle⟩
    rw [← he, List.getLast?_eq_getElem?, show k = (s.entered i id).length - 1 by omega]

/-- Everybody is at the barrier. -/
theorem Inv.all_handled (h : Inv nprocs s) (hact : (s.peer (manager nprocs id)).activity = .spinning id)
    (hmask : (s.peer (manager nprocs id)).mask id = spinmask nprocs) (hp : p < nprocs) (hne : p ≠ manager nprocs id) :
    ∃ req, (s.peer p).activity = .arrived req ∧ req.id = id ∧
      (s.peer (manager nprocs id)).rep_seqno_ p = req.seqno ∧ (s.peer (manager nprocs id)).req_from_ p = some req ∧
      (s.entered p id).length = s.left (manager nprocs id) id + 1 ∧ s.left p id = s.left (manager nprocs id) id ∧
      (s.peer p).time p ≤ (s.peer (manager nprocs id)).time p := by
  have hbit : ((s.peer (manager nprocs id)).mask id).testBit p = true := by
    rw [hmask, testBit_spinmask, decide_eq_true hp]
  obtain ⟨req, hreq, hid, hrep, hfrom, hent, hleft, hknown⟩ := h.of_bit hp hne hbit
  refine ⟨req, hreq, hid, hrep, hfrom, hent, hleft, hknown ?_⟩
  rcases (h.barrier id).manager with ⟨-, hbit, -⟩ | ⟨hnot, -⟩
  · exact hbit
  · exact absurd hact hnot

/-- The manager has met everybody. -/
theorem Inv.met_all (h : Inv nprocs s) (hact : (s.peer (manager nprocs id)).activity = .spinning id)
    (hmask : (s.peer (manager nprocs id)).mask id = spinmask nprocs) (hpos : 0 < nprocs) :
    Met nprocs s id (s.left (manager nprocs id) id + 1) (s.peer (manager nprocs id)).time := by
  refine ((h.barrier id).met _ (manager_lt hpos id)).succ fun i hi => ?_
  by_cases him : i = manager nprocs id
  · subst him
    have hocc := h.occupied (manager nprocs id)
    rw [hact] at hocc
    rcases (h.barrier id).manager with ⟨-, -, hlen⟩ | ⟨hnot, -⟩
    · exact ⟨hlen, _, hocc.last, le_rfl⟩
    · exact absurd hact hnot
  · obtain ⟨req, hreq, hid, -, -, hent, -, hle⟩ := h.all_handled hact hmask hi him
    have hocc := h.occupied i
    rw [hreq] at hocc
    have hlast := hocc.last
    rw [hid] at hlast
    exact ⟨hent, _, hlast, hle⟩

/-- The manager has opened the barrier. -/
structure Opens (nprocs : Nat) (s t : System) (id : Nat) : Prop where
  activity : (s.peer (manager nprocs id)).activity = .spinning id
  mask : (s.peer (manager nprocs id)).mask id = spinmask nprocs
  peer : t.peer = Function.update s.peer (manager nprocs id)
    (leaveManager nprocs (manager nprocs id) (s.peer (manager nprocs id)) id).1
  arrivals : t.arrivals = s.arrivals
  replies : t.replies = s.replies ++ (leaveManager nprocs (manager nprocs id) (s.peer (manager nprocs id)) id).2
  entered : t.entered = s.entered
  left : t.left = (s.leave (manager nprocs id) id).left

section

variable (ho : Opens nprocs s t id)
include ho

theorem Opens.opened : t.left (manager nprocs id) id = s.left (manager nprocs id) id + 1 := by
  rw [ho.left, leave_left_self]

theorem Opens.bit (k : Nat) : ((t.peer (manager nprocs id)).mask id).testBit k = false := by
  rw [peer_self ho.peer]
  show (Function.update (s.peer (manager nprocs id)).mask id 0 id).testBit k = false
  rw [Function.update_self, Nat.zero_testBit]

variable (h : Inv nprocs s)
include h

/-- The answers go to those whose arrival has been marked. -/
theorem Opens.reply (hr : r ∈ (leaveManager nprocs (manager nprocs id) (s.peer (manager nprocs id)) id).2) :
    r.dest < nprocs ∧ r.dest ≠ manager nprocs id ∧ ∃ req, (s.peer r.dest).activity = .arrived req ∧ req.id = id ∧
      (s.peer (manager nprocs id)).rep_seqno_ r.dest = req.seqno ∧
      r = replyTo nprocs (s.peer (manager nprocs id)) r.dest req.seqno req.vector_time := by
  obtain ⟨j, hj, hr⟩ := List.mem_filterMap.mp hr
  obtain ⟨hlt, hne⟩ := mem_others.mp hj
  obtain ⟨req, hreq, hid, hrep, hfrom, -⟩ := h.all_handled ho.activity ho.mask hlt hne
  simp only [hfrom, Option.map_some, Option.some.injEq] at hr
  rw [← hr]
  exact ⟨hlt, hne, req, hreq, hid, hrep, rfl⟩

theorem Opens.answered (hq : q < nprocs) (hqm : q ≠ manager nprocs id) : Answered nprocs t q (manager nprocs id) := by
  obtain ⟨req, hreq, hid, hrep, -⟩ := h.all_handled ho.activity ho.mask hq hqm
  refine .inl ⟨req, by rw [peer_of_ne ho.peer hqm]; exact hreq, by rw [hid], ?_, ?_⟩
  · rw [peer_self ho.peer]
    exact hrep
  · rw [hid]
    exact ho.bit q

/-- Nothing had been sent to them before. -/
theorem Opens.not_live (hq : q < nprocs) (hqm : q ≠ manager nprocs id) (hr : r ∈ s.replies) (hdest : r.dest = q) :
    ¬ Live s r := by
  intro hlive
  obtain ⟨req, hreq, hid, -⟩ := h.all_handled ho.activity ho.mask hq hqm
  obtain ⟨src, ha⟩ := (h.messages.live r hr hlive).answered
  rw [hdest] at ha
  rcases ha with ⟨req', hreq', rfl, -, hbit⟩ | ⟨n, v, hacq⟩
  · rw [hreq] at hreq'
    cases hreq'
    rw [hid, ho.mask, testBit_spinmask, decide_eq_true hq] at hbit
    cases hbit
  · rw [hreq] at hacq
    cases hacq

variable (hpos : 0 < nprocs)
include hpos

theorem Opens.met : Met nprocs t id (t.left (manager nprocs id) id) (s.peer (manager nprocs id)).time := by
  rw [ho.opened]
  exact (h.met_all ho.activity ho.mask hpos).mono (fun _ => le_rfl) fun p => by rw [ho.entered]

theorem Opens.frame : Frame nprocs s t (manager nprocs id) []
    (leaveManager nprocs (manager nprocs id) (s.peer (manager nprocs id)) id).2 := by
  have hk := h.histories.knows (manager nprocs id)
  refine Frame.of_step ho.peer ⟨hk.le, hk.log⟩ (fun _ => le_rfl) (by rw [ho.arrivals, List.append_nil]) ho.replies
    (fun p id' => by rw [ho.entered]) (fun p _ => by rw [ho.entered]) (fun p hp => ?_)
    (fun p => ⟨le_rfl, h.messages.rep _ p⟩) le_rfl (.start (by rw [ho.activity]; rfl) nofun)
    (fun q req hq hreq hm hseqno hbit => ?_) nofun (fun r hr => ?_)
  · rw [ho.left, leave_left_ne s _ id hp]
  · have hocc := h.occupied q
    rw [hreq] at hocc
    have hid : req.id ≠ id := by
      rintro rfl
      rw [ho.mask, testBit_spinmask, decide_eq_true hocc.lt] at hbit
      cases hbit
    rw [ho.left, leave_left_id s _ _ hid]
    refine ⟨hseqno, ?_, rfl⟩
    show (Function.update (s.peer (manager nprocs id)).mask id 0 req.id).testBit q = false
    rw [Function.update_of_ne hid]
    exact hbit
  · obtain ⟨hlt, hne, req, hreq, hid, hrep, heq⟩ := ho.reply h hr
    have hocc := h.occupied r.dest
    rw [hreq] at hocc
    have htime : r.time = (s.peer (manager nprocs id)).time := by
      rw [heq]
      rfl
    refine ⟨hne, ?_, fun _ => ⟨ho.answered h hlt hne, htime, ?_, fun req' hreq' => ?_⟩⟩
    · rw [heq]
      exact hocc.seqno.le
    · rw [htime, ← request_eq h.histories.numbered hk, hreq, heq]
      rfl
    · rw [hreq] at hreq'
      cases hreq'
      rw [hid, htime]
      exact ho.met h hpos

/-- All others will know what the manager has done. -/
theorem Opens.inverse (hq : q ≠ manager nprocs id) :
    (t.peer (manager nprocs id)).inverse_time_ q ≤ (t.peer (manager nprocs id)).time (manager nprocs id) ∧
      Owed nprocs t q (manager nprocs id) ((t.peer (manager nprocs id)).inverse_time_ q) := by
  have hf := ho.frame h hpos
  have hself := peer_self ho.peer
  by_cases hlt : q < nprocs
  · have hval : (t.peer (manager nprocs id)).inverse_time_ q =
        (s.peer (manager nprocs id)).time (manager nprocs id) := by
      rw [hself]
      exact if_pos (mem_others.mpr ⟨hlt, hq⟩)
    rw [hval]
    refine ⟨by rw [hself]; exact le_rfl, .inr ⟨_, ho.answered h hlt hq, by rw [hself]; exact le_rfl,
      fun r hr hdest hlive => ?_⟩⟩
    rw [ho.replies] at hr
    rcases List.mem_append.mp hr with hr | hr
    · exact absurd (hf.live h hr hlive) (ho.not_live h hlt hq hr hdest)
    · obtain ⟨-, -, req, -, -, -, heq⟩ := ho.reply h hr
      rw [heq]
      exact le_rfl
  · have hval : (t.peer (manager nprocs id)).inverse_time_ q = (s.peer (manager nprocs id)).inverse_time_ q := by
      rw [hself]
      exact if_neg fun hmem => hlt (mem_others.mp hmem).1
    exact hf.inverse h (.inl hval) hq

theorem Opens.barrier : BarrierInv nprocs t id := by
  have hf := ho.frame h hpos
  have hself := peer_self ho.peer
  have hb := h.barrier id
  refine ⟨fun j hj => ?_, .inr ⟨?_, ho.bit _, ?_⟩, fun p hp hpm => ?_, fun p hp => ?_⟩
  · rw [ho.bit j] at hj
    cases hj
  · rw [hself]
    nofun
  · rw [ho.entered, ho.opened]
    rcases hb.manager with ⟨-, -, hlen⟩ | ⟨hnot, -⟩
    · exact hlen
    · exact absurd ho.activity hnot
  · obtain ⟨req, hreq, hid, hrep, -, hent, hleft, -⟩ := h.all_handled ho.activity ho.mask hp hpm
    refine .opened req (by rw [hf.peer p hpm]; exact hreq) hid ?_ (ho.bit _) ?_ ?_
    · rw [hself]
      exact hrep
    · rw [ho.entered, ho.opened]
      exact hent
    · rw [hf.left_ne p hpm, ho.opened, hleft]
  · by_cases hpm : p = manager nprocs id
    · subst hpm
      exact (ho.met h hpos).mono (hf.times _) fun p => List.prefix_rfl
    · rw [hf.left_ne p hpm]
      exact (hb.met p hp).mono (hf.times p) fun p' => by rw [ho.entered]

theorem Opens.inv : Inv nprocs t := by
  have hf := ho.frame h hpos
  refine Inv.frame hf h ?_ (fun q hq => ho.inverse h hpos hq) fun id' => ?_
  · rw [peer_self ho.peer]
    trivial
  · by_cases hid : id' = id
    · subst hid
      exact ho.barrier h hpos
    · apply (h.barrier id').apart
      refine Apart.of_step ho.peer (.inr ⟨?_, away_running id'⟩) (Function.update_of_ne hid ..)
        (fun _ _ _ _ _ => .inl rfl) (fun _ _ _ _ _ => rfl) (fun p => by rw [ho.entered]) (fun p => ?_)
        (fun _ => le_rfl) fun _ => rfl
      · rw [ho.activity]
        refine ⟨nofun, fun heq => ?_⟩
        cases heq
        exact hid rfl
      · rw [ho.left, leave_left_id s _ p hid]

end

/-! ### Answers -/

/-- The vector time of a request is not newer than that of the process that waits with it. -/
theorem Inv.request_le (h : Inv nprocs s) (p i : Proc) : (s.peer p).activity.request i ≤ (s.peer p).time i := by
  have hocc := h.occupied p
  cases hact : (s.peer p).activity with
  | running => exact Nat.zero_le _
  | spinning id => exact Nat.zero_le _
  | arrived req =>
    rw [hact] at hocc
    exact (congrFun hocc.vector_time i).le
  | acquiring n v g =>
    rw [hact] at hocc
    exact hocc.vector_time i

/-- Taking in an answer: what was owed is there. -/
theorem Inv.receive_learns (h : Inv nprocs s) (hmem : r ∈ s.replies) (hlive : Live s r) :
    Learns r.dest s.history (s.peer r.dest) (intervalIncorporate r.dest (s.peer r.dest) r.records) ∧
      (∀ i, r.time i ≤ (intervalIncorporate r.dest (s.peer r.dest) r.records).time i) ∧
      ∀ i e, Owed nprocs s r.dest i e → e ≤ (intervalIncorporate r.dest (s.peer r.dest) r.records).time i := by
  have hc := h.messages.live r hmem hlive
  obtain ⟨hl, htime⟩ := learns_records r.dest h.histories.numbered h.histories.idle (h.histories.knows r.dest) hc.le
    (h.request_le r.dest)
  rw [← hc.records] at hl htime
  refine ⟨hl, fun i => ?_, fun i e ho => ?_⟩
  · rw [htime]
    exact le_max_right _ _
  · rcases ho with hle | ⟨src, -, -, hall⟩
    · exact hle.trans (hl.le i)
    · rw [htime]
      exact (hall r hmem rfl hlive).trans (le_max_right _ _)

/-- The lock comes. -/
theorem Inv.receiveLock (h : Inv nprocs s) (hmem : r ∈ s.replies) {v : VectorTime} {g : Option Proc}
    (hact : (s.peer r.dest).activity = .acquiring r.seqno v g) :
    Inv nprocs (s.setPeer r.dest
      { intervalIncorporate r.dest (s.peer r.dest) r.records with activity := .running }) := by
  have hlive : Live s r := by
    unfold Live
    rw [hact]
    rfl
  obtain ⟨hl, -, howed⟩ := h.receive_learns hmem hlive
  generalize intervalIncorporate r.dest (s.peer r.dest) r.records = z at *
  have hself := setPeer_self s r.dest { z with activity := .running }
  have hpeer : (s.setPeer r.dest { z with activity := .running }).peer =
    Function.update s.peer r.dest { z with activity := .running } := rfl
  have hf : Frame nprocs s (s.setPeer r.dest { z with activity := .running }) r.dest [] [] := by
    refine Frame.plain h hpeer ⟨hl.knows.le, hl.knows.log⟩ hl.le (List.append_nil _).symm rfl
      (fun _ _ => List.prefix_rfl) (fun _ _ => rfl) (fun _ _ => rfl) (fun _ _ => rfl) hl.rep hl.mask hl.req_seqno.ge
      (.stop rfl (fun req hreq => ?_) howed) nofun
    rw [hact] at hreq
    cases hreq
  refine Inv.frame hf h ?_ (fun q hq => hf.inverse h ?_ hq) fun id => ?_
  · rw [hself]
    trivial
  · rw [hself]
    exact hl.inverse q
  · apply (h.barrier id).apart
    refine Apart.of_step hpeer (.inr ⟨?_, away_running id⟩) (congrFun hl.mask id) (fun p _ _ _ _ => .inl ?_)
      (fun p _ _ _ _ => congrFun hl.req_from p) (fun _ => rfl) (fun _ => rfl) hl.le fun ⟨req, hreq⟩ => ?_
    · rw [hact]
      exact away_acquiring id _ _ _
    · exact congrFun hl.rep p
    · rw [hact] at hreq
      cases hreq

/-- A process that has been let go, and has not gone yet. -/
theorem Inv.opened_of_live (h : Inv nprocs s) (hmem : r ∈ s.replies) (hlive : Live s r)
    (hact : (s.peer r.dest).activity = .arrived req) :
    (s.peer (manager nprocs req.id)).rep_seqno_ r.dest = req.seqno ∧
      ((s.peer (manager nprocs req.id)).mask req.id).testBit r.dest = false ∧
      (s.entered r.dest req.id).length = s.left (manager nprocs req.id) req.id ∧
      s.left r.dest req.id + 1 = s.left (manager nprocs req.id) req.id := by
  have hocc := h.occupied r.dest
  rw [hact] at hocc
  obtain ⟨src, ha⟩ := (h.messages.live r hmem hlive).answered
  obtain ⟨hrep, hbit⟩ : (s.peer (manager nprocs req.id)).rep_seqno_ r.dest = req.seqno ∧
      ((s.peer (manager nprocs req.id)).mask req.id).testBit r.dest = false := by
    rcases ha with ⟨req', hact', rfl, hrep, hbit⟩ | ⟨n, v, hacq⟩
    · rw [hact] at hact'
      cases hact'
      exact ⟨hrep, hbit⟩
    · rw [hact] at hacq
      cases hacq
  cases (h.barrier req.id).slave r.dest hocc.lt hocc.ne with
  | outside haway => exact absurd rfl (haway req hact)
  | sent req' hact' _ hrep' =>
    rw [hact] at hact'
    cases hact'
    omega
  | handled req' _ _ _ hbit' =>
    rw [hbit] at hbit'
    cases hbit'
  | opened req' _ _ _ _ hent hleft => exact ⟨hrep, hbit, hent, hleft⟩

/-- When a process is let go, all others know what it did before the barrier, or will know it when they are let go. -/
theorem Inv.told (h : Inv nprocs s) (hact : (s.peer p).activity = .arrived req)
    (hopen : (s.entered p req.id).length = s.left (manager nprocs req.id) req.id) (hq : q < nprocs)
    (hpos : 0 < nprocs) :
    Owed nprocs s q p ((s.peer p).time p) := by
  have hocc := h.occupied p
  rw [hact] at hocc
  -- the entry of this round is the last one
  have hlast : ∀ T : VectorTime, Met nprocs s req.id (s.left (manager nprocs req.id) req.id) T →
      (s.peer p).time p ≤ T p := by
    intro T hmet
    have hget := hocc.last
    rw [List.getLast?_eq_getElem?] at hget
    have hlt := (List.getElem?_eq_some_iff.mp hget).1
    obtain ⟨e, he, hle⟩ := hmet p hocc.lt ((s.entered p req.id).length - 1) (by omega)
    rw [hget] at he
    cases he
    exact hle
  have hb := h.barrier req.id
  by_cases hqm : q = manager nprocs req.id
  · subst hqm
    exact .inl (hlast _ (hb.met _ hq))
  · have hleft : ∀ {c : Nat}, s.left q req.id = c → c = s.left (manager nprocs req.id) req.id →
        Owed nprocs s q p ((s.peer p).time p) := by
      rintro c rfl hc
      have := hb.met q hq
      rw [hc] at this
      exact .inl (hlast _ this)
    cases hb.slave q hq hqm with
    | outside _ _ _ hl => exact hleft rfl hl
    | sent _ _ _ _ _ _ hl => exact hleft rfl hl
    | handled _ _ _ _ _ _ _ hl => exact hleft rfl hl
    | opened req' hact' hid hrep hbit _ _ =>
      refine .inr ⟨manager nprocs req.id, .inl ⟨req', hact', by rw [hid], hrep, ?_⟩,
        hlast _ (hb.met _ (manager_lt hpos _)), fun r hr hdest hl => hlast _ ?_⟩
      · rw [hid]
        exact hbit
      · have := (h.messages.live r hr hl).met req' (by rw [hdest]; exact hact')
        rw [hid] at this
        exact this

/-- The answer to an arrival comes. -/
theorem Inv.receiveBarrier (h : Inv nprocs s) (hpos : 0 < nprocs) (hmem : r ∈ s.replies)
    (hact : (s.peer r.dest).activity = .arrived req) (hseqno : r.seqno = req.seqno)
    (hpeer : t.peer = Function.update s.peer r.dest (leaveOther nprocs r.dest (s.peer r.dest) r))
    (harrivals : t.arrivals = s.arrivals) (hreplies : t.replies = s.replies) (hentered : t.entered = s.entered)
    (hleft : t.left = (s.leave r.dest req.id).left) : Inv nprocs t := by
  have hlive : Live s r := by
    unfold Live
    rw [hact, hseqno]
    rfl
  have hocc := h.occupied r.dest
  rw [hact] at hocc
  have hm := hocc.ne
  obtain ⟨hl, hle, howed⟩ := h.receive_learns hmem hlive
  obtain ⟨hrep, hbit, hent, hopen⟩ := h.opened_of_live hmem hlive hact
  have hmet := (h.messages.live r hmem hlive).met req hact
  have hself := peer_self hpeer
  unfold leaveOther at hself hpeer
  generalize intervalIncorporate r.dest (s.peer r.dest) r.records = z at *
  have hf : Frame nprocs s t r.dest [] [] := by
    refine Frame.plain h hpeer ⟨hl.knows.le, hl.knows.log⟩ hl.le (by rw [harrivals, List.append_nil]) hreplies
      (fun p id => by rw [hentered]) (fun p _ => by rw [hentered]) (fun p hp => ?_) (fun id hid => ?_) hl.rep hl.mask
      hl.req_seqno.ge (.stop rfl (fun req' hreq' => ?_) howed) nofun
    · rw [hleft, leave_left_ne s _ _ hp]
    · rw [hleft, leave_left_id]
      rintro rfl
      exact hm hid.symm
    · rw [hact] at hreq'
      cases hreq'
      exact hrep.ge
  refine Inv.frame hf h ?_ (fun q hq => ?_) fun id => ?_
  · rw [hself]
    trivial
  · by_cases hlt : q < nprocs
    · have hval : (t.peer r.dest).inverse_time_ q = (t.peer r.dest).time r.dest := by
        rw [hself]
        exact if_pos (mem_others.mpr ⟨hlt, hq⟩)
      rw [hval]
      refine ⟨le_rfl, hf.owed h ?_⟩
      rw [hf.own_time h]
      exact h.told hact hent hlt hpos
    · apply hf.inverse h _ hq
      rw [hself]
      rw [show (leaveBarrier nprocs r.dest z).inverse_time_ q = z.inverse_time_ q from
        if_neg fun hmem => hlt (mem_others.mp hmem).1]
      exact hl.inverse q
  · by_cases hid : id = req.id
    · subst hid
      refine (h.barrier req.id).move hm hpeer hl.le (fun p => hf.entered p _) (fun p _ => by rw [hentered])
        (fun p hp => by rw [hf.left_ne p hp]) ?_ ?_
      · refine .outside (fun req' hreq' => ?_) ?_ ?_ ?_
        · rw [hself] at hreq'
          cases hreq'
        · rw [hf.peer _ hm.symm]
          exact hbit
        · rw [hentered, hf.left_ne _ hm.symm]
          exact hent
        · rw [hleft, leave_left_self, leave_left_ne s _ _ hm.symm, hopen]
      · rw [hleft, leave_left_self, hopen]
        exact hmet.mono hle fun p => by rw [hentered]
    · apply (h.barrier id).apart
      refine Apart.of_step hpeer (.inr ⟨?_, away_running id⟩) (congrFun hl.mask id) (fun p _ _ _ _ => .inl ?_)
        (fun p _ _ _ _ => congrFun hl.req_from p) (fun p => by rw [hentered]) (fun p => ?_) hl.le fun _ => ?_
      · rw [hact]
        refine ⟨fun req' hreq' => ?_, nofun⟩
        cases hreq'
        exact fun heq => hid heq.symm
      · exact congrFun hl.rep p
      · rw [hleft, leave_left_id s _ p hid]
      · have := hf.own_time h
        rw [hself] at this
        exact this

/-! ### Every step -/

theorem inv_init (nprocs : Nat) : Inv nprocs init := by
  refine ⟨⟨fun _ _ => rfl, fun _ => rfl, nofun, nofun, fun _ => ⟨fun _ => le_rfl, fun _ => rfl⟩,
      fun _ => Nat.two_pow_pos 16⟩,
    ⟨fun _ _ => Nat.zero_le _, nofun, nofun, nofun, nofun, nofun⟩, fun _ => trivial,
    fun _ _ _ => ⟨le_rfl, .inl le_rfl⟩, fun id => ⟨fun j hj => ?_, .inr ⟨nofun, Nat.zero_testBit _, rfl⟩,
      fun p _ _ => .outside nofun (Nat.zero_testBit _) rfl rfl, fun _ _ _ _ => nofun⟩⟩
  have hzero : Nat.testBit 0 j = true := hj
  rw [Nat.zero_testBit] at hzero
  cases hzero

theorem Activity.eq_running {a : Activity} (h : a.isRunning = true) : a = .running := by
  cases a with
  | running => rfl
  | spinning _ => cases h
  | arrived _ => cases h
  | acquiring _ _ _ => cases h

theorem Activity.eq_arrived {a : Activity} {req : Arrival} (h : a.arrival = some req) : a = .arrived req := by
  cases a with
  | running => cases h
  | spinning _ => cases h
  | arrived _ => cases h; rfl
  | acquiring _ _ _ => cases h

/-- What a step can be, with what it has checked. -/
inductive Branch (nprocs : Nat) (s : System) : System → Prop
  | interval (p : Proc) (ranges : List (Nat × Nat)) (hp : p < nprocs) (hend : (s.peer p).activity.mayEnd = true)
      (hroom : (s.peer p).time p + 1 < 2 ^ 16) : Branch nprocs s (s.setPeer p (intervalCreate p ranges (s.peer p)))
  | enterManager (p : Proc) (id : Nat) (hp : p < nprocs) (hact : (s.peer p).activity = .running)
      (hm : manager nprocs id = p) : Branch nprocs s ((s.enter p id).setPeer p (enterManager nprocs p (s.peer p) id))
  | enterOther (p : Proc) (id : Nat) (hp : p < nprocs) (hact : (s.peer p).activity = .running)
      (hm : manager nprocs id ≠ p) (hfits : (s.peer p).req_seqno + NPROCS < 2 ^ 32) :
      Branch nprocs s (((s.enter p id).setPeer p (enterOther nprocs p (s.peer p) id).1).send
        [(enterOther nprocs p (s.peer p) id).2] [])
  | leaveManager (p : Proc) (id : Nat) (hact : (s.peer p).activity = .spinning id)
      (hmask : (s.peer p).mask id = spinmask nprocs) :
      Branch nprocs s (((s.leave p id).setPeer p (leaveManager nprocs p (s.peer p) id).1).send []
        (leaveManager nprocs p (s.peer p) id).2)
  | leaveOther (p : Proc) (req : Arrival) (r : Reply) (hact : (s.peer p).activity = .arrived req)
      (hrep : (s.peer p).rep = some r) :
      Branch nprocs s ((s.leave p req.id).setPeer p (leaveOther nprocs p (s.peer p) r))
  | rexmit (p : Proc) (req : Arrival) (hact : (s.peer p).activity = .arrived req) : Branch nprocs s (s.send [req] [])
  | handle (req : Arrival) (hmem : req ∈ s.arrivals) :
      Branch nprocs s ((s.setPeer (manager nprocs req.id)
        (sigioHandler nprocs (manager nprocs req.id) (s.peer (manager nprocs req.id)) req).1).send []
        (sigioHandler nprocs (manager nprocs req.id) (s.peer (manager nprocs req.id)) req).2)
  | take (req : Arrival) (r : Reply) (hmem : r ∈ s.replies) (hact : (s.peer r.dest).activity = .arrived req)
      (hseqno : r.seqno = req.seqno) : Branch nprocs s (s.setPeer r.dest { s.peer r.dest with rep := some r })
  | receive (r : Reply) (v : VectorTime) (g : Option Proc) (hmem : r ∈ s.replies)
      (hact : (s.peer r.dest).activity = .acquiring r.seqno v g) :
      Branch nprocs s (s.setPeer r.dest
        { intervalIncorporate r.dest (s.peer r.dest) r.records with activity := .running })
  | acquire (p : Proc) (hact : (s.peer p).activity = .running) (hfits : (s.peer p).req_seqno + NPROCS < 2 ^ 32) :
      Branch nprocs s (s.setPeer p { s.peer p with
        req_seqno := (s.peer p).req_seqno + NPROCS
        activity := .acquiring ((s.peer p).req_seqno + NPROCS) (s.peer p).time none })
  | grant (g p : Proc) (n : Nat) (v : VectorTime) (hact : (s.peer p).activity = .acquiring n v none) (hne : g ≠ p) :
      Branch nprocs s (((s.setPeer p { s.peer p with activity := .acquiring n v (some g) }).setPeer g
        { s.peer g with inverse_time_ := Function.update (s.peer g).inverse_time_ p ((s.peer g).time g) }).send []
        [replyTo nprocs (s.peer g) p n v])
  | grantAgain (g p : Proc) (n : Nat) (v : VectorTime) (hact : (s.peer p).activity = .acquiring n v (some g)) :
      Branch nprocs s (s.send [] [replyTo nprocs (s.peer g) p n v])
  | number (p : Proc) (hact : (s.peer p).activity = .running) (hfits : (s.peer p).req_seqno + NPROCS < 2 ^ 32) :
      Branch nprocs s (s.setPeer p { s.peer p with req_seqno := (s.peer p).req_seqno + NPROCS })
  | hear (p dest : Proc) (n : Nat) (hrep : (s.peer dest).rep_seqno_ p < n) (hn : n ≤ (s.peer p).req_seqno)
      (hne : ∀ req, (s.peer p).activity = .arrived req → req.seqno ≠ n) :
      Branch nprocs s (s.setPeer dest
        { s.peer dest with rep_seqno_ := Function.update (s.peer dest).rep_seqno_ p n })

theorem step_cases {a : Action} (ha : step nprocs s a = some t) : Branch nprocs s t := by
  cases a with
  | interval p ranges =>
    obtain ⟨⟨hp, hend, hroom⟩, ⟨⟩⟩ := Option.ite_none_right_eq_some.mp ha
    exact .interval p ranges hp hend hroom
  | enter p id repo =>
    obtain ⟨⟨hp, hrun, -⟩, ha⟩ := Option.ite_none_right_eq_some.mp ha
    have hact := Activity.eq_running hrun
    split at ha
    · next hm =>
      cases ha
      exact .enterManager p id hp hact hm
    · next hm =>
      obtain ⟨hfits, ⟨⟩⟩ := Option.ite_none_right_eq_some.mp ha
      exact .enterOther p id hp hact hm (of_decide_eq_true hfits)
  | leave p =>
    simp only [step] at ha
    split at ha
    · next id hact =>
      obtain ⟨hmask, ⟨⟩⟩ := Option.ite_none_right_eq_some.mp ha
      exact .leaveManager p id hact hmask
    · next req hact =>
      obtain ⟨r, hrep, rfl⟩ := Option.map_eq_some_iff.mp ha
      exact .leaveOther p req r hact hrep
    · cases ha
  | rexmit p =>
    obtain ⟨-, ha⟩ := Option.ite_none_right_eq_some.mp ha
    obtain ⟨req, hreq, rfl⟩ := Option.map_eq_some_iff.mp ha
    exact .rexmit p req (Activity.eq_arrived hreq)
  | handle k =>
    obtain ⟨req, hreq, ha⟩ := Option.bind_eq_some_iff.mp ha
    obtain ⟨-, ⟨⟩⟩ := Option.ite_none_right_eq_some.mp ha
    exact .handle req (List.mem_of_getElem? hreq)
  | receive k =>
    obtain ⟨r, hr, ha⟩ := Option.bind_eq_some_iff.mp ha
    have hmem := List.mem_of_getElem? hr
    simp only at ha
    split at ha
    · next req hact =>
      obtain ⟨⟨hseqno, -⟩, ⟨⟩⟩ := Option.ite_none_right_eq_some.mp ha
      exact .take req r hmem hact hseqno
    · next n v g hact =>
      obtain ⟨rfl, ⟨⟩⟩ := Option.ite_none_right_eq_some.mp ha
      exact .receive r v g hmem hact
    · cases ha
  | acquire p =>
    obtain ⟨⟨-, hrun, hfits⟩, ⟨⟩⟩ := Option.ite_none_right_eq_some.mp ha
    exact .acquire p (Activity.eq_running hrun) (of_decide_eq_true hfits)
  | grant g p =>
    simp only [step] at ha
    split at ha
    · next n v hact =>
      obtain ⟨⟨-, hne⟩, ⟨⟩⟩ := Option.ite_none_right_eq_some.mp ha
      exact .grant g p n v hact hne
    · next n v g' hact =>
      obtain ⟨rfl, ⟨⟩⟩ := Option.ite_none_right_eq_some.mp ha
      exact .grantAgain g p n v hact
    · cases ha
  | number p =>
    obtain ⟨⟨hrun, hfits⟩, ⟨⟩⟩ := Option.ite_none_right_eq_some.mp ha
    exact .number p (Activity.eq_running hrun) (of_decide_eq_true hfits)
  | hear p dest n =>
    obtain ⟨⟨hrep, hn, hall⟩, ⟨⟩⟩ := Option.ite_none_right_eq_some.mp ha
    refine .hear p dest n hrep hn fun req hreq => ?_
    rw [hreq] at hall
    exact of_decide_eq_true hall

/-- What a step may do to the number of process `p`, and to its static `rep`, when it becomes `y`. -/
structure Rest (s : System) (p : Proc) (y : Peer) : Prop where
  number : y.req_seqno = (s.peer p).req_seqno ∨ y.req_seqno < 2 ^ 32
  rep : y.rep = none ∨
    (y.rep = (s.peer p).rep ∧
      (y.activity = (s.peer p).activity ∨ ∀ req, (s.peer p).activity ≠ .arrived req)) ∨
    ∃ r ∈ s.replies, ∃ req, y.rep = some r ∧ r.dest = p ∧ (s.peer p).activity = .arrived req ∧
      y.activity = .arrived req ∧ r.seqno = req.seqno

theorem Rest.refl (s : System) (p : Proc) : Rest s p (s.peer p) := ⟨.inl rfl, .inr (.inl ⟨rfl, .inl rfl⟩)⟩

theorem Rest.update (h : Rest s p y) (q : Proc) : Rest s q (Function.update s.peer p y q) := by
  by_cases hq : q = p
  · subst hq
    rwa [Function.update_self]
  · rw [Function.update_of_ne hq]
    exact .refl s q

theorem intervalIncorporate_rest (me : Proc) (x : Peer) (records : List Interval) :
    (intervalIncorporate me x records).activity = x.activity ∧ (intervalIncorporate me x records).mask = x.mask ∧
      (intervalIncorporate me x records).rep = x.rep ∧
      (intervalIncorporate me x records).req_seqno = x.req_seqno := by
  unfold intervalIncorporate
  induction records generalizing x with
  | nil => exact ⟨rfl, rfl, rfl, rfl⟩
  | cons r records ih =>
    obtain ⟨h1, h2, h3, h4⟩ := ih (incorporateOne me x r)
    rw [List.foldl_cons, h1, h2, h3, h4]
    unfold incorporateOne
    split <;> exact ⟨rfl, rfl, rfl, rfl⟩

theorem barrierSigioHandler_rest (me : Proc) (x : Peer) (req : Arrival) :
    (barrierSigioHandler me x req).activity = x.activity ∧
      (barrierSigioHandler me x req).mask =
        Function.update x.mask req.id (x.mask req.id ||| 1 <<< req.sender.val) ∧
      (barrierSigioHandler me x req).rep = x.rep ∧ (barrierSigioHandler me x req).req_seqno = x.req_seqno := by
  unfold barrierSigioHandler
  simp only
  split
  · exact intervalIncorporate_rest ..
  · exact ⟨rfl, rfl, rfl, rfl⟩

theorem sigioHandler_rest (nprocs : Nat) (me : Proc) (x : Peer) (req : Arrival) :
    (sigioHandler nprocs me x req).1.activity = x.activity ∧ (sigioHandler nprocs me x req).1.rep = x.rep ∧
      (sigioHandler nprocs me x req).1.req_seqno = x.req_seqno := by
  unfold sigioHandler
  split
  · obtain ⟨hact, -, hrep, hseqno⟩ := barrierSigioHandler_rest me { x with
      rep_seqno_ := Function.update x.rep_seqno_ req.sender req.seqno
      req_from_ := Function.update x.req_from_ req.sender (some req) } req
    exact ⟨hact, hrep, hseqno⟩
  · exact ⟨rfl, rfl, rfl⟩

theorem takeIn_rest (me : Proc) (id : Nat) (js : List Proc) (x : Peer) :
    (js.foldl (takeIn me id) x).rep = x.rep ∧ (js.foldl (takeIn me id) x).req_seqno = x.req_seqno := by
  induction js generalizing x with
  | nil => exact ⟨rfl, rfl⟩
  | cons j js ih =>
    obtain ⟨hrep, hseqno⟩ := ih (takeIn me id x j)
    rw [List.foldl_cons, hrep, hseqno]
    unfold takeIn
    split
    · cases x.req_from_ j with
      | none => exact ⟨rfl, rfl⟩
      | some req =>
        obtain ⟨-, -, hrep, hseqno⟩ := intervalIncorporate_rest me x req.records
        exact ⟨hrep, hseqno⟩
    · exact ⟨rfl, rfl⟩

theorem step_rest {a : Action} (ha : step nprocs s a = some t) :
    s.replies <+: t.replies ∧ ∀ q, Rest s q (t.peer q) := by
  cases step_cases ha with
  | interval p ranges _ _ _ => exact ⟨List.prefix_rfl, Rest.update ⟨.inl rfl, .inr (.inl ⟨rfl, .inl rfl⟩)⟩⟩
  | enterManager p id _ hact _ =>
    obtain ⟨hrep, hseqno⟩ := takeIn_rest p id (others nprocs p) (s.peer p)
    exact ⟨List.prefix_rfl, Rest.update ⟨.inl hseqno, .inr (.inl ⟨hrep, .inr (by rw [hact]; nofun)⟩)⟩⟩
  | enterOther p id _ hact _ hfits =>
    exact ⟨List.prefix_append .., Rest.update ⟨.inr hfits, .inr (.inl ⟨rfl, .inr (by rw [hact]; nofun)⟩)⟩⟩
  | leaveManager p id _ _ => exact ⟨List.prefix_append .., Rest.update ⟨.inl rfl, .inl rfl⟩⟩
  | leaveOther p req r _ _ =>
    obtain ⟨-, -, -, hseqno⟩ := intervalIncorporate_rest p (s.peer p) r.records
    exact ⟨List.prefix_rfl, Rest.update ⟨.inl hseqno, .inl rfl⟩⟩
  | rexmit p req _ => exact ⟨List.prefix_append .., Rest.refl s⟩
  | handle req _ =>
    obtain ⟨hact, hrep, hseqno⟩ :=
      sigioHandler_rest nprocs (manager nprocs req.id) (s.peer (manager nprocs req.id)) req
    exact ⟨List.prefix_append .., Rest.update ⟨.inl hseqno, .inr (.inl ⟨hrep, .inl hact⟩)⟩⟩
  | take req r hmem hact hseqno =>
    exact ⟨List.prefix_rfl, Rest.update ⟨.inl rfl, .inr (.inr ⟨r, hmem, req, rfl, rfl, hact, hact, hseqno⟩)⟩⟩
  | receive r v g _ hact =>
    obtain ⟨-, -, hrep, hseqno⟩ := intervalIncorporate_rest r.dest (s.peer r.dest) r.records
    exact ⟨List.prefix_rfl, Rest.update ⟨.inl hseqno, .inr (.inl ⟨hrep, .inr (by rw [hact]; nofun)⟩)⟩⟩
  | acquire p hact hfits =>
    exact ⟨List.prefix_rfl, Rest.update ⟨.inr hfits, .inr (.inl ⟨rfl, .inr (by rw [hact]; nofun)⟩)⟩⟩
  | grant g p n v hact _ =>
    refine ⟨List.prefix_append .., fun q => ?_⟩
    show Rest s q (Function.update (Function.update s.peer p _) g _ q)
    by_cases hq : q = g
    · subst hq
      rw [Function.update_self]
      exact ⟨.inl rfl, .inr (.inl ⟨rfl, .inl rfl⟩)⟩
    · rw [Function.update_of_ne hq]
      refine Rest.update ?_ q
      exact ⟨.inl rfl, .inr (.inl ⟨rfl, .inr (by rw [hact]; nofun)⟩)⟩
  | grantAgain g p n v _ => exact ⟨List.prefix_append .., Rest.refl s⟩
  | number p _ hfits => exact ⟨List.prefix_rfl, Rest.update ⟨.inr hfits, .inr (.inl ⟨rfl, .inl rfl⟩)⟩⟩
  | hear p dest n _ _ _ => exact ⟨List.prefix_rfl, Rest.update ⟨.inl rfl, .inr (.inl ⟨rfl, .inl rfl⟩)⟩⟩

/-- What lies in `rep` is an answer to the arrival that the process waits with, and all numbers fit. -/
structure Taken (s : System) : Prop where
  rep : ∀ p r, (s.peer p).rep = some r →
    r ∈ s.replies ∧ r.dest = p ∧ ∃ req, (s.peer p).activity = .arrived req ∧ r.seqno = req.seqno
  number : ∀ p, (s.peer p).req_seqno < 2 ^ 32

theorem taken_init : Taken init := ⟨nofun, fun p => p.isLt.trans (by decide)⟩

theorem Taken.step (h : Taken s) {a : Action} (ha : step nprocs s a = some t) : Taken t := by
  obtain ⟨hreplies, hrest⟩ := step_rest ha
  refine ⟨fun p r hr => ?_, fun p => ?_⟩
  · rcases (hrest p).rep with hnone | ⟨hsame, hact⟩ | ⟨r', hmem, req, hnew, hdest, -, hact, hseqno⟩
    · rw [hnone] at hr
      cases hr
    · rw [hsame] at hr
      obtain ⟨hmem, hdest, req, hreq, hseqno⟩ := h.rep p r hr
      rcases hact with hact | hnot
      · exact ⟨hreplies.subset hmem, hdest, req, hact.trans hreq, hseqno⟩
      · exact absurd hreq (hnot req)
    · obtain rfl : r' = r := Option.some.inj (hnew.symm.trans hr)
      exact ⟨hreplies.subset hmem, hdest, req, hact, hseqno⟩
  · rcases (hrest p).number with hsame | hlt
    · rw [hsame]
      exact h.number p
    · exact hlt

theorem Inv.step (h : Inv nprocs s) (htaken : Taken s) (hpos : 0 < nprocs) {a : Action}
    (ha : step nprocs s a = some t) : Inv nprocs t := by
  cases step_cases ha with
  | interval p ranges hp hend hroom => exact h.interval hp hend hroom ranges
  | enterManager p id hp hact hm =>
    subst hm
    exact h.enterManager hpos hact rfl rfl rfl rfl rfl
  | enterOther p id hp hact hm _ => exact h.enterOther hp hact hm rfl rfl (List.append_nil _) rfl rfl
  | leaveManager p id hact hmask =>
    have hocc := h.occupied p
    rw [hact] at hocc
    obtain rfl := hocc.manager
    exact Opens.inv ⟨hact, hmask, rfl, List.append_nil _, rfl, rfl, rfl⟩ h hpos
  | leaveOther p req r hact hrep =>
    obtain ⟨hmem, rfl, req', hact', hseqno⟩ := htaken.rep p r hrep
    obtain rfl : req' = req := Activity.arrived.inj (hact'.symm.trans hact)
    exact h.receiveBarrier hpos hmem hact hseqno rfl rfl rfl rfl rfl
  | rexmit p req hact => exact h.rexmit hact
  | handle req hmem =>
    unfold sigioHandler
    by_cases hnew : (s.peer (manager nprocs req.id)).rep_seqno_ req.sender < req.seqno
    · simp only [if_pos hnew]
      exact h.handleNew hmem hnew rfl (List.append_nil _) (List.append_nil _) rfl rfl
    · simp only [if_neg hnew]
      exact h.handleAgain hmem (Nat.le_of_not_lt hnew)
  | take req r _ _ _ => exact h.take (some r)
  | receive r v g hmem hact => exact h.receiveLock hmem hact
  | acquire p hact _ => exact h.acquire hact
  | grant g p n v hact hne => exact h.grant hact hne
  | grantAgain g p n v hact => exact h.grantAgain hact
  | number p hact _ => exact h.number hact
  | hear p dest n hrep hn hne => exact h.hear hrep hn hne

theorem taken_of_reachable (hs : Reachable (step nprocs) init s) : Taken s :=
  hs.invariant Taken taken_init fun _ _ _ h ha => h.step ha

theorem inv_of_reachable (hpos : 0 < nprocs) (hs : Reachable (step nprocs) init s) : Inv nprocs s :=
  (hs.invariant (fun s => Inv nprocs s ∧ Taken s) ⟨inv_init nprocs, taken_init⟩ fun _ _ _ h ha =>
    ⟨h.1.step h.2 hpos ha, h.2.step ha⟩).1

/-! ### What it is for -/

/-- One of the barriers, as its processes see it. -/
def System.rounds (nprocs : Nat) (s : System) (id : Nat) : Meet.State { p : Proc // p < nprocs } :=
  ⟨fun p => (s.entered p id).length, fun p => s.left p id⟩

/-- A step is the way of one process into a barrier or out of it, or has to do with no barrier. -/
theorem Inv.step_rounds (h : Inv nprocs s) (hpos : 0 < nprocs) {a : Action} (ha : Barriers.step nprocs s a = some t) :
    (t.entered = s.entered ∧ t.left = s.left) ∨
    ∃ (p : Proc) (id : Nat), p < nprocs ∧
      (((s.peer p).activity = .running ∧ t.entered = (s.enter p id).entered ∧ t.left = s.left) ∨
        (t.entered = s.entered ∧ t.left = (s.leave p id).left)) := by
  cases step_cases ha with
  | enterManager p id hp hact _ => exact .inr ⟨p, id, hp, .inl ⟨hact, rfl, rfl⟩⟩
  | enterOther p id hp hact _ _ => exact .inr ⟨p, id, hp, .inl ⟨hact, rfl, rfl⟩⟩
  | leaveManager p id hact _ =>
    have hocc := h.occupied p
    rw [hact] at hocc
    obtain rfl := hocc.manager
    exact .inr ⟨manager nprocs id, id, manager_lt hpos id, .inr ⟨rfl, rfl⟩⟩
  | leaveOther p req r hact _ =>
    have hocc := h.occupied p
    rw [hact] at hocc
    exact .inr ⟨p, req.id, hocc.lt, .inr ⟨rfl, rfl⟩⟩
  | _ => exact .inl ⟨rfl, rfl⟩

/-- A process that runs has left each barrier as often as it has come to it. -/
theorem Inv.entered_of_running (h : Inv nprocs s) (hp : p < nprocs) (hact : (s.peer p).activity = .running) (id : Nat) :
    (s.entered p id).length = s.left p id := by
  by_cases hm : p = manager nprocs id
  · subst hm
    rcases (h.barrier id).manager with ⟨hspin, -⟩ | ⟨-, -, hlen⟩
    · rw [hact] at hspin
      cases hspin
    · exact hlen
  · obtain ⟨-, hent, hleft⟩ := ((h.barrier id).slave p hp hm).of_running (by rw [hact]; nofun)
    rw [hent, hleft]

theorem rounds_enter (hp : p < nprocs) (hentered : t.entered = (s.enter p id).entered) (hleft : t.left = s.left) :
    t.rounds nprocs id = { s.rounds nprocs id with
      came := Function.update (s.rounds nprocs id).came ⟨p, hp⟩ ((s.rounds nprocs id).came ⟨p, hp⟩ + 1) } := by
  unfold System.rounds
  rw [hentered, hleft]
  congr 1
  funext q
  by_cases hq : q = ⟨p, hp⟩
  · subst hq
    rw [Function.update_self, enter_entered_self, List.length_append]
    rfl
  · rw [Function.update_of_ne hq, enter_entered_ne s p id fun heq => hq (Subtype.ext heq)]

theorem rounds_leave (hp : p < nprocs) (hentered : t.entered = s.entered) (hleft : t.left = (s.leave p id).left) :
    t.rounds nprocs id = { s.rounds nprocs id with
      gone := Function.update (s.rounds nprocs id).gone ⟨p, hp⟩ ((s.rounds nprocs id).gone ⟨p, hp⟩ + 1) } := by
  unfold System.rounds
  rw [hentered, hleft]
  congr 1
  funext q
  by_cases hq : q = ⟨p, hp⟩
  · subst hq
    rw [Function.update_self, leave_left_self]
  · rw [Function.update_of_ne hq, leave_left_ne s p id fun heq => hq (Subtype.ext heq)]

/-- Each step of the protocol is a step of the barrier, or none. -/
theorem Inv.simulates (h : Inv nprocs s) (htaken : Taken s) (hpos : 0 < nprocs) {a : Action}
    (ha : Barriers.step nprocs s a = some t) (id : Nat) :
    t.rounds nprocs id = s.rounds nprocs id ∨
      ∃ b, Meet.step (s.rounds nprocs id) b = some (t.rounds nprocs id) := by
  rcases h.step_rounds hpos ha with ⟨hentered, hleft⟩ | ⟨p, id', hp, ⟨hact, hentered, hleft⟩ | ⟨hentered, hleft⟩⟩
  · left
    unfold System.rounds
    rw [hentered, hleft]
  · by_cases hid : id = id'
    · subst hid
      refine .inr ⟨.come ⟨p, hp⟩, ?_⟩
      rw [rounds_enter hp hentered hleft]
      exact if_pos (h.entered_of_running hp hact id)
    · left
      unfold System.rounds
      rw [hentered, hleft]
      simp only [enter_entered_id s p _ hid]
  · by_cases hid : id = id'
    · subst hid
      refine .inr ⟨.go ⟨p, hp⟩, ?_⟩
      rw [rounds_leave hp hentered hleft]
      refine if_pos fun q => ?_
      -- after the step it has met everybody
      obtain ⟨e, he, -⟩ := ((h.step htaken hpos ha).barrier id).met p hp q q.2 (s.left p id) (by
        rw [hleft, leave_left_self]
        omega)
      rw [hentered] at he
      exact (List.getElem?_eq_some_iff.mp he).1
    · left
      unfold System.rounds
      rw [hentered, hleft]
      simp only [leave_left_id s p _ hid]

end Lemmas

/-! ## Top theorems -/

/-- **No number wraps**: every sequence number is an `unsigned`, and every vector time an `unsigned short`. -/
theorem numbers_fit {nprocs : Nat} {s : System} (hpos : 0 < nprocs) (hs : Reachable (step nprocs) init s) :
    (∀ p, (s.peer p).req_seqno < 2 ^ 32) ∧ (∀ a p, (s.peer a).rep_seqno_ p < 2 ^ 32) ∧
      (∀ r ∈ s.arrivals, r.seqno < 2 ^ 32) ∧ (∀ r ∈ s.replies, r.seqno < 2 ^ 32) ∧
      ∀ p i, (s.peer p).time i < 2 ^ 16 := by
  have hreq := (taken_of_reachable hs).number
  have hinv := inv_of_reachable hpos hs
  refine ⟨hreq, fun a p => (hinv.messages.rep a p).trans_lt (hreq p),
    fun r hr => (hinv.messages.sent r hr).trans_lt (hreq _), fun r hr => (hinv.messages.replies r hr).trans_lt (hreq _),
    fun p i => ?_⟩
  have hle := (hinv.histories.knows p).le i
  rw [hinv.histories.length i] at hle
  exact hle.trans_lt (hinv.histories.short i)

end Tmk.Barriers
