import SistemasDistribuidos.Tmk.Barrier

/-!
# What single processes do: numbers, locks, the end of an interval, the way into a barrier

Each of these keeps the invariant.  Most of them are steps of one process that change nothing that it has for the
others (`Frame.plain`), and that are about one barrier at most (`Apart.of_step` for the rest).  The end of an interval
is not such a step, since the history of the process gets longer (`Ends`).
-/

namespace Tmk.Barriers

open Runs

/-! ## Lemmas -/

section Lemmas

variable {nprocs : Nat} {s t : System} {x p q j : Proc} {id : Nat} {y : Peer} {req : Arrival}
  {H : Proc → List Interval}

/-! ### Steps of one process -/

theorem peer_self (hpeer : t.peer = Function.update s.peer x y) : t.peer x = y := by
  rw [hpeer, Function.update_self]

theorem peer_of_ne (hpeer : t.peer = Function.update s.peer x y) (hp : p ≠ x) : t.peer p = s.peer p := by
  rw [hpeer, Function.update_of_ne hp]

theorem setPeer_self (s : System) (x : Proc) (y : Peer) : (s.setPeer x y).peer x = y := Function.update_self ..

/-- A step of process `x` alone: what it has answered stays answered. -/
theorem Frame.of_step {A : List Arrival} {R : List Reply} (hpeer : t.peer = Function.update s.peer x y)
    (hknows : Knows s.history y) (htime : ∀ i, (s.peer x).time i ≤ y.time i)
    (harrivals : t.arrivals = s.arrivals ++ A) (hreplies : t.replies = s.replies ++ R)
    (hentered : ∀ p id, s.entered p id <+: t.entered p id) (hentered_ne : ∀ p, p ≠ x → t.entered p = s.entered p)
    (hleft_ne : ∀ p, p ≠ x → t.left p = s.left p)
    (hrep : ∀ p, (s.peer x).rep_seqno_ p ≤ y.rep_seqno_ p ∧ y.rep_seqno_ p ≤ (s.peer p).req_seqno)
    (hreq : (s.peer x).req_seqno ≤ y.req_seqno) (hturn : Turn nprocs s x y)
    (hans : ∀ q req, q ≠ x → (s.peer q).activity = .arrived req → manager nprocs req.id = x →
      (s.peer x).rep_seqno_ q = req.seqno → ((s.peer x).mask req.id).testBit q = false →
      y.rep_seqno_ q = req.seqno ∧ (y.mask req.id).testBit q = false ∧ t.left x req.id = s.left x req.id)
    (hA : ∀ r ∈ A, r.sender = x ∧ y.activity = .arrived r ∧ r.seqno ≤ y.req_seqno ∧ x ≠ manager nprocs r.id)
    (hR : ∀ r ∈ R, r.dest ≠ x ∧ r.seqno ≤ (s.peer r.dest).req_seqno ∧
      (Live s r → Answered nprocs t r.dest x ∧ r.time = (s.peer x).time ∧
        r.records = records nprocs (fun i => (s.history i).take (r.time i)) (s.peer r.dest).activity.request ∧
        ∀ req, (s.peer r.dest).activity = .arrived req →
          Met nprocs t req.id (t.left (manager nprocs req.id) req.id) r.time)) : Frame nprocs s t x A R := by
  have hself := peer_self hpeer
  refine ⟨fun a => peer_of_ne hpeer, by rwa [hself], by rwa [hself], harrivals, hreplies,
    hentered, hentered_ne, hleft_ne, fun p => ?_, by rwa [hself], by rwa [hself], fun q src hq ha => ?_,
    fun q req hreq ha hq => ?_, by rwa [hself], hR⟩
  · rw [hself]
    refine ⟨(hrep p).1, (hrep p).2.trans ?_⟩
    by_cases hp : p = x
    · subst hp
      rw [hself]
      exact hreq
    · rw [peer_of_ne hpeer hp]
  · unfold Answered at ha ⊢
    rw [peer_of_ne hpeer hq]
    rcases ha with ⟨req, hact, rfl, hseqno, hbit⟩ | hacq
    · refine .inl ⟨req, hact, rfl, ?_⟩
      by_cases hm : manager nprocs req.id = x
      · rw [hm] at hseqno hbit ⊢
        obtain ⟨hseqno', hbit', -⟩ := hans q req hq hact hm hseqno hbit
        rw [hself]
        exact ⟨hseqno', hbit'⟩
      · rw [peer_of_ne hpeer hm]
        exact ⟨hseqno, hbit⟩
    · exact .inr hacq
  · by_cases hm : manager nprocs req.id = x
    · rcases ha with ⟨req', hact, -, hseqno, hbit⟩ | ⟨n, v, hact⟩
      · rw [hreq] at hact
        cases hact
        rw [hm] at hseqno hbit ⊢
        exact (hans q req hq hreq hm hseqno hbit).2.2
      · rw [hreq] at hact
        cases hact
    · rw [hleft_ne _ hm]

/-- A step that has to do with what process `x` does and knows, and with nothing that it has for others. -/
theorem Frame.plain (h : Inv nprocs s) {A : List Arrival} (hpeer : t.peer = Function.update s.peer x y)
    (hknows : Knows s.history y) (htime : ∀ i, (s.peer x).time i ≤ y.time i)
    (harrivals : t.arrivals = s.arrivals ++ A) (hreplies : t.replies = s.replies)
    (hentered : ∀ p id, s.entered p id <+: t.entered p id) (hentered_ne : ∀ p, p ≠ x → t.entered p = s.entered p)
    (hleft_ne : ∀ p, p ≠ x → t.left p = s.left p) (hleft : ∀ id, manager nprocs id = x → t.left x id = s.left x id)
    (hrep : y.rep_seqno_ = (s.peer x).rep_seqno_) (hmask : y.mask = (s.peer x).mask)
    (hreq : (s.peer x).req_seqno ≤ y.req_seqno) (hturn : Turn nprocs s x y)
    (hA : ∀ r ∈ A, r.sender = x ∧ y.activity = .arrived r ∧ r.seqno ≤ y.req_seqno ∧ x ≠ manager nprocs r.id) :
    Frame nprocs s t x A [] := by
  refine Frame.of_step hpeer hknows htime harrivals (by rw [hreplies, List.append_nil]) hentered hentered_ne hleft_ne
    (fun p => ?_) hreq hturn (fun q req _ _ hm hseqno hbit => ?_) hA nofun
  · rw [hrep]
    exact ⟨le_rfl, h.messages.rep x p⟩
  · rw [hrep, hmask]
    exact ⟨hseqno, hbit, hleft req.id hm⟩

/-- Process `x` is not at the barrier, neither before nor after. -/
def Away (id : Nat) (a : Activity) : Prop := (∀ req, a = .arrived req → req.id ≠ id) ∧ a ≠ .spinning id

/-- A step of process `x` that is not about the barrier. -/
theorem Apart.of_step (hpeer : t.peer = Function.update s.peer x y)
    (hact : y.activity = (s.peer x).activity ∨ (Away id (s.peer x).activity ∧ Away id y.activity))
    (hmask : y.mask id = (s.peer x).mask id)
    (hrep : ∀ p req, (s.peer p).activity = .arrived req → req.id = id → manager nprocs id = x →
      y.rep_seqno_ p = (s.peer x).rep_seqno_ p ∨ ((s.peer x).rep_seqno_ p < req.seqno ∧ y.rep_seqno_ p < req.seqno))
    (hfrom : ∀ p req, (s.peer p).activity = .arrived req → req.id = id → manager nprocs id = x →
      y.req_from_ p = (s.peer x).req_from_ p)
    (hentered : ∀ p, t.entered p id = s.entered p id) (hleft : ∀ p, t.left p id = s.left p id)
    (htime : ∀ i, (s.peer x).time i ≤ y.time i)
    (hown : (∃ req, (s.peer x).activity = .arrived req) → y.time x = (s.peer x).time x) : Apart nprocs s t id := by
  have hself := peer_self hpeer
  have hmask' : (t.peer (manager nprocs id)).mask id = (s.peer (manager nprocs id)).mask id := by
    by_cases hm : manager nprocs id = x
    · rw [hm, hself]
      exact hmask
    · rw [peer_of_ne hpeer hm]
  have htime' : ∀ p i, (s.peer p).time i ≤ (t.peer p).time i := by
    intro p i
    by_cases hp : p = x
    · subst hp
      rw [hself]
      exact htime i
    · rw [peer_of_ne hpeer hp]
  refine ⟨fun p _ _ => ?_, hmask', ?_, hentered, hleft, htime'⟩
  · refine ⟨?_, by rw [hmask'], hentered p, hleft p, hleft _, fun req hreq hid => ?_, fun req hreq hid => ?_,
      fun req hreq hid _ hown' => ?_⟩
    · by_cases hp : p = x
      · subst hp
        rw [hself]
        rcases hact with heq | ⟨haway, haway'⟩
        · exact .inl heq
        · exact .inr ⟨haway.1, haway'.1⟩
      · exact .inl (by rw [peer_of_ne hpeer hp])
    · by_cases hm : manager nprocs id = x
      · rw [hm, hself]
        exact hrep p req hreq hid hm
      · exact .inl (by rw [peer_of_ne hpeer hm])
    · by_cases hm : manager nprocs id = x
      · rw [hm, hself]
        exact hfrom p req hreq hid hm
      · rw [peer_of_ne hpeer hm]
    · rw [hmask'] at hown'
      refine .inl ⟨hown', ?_, htime' _ _⟩
      by_cases hp : p = x
      · subst hp
        rw [hself]
        exact hown ⟨req, hreq⟩
      · rw [peer_of_ne hpeer hp]
  · by_cases hm : manager nprocs id = x
    · rw [hm, hself]
      rcases hact with heq | ⟨haway, haway'⟩
      · rw [heq]
      · exact ⟨fun h => absurd h haway'.2, fun h => absurd h haway.2⟩
    · rw [peer_of_ne hpeer hm]

theorem away_running (id : Nat) : Away id .running := ⟨nofun, nofun⟩

theorem away_acquiring (id n : Nat) (v : VectorTime) (g : Option Proc) : Away id (.acquiring n v g) := ⟨nofun, nofun⟩

/-! ### Numbers and locks -/

/-- A step that concerns no barrier and changes nothing that process `x` knows or has told others. -/
theorem Inv.aside (h : Inv nprocs s) (hy : y = { s.peer x with activity := y.activity, req_seqno := y.req_seqno })
    (hreq : (s.peer x).req_seqno ≤ y.req_seqno) (hturn : Turn nprocs s x y)
    (haway : ∀ id, Away id (s.peer x).activity ∧ Away id y.activity)
    (hocc : Occupied nprocs (s.setPeer x y) x y.activity) : Inv nprocs (s.setPeer x y) := by
  have hself := setPeer_self s x y
  have htime : y.time = (s.peer x).time := by rw [hy]
  have hf : Frame nprocs s (s.setPeer x y) x [] [] := by
    refine Frame.plain h rfl ⟨?_, ?_⟩ ?_ (List.append_nil _).symm rfl (fun _ _ => List.prefix_rfl) (fun _ _ => rfl)
      (fun _ _ => rfl) (fun _ _ => rfl) (by rw [hy]) (by rw [hy]) hreq hturn nofun
    · rw [htime]
      exact (h.histories.knows x).le
    · rw [hy]
      exact (h.histories.knows x).log
    · rw [htime]
      exact fun _ => le_rfl
  refine Inv.frame hf h (by rw [hself]; exact hocc) (fun q hq => ?_) fun id => ?_
  · obtain ⟨hle, ho⟩ := h.inverse x q hq
    rw [hself, htime, show y.inverse_time_ = (s.peer x).inverse_time_ by rw [hy]]
    exact ⟨hle, hf.owed h ho⟩
  · apply (h.barrier id).apart
    refine Apart.of_step rfl (.inr (haway id)) ?_ (fun _ _ _ _ _ => .inl ?_) (fun _ _ _ _ _ => ?_) (fun _ => rfl)
      (fun _ => rfl) (fun i => ?_) fun _ => ?_
    · rw [hy]
    · rw [hy]
    · rw [hy]
    · rw [htime]
    · rw [htime]

/-- A request of another type takes a number. -/
theorem Inv.number (h : Inv nprocs s) (hact : (s.peer x).activity = .running) :
    Inv nprocs (s.setPeer x { s.peer x with req_seqno := (s.peer x).req_seqno + NPROCS }) := by
  refine h.aside rfl (Nat.le_add_right _ _) (.same rfl) (fun id => ?_) ?_
  · rw [hact]
    exact ⟨away_running id, away_running id⟩
  · rw [hact]
    trivial

/-- A process asks for a lock. -/
theorem Inv.acquire (h : Inv nprocs s) (hact : (s.peer x).activity = .running) :
    Inv nprocs (s.setPeer x { s.peer x with
      req_seqno := (s.peer x).req_seqno + NPROCS
      activity := .acquiring ((s.peer x).req_seqno + NPROCS) (s.peer x).time none }) := by
  refine h.aside rfl (Nat.le_add_right _ _) (.start ?_ fun n hn => ?_) (fun id => ?_) ⟨?_, ?_, nofun⟩
  · rw [hact]
    rfl
  · have hpos : 0 < NPROCS := by decide
    cases hn
    omega
  · rw [hact]
    exact ⟨away_running id, away_acquiring id _ _ _⟩
  · rw [setPeer_self]
  · rw [setPeer_self]
    exact fun _ => le_rfl

/-- The lock is on its way. -/
theorem Inv.mark (h : Inv nprocs s) {n : Nat} {v : VectorTime} (hact : (s.peer x).activity = .acquiring n v none)
    {g : Proc} (hg : g ≠ x) :
    Inv nprocs (s.setPeer x { s.peer x with activity := .acquiring n v (some g) }) := by
  have hocc := h.occupied x
  rw [hact] at hocc
  refine h.aside rfl le_rfl (.granted g n v hact rfl) (fun id => ?_) ⟨?_, ?_, fun heq => hg (Option.some.inj heq)⟩
  · rw [hact]
    exact ⟨away_acquiring id _ _ _, away_acquiring id _ _ _⟩
  · rw [setPeer_self]
    exact hocc.seqno
  · rw [setPeer_self]
    exact hocc.vector_time

/-- Process `x` sends replies and notes what it has told. -/
theorem Inv.sendReply (h : Inv nprocs s) {R : List Reply}
    (hy : y = { s.peer x with inverse_time_ := y.inverse_time_ })
    (hR : ∀ r ∈ R, r.dest ≠ x ∧ r.seqno ≤ (s.peer r.dest).req_seqno ∧ (Live s r → Answered nprocs s r.dest x ∧
      ∃ seqno, r = replyTo nprocs (s.peer x) r.dest seqno (s.peer r.dest).activity.request))
    (hinv : ∀ q, q ≠ x → y.inverse_time_ q = (s.peer x).inverse_time_ q ∨
      (y.inverse_time_ q = (s.peer x).time x ∧ Answered nprocs s q x ∧ ∀ r ∈ s.replies, r.dest = q → ¬ Live s r)) :
    Inv nprocs ((s.setPeer x y).send [] R) := by
  have hself : ((s.setPeer x y).send [] R).peer x = y := setPeer_self s x y
  have hne : ∀ a, a ≠ x → ((s.setPeer x y).send [] R).peer a = s.peer a := fun a ha => peer_of_ne rfl ha
  have hact : y.activity = (s.peer x).activity := by rw [hy]
  have htime : y.time = (s.peer x).time := by rw [hy]
  have hrep : y.rep_seqno_ = (s.peer x).rep_seqno_ := by rw [hy]
  have hmask : y.mask = (s.peer x).mask := by rw [hy]
  have hans : ∀ q src, Answered nprocs s q src → Answered nprocs ((s.setPeer x y).send [] R) q src := by
    intro q src ha
    have hpeer : ∀ a, (((s.setPeer x y).send [] R).peer a).activity = (s.peer a).activity ∧
        (((s.setPeer x y).send [] R).peer a).rep_seqno_ = (s.peer a).rep_seqno_ ∧
        (((s.setPeer x y).send [] R).peer a).mask = (s.peer a).mask := by
      intro a
      by_cases ha : a = x
      · subst ha
        rw [hself]
        exact ⟨hact, hrep, hmask⟩
      · rw [hne a ha]
        exact ⟨rfl, rfl, rfl⟩
    unfold Answered at ha ⊢
    rw [(hpeer q).1, (hpeer src).2.1, (hpeer src).2.2]
    exact ha
  have hf : Frame nprocs s ((s.setPeer x y).send [] R) x [] R := by
    refine ⟨hne, ?_, ?_, rfl, rfl, fun _ _ => List.prefix_rfl, fun _ _ => rfl, fun _ _ => rfl,
      fun p => ?_, ?_, .same ?_, fun q src _ => hans q src, fun _ _ _ _ _ => rfl, nofun, fun r hr => ?_⟩
    · rw [hself, hy]
      exact ⟨(h.histories.knows x).le, (h.histories.knows x).log⟩
    · rw [hself, htime]
      exact fun _ => le_rfl
    · rw [hself, hrep]
      refine ⟨le_rfl, (h.messages.rep x p).trans ?_⟩
      by_cases hp : p = x
      · subst hp
        rw [hself, hy]
      · rw [hne p hp]
    · rw [hself, hy]
    · rw [hself, hact]
    · obtain ⟨hd, hseqno, hlive⟩ := hR r hr
      refine ⟨hd, hseqno, fun hl => ?_⟩
      obtain ⟨ha, n, heq⟩ := hlive hl
      have hrtime : r.time = (s.peer x).time := by rw [heq]; rfl
      refine ⟨hans _ _ ha, hrtime, ?_, fun req hreq => ?_⟩
      · rw [hrtime, ← request_eq h.histories.numbered (h.histories.knows x), heq]
        rfl
      · -- the barrier is open, so that the manager has met everybody
        rcases ha with ⟨req', hact', rfl, -⟩ | ⟨n', v, hact'⟩
        · rw [hreq] at hact'
          cases hact'
          rw [hrtime]
          have hocc := h.occupied r.dest
          rw [hreq] at hocc
          exact (h.barrier req.id).met _ (manager_lt (Nat.zero_lt_of_lt hocc.lt) req.id)
        · rw [hreq] at hact'
          cases hact'
  refine Inv.frame hf h ?_ (fun q hq => ?_) fun id => ?_
  · rw [hself, hact]
    refine (h.occupied x).mono (by rw [hf.history h]) rfl (by rw [hself, hy]) (by rw [hself, htime]) fun q hq => ?_
    rw [hself]
    rcases hinv q hq with heq | ⟨heq, -⟩
    · rw [heq]
    · rw [heq]
      exact (h.inverse x q hq).1
  · rw [hself, htime]
    rcases hinv q hq with heq | ⟨heq, ha, hnone⟩
    · obtain ⟨hle, ho⟩ := h.inverse x q hq
      rw [heq]
      exact ⟨hle, hf.owed h ho⟩
    · rw [heq]
      refine ⟨le_rfl, .inr ⟨x, hans q x ha, by rw [hself, htime], fun r hr hdest hlive => ?_⟩⟩
      rcases List.mem_append.mp hr with hr | hr
      · exact absurd (hf.live h hr hlive) (hnone r hr hdest)
      · obtain ⟨hd, -, hnew⟩ := hR r hr
        unfold Live at hlive
        rw [hne _ hd] at hlive
        obtain ⟨-, n, hrn⟩ := hnew hlive
        rw [hrn]
        exact le_rfl
  · apply (h.barrier id).apart
    refine Apart.of_step rfl (.inl hact) (by rw [hmask]) (fun _ _ _ _ _ => .inl (by rw [hrep]))
      (fun _ _ _ _ _ => by rw [hy]) (fun _ => rfl) (fun _ => rfl) (fun i => by rw [htime]) fun _ => by rw [htime]

/-- The lock is sent again. -/
theorem Inv.grantAgain (h : Inv nprocs s) {n : Nat} {v : VectorTime}
    (hact : (s.peer p).activity = .acquiring n v (some x)) :
    Inv nprocs (s.send [] [replyTo nprocs (s.peer x) p n v]) := by
  have hocc := h.occupied p
  rw [hact] at hocc
  have ha : Answered nprocs s p x := .inr ⟨n, v, hact⟩
  have hgoal := h.sendReply (x := x) (y := s.peer x) (R := [replyTo nprocs (s.peer x) p n v]) rfl
    (List.forall_mem_singleton.mpr ⟨(h.answered_ne ha).symm, hocc.seqno.le, fun _ => ⟨ha, n, by
      rw [show (replyTo nprocs (s.peer x) p n v).dest = p from rfl, hact]
      rfl⟩⟩) (fun _ _ => .inl rfl)
  rwa [show s.setPeer x (s.peer x) = s by unfold System.setPeer; rw [Function.update_eq_self]] at hgoal

/-- A lock is granted: the process that gets it is said to know all the intervals of the one that gives it. -/
theorem Inv.grant (h : Inv nprocs s) {n : Nat} {v : VectorTime} (hact : (s.peer p).activity = .acquiring n v none)
    (hne : x ≠ p) :
    Inv nprocs (((s.setPeer p { s.peer p with activity := .acquiring n v (some x) }).setPeer x
      { s.peer x with inverse_time_ := Function.update (s.peer x).inverse_time_ p ((s.peer x).time x) }).send []
      [replyTo nprocs (s.peer x) p n v]) := by
  have hmark := h.mark hact hne
  have hocc := hmark.occupied p
  rw [setPeer_self] at hocc
  have hx : (s.setPeer p { s.peer p with activity := .acquiring n v (some x) }).peer x = s.peer x := peer_of_ne rfl hne
  have hp := setPeer_self s p { s.peer p with activity := .acquiring n v (some x) }
  -- nobody has sent it before
  have hnone : ∀ r ∈ (s.setPeer p { s.peer p with activity := .acquiring n v (some x) }).replies, r.dest = p →
      ¬ Live (s.setPeer p { s.peer p with activity := .acquiring n v (some x) }) r := by
    intro r hr hdest hlive
    unfold Live at hlive
    rw [hdest, hp] at hlive
    obtain ⟨src, ha⟩ := (h.messages.live r hr (by unfold Live; rw [hdest, hact]; exact hlive)).answered
    rw [hdest] at ha
    rcases ha with ⟨req, hact', -⟩ | ⟨n', v', hact'⟩
    · rw [hact] at hact'
      cases hact'
    · rw [hact] at hact'
      cases hact'
  generalize s.setPeer p { s.peer p with activity := .acquiring n v (some x) } = s' at *
  have hact' : (s'.peer p).activity = .acquiring n v (some x) := by rw [hp]
  have ha : Answered nprocs s' p x := .inr ⟨n, v, hact'⟩
  rw [← hx]
  refine hmark.sendReply (R := [replyTo nprocs (s'.peer x) p n v]) rfl
    (List.forall_mem_singleton.mpr ⟨hne.symm, hocc.seqno.le, fun _ => ⟨ha, n, ?_⟩⟩) fun q hq => ?_
  · rw [show (replyTo nprocs (s'.peer x) p n v).dest = p from rfl, hact']
    rfl
  · by_cases hqp : q = p
    · subst hqp
      exact .inr ⟨Function.update_self .., ha, hnone⟩
    · exact .inl (Function.update_of_ne hqp ..)

/-- The arrival is sent again. -/
theorem Inv.rexmit (h : Inv nprocs s) {req : Arrival} (hact : (s.peer x).activity = .arrived req) :
    Inv nprocs (s.send [req] []) := by
  have hocc := h.occupied x
  rw [hact] at hocc
  have hpeer : (s.send [req] []).peer = Function.update s.peer x (s.peer x) := (Function.update_eq_self ..).symm
  have hf : Frame nprocs s (s.send [req] []) x [req] [] := by
    refine Frame.plain h hpeer (h.histories.knows x) (fun _ => le_rfl) rfl (List.append_nil _)
      (fun _ _ => List.prefix_rfl) (fun _ _ => rfl) (fun _ _ => rfl) (fun _ _ => rfl) rfl rfl le_rfl (.same rfl) ?_
    exact List.forall_mem_singleton.mpr ⟨hocc.sender, hact, hocc.seqno.le, hocc.ne⟩
  refine Inv.frame hf h ?_ (fun q hq => ?_) fun id => ?_
  · exact (h.occupied x).mono (by rw [hf.history h]) rfl rfl rfl fun _ _ => le_rfl
  · obtain ⟨hle, ho⟩ := h.inverse x q hq
    exact ⟨hle, hf.owed h ho⟩
  · apply (h.barrier id).apart
    exact Apart.of_step hpeer (.inl rfl) rfl (fun _ _ _ _ _ => .inl rfl) (fun _ _ _ _ _ => rfl) (fun _ => rfl)
      (fun _ => rfl) (fun _ => le_rfl) fun _ => rfl

/-- An answer has been received, and its data are to be used. -/
theorem Inv.take (h : Inv nprocs s) (rep : Option Reply) : Inv nprocs (s.setPeer x { s.peer x with rep := rep }) := by
  have hself := setPeer_self s x { s.peer x with rep := rep }
  have hpeer : (s.setPeer x { s.peer x with rep := rep }).peer =
    Function.update s.peer x { s.peer x with rep := rep } := rfl
  have hk := h.histories.knows x
  have hf : Frame nprocs s (s.setPeer x { s.peer x with rep := rep }) x [] [] :=
    Frame.plain h hpeer ⟨hk.le, hk.log⟩ (fun _ => le_rfl) (List.append_nil _).symm rfl (fun _ _ => List.prefix_rfl)
      (fun _ _ => rfl) (fun _ _ => rfl) (fun _ _ => rfl) rfl rfl le_rfl (.same rfl) nofun
  refine Inv.frame hf h ?_ (fun q hq => ?_) fun id => ?_
  · rw [hself]
    exact (h.occupied x).mono (by rw [hf.history h]) rfl (by rw [hself]) (by rw [hself]) fun q _ => by rw [hself]
  · obtain ⟨hle, ho⟩ := h.inverse x q hq
    rw [hself]
    exact ⟨hle, hf.owed h ho⟩
  · apply (h.barrier id).apart
    exact Apart.of_step hpeer (.inl rfl) rfl (fun _ _ _ _ _ => .inl rfl) (fun _ _ _ _ _ => rfl) (fun _ => rfl)
      (fun _ => rfl) (fun _ => le_rfl) fun _ => rfl

/-- A request of another type comes. -/
theorem Inv.hear (h : Inv nprocs s) {n : Nat} (hrep : (s.peer x).rep_seqno_ p < n) (hn : n ≤ (s.peer p).req_seqno)
    (hne : ∀ req, (s.peer p).activity = .arrived req → req.seqno ≠ n) :
    Inv nprocs (s.setPeer x { s.peer x with rep_seqno_ := Function.update (s.peer x).rep_seqno_ p n }) := by
  have hself := setPeer_self s x { s.peer x with rep_seqno_ := Function.update (s.peer x).rep_seqno_ p n }
  have hpeer : (s.setPeer x { s.peer x with rep_seqno_ := Function.update (s.peer x).rep_seqno_ p n }).peer =
    Function.update s.peer x { s.peer x with rep_seqno_ := Function.update (s.peer x).rep_seqno_ p n } := rfl
  -- no number of an arrival that has been handled changes
  have hother : ∀ q req, (s.peer q).activity = .arrived req →
      Function.update (s.peer x).rep_seqno_ p n q = (s.peer x).rep_seqno_ q ∨
      ((s.peer x).rep_seqno_ q < req.seqno ∧ Function.update (s.peer x).rep_seqno_ p n q < req.seqno) := by
    intro q req hreq
    by_cases hq : q = p
    · subst hq
      have hocc := h.occupied q
      rw [hreq] at hocc
      have hseqno := hocc.seqno
      have hne' := hne req hreq
      right
      rw [Function.update_self]
      omega
    · exact .inl (Function.update_of_ne hq ..)
  have hf : Frame nprocs s
      (s.setPeer x { s.peer x with rep_seqno_ := Function.update (s.peer x).rep_seqno_ p n }) x [] [] := by
    refine Frame.of_step hpeer ⟨(h.histories.knows x).le, (h.histories.knows x).log⟩ (fun _ => le_rfl)
      (List.append_nil _).symm (List.append_nil _).symm (fun _ _ => List.prefix_rfl) (fun _ _ => rfl) (fun _ _ => rfl)
      (fun q => ?_) le_rfl (.same rfl) (fun q req _ hreq _ hseqno hbit => ⟨?_, hbit, rfl⟩) nofun nofun
    · by_cases hq : q = p
      · subst hq
        simp only [Function.update_self]
        exact ⟨hrep.le, hn⟩
      · simp only [Function.update_of_ne hq]
        exact ⟨le_rfl, h.messages.rep x q⟩
    · rcases hother q req hreq with heq | ⟨hlt, -⟩
      · exact heq.trans hseqno
      · omega
  refine Inv.frame hf h ?_ (fun q hq => ?_) fun id => ?_
  · rw [hself]
    exact (h.occupied x).mono (by rw [hf.history h]) rfl (by rw [hself]) (by rw [hself]) fun q _ => by rw [hself]
  · obtain ⟨hle, ho⟩ := h.inverse x q hq
    rw [hself]
    exact ⟨hle, hf.owed h ho⟩
  · apply (h.barrier id).apart
    exact Apart.of_step hpeer (.inl rfl) rfl (fun q req hreq _ _ => hother q req hreq) (fun _ _ _ _ _ => rfl)
      (fun _ => rfl) (fun _ => rfl) (fun _ => le_rfl) fun _ => rfl

/-! ### The end of an interval -/

/-- Process `x` has ended an interval. -/
structure Ends (s t : System) (x : Proc) (ranges : List (Nat × Nat)) : Prop where
  peer : t.peer = Function.update s.peer x (intervalCreate x ranges (s.peer x))
  arrivals : t.arrivals = s.arrivals
  replies : t.replies = s.replies
  entered : t.entered = s.entered
  left : t.left = s.left

section

variable {ranges : List (Nat × Nat)} (he : Ends s t x ranges)
include he

/-- Nothing else of the processes changes. -/
theorem Ends.rest (a : Proc) : (t.peer a).activity = (s.peer a).activity ∧ (t.peer a).mask = (s.peer a).mask ∧
    (t.peer a).rep_seqno_ = (s.peer a).rep_seqno_ ∧ (t.peer a).req_seqno = (s.peer a).req_seqno ∧
    (t.peer a).inverse_time_ = (s.peer a).inverse_time_ := by
  by_cases ha : a = x
  · subst ha
    rw [peer_self he.peer]
    exact ⟨rfl, rfl, rfl, rfl, rfl⟩
  · rw [peer_of_ne he.peer ha]
    exact ⟨rfl, rfl, rfl, rfl, rfl⟩

theorem Ends.own_time : (t.peer x).time x = (s.peer x).time x + 1 := by
  rw [peer_self he.peer]
  exact Function.update_self ..

theorem Ends.time_ne {i : Proc} (hi : i ≠ x) : (t.peer x).time i = (s.peer x).time i := by
  rw [peer_self he.peer]
  exact Function.update_of_ne hi ..

theorem Ends.time (p i : Proc) : (s.peer p).time i ≤ (t.peer p).time i := by
  by_cases hp : p = x
  · subst hp
    by_cases hi : i = p
    · subst hi
      rw [he.own_time]
      omega
    · exact (he.time_ne hi).ge
  · rw [peer_of_ne he.peer hp]

theorem Ends.history_ne {i : Proc} (hi : i ≠ x) : t.history i = s.history i := by
  unfold System.history
  rw [peer_of_ne he.peer hi]

/-- The history of the process has one record more. -/
theorem Ends.history : t.history x = s.history x ++ [⟨x, (t.peer x).time, ranges⟩] := by
  unfold System.history
  rw [peer_self he.peer]
  exact Function.update_self ..

theorem Ends.length (i : Proc) : (s.history i).length ≤ (t.history i).length := by
  by_cases hi : i = x
  · subst hi
    rw [he.history, List.length_append]
    omega
  · rw [he.history_ne hi]

theorem Ends.take {i : Proc} {k : Nat} (hk : k ≤ (s.history i).length) :
    (t.history i).take k = (s.history i).take k := by
  by_cases hi : i = x
  · subst hi
    rw [he.history, List.take_append_of_le_length hk]
  · rw [he.history_ne hi]

theorem Ends.answered (q src : Proc) : Answered nprocs t q src ↔ Answered nprocs s q src := by
  unfold Answered
  rw [(he.rest q).1, (he.rest src).2.2.1, (he.rest src).2.1]

theorem Ends.live (r : Reply) : Live t r ↔ Live s r := by
  unfold Live
  rw [(he.rest r.dest).1]

theorem Ends.numbered (h : Histories nprocs s) (i : Proc) : Numbered i (t.history i) := by
  by_cases hi : i = x
  · subst hi
    intro k iv hk
    rw [he.history] at hk
    rcases Nat.lt_or_ge k (s.history i).length with hlt | hge
    · rw [List.getElem?_append_left hlt] at hk
      exact h.numbered i k iv hk
    · rw [List.getElem?_append_right hge, List.getElem?_singleton] at hk
      split at hk
      · next hk' =>
        have hlen := h.length i
        have hown := he.own_time
        cases hk
        refine ⟨rfl, ?_⟩
        show (t.peer i).time i = k + 1
        omega
      · cases hk
  · rw [he.history_ne hi]
    exact h.numbered i

/-- The process itself has its new record, and the others have as many as before. -/
theorem Ends.knows (h : Histories nprocs s) (p : Proc) : Knows t.history (t.peer p) := by
  by_cases hp : p = x
  · subst hp
    refine ⟨fun i => ?_, fun i => ?_⟩
    · by_cases hi : i = p
      · subst hi
        rw [he.history, he.own_time, List.length_append, h.length]
        exact le_rfl
      · rw [he.time_ne hi, he.history_ne hi]
        exact (h.knows p).le i
    · by_cases hi : i = p
      · subst hi
        rw [he.own_time, ← h.length i, List.take_of_length_le (by rw [he.history, List.length_append]; exact le_rfl)]
        rfl
      · rw [he.time_ne hi, he.history_ne hi, ← (h.knows p).log i, peer_self he.peer]
        exact Function.update_of_ne hi ..
  · rw [peer_of_ne he.peer hp]
    refine ⟨fun i => ((h.knows p).le i).trans (he.length i), fun i => ?_⟩
    rw [he.take ((h.knows p).le i)]
    exact (h.knows p).log i

theorem Ends.histories (h : Histories nprocs s) (hx : x < nprocs) (hroom : (s.peer x).time x + 1 < 2 ^ 16) :
    Histories nprocs t := by
  refine ⟨fun i hi => ?_, fun i => ?_, he.numbered h, fun i iv hiv j => ?_, he.knows h, fun i => ?_⟩
  · have hix : i ≠ x := by
      rintro rfl
      omega
    rw [he.history_ne hix]
    exact h.idle i hi
  · by_cases hi : i = x
    · subst hi
      rw [he.history, he.own_time, List.length_append, h.length]
      rfl
    · rw [he.history_ne hi, peer_of_ne he.peer hi]
      exact h.length i
  · by_cases hi : i = x
    · subst hi
      rw [he.history] at hiv
      rcases List.mem_append.mp hiv with hiv | hiv
      · exact (h.below i iv hiv j).trans (he.time i j)
      · rw [List.mem_singleton.mp hiv]
    · rw [he.history_ne hi] at hiv
      exact (h.below i iv hiv j).trans (he.time i j)
  · by_cases hi : i = x
    · subst hi
      rw [he.own_time]
      exact hroom
    · rw [peer_of_ne he.peer hi]
      exact h.short i

theorem Ends.messages (h : Messages nprocs s) : Messages nprocs t := by
  refine ⟨fun a p => ?_, fun r hr => ?_, fun r hr => ?_, fun r hr => ?_, fun r hr => ?_, fun r hr hl => ?_⟩
  · rw [(he.rest a).2.2.1, (he.rest p).2.2.2.1]
    exact h.rep a p
  · rw [he.arrivals] at hr
    rw [(he.rest r.sender).1, (he.rest _).2.2.1]
    exact h.arrivals r hr
  · rw [he.arrivals] at hr
    rw [(he.rest r.sender).2.2.2.1]
    exact h.sent r hr
  · rw [he.arrivals] at hr
    exact h.ne r hr
  · rw [he.replies] at hr
    rw [(he.rest r.dest).2.2.2.1]
    exact h.replies r hr
  · rw [he.replies] at hr
    obtain ⟨⟨src, ha⟩, hle, hrec, hm⟩ := h.live r hr ((he.live r).mp hl)
    refine ⟨⟨src, (he.answered _ _).mpr ha⟩, fun i => (hle i).trans (he.length i), ?_, fun req hreq => ?_⟩
    · rw [hrec, (he.rest r.dest).1]
      unfold records
      exact List.flatMap_congr fun i _ => by simp only [he.take (hle i)]
    · rw [(he.rest r.dest).1] at hreq
      rw [he.left]
      exact (hm req hreq).mono (fun _ => le_rfl) fun p => by rw [he.entered]

theorem Ends.owed {i : Proc} {e : Nat} (ho : Owed nprocs s q i e) : Owed nprocs t q i e := by
  rcases ho with hle | ⟨src, ha, hle, hr⟩
  · exact .inl (hle.trans (he.time q i))
  · refine .inr ⟨src, (he.answered q src).mpr ha, hle.trans (he.time src i), fun r hmem hdest hl => ?_⟩
    rw [he.replies] at hmem
    exact hr r hmem hdest ((he.live r).mp hl)

end

/-- An interval ends. -/
theorem Inv.interval (h : Inv nprocs s) (hx : x < nprocs) (hact : (s.peer x).activity.mayEnd = true)
    (hroom : (s.peer x).time x + 1 < 2 ^ 16) (ranges : List (Nat × Nat)) :
    Inv nprocs (s.setPeer x (intervalCreate x ranges (s.peer x))) := by
  have he : Ends s (s.setPeer x (intervalCreate x ranges (s.peer x))) x ranges := ⟨rfl, rfl, rfl, rfl, rfl⟩
  generalize s.setPeer x (intervalCreate x ranges (s.peer x)) = t at *
  refine ⟨he.histories h.histories hx hroom, he.messages h.messages, fun p => ?_, fun p q hq => ?_, fun id => ?_⟩
  · rw [(he.rest p).1]
    by_cases hp : p = x
    · subst hp
      have hocc := h.occupied p
      cases ha : (s.peer p).activity with
      | running => trivial
      | spinning id => rw [ha] at hact; cases hact
      | arrived req => rw [ha] at hact; cases hact
      | acquiring n v g =>
        rw [ha] at hocc
        refine ⟨?_, fun i => (hocc.vector_time i).trans (he.time p i), hocc.ne⟩
        rw [(he.rest p).2.2.2.1]
        exact hocc.seqno
    · have hpeer := peer_of_ne he.peer hp
      refine (h.occupied p).mono (he.history_ne hp) (by rw [he.entered]) (by rw [hpeer]) (by rw [hpeer]) fun q _ => ?_
      rw [hpeer]
  · obtain ⟨hle, ho⟩ := h.inverse p q hq
    rw [(he.rest p).2.2.2.2]
    exact ⟨hle.trans (he.time p p), he.owed ho⟩
  · apply (h.barrier id).apart
    refine Apart.of_step he.peer (.inl rfl) rfl (fun _ _ _ _ _ => .inl rfl) (fun _ _ _ _ _ => rfl)
      (fun p => by rw [he.entered]) (fun p => by rw [he.left]) (fun i => ?_) fun ⟨req, hreq⟩ => ?_
    · rw [← peer_self he.peer]
      exact he.time x i
    · rw [hreq] at hact
      cases hact

/-! ### The way into a barrier -/

/-- A process at which nothing happens, and whose manager does nothing either. -/
theorem Aside.of_peers (hp : t.peer p = s.peer p) (hm : t.peer (manager nprocs id) = s.peer (manager nprocs id))
    (hentered : t.entered p id = s.entered p id) (hleft : t.left p id = s.left p id)
    (hopened : t.left (manager nprocs id) id = s.left (manager nprocs id) id) : Aside nprocs s t id p := by
  refine ⟨.inl (by rw [hp]), by rw [hm], hentered, hleft, hopened, fun _ _ _ => .inl (by rw [hm]),
    fun _ _ _ => by rw [hm], fun _ _ _ _ hown => ?_⟩
  rw [hm] at hown
  exact .inl ⟨hown, by rw [hp], by rw [hm]⟩

/-- One of the others comes to the barrier or goes from it. -/
theorem BarrierInv.move (h : BarrierInv nprocs s id) (hx : x ≠ Barriers.manager nprocs id)
    (hpeer : t.peer = Function.update s.peer x y) (htime : ∀ i, (s.peer x).time i ≤ y.time i)
    (hentered : ∀ p, s.entered p id <+: t.entered p id) (hentered_ne : ∀ p, p ≠ x → t.entered p id = s.entered p id)
    (hleft_ne : ∀ p, p ≠ x → t.left p id = s.left p id) (hslave : Slave nprocs t id x)
    (hmet : Met nprocs t id (t.left x id) y.time) : BarrierInv nprocs t id := by
  have hm : t.peer (Barriers.manager nprocs id) = s.peer (Barriers.manager nprocs id) := peer_of_ne hpeer hx.symm
  refine ⟨?_, ?_, fun p hp hpm => ?_, fun p hp => ?_⟩
  · rw [hm]
    exact h.bits
  · rw [hm, hentered_ne _ hx.symm, hleft_ne _ hx.symm]
    exact h.manager
  · by_cases hpx : p = x
    · subst hpx
      exact hslave
    · exact (h.slave p hp hpm).aside (.of_peers (peer_of_ne hpeer hpx) hm (hentered_ne p hpx) (hleft_ne p hpx)
        (hleft_ne _ hx.symm))
  · by_cases hpx : p = x
    · subst hpx
      rw [peer_self hpeer]
      exact hmet
    · rw [hleft_ne p hpx, peer_of_ne hpeer hpx]
      exact (h.met p hp).mono (fun _ => le_rfl) hentered

@[simp] theorem enter_entered_self (s : System) (x : Proc) (id : Nat) :
    (s.enter x id).entered x id = s.entered x id ++ [(s.peer x).time x] := by
  simp [System.enter]

theorem enter_entered_ne (s : System) (x : Proc) (id : Nat) (hp : p ≠ x) : (s.enter x id).entered p = s.entered p := by
  simp [System.enter, hp]

theorem enter_entered_id (s : System) (x p : Proc) {id id' : Nat} (hid : id' ≠ id) :
    (s.enter x id).entered p id' = s.entered p id' := by
  by_cases hp : p = x
  · subst hp
    simp [System.enter, hid]
  · rw [enter_entered_ne s x id hp]

theorem enter_prefix (s : System) (x p : Proc) (id id' : Nat) : s.entered p id' <+: (s.enter x id).entered p id' := by
  by_cases hid : id' = id
  · subst hid
    by_cases hp : p = x
    · subst hp
      rw [enter_entered_self]
      exact List.prefix_append ..
    · rw [enter_entered_ne s x id' hp]
  · rw [enter_entered_id s x p hid]

/-- A process that runs is at no barrier. -/
theorem Slave.of_running (h : Slave nprocs s id p) (hact : ∀ req, (s.peer p).activity ≠ .arrived req) :
    ((s.peer (manager nprocs id)).mask id).testBit p = false ∧
      (s.entered p id).length = s.left (manager nprocs id) id ∧ s.left p id = s.left (manager nprocs id) id := by
  cases h with
  | outside _ hbit hent hleft => exact ⟨hbit, hent, hleft⟩
  | sent req h' => exact absurd h' (hact req)
  | handled req h' => exact absurd h' (hact req)
  | opened req h' => exact absurd h' (hact req)

/-- A process comes to a barrier of which it is not the manager. -/
theorem Inv.enterOther (h : Inv nprocs s) (hx : x < nprocs) (hact : (s.peer x).activity = .running)
    (hm : manager nprocs id ≠ x) (hpeer : t.peer = Function.update s.peer x (enterOther nprocs x (s.peer x) id).1)
    (harrivals : t.arrivals = s.arrivals ++ [(enterOther nprocs x (s.peer x) id).2]) (hreplies : t.replies = s.replies)
    (hentered : t.entered = (s.enter x id).entered) (hleft : t.left = s.left) : Inv nprocs t := by
  have hself := peer_self hpeer
  have hpos : 0 < NPROCS := by decide
  have hf : Frame nprocs s t x [(Barriers.enterOther nprocs x (s.peer x) id).2] [] := by
    refine Frame.plain h hpeer ⟨(h.histories.knows x).le, (h.histories.knows x).log⟩ (fun _ => le_rfl) harrivals
      hreplies (fun p id' => ?_) (fun p hp => ?_) (fun p _ => by rw [hleft]) (fun _ _ => by rw [hleft]) rfl rfl
      (Nat.le_add_right _ _) (.start ?_ fun n hn => ?_) ?_
    · rw [hentered]
      exact enter_prefix s x p id id'
    · rw [hentered]
      exact enter_entered_ne s x id hp
    · rw [hact]
      rfl
    · cases hn
      show (s.peer x).req_seqno < (s.peer x).req_seqno + NPROCS
      omega
    · exact List.forall_mem_singleton.mpr ⟨rfl, rfl, le_rfl, hm.symm⟩
  refine Inv.frame hf h ?_ (fun q hq => ?_) fun id' => ?_
  · rw [hself]
    refine ⟨rfl, ?_, ?_, hx, hm.symm, ⟨(s.peer x).inverse_time_ (manager nprocs id), ?_, ?_⟩, ?_⟩
    · rw [hself]
      rfl
    · rw [hself]
      rfl
    · rw [hself]
      exact le_rfl
    · rw [hf.history h]
      exact newer_eq_drop x _ (h.histories.numbered x) _
    · rw [hself, hentered]
      show ((s.enter x id).entered x id).getLast? = _
      rw [enter_entered_self, List.getLast?_concat]
      rfl
  · obtain ⟨hle, ho⟩ := h.inverse x q hq
    rw [hself]
    exact ⟨hle, hf.owed h ho⟩
  · by_cases hid : id' = id
    · subst hid
      obtain ⟨hbit, hent, hl⟩ := ((h.barrier id').slave x hx hm.symm).of_running (by rw [hact]; nofun)
      refine (h.barrier id').move hm.symm hpeer (fun _ => le_rfl) (fun p => hf.entered p id') (fun p hp => ?_)
        (fun p _ => by rw [hleft]) ?_ ?_
      · rw [hf.entered_ne p hp]
      · refine .sent (Barriers.enterOther nprocs x (s.peer x) id').2 (by rw [hself]; rfl) rfl ?_ ?_ ?_ ?_
        · rw [hf.peer _ hm]
          exact (h.messages.rep _ x).trans_lt (Nat.lt_add_of_pos_right hpos)
        · rw [hf.peer _ hm]
          exact hbit
        · rw [hentered, hleft, enter_entered_self, List.length_append, hent]
          rfl
        · rw [hleft]
          exact hl
      · rw [hleft]
        exact ((h.barrier id').met x hx).mono (fun _ => le_rfl) fun p => hf.entered p id'
    · apply (h.barrier id').apart
      refine Apart.of_step hpeer (.inr ⟨?_, ?_⟩) rfl (fun _ _ _ _ _ => .inl rfl) (fun _ _ _ _ _ => rfl) (fun p => ?_)
        (fun p => by rw [hleft]) (fun _ => le_rfl) fun _ => rfl
      · rw [hact]
        exact away_running id'
      · refine ⟨fun req hreq => ?_, nofun⟩
        cases hreq
        exact fun heq => hid heq.symm
      · rw [hentered]
        exact enter_entered_id s x p hid

theorem mem_others {me : Proc} : j ∈ others nprocs me ↔ j < nprocs ∧ j ≠ me := by
  have hprocs : j ∈ procs nprocs ↔ j < nprocs := by
    unfold procs
    rw [List.mem_take_iff_getElem]
    constructor
    · rintro ⟨k, hk, rfl⟩
      simp at hk ⊢
      omega
    · intro hj
      exact ⟨j, by simp; omega, by simp⟩
  unfold others
  rw [List.mem_filter, hprocs, decide_eq_true_iff]

/-- One bit more. -/
theorem testBit_or_one (m a b : Nat) : (m ||| 1 <<< a).testBit b = (m.testBit b || decide (a = b)) := by
  rw [Nat.testBit_or, Nat.one_shiftLeft, Nat.testBit_two_pow]

theorem testBit_or_self (m a : Nat) : (m ||| 1 <<< a).testBit a = true := by
  rw [testBit_or_one, decide_eq_true rfl, Bool.or_true]

theorem testBit_or_of_ne (m : Nat) {a b : Proc} (h : b ≠ a) :
    (m ||| 1 <<< a.val).testBit b = m.testBit b := by
  rw [testBit_or_one, decide_eq_false fun heq => h (Fin.ext heq.symm), Bool.or_false]

/-- What a process that does not wait is owed, it has. -/
theorem Owed.le {e : Nat} {i : Proc} (ho : Owed nprocs s q i e) (hw : (s.peer q).activity.waits = none) :
    e ≤ (s.peer q).time i := by
  rcases ho with hle | ⟨src, ha, -⟩
  · exact hle
  · obtain ⟨n, hn⟩ := ha.waits
    rw [hw] at hn
    cases hn

/-- The records of an arrival leave no gap, when the manager takes them in. -/
theorem Inv.arrival_records (h : Inv nprocs s) (hact : (s.peer p).activity = .arrived req)
    (hw : (s.peer (manager nprocs req.id)).activity.waits = none) :
    ∃ e ≤ (s.peer (manager nprocs req.id)).time p, req.records = (s.history p).drop e := by
  have hocc := h.occupied p
  rw [hact] at hocc
  obtain ⟨e, he, hrec⟩ := hocc.records
  exact ⟨e, he.trans ((h.inverse p _ hocc.ne.symm).2.le hw), hrec⟩

theorem takeIn_learns (me : Proc) (hH : ∀ i, Numbered i (H i)) (hy : Knows H y)
    (hreq : (y.mask id).testBit j = true →
      ∃ req e, y.req_from_ j = some req ∧ e ≤ y.time j ∧ req.records = (H j).drop e) :
    Learns me H y (takeIn me id y j) ∧ ((y.mask id).testBit j = true → (H j).length ≤ (takeIn me id y j).time j) := by
  unfold takeIn
  split
  · next hbit =>
    obtain ⟨req, e, hfrom, he, hrec⟩ := hreq hbit
    obtain ⟨hl, htime⟩ := learns_drop me hH hy j he
    rw [hfrom, Option.map_some, Option.getD_some, hrec]
    exact ⟨hl, fun _ => by rw [htime, Function.update_self]⟩
  · next hbit => exact ⟨Learns.refl hy, fun hbit' => absurd hbit' hbit⟩

/-- The loop of the manager over the arrivals that have come before it. -/
theorem takeIn_foldl (me : Proc) (id : Nat) (hH : ∀ i, Numbered i (H i)) (js : List Proc) (hy : Knows H y)
    (hreq : ∀ j ∈ js, (y.mask id).testBit j = true →
      ∃ req e, y.req_from_ j = some req ∧ e ≤ y.time j ∧ req.records = (H j).drop e) :
    Learns me H y (js.foldl (takeIn me id) y) ∧
      ∀ j ∈ js, (y.mask id).testBit j = true → (H j).length ≤ (js.foldl (takeIn me id) y).time j := by
  induction js generalizing y with
  | nil => exact ⟨Learns.refl hy, nofun⟩
  | cons j js ih =>
    obtain ⟨hone, hj⟩ := takeIn_learns me hH hy (hreq j (.head _))
    obtain ⟨hrest, hjs⟩ := ih (y := takeIn me id y j) hone.knows (fun i hi hbit => by
      rw [hone.mask] at hbit
      obtain ⟨req, e, hfrom, he, hrec⟩ := hreq i (.tail _ hi) hbit
      exact ⟨req, e, by rw [hone.req_from, hfrom], he.trans (hone.le i), hrec⟩)
    refine ⟨hone.trans hrest, fun i hi hbit => ?_⟩
    rcases List.mem_cons.mp hi with rfl | hi
    · exact (hj hbit).trans (hrest.le i)
    · exact hjs i hi (by rw [hone.mask]; exact hbit)

/-- A bit of the mask is that of an arrival that has been handled. -/
theorem Inv.of_bit (h : Inv nprocs s) (hp : p < nprocs) (hne : p ≠ manager nprocs id)
    (hbit : ((s.peer (manager nprocs id)).mask id).testBit p = true) :
    ∃ req, (s.peer p).activity = .arrived req ∧ req.id = id ∧
      (s.peer (manager nprocs id)).rep_seqno_ p = req.seqno ∧ (s.peer (manager nprocs id)).req_from_ p = some req ∧
      (s.entered p id).length = s.left (manager nprocs id) id + 1 ∧ s.left p id = s.left (manager nprocs id) id ∧
      (((s.peer (manager nprocs id)).mask id).testBit (manager nprocs id) = true →
        (s.peer p).time p ≤ (s.peer (manager nprocs id)).time p) := by
  cases (h.barrier id).slave p hp hne with
  | outside _ hbit' => exact absurd (hbit.symm.trans hbit') nofun
  | sent req _ _ _ hbit' => exact absurd (hbit.symm.trans hbit') nofun
  | handled req hact hid hrep _ hfrom hent hleft hknown => exact ⟨req, hact, hid, hrep, hfrom, hent, hleft, hknown⟩
  | opened req _ _ _ hbit' => exact absurd (hbit.symm.trans hbit') nofun

/-- The manager has come to its barrier, and has become `z` when it took in what had been sent to it. -/
structure Begins (nprocs : Nat) (s t : System) (id : Nat) (z : Peer) : Prop where
  activity : (s.peer (manager nprocs id)).activity = .running
  learns : Learns (manager nprocs id) s.history (s.peer (manager nprocs id)) z
  known : ∀ j : Proc, j < nprocs → j ≠ manager nprocs id →
    ((s.peer (manager nprocs id)).mask id).testBit j = true → (s.history j).length ≤ z.time j
  peer : t.peer = Function.update s.peer (manager nprocs id) { z with
    mask := Function.update z.mask id (z.mask id ||| 1 <<< (manager nprocs id).val)
    activity := .spinning id }
  arrivals : t.arrivals = s.arrivals
  replies : t.replies = s.replies
  entered : t.entered = (s.enter (manager nprocs id) id).entered
  left : t.left = s.left

section

variable {z : Peer} (hz : Begins nprocs s t id z)
include hz

theorem Begins.mask_ne {id' : Nat} (hid : id' ≠ id) :
    (t.peer (manager nprocs id)).mask id' = (s.peer (manager nprocs id)).mask id' := by
  rw [peer_self hz.peer, ← hz.learns.mask]
  exact Function.update_of_ne hid ..

theorem Begins.mask_self : (t.peer (manager nprocs id)).mask id =
    (s.peer (manager nprocs id)).mask id ||| 1 <<< (manager nprocs id).val := by
  rw [peer_self hz.peer, ← hz.learns.mask]
  exact Function.update_self ..

theorem Begins.bit (hq : q ≠ manager nprocs id) (id' : Nat) :
    ((t.peer (manager nprocs id)).mask id').testBit q = ((s.peer (manager nprocs id)).mask id').testBit q := by
  by_cases hid : id' = id
  · subst hid
    rw [hz.mask_self, testBit_or_of_ne _ hq]
  · rw [hz.mask_ne hid]

variable (h : Inv nprocs s)
include h

theorem Begins.frame : Frame nprocs s t (manager nprocs id) [] [] := by
  have hl := hz.learns
  refine Frame.of_step hz.peer ⟨hl.knows.le, hl.knows.log⟩ hl.le (by rw [hz.arrivals, List.append_nil])
    (by rw [hz.replies, List.append_nil]) (fun p id' => ?_) (fun p hp => ?_) (fun p _ => by rw [hz.left]) (fun p => ?_)
    hl.req_seqno.ge (.start (by rw [hz.activity]; rfl) nofun) (fun q req hq hreq hm hseqno hbit => ?_) nofun nofun
  · rw [hz.entered]
    exact enter_prefix s _ p id id'
  · rw [hz.entered]
    exact enter_entered_ne s _ id hp
  · show _ ≤ z.rep_seqno_ p ∧ z.rep_seqno_ p ≤ _
    rw [hl.rep]
    exact ⟨le_rfl, h.messages.rep _ p⟩
  · refine ⟨?_, ?_, by rw [hz.left]⟩
    · show z.rep_seqno_ q = _
      rw [hl.rep]
      exact hseqno
    · have hsame := hz.bit hq req.id
      rw [hbit, peer_self hz.peer] at hsame
      exact hsame

theorem Begins.barrier (hpos : 0 < nprocs) : BarrierInv nprocs t id := by
  have hf := hz.frame h
  have hself := peer_self hz.peer
  have hb := h.barrier id
  have hlen : (s.entered (manager nprocs id) id).length = s.left (manager nprocs id) id := by
    rcases hb.manager with ⟨hspin, -⟩ | ⟨-, -, hlen⟩
    · rw [hz.activity] at hspin
      cases hspin
    · exact hlen
  refine ⟨fun j hj => ?_, .inl ⟨by rw [hself], by rw [hz.mask_self, testBit_or_self], ?_⟩, fun p hp hpm => ?_,
    fun p hp => ?_⟩
  · by_cases hjm : j = (manager nprocs id : Nat)
    · have hlt := manager_lt hpos id
      omega
    · rw [hz.mask_self, testBit_or_one, decide_eq_false (fun heq => hjm heq.symm), Bool.or_false] at hj
      exact hb.bits j hj
  · rw [hz.entered, enter_entered_self, List.length_append, hz.left, hlen]
    rfl
  · refine (hb.slave p hp hpm).aside ⟨.inl (by rw [hf.peer p hpm]), hz.bit hpm id, by rw [hf.entered_ne p hpm],
      by rw [hz.left], by rw [hz.left], fun _ _ _ => .inl ?_, fun _ _ _ => ?_, fun req _ _ hbit _ => .inr ?_⟩
    · rw [hself]
      show z.rep_seqno_ p = _
      rw [hz.learns.rep]
    · rw [hself]
      show z.req_from_ p = _
      rw [hz.learns.req_from]
    · -- what had come before the manager has been taken in
      have hknown := hz.known p hp hpm hbit
      rw [h.histories.length p] at hknown
      rw [hf.peer p hpm, hself]
      exact hknown
  · rw [hz.left]
    exact (hb.met p hp).mono (hf.times p) fun p' => hf.entered p' id

theorem Begins.apart {id' : Nat} (hid : id' ≠ id) : Apart nprocs s t id' := by
  refine Apart.of_step hz.peer (.inr ⟨?_, nofun, ?_⟩) ?_ (fun p _ _ _ _ => .inl ?_) (fun p _ _ _ _ => ?_)
    (fun p => ?_) (fun p => by rw [hz.left]) hz.learns.le fun _ => ?_
  · rw [hz.activity]
    exact away_running id'
  · intro heq
    cases heq
    exact hid rfl
  · have hmask := hz.mask_ne hid
    rwa [peer_self hz.peer] at hmask
  · show z.rep_seqno_ p = _
    rw [hz.learns.rep]
  · show z.req_from_ p = _
    rw [hz.learns.req_from]
  · rw [hz.entered]
    exact enter_entered_id s _ p hid
  · have hown := (hz.frame h).own_time h
    rwa [peer_self hz.peer] at hown

theorem Begins.inv (hpos : 0 < nprocs) : Inv nprocs t := by
  have hf := hz.frame h
  refine Inv.frame hf h ?_ (fun q hq => hf.inverse h ?_ hq) fun id' => ?_
  · have hlast : (t.entered (manager nprocs id) id).getLast? =
        some ((t.peer (manager nprocs id)).time (manager nprocs id)) := by
      rw [hf.own_time h, hz.entered, enter_entered_self, List.getLast?_concat]
    rw [peer_self hz.peer]
    exact ⟨rfl, hlast⟩
  · rw [peer_self hz.peer]
    exact hz.learns.inverse q
  · by_cases hid : id' = id
    · subst hid
      exact hz.barrier h hpos
    · exact (h.barrier id').apart (hz.apart h hid)

end

/-- The manager comes to its barrier. -/
theorem Inv.enterManager (h : Inv nprocs s) (hpos : 0 < nprocs)
    (hact : (s.peer (manager nprocs id)).activity = .running)
    (hpeer : t.peer = Function.update s.peer (manager nprocs id)
      (enterManager nprocs (manager nprocs id) (s.peer (manager nprocs id)) id))
    (harrivals : t.arrivals = s.arrivals) (hreplies : t.replies = s.replies)
    (hentered : t.entered = (s.enter (manager nprocs id) id).entered) (hleft : t.left = s.left) : Inv nprocs t := by
  have hw : (s.peer (manager nprocs id)).activity.waits = none := by
    rw [hact]
    rfl
  obtain ⟨hl, hknown⟩ := takeIn_foldl (manager nprocs id) id h.histories.numbered
    (others nprocs (manager nprocs id)) (h.histories.knows _) (fun j hj hbit => by
      obtain ⟨hlt, hne⟩ := mem_others.mp hj
      obtain ⟨req, hreq, hid, -, hfrom, -⟩ := h.of_bit hlt hne hbit
      subst hid
      obtain ⟨e, he, hrec⟩ := h.arrival_records hreq hw
      exact ⟨req, e, hfrom, he, hrec⟩)
  exact Begins.inv ⟨hact, hl, fun j hj hne => hknown j (mem_others.mpr ⟨hj, hne⟩), hpeer, harrivals, hreplies,
    hentered, hleft⟩ h hpos

end Lemmas

end Tmk.Barriers
