import SistemasDistribuidos.Tmk.DiffRequest
import SistemasDistribuidos.Tmk.Incorporate

/-!
# Page faults, and the requests that answer them

`segv_handler` of `Tmk/src/segv.c` and the two handlers it calls on other processes.  A page
that is not valid becomes so when every pending write notice has got its diff; a page that is
written gets a twin and becomes dirty.  `Tmk_diff_sigio_handler` looks the write notice up and
makes the diff if it is not there, from the twin of the page: the model fails (`none`) where
the handler would run off the list of write notices, or has no twin to make a diff from.
-/

namespace Tmk

open Causal

/-! ## Algorithm -/

/-- `Tmk_twin_alloc_and_copy`, `Tmk_page_dirty_merge` and the right to write. -/
def twinAllocAndCopy (n : Node) (p : Nat) : Node :=
  { n.setPage p { n.page p with twin := true, prot := .write } with dirty := pageDirtyMerge n.dirty p }

/-- `Tmk_page_sigio_handler`: the copy of the page that is sent makes it shared. -/
def pageSigioHandler (n : Node) (p : Nat) : Node :=
  if (n.page p).state = .priv then n.setPage p { n.page p with state := .valid, prot := .read } else n

/-- The write notice of process `pid` and time `time` gets its diff. -/
def Page.setDiff (pg : Page) (pid : Proc) (time : Nat) : Page :=
  let nts := (pg.notices pid).map fun nt => if nt.interval.vector_time pid = time then { nt with diff := true } else nt
  { pg with notices := Function.update pg.notices pid nts }

/-- One entry of a request, with whether a diff was made. -/
def serveDiff (s : Page × Bool) (w : Interval) : Option (Page × Bool) :=
  match (s.1.notices w.id).find? fun nt => decide (nt.interval.vector_time w.id = w.vector_time w.id) with
  | none => none
  | some nt =>
    if nt.diff then some s
    else if s.1.twin then some (s.1.setDiff w.id (w.vector_time w.id), true)
    else none

/-- `Tmk_diff_sigio_handler`: after the reply the page is protected and the twin freed, if a diff was made. -/
def diffSigioHandler (n : Node) (p : Nat) (r : List Interval) : Option Node :=
  (r.foldlM serveDiff (n.page p, false)).map fun (pg, made) =>
    n.setPage p (if made then { pg with prot := .read, twin := false } else pg)

/-- The write notices at the head of the list get the diffs that came. -/
def gotDiffs (nts : List Notice) : List Notice :=
  (nts.takeWhile fun nt => !nt.diff).map (fun nt => { nt with diff := true }) ++ nts.dropWhile fun nt => !nt.diff

/-- A page that has been brought up to date. -/
def fetched (n : Node) (p : Nat) : Node :=
  n.setPage p { n.page p with state := .valid, prot := .read, notices := fun i => gotDiffs ((n.page p).notices i) }

/-! ## Lemmas -/

section Lemmas

variable {me pid : Proc} {H : Proc → List Interval} {D : Finset Nat} {vt : VectorTime} {n : Node} {p : Nat}

/-- A change to one page. -/
theorem NodeInv.setPage (h : NodeInv me H D ∅ vt pid [] n) {pg : Page}
    (hpg : PageInv me (writers n.log p) (p ∈ D) False pg) : NodeInv me H D ∅ vt pid [] (n.setPage p pg) := by
  refine { h with pages := fun q => ?_ }
  by_cases hq : q = p
  · subst hq
    rw [Node.setPage_page_self]
    exact hpg.congr (writersBut_nil n.log pid q).symm .rfl (by simp)
  · rw [Node.setPage_page_of_ne hq]
    exact h.pages q

theorem NodeInv.page (h : NodeInv me H D ∅ vt pid [] n) (p : Nat) :
    PageInv me (writers n.log p) (p ∈ D) False (n.page p) :=
  (h.pages p).congr (writersBut_nil n.log pid p) .rfl (by simp)

/-- The vector time from which the next own interval starts may be moved. -/
theorem NodeInv.rebase (h : NodeInv me H D ∅ vt pid [] n) (vt' : VectorTime) (hbase : ∀ i, i ≠ me → vt' i ≤ n.time i)
    (hown : D.Nonempty → vt' me = n.time me) : NodeInv me H D ∅ vt' pid [] n :=
  { h with base := hbase, baseOwn := hown }

/-- An interval of another process. -/
theorem NodeInv.extend {other : Proc} (h : NodeInv me H D ∅ vt pid [] n) (hother : other ≠ me) (iv : Interval)
    (hroom : (H other).length + 1 < 2 ^ 16) :
    NodeInv me (Function.update H other (H other ++ [iv])) D ∅ vt pid [] n := by
  refine { h with time := fun i => ?_, own := ?_, log := fun i => ?_, ownTime := ?_, bound := fun i => ?_ }
  · have := h.time i
    by_cases hi : i = other
    · subst hi
      rw [Function.update_self, List.length_append]
      omega
    · rwa [Function.update_of_ne hi]
  · rw [Function.update_of_ne hother.symm]
    exact h.own
  · by_cases hi : i = other
    · subst hi
      rw [Function.update_self, List.take_append_of_le_length (h.time i)]
      exact h.log i
    · rw [Function.update_of_ne hi]
      exact h.log i
  · rw [Function.update_of_ne hother.symm]
    exact h.ownTime
  · by_cases hi : i = other
    · subst hi
      rw [Function.update_self, List.length_append]
      exact hroom
    · rw [Function.update_of_ne hi]
      exact h.bound i

/-- A valid page is written. -/
theorem NodeInv.twinAllocAndCopy (h : NodeInv me H D ∅ vt pid [] n) (hvalid : (n.page p).state = .valid)
    (htwin : (n.page p).twin = false) (hlt : p < NPAGES) (hown : vt me = n.time me) :
    NodeInv me H (insert p D) ∅ vt pid [] (twinAllocAndCopy n p) := by
  have hp := h.page p
  have hpD : p ∉ D := fun hmem => by
    have := hp.dirty hmem
    rw [htwin] at this
    cases this
  have hnot : (n.page p).ownPending me = false := by
    rw [← Bool.not_eq_true]
    intro hpend
    have := (hp.pending hpend).1
    rw [htwin] at this
    cases this
  obtain ⟨starts, hD⟩ := h.dirty
  have hmerge := hD.merge hpD (show p ≠ pageDirty by unfold pageDirty; omega)
  refine { h with dirty := hmerge, dirtyPages := fun q hq => ?_, pages := fun q => ?_, baseOwn := fun _ => hown }
  · rcases Finset.mem_insert.mp hq with rfl | hq
    · exact hlt
    · exact h.dirtyPages q hq
  · show PageInv me (writersBut n.log pid [] q) (q ∈ insert p D) (q ∈ (∅ : Finset Nat))
      ((n.setPage p { n.page p with twin := true, prot := .write }).page q)
    by_cases hq : q = p
    · subst hq
      rw [Node.setPage_page_self, writersBut_nil]
      refine { hp with pending := fun hpend => ?_, twin := fun _ => ⟨hvalid, .inl (Finset.mem_insert_self q D)⟩,
                       dirty := fun _ => rfl, protValid := fun _ => rfl, protPriv := fun hv => ?_,
                       protInvalid := fun hv => ?_, protEmpty := fun hv => ?_, inval := by simp }
      · exact absurd hpend (by simpa [Page.ownPending] using hnot)
      all_goals
        simp only [hvalid] at hv
        cases hv
    · rw [Node.setPage_page_of_ne hq]
      exact (h.pages q).congr rfl (by simp [hq]) .rfl

/-- The first request for a page. -/
theorem NodeInv.pageSigioHandler (h : NodeInv me H D ∅ vt pid [] n) (p : Nat) :
    NodeInv me H D ∅ vt pid [] (pageSigioHandler n p) := by
  unfold Tmk.pageSigioHandler
  split
  · next hpriv =>
    have hp := h.page p
    have hnone : ∀ i, (n.page p).notices i = [] := fun i => by
      have := hp.notices i
      rw [hp.priv hpriv i] at this
      exact List.map_eq_nil_iff.mp this
    have htwin : (n.page p).twin = false := by
      rw [← Bool.not_eq_true]
      intro ht
      have := (hp.twin ht).1
      rw [hpriv] at this
      cases this
    refine h.setPage { hp with twin := fun ht => ?_, valid := fun _ i _ nt hnt => ?_, protValid := fun _ => ?_,
                               protPriv := fun hv => ?_, protInvalid := fun hv => ?_, protEmpty := fun hv => ?_,
                               priv := fun hv => ?_, inval := False.elim }
    · simp only [htwin] at ht
      cases ht
    · simp only [hnone i] at hnt
      cases hnt
    · simp [htwin]
    all_goals cases hv
  · exact h

theorem gotDiffs_interval (nts : List Notice) :
    (gotDiffs nts).map Notice.interval = nts.map Notice.interval := by
  rw [gotDiffs, List.map_append, List.map_map]
  conv => rhs; rw [← List.takeWhile_append_dropWhile (p := fun nt => !nt.diff) (l := nts), List.map_append]
  rfl

/-- Every write notice has its diff then. -/
theorem gotDiffs_diff (nts : List Notice) (h : nts.Pairwise fun nt nt' => nt.diff = true → nt'.diff = true) :
    ∀ nt ∈ gotDiffs nts, nt.diff = true := by
  intro nt hnt
  rcases List.mem_append.mp hnt with hnt | hnt
  · obtain ⟨nt', -, rfl⟩ := List.mem_map.mp hnt
    rfl
  · have hdrop := h.sublist (List.dropWhile_suffix fun nt => !nt.diff).sublist
    cases hd : nts.dropWhile (fun nt => !nt.diff) with
    | nil => rw [hd] at hnt; cases hnt
    | cons nt₀ nts₀ =>
      have hfirst : nt₀.diff = true := by
        have hne : nts.dropWhile (fun nt => !nt.diff) ≠ [] := by rw [hd]; simp
        have hnot := List.head_dropWhile_not _ hne
        simpa [hd] using hnot
      rw [hd] at hnt hdrop
      rcases List.mem_cons.mp hnt with rfl | hnt
      · exact hfirst
      · exact (List.pairwise_cons.mp hdrop).1 nt hnt hfirst

/-- A page is brought up to date. -/
theorem NodeInv.fetched (h : NodeInv me H D ∅ vt pid [] n) (hvalid : (n.page p).state ≠ .valid) :
    NodeInv me H D ∅ vt pid [] (fetched n p) := by
  have hp := h.page p
  have htwin : (n.page p).twin = false := by
    rw [← Bool.not_eq_true]
    exact fun ht => hvalid (hp.twin ht).1
  have hdiff : ∀ i, ∀ nt ∈ gotDiffs ((n.page p).notices i), nt.diff = true := fun i =>
    gotDiffs_diff _ (hp.older i)
  refine h.setPage ⟨fun i => ?_, fun i => ?_, fun nt hnt => hdiff me nt (List.mem_of_mem_tail hnt), fun hpend => ?_,
    fun ht => ?_, fun hd => ?_, fun iv _ i _ nt hnt _ => hdiff i nt hnt, fun _ i _ nt hnt => hdiff i nt hnt,
    fun _ => ?_, fun hv => ?_, fun hv => ?_, fun hv => ?_, fun hv => ?_, False.elim⟩
  · exact (gotDiffs_interval _).trans (hp.notices i)
  · exact List.pairwise_of_forall_mem_list fun nt _ nt' hnt' _ => hdiff i nt' hnt'
  · obtain ⟨iv, nts, hnts⟩ := Page.exists_of_ownPending hpend
    have := hdiff me ⟨iv, false⟩ (by simp only at hnts; rw [hnts]; exact .head _)
    cases this
  · simp only [htwin] at ht
    cases ht
  · have := hp.dirty hd
    rw [htwin] at this
    cases this
  · simp [htwin]
  all_goals cases hv

/-- The write notices of one process have different times. -/
theorem find?_notice {nts : List Notice} {i : Proc}
    (hnts : nts.Pairwise fun nt nt' => nt'.interval.vector_time i < nt.interval.vector_time i) {nt : Notice}
    (hnt : nt ∈ nts) :
    nts.find? (fun nt' => decide (nt'.interval.vector_time i = nt.interval.vector_time i)) = some nt := by
  induction nts with
  | nil => cases hnt
  | cons nt₀ nts ih =>
    obtain ⟨hfirst, hrest⟩ := List.pairwise_cons.mp hnts
    rcases List.mem_cons.mp hnt with rfl | hnt
    · rw [List.find?_cons_of_pos (by simp)]
    · rw [List.find?_cons_of_neg (by have := hfirst nt hnt; simp; omega)]
      exact ih hrest hnt

/-- The diff of the newest own write notice is made for another process. -/
theorem Page.setDiff_eq {pg : Page} {iv : Interval} {nts : List Notice} (hnts : pg.notices me = ⟨iv, false⟩ :: nts)
    (hlt : ∀ nt ∈ nts, nt.interval.vector_time me < iv.vector_time me) :
    (pg.setDiff me (iv.vector_time me)).notices = Function.update pg.notices me (⟨iv, true⟩ :: nts) := by
  unfold Page.setDiff
  simp only [hnts, List.map_cons, if_pos]
  congr 1
  refine congrArg _ ((List.map_congr_left fun nt hnt => ?_).trans (List.map_id nts))
  exact if_neg (Nat.ne_of_lt (hlt nt hnt))

/-- The write notice of `w`, with its diff if it is not an own one. -/
def ServableOne (me : Proc) (pg : Page) (w : Interval) : Prop :=
  ∃ nt ∈ pg.notices w.id, nt.interval.vector_time w.id = w.vector_time w.id ∧ (w.id ≠ me → nt.diff = true)

/-- In the course of a request: nothing has been made yet, or the one own diff that was missing. -/
def Served (me : Proc) (pg : Page) (s : Page × Bool) : Prop :=
  s = (pg, false) ∨ ∃ iv nts, pg.notices me = ⟨iv, false⟩ :: nts ∧ s = (pg.setDiff me (iv.vector_time me), true)

/-- The write notices of each process of a page are in the order of their times. -/
def Page.Newest (pg : Page) : Prop :=
  ∀ i, (pg.notices i).Pairwise fun nt nt' => nt'.interval.vector_time i < nt.interval.vector_time i

section Serve

variable {known : Proc → List Interval} {dirty inval : Prop} {pg : Page} {iv w : Interval} {nts : List Notice}

theorem Page.Newest.own_lt (hnew : pg.Newest) (hnts : pg.notices me = ⟨iv, false⟩ :: nts) :
    ∀ nt ∈ nts, nt.interval.vector_time me < iv.vector_time me := by
  have := hnew me
  rw [hnts] at this
  exact (List.pairwise_cons.mp this).1

/-- An own write notice without a diff is the newest one. -/
theorem PageInv.own_head (h : PageInv me known dirty inval pg) {nt : Notice} (hnt : nt ∈ pg.notices me)
    (hdiff : nt.diff = false) : ∃ nts, pg.notices me = nt :: nts := by
  cases hcase : pg.notices me with
  | nil => rw [hcase] at hnt; cases hnt
  | cons nt₀ nts =>
    have holder := h.ownOlder
    rw [hcase, List.tail_cons] at holder
    rw [hcase] at hnt
    rcases List.mem_cons.mp hnt with rfl | hnt
    · exact ⟨nts, rfl⟩
    · have := holder nt hnt
      rw [hdiff] at this
      cases this

theorem PageInv.serve_first (h : PageInv me known dirty inval pg) (hnew : pg.Newest) (hw : ServableOne me pg w) :
    ∃ s, serveDiff (pg, false) w = some s ∧ Served me pg s := by
  obtain ⟨nt, hnt, htime, hforeign⟩ := hw
  have hfind := find?_notice (hnew w.id) hnt
  rw [htime] at hfind
  cases hdiff : nt.diff with
  | true =>
    refine ⟨(pg, false), ?_, .inl rfl⟩
    rw [serveDiff, hfind]
    simp [hdiff]
  | false =>
    have hme : w.id = me := by
      by_contra hne
      have := hforeign hne
      rw [hdiff] at this
      cases this
    rw [hme] at hnt htime hfind
    obtain ⟨nts, hnts⟩ := h.own_head hnt hdiff
    have htwin := (h.pending (by simp [Page.ownPending, hnts, hdiff])).1
    obtain ⟨iv, d⟩ := nt
    cases hdiff
    refine ⟨(pg.setDiff me (iv.vector_time me), true), ?_, .inr ⟨iv, nts, hnts, rfl⟩⟩
    rw [serveDiff, hme, hfind]
    simp only at htime
    simp [htwin, ← htime]

theorem PageInv.serve_again (h : PageInv me known dirty inval pg) (hnew : pg.Newest) (hw : ServableOne me pg w)
    (hnts : pg.notices me = ⟨iv, false⟩ :: nts) :
    serveDiff (pg.setDiff me (iv.vector_time me), true) w = some (pg.setDiff me (iv.vector_time me), true) := by
  obtain ⟨nt, hnt, htime, hforeign⟩ := hw
  have hset := Page.setDiff_eq hnts (hnew.own_lt hnts)
  unfold serveDiff
  by_cases hme : w.id = me
  · rw [hme] at hnt htime
    have holder := h.ownOlder
    rw [hnts, List.tail_cons] at holder
    -- every own write notice has its diff now
    have hnt' : (⟨nt.interval, true⟩ : Notice) ∈ (⟨iv, true⟩ : Notice) :: nts := by
      rw [hnts] at hnt
      rcases List.mem_cons.mp hnt with rfl | hnt
      · exact .head _
      · have := holder nt hnt
        obtain ⟨iv', d⟩ := nt
        cases this
        exact .tail _ hnt
    have hnew' : ((⟨iv, true⟩ : Notice) :: nts).Pairwise
        fun nt nt' => nt'.interval.vector_time me < nt.interval.vector_time me := by
      have := hnew me
      rw [hnts] at this
      exact List.pairwise_cons.mpr ⟨hnew.own_lt hnts, (List.pairwise_cons.mp this).2⟩
    have hfind := find?_notice hnew' hnt'
    simp only [htime] at hfind
    simp only [hset, hme, Function.update_self, hfind, if_true]
  · have hfind := find?_notice (hnew w.id) hnt
    rw [htime] at hfind
    simp only [hset, Function.update_of_ne hme, hfind, hforeign hme, if_true]

theorem PageInv.serve (h : PageInv me known dirty inval pg) (hnew : pg.Newest) (r : List Interval)
    (hr : ∀ w ∈ r, ServableOne me pg w) (s : Page × Bool) (hs : Served me pg s) :
    ∃ s', r.foldlM serveDiff s = some s' ∧ Served me pg s' := by
  induction r generalizing s with
  | nil => exact ⟨s, rfl, hs⟩
  | cons w r ih =>
    obtain ⟨s₁, hstep, hs₁⟩ : ∃ s₁, serveDiff s w = some s₁ ∧ Served me pg s₁ := by
      rcases hs with rfl | ⟨iv, nts, hnts, rfl⟩
      · exact h.serve_first hnew (hr w (.head _))
      · exact ⟨_, h.serve_again hnew (hr w (.head _)) hnts, .inr ⟨iv, nts, hnts, rfl⟩⟩
    obtain ⟨s₂, hrest, hs₂⟩ := ih (fun w' hw' => hr w' (.tail _ hw')) s₁ hs₁
    exact ⟨s₂, by rw [List.foldlM_cons, hstep]; exact hrest, hs₂⟩

end Serve

/-- **The diff handler** finds every write notice, and makes no diff but its own. -/
theorem NodeInv.diffSigioHandler (h : NodeInv me H D ∅ vt pid [] n) (hnew : (n.page p).Newest) (r : List Interval)
    (hr : ∀ w ∈ r, ServableOne me (n.page p) w) :
    ∃ n', diffSigioHandler n p r = some n' ∧ NodeInv me H D ∅ vt pid [] n' ∧ n'.log = n.log ∧ n'.time = n.time ∧
      ∀ q, (n'.page q).state = (n.page q).state := by
  have hp := h.page p
  obtain ⟨s, hfold, hs⟩ := hp.serve hnew r hr (n.page p, false) (.inl rfl)
  unfold Tmk.diffSigioHandler
  rw [hfold]
  have hstate : ∀ pg : Page, pg.state = (n.page p).state →
      ∀ q, ((n.setPage p pg).page q).state = (n.page q).state := by
    intro pg hpg q
    by_cases hq : q = p
    · subst hq
      rwa [Node.setPage_page_self]
    · rw [Node.setPage_page_of_ne hq]
  rcases hs with rfl | ⟨iv, nts, hnts, rfl⟩
  · exact ⟨_, rfl, h.setPage hp, rfl, rfl, hstate _ rfl⟩
  · have hpend : (n.page p).ownPending me = true := by simp [Page.ownPending, hnts]
    have hvalid := (hp.twin (hp.pending hpend).1).1
    have hset := Page.setDiff_eq hnts (hnew.own_lt hnts)
    have hpage : ({ (n.page p).setDiff me (iv.vector_time me) with prot := .read, twin := false } : Page) =
        { (n.page p).diffOwn me with
          prot := if (n.page p).state = .valid then .read else (n.page p).prot } := by
      simp only [Page.diffOwn_eq hnts, hset, if_pos hvalid]
      rfl
    refine ⟨_, rfl, ?_, rfl, rfl, hstate _ rfl⟩
    simp only [if_true, hpage]
    exact h.setPage (hp.diffOwn hpend)

end Lemmas

end Tmk
