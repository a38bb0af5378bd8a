import SistemasDistribuidos.Tmk.Interval

/-!
# The consistency state of one process

What `Tmk/src/interval.c` keeps of the intervals of all processes, and what they do to the
pages: the end of an interval of its own (`intervalCreate`), and the records that come with a
lock (`intervalIncorporate`).  A page that a new record names becomes invalid.  If the process
has written it itself, its changes are first put into a diff; if these are changes of the
interval that is still open, the interval is ended, with the vector time from before the
acquire.

A page has a twin exactly while it has changes that are in no diff: as a dirty page, or with
an own write notice that has no diff yet (`PageInv`).
-/

namespace Tmk

open Rings

/-! ## Algorithm -/

inductive PageState where
  | valid
  | invalid
  | priv
  | empty
deriving DecidableEq, Repr

/-- What `mprotect` allows. -/
inductive Prot where
  | none
  | read
  | write
deriving DecidableEq, Repr

/-- `struct write_notice`, with whether its diff is there. -/
structure Notice where
  interval : Interval
  diff : Bool

/-- `notices i` is `write_notice_[i]`, the newest first. -/
structure Page where
  state : PageState
  twin : Bool
  prot : Prot
  notices : Proc → List Notice

/-- `proc_vector_time_`, `proc_array_` (the oldest record first), `page_array_`, and the lists of the dirty pages and
of those to protect.  The two lists share fields of `page_array_`; no page is on both. -/
structure Node where
  time : VectorTime
  log : Proc → List Interval
  page : Nat → Page
  dirty : PageArray
  inval : PageArray

def Node.setPage (n : Node) (p : Nat) (pg : Page) : Node := { n with page := Function.update n.page p pg }

def Page.push (pg : Page) (pid : Proc) (iv : Interval) : Page :=
  { pg with notices := Function.update pg.notices pid (⟨iv, false⟩ :: pg.notices pid) }

/-- The pages of the ranges, one after the other. -/
def pagesOf (rs : List (Nat × Nat)) : List Nat := rs.flatMap fun r => List.range' r.1 (r.2 + 1 - r.1)

/-- Ends the interval if a page is dirty.  `vector_time` is the argument, which is advanced. -/
def intervalCreate (me : Proc) (vector_time : VectorTime) (n : Node) : Node × VectorTime :=
  match ranges pageDirty n.dirty with
  | [] => (n, vector_time)
  | rs =>
    let vector_time := Function.update vector_time me ((vector_time me + 1) % 2 ^ 16)
    let iv : Interval := ⟨me, vector_time, rs⟩
    ({ n with
        log := Function.update n.log me (n.log me ++ [iv])
        page := (pagesOf rs).foldl (fun page p => Function.update page p ((page p).push me iv)) n.page
        dirty := flush pageDirty n.dirty }, vector_time)

/-- `Tmk_diff_create` and `Tmk_twin_free` for the newest own write notice. -/
def Page.diffOwn (pg : Page) (me : Proc) : Page :=
  match pg.notices me with
  | [] => pg
  | nt :: nts =>
    { pg with twin := false, notices := Function.update pg.notices me (⟨nt.interval, true⟩ :: nts) }

/-- `write_notice && write_notice->diff == 0`, for the newest own write notice. -/
def Page.ownPending (pg : Page) (me : Proc) : Bool :=
  match pg.notices me with
  | [] => false
  | nt :: _ => !nt.diff

/-- `while (page->twin)`, with at most `fuel` rounds.  `vector_time` is `NULL` in the manager of a barrier; `none` is a
use of it, or one round too many. -/
def dropTwin (me : Proc) (p : Nat) : Nat → Node × Option VectorTime → Option (Node × Option VectorTime)
  | 0, _ => none
  | fuel + 1, (n, vector_time) =>
    if (n.page p).twin = false then some (n, vector_time)
    else if (n.page p).ownPending me then
      dropTwin me p fuel (n.setPage p ((n.page p).diffOwn me), vector_time)
    else
      match vector_time with
      | none => none
      | some vt =>
        let (n, vt) := intervalCreate me vt n
        dropTwin me p fuel ({ n with time := Function.update n.time me (vt me) }, some vt)

/-- A write notice for page `p` of a new record. -/
def noticePage (me : Proc) (iv : Interval) (s : Node × Option VectorTime) (p : Nat) :
    Option (Node × Option VectorTime) :=
  let n := s.1.setPage p ((s.1.page p).push iv.id iv)
  if (n.page p).state = .valid then
    (dropTwin me p 3 (n.setPage p { n.page p with state := .invalid }, s.2)).map fun (n, vt) =>
      ({ n with inval := pageInvalMerge n.inval p }, vt)
  else some (n, s.2)

/-- A new record. -/
def insertInterval (me : Proc) (s : Node × Option VectorTime) (iv : Interval) : Option (Node × Option VectorTime) :=
  let n := { s.1 with
    time := Function.update s.1.time iv.id (iv.vector_time iv.id)
    log := Function.update s.1.log iv.id (s.1.log iv.id ++ [iv]) }
  (pagesOf iv.ranges).foldlM (noticePage me iv) (n, s.2)

def pageInvalPerform (n : Node) : Node :=
  { n with
    page := (pagesOf (ranges NPAGES n.inval)).foldl
      (fun page p => Function.update page p { page p with prot := .none }) n.page
    inval := flush NPAGES n.inval }

def intervalIncorporate (me : Proc) (n : Node) (msg : List Half) (vector_time : Option VectorTime) : Option Node :=
  (incorporate (fun s => s.1.time) (insertInterval me) (n, vector_time) msg).map fun (n, vt) =>
    if vt.isSome then pageInvalPerform n else n

/-! ## Pages of ranges -/

theorem mem_pagesOf (rs : List (Nat × Nat)) (p : Nat) : p ∈ pagesOf rs ↔ ∃ r ∈ rs, r.1 ≤ p ∧ p ≤ r.2 := by
  simp only [pagesOf, List.mem_flatMap, List.mem_range'_1]
  refine exists_congr fun r => and_congr_right fun _ => ?_
  omega

theorem pagesOf_splitPair (r : Nat × Nat) :
    (splitPair r).flatMap (fun r => List.range' r.1 (r.2 + 1 - r.1)) = List.range' r.1 (r.2 + 1 - r.1) := by
  unfold splitPair
  split
  · next h =>
    rw [List.flatMap_cons, List.flatMap_singleton]
    simp only
    rw [h, show r.1 + 1 - r.1 = 1 by omega, show r.1 + 1 + 1 - (r.1 + 1) = 1 by omega,
      show r.1 + 1 + 1 - r.1 = 1 + 1 by omega, List.range'_append_1]
  · rw [List.flatMap_singleton]

/-- A record names the same pages, in the same order, when it arrives. -/
@[simp] theorem Interval.pagesOf_wire (iv : Interval) : pagesOf iv.wire.ranges = pagesOf iv.ranges := by
  rw [pagesOf, Interval.wire, List.flatMap_assoc, pagesOf]
  exact List.flatMap_congr fun r _ => pagesOf_splitPair r

/-- The same change to each of a list of places. -/
theorem foldl_update {β : Type*} (f : β → β) (ps : List Nat) (hnd : ps.Nodup) (g : Nat → β) (q : Nat) :
    ps.foldl (fun g p => Function.update g p (f (g p))) g q = if q ∈ ps then f (g q) else g q := by
  induction ps generalizing g with
  | nil => rfl
  | cons p ps ih =>
    obtain ⟨hp, hnd⟩ := List.nodup_cons.mp hnd
    rw [List.foldl_cons, ih hnd]
    by_cases hq : q = p
    · subst hq
      rw [if_neg hp, if_pos (.head _), Function.update_self]
    · rw [Function.update_of_ne hq]
      simp only [List.mem_cons, hq, false_or]

section Merged

variable {head : Nat} {S : Finset Nat} {s : PageArray} {starts : List Nat}

theorem Merged.mem_pagesOf (h : Merged head S s starts) (hS : ∀ p ∈ S, p < NPAGES) (p : Nat) :
    p ∈ pagesOf (ranges head s) ↔ p ∈ S := by
  rw [Tmk.mem_pagesOf, mem_iff_isRun]
  constructor
  · rintro ⟨⟨a, b⟩, hr, ha, hb⟩
    exact ⟨a, b, (h.mem_ranges hS a b).mp hr, ha, hb⟩
  · rintro ⟨a, b, hrun, ha, hb⟩
    exact ⟨(a, b), (h.mem_ranges hS a b).mpr hrun, ha, hb⟩

theorem Merged.pagesOf_nodup (h : Merged head S s starts) (hS : ∀ p ∈ S, p < NPAGES) :
    (pagesOf (ranges head s)).Nodup := by
  refine List.nodup_flatMap.mpr ⟨fun r _ => List.nodup_range', ?_⟩
  refine List.Pairwise.imp_of_mem ?_ (h.ranges_nodup hS)
  rintro ⟨a, b⟩ ⟨a', b'⟩ hr hr' hne p hp hp'
  simp only [List.mem_range'_1] at hp hp'
  obtain ⟨rfl, rfl⟩ := ((h.mem_ranges hS a b).mp hr).eq_of_mem ((h.mem_ranges hS a' b').mp hr')
    (k := p) (by omega) (by omega) (by omega) (by omega)
  exact hne rfl

theorem Merged.ranges_ne_nil (h : Merged head S s starts) (hS : ∀ p ∈ S, p < NPAGES) (hne : S.Nonempty) :
    ranges head s ≠ [] := by
  obtain ⟨p, hp⟩ := hne
  intro hnil
  have := (h.mem_pagesOf hS p).mpr hp
  rw [hnil] at this
  cases this

theorem Merged.ranges_pages (h : Merged head S s starts) (hS : ∀ p ∈ S, p < NPAGES) :
    ∀ r ∈ ranges head s, r.1 ≤ r.2 ∧ r.2 < NPAGES := by
  rintro ⟨a, b⟩ hr
  have hrun := (h.mem_ranges hS a b).mp hr
  exact ⟨hrun.le, hS b hrun.stop⟩

end Merged

/-- A record that can be sent, and names no page twice. -/
structure Interval.Good (iv : Interval) : Prop extends iv.Wf where
  nodup : (pagesOf iv.ranges).Nodup

/-! ## The end of an interval -/

/-- `intervalCreate` where a page is dirty: the record `iv`, and a write notice for each dirty page. -/
theorem intervalCreate_eq {me : Proc} {vt : VectorTime} {n : Node} {D : Finset Nat} {starts : List Nat}
    (hD : Merged pageDirty D n.dirty starts) (hlt : ∀ p ∈ D, p < NPAGES) (hne : D.Nonempty)
    (hroom : vt me + 1 < 2 ^ 16) (hvt : ∀ k, vt k < 2 ^ 16) :
    ∃ iv : Interval, iv.id = me ∧ iv.vector_time = Function.update vt me (vt me + 1) ∧
      (∀ p, iv.covers p = true ↔ p ∈ D) ∧ iv.Good ∧
      intervalCreate me vt n =
        ({ n with
            log := Function.update n.log me (n.log me ++ [iv])
            page := fun p => if p ∈ D then (n.page p).push me iv else n.page p
            dirty := flush pageDirty n.dirty }, iv.vector_time) := by
  have hnil := hD.ranges_ne_nil hlt hne
  refine ⟨⟨me, Function.update vt me (vt me + 1), ranges pageDirty n.dirty⟩, rfl, rfl, fun p => ?_, ?_, ?_⟩
  · rw [Interval.covers_iff, ← mem_pagesOf, hD.mem_pagesOf hlt]
  · refine ⟨⟨hnil, hD.ranges_pages hlt, fun k => ?_⟩, hD.pagesOf_nodup hlt⟩
    by_cases hk : k = me
    · subst hk
      simpa using hroom
    · simpa [hk] using hvt k
  · have hpage : ∀ iv : Interval, (pagesOf (ranges pageDirty n.dirty)).foldl
        (fun page p => Function.update page p ((page p).push me iv)) n.page =
        fun p => if p ∈ D then (n.page p).push me iv else n.page p := fun iv => by
      funext p
      have hfold := foldl_update (fun pg : Page => pg.push me iv) _ (hD.pagesOf_nodup hlt) n.page p
      simpa only [hD.mem_pagesOf hlt] using hfold
    unfold intervalCreate
    rw [Nat.mod_eq_of_lt hroom]
    split
    · next h => exact absurd h hnil
    · simp only [hpage]

theorem intervalCreate_clean {me : Proc} {vt : VectorTime} {n : Node} {starts : List Nat}
    (hD : Merged pageDirty ∅ n.dirty starts) : intervalCreate me vt n = (n, vt) := by
  have hnil : ranges pageDirty n.dirty = [] := by
    refine List.eq_nil_iff_forall_not_mem.mpr fun r hr => ?_
    have hrun := (hD.mem_ranges (by simp) r.1 r.2).mp hr
    exact absurd hrun.start (by simp)
  rw [intervalCreate, hnil]

/-! ## A page that is made invalid -/

section Pages

variable {me pid : Proc} {pg : Page} {iv : Interval} {n : Node} {p : Nat} {vt : VectorTime}

@[simp] theorem Node.setPage_page_self : (n.setPage p pg).page p = pg := by simp [Node.setPage]

@[simp] theorem Page.push_twin : (pg.push pid iv).twin = pg.twin := rfl

@[simp] theorem Page.push_state : (pg.push pid iv).state = pg.state := rfl

@[simp] theorem Page.push_prot : (pg.push pid iv).prot = pg.prot := rfl

@[simp] theorem Page.push_notices_self : (pg.push pid iv).notices pid = ⟨iv, false⟩ :: pg.notices pid :=
  Function.update_self ..

theorem Page.push_notices_of_ne {i : Proc} (hi : i ≠ pid) : (pg.push pid iv).notices i = pg.notices i :=
  Function.update_of_ne hi ..

theorem Page.ownPending_push_of_ne (h : pid ≠ me) : (pg.push pid iv).ownPending me = pg.ownPending me := by
  rw [Page.ownPending, Page.push_notices_of_ne h.symm]
  rfl

theorem Page.ownPending_push_self : (pg.push me iv).ownPending me = true := by
  rw [Page.ownPending, Page.push_notices_self]
  rfl

theorem Page.exists_of_ownPending (h : pg.ownPending me = true) :
    ∃ iv nts, pg.notices me = ⟨iv, false⟩ :: nts := by
  unfold Page.ownPending at h
  split at h
  · cases h
  · next nt nts heq =>
    obtain ⟨iv, d⟩ := nt
    simp only [Bool.not_eq_true'] at h
    exact ⟨iv, nts, by rw [heq, h]⟩

theorem Page.diffOwn_eq {nts : List Notice} {nt : Notice} (h : pg.notices me = nt :: nts) :
    pg.diffOwn me =
      { pg with twin := false, notices := Function.update pg.notices me (⟨nt.interval, true⟩ :: nts) } := by
  unfold Page.diffOwn
  split
  · next heq => rw [h] at heq; cases heq
  · next heq =>
    rw [h] at heq
    cases heq
    rfl

@[simp] theorem Page.diffOwn_state : (pg.diffOwn me).state = pg.state := by
  unfold Page.diffOwn
  split <;> rfl

/-- The write notice, and the page no longer valid. -/
def Page.invalidate (pg : Page) (pid : Proc) (iv : Interval) : Page := { pg.push pid iv with state := .invalid }

@[simp] theorem Page.invalidate_state : (pg.invalidate pid iv).state = .invalid := rfl

@[simp] theorem Page.invalidate_twin : (pg.invalidate pid iv).twin = pg.twin := rfl

theorem Page.ownPending_invalidate (h : pid ≠ me) : (pg.invalidate pid iv).ownPending me = pg.ownPending me :=
  Page.ownPending_push_of_ne h

theorem Node.setPage_setPage (pg' : Page) : (n.setPage p pg).setPage p pg' = n.setPage p pg' := by
  simp [Node.setPage]

theorem Node.setPage_page_of_ne {q : Nat} (hq : q ≠ p) : (n.setPage p pg).page q = n.page q :=
  Function.update_of_ne hq ..

theorem dropTwin_of_no_twin (fuel : Nat) (s : Node × Option VectorTime) (h : (s.1.page p).twin = false) :
    dropTwin me p (fuel + 1) s = some s := by
  obtain ⟨n, vt⟩ := s
  unfold dropTwin
  exact if_pos h

theorem dropTwin_of_pending (fuel : Nat) (vt : Option VectorTime) (htwin : (n.page p).twin = true)
    (hp : (n.page p).ownPending me = true) :
    dropTwin me p (fuel + 2) (n, vt) = some (n.setPage p ((n.page p).diffOwn me), vt) := by
  obtain ⟨iv, nts, hnts⟩ := Page.exists_of_ownPending hp
  unfold dropTwin
  rw [if_neg (by simp [htwin]), if_pos hp]
  refine dropTwin_of_no_twin fuel _ ?_
  simp [Page.diffOwn_eq hnts]

/-- A dirty page: the interval ends, and the page's changes are put into its diff. -/
theorem dropTwin_of_dirty {D : Finset Nat} {starts : List Nat} (hD : Merged pageDirty D n.dirty starts)
    (hlt : ∀ p ∈ D, p < NPAGES) (hp : p ∈ D) (htwin : (n.page p).twin = true)
    (hown : (n.page p).ownPending me = false) (hroom : vt me + 1 < 2 ^ 16) (hvt : ∀ k, vt k < 2 ^ 16) :
    ∃ iv : Interval, iv.id = me ∧ iv.vector_time = Function.update vt me (vt me + 1) ∧
      (∀ p, iv.covers p = true ↔ p ∈ D) ∧ iv.Good ∧
      dropTwin me p 3 (n, some vt) =
        some ({ n with
            time := Function.update n.time me (iv.vector_time me)
            log := Function.update n.log me (n.log me ++ [iv])
            page := Function.update (fun p => if p ∈ D then (n.page p).push me iv else n.page p) p
              (((n.page p).push me iv).diffOwn me)
            dirty := flush pageDirty n.dirty }, some iv.vector_time) := by
  obtain ⟨iv, hid, htime, hcov, hgood, hcreate⟩ := intervalCreate_eq hD hlt ⟨p, hp⟩ hroom hvt
  refine ⟨iv, hid, htime, hcov, hgood, ?_⟩
  rw [dropTwin, if_neg (by simp [htwin]), if_neg (by simp [hown])]
  simp only [hcreate]
  rw [dropTwin_of_pending 0 _ (by simp [hp, htwin]) (by simp [hp, Page.ownPending_push_self])]
  simp only [Node.setPage, if_pos hp]

/-- What holds of a page between two calls.  `notices` are the intervals known that wrote it, the newest first. -/
structure PageInv (me : Proc) (known : Proc → List Interval) (dirty inval : Prop) (pg : Page) : Prop where
  notices : ∀ i, (pg.notices i).map Notice.interval = known i
  older : ∀ i, (pg.notices i).Pairwise fun nt nt' => nt.diff = true → nt'.diff = true
  ownOlder : ∀ nt ∈ (pg.notices me).tail, nt.diff = true
  pending : pg.ownPending me = true → pg.twin = true ∧ ¬ dirty
  twin : pg.twin = true → pg.state = .valid ∧ (dirty ∨ pg.ownPending me = true)
  dirty : dirty → pg.twin = true
  seen : ∀ iv ∈ known me, ∀ i, i ≠ me → ∀ nt ∈ pg.notices i,
    nt.interval.vector_time i ≤ iv.vector_time i → nt.diff = true
  valid : pg.state = .valid → ∀ i, i ≠ me → ∀ nt ∈ pg.notices i, nt.diff = true
  protValid : pg.state = .valid → pg.prot = if pg.twin then .write else .read
  protPriv : pg.state = .priv → pg.prot = .write
  protInvalid : pg.state = .invalid → ¬ inval → pg.prot = .none
  protEmpty : pg.state = .empty → pg.prot = .none
  priv : pg.state = .priv → ∀ i, known i = []
  inval : inval → pg.state = .invalid

variable {known : Proc → List Interval} {dirty inval : Prop}

theorem PageInv.notice_mem (h : PageInv me known dirty inval pg) {i : Proc} {nt : Notice} (hnt : nt ∈ pg.notices i) :
    nt.interval ∈ known i := by
  rw [← h.notices i]
  exact List.mem_map_of_mem hnt

/-- The lists with one more write notice. -/
theorem PageInv.push_notices (h : PageInv me known dirty inval pg) (pid : Proc) (iv : Interval) (i : Proc) :
    ((pg.push pid iv).notices i).map Notice.interval = Function.update known pid (iv :: known pid) i := by
  by_cases hi : i = pid
  · subst hi
    rw [Page.push_notices_self, List.map_cons, h.notices, Function.update_self]
  · rw [Page.push_notices_of_ne hi, h.notices, Function.update_of_ne hi]

theorem PageInv.push_older (h : PageInv me known dirty inval pg) (pid : Proc) (iv : Interval) (i : Proc) :
    ((pg.push pid iv).notices i).Pairwise fun nt nt' => nt.diff = true → nt'.diff = true := by
  by_cases hi : i = pid
  · subst hi
    rw [Page.push_notices_self]
    exact .cons (by simp) (h.older i)
  · rw [Page.push_notices_of_ne hi]
    exact h.older i

/-- A new record of another process is newer than what the own intervals have seen. -/
theorem PageInv.push_seen (h : PageInv me known dirty inval pg) (hpid : pid ≠ me)
    (hnew : ∀ own ∈ known me, own.vector_time pid < iv.vector_time pid) :
    ∀ own ∈ known me, ∀ i, i ≠ me → ∀ nt ∈ (pg.push pid iv).notices i,
      nt.interval.vector_time i ≤ own.vector_time i → nt.diff = true := by
  intro own hown i hi nt hnt hle
  by_cases hip : i = pid
  · subst hip
    rw [Page.push_notices_self] at hnt
    rcases List.mem_cons.mp hnt with rfl | hnt
    · have := hnew own hown
      simp only at hle
      omega
    · exact h.seen own hown i hi nt hnt hle
  · rw [Page.push_notices_of_ne hip] at hnt
    exact h.seen own hown i hi nt hnt hle

/-- A page that is invalid already only gets the write notice. -/
theorem PageInv.push (h : PageInv me known dirty inval pg) (hpid : pid ≠ me)
    (hnew : ∀ own ∈ known me, own.vector_time pid < iv.vector_time pid) (hvalid : pg.state ≠ .valid)
    (hpriv : pg.state ≠ .priv) :
    PageInv me (Function.update known pid (iv :: known pid)) dirty inval (pg.push pid iv) where
  notices := h.push_notices pid iv
  older := h.push_older pid iv
  ownOlder := by
    rw [Page.push_notices_of_ne hpid.symm]
    exact h.ownOlder
  pending hp := h.pending (by rwa [Page.ownPending_push_of_ne hpid] at hp)
  twin ht := by
    rw [Page.ownPending_push_of_ne hpid]
    exact h.twin ht
  dirty := h.dirty
  seen := by
    rw [Function.update_of_ne hpid.symm]
    exact h.push_seen hpid hnew
  valid hv := absurd hv hvalid
  protValid := h.protValid
  protPriv := h.protPriv
  protInvalid := h.protInvalid
  protEmpty := h.protEmpty
  priv hp := absurd hp hpriv
  inval := h.inval

/-- A valid page that the process has not written. -/
theorem PageInv.invalidate (h : PageInv me known dirty inval pg) (hpid : pid ≠ me)
    (hnew : ∀ own ∈ known me, own.vector_time pid < iv.vector_time pid) (htwin : pg.twin = false) :
    PageInv me (Function.update known pid (iv :: known pid)) dirty True
      (pg.invalidate pid iv) where
  notices := h.push_notices pid iv
  older := h.push_older pid iv
  ownOlder := by
    show ∀ nt ∈ ((pg.push pid iv).notices me).tail, nt.diff = true
    rw [Page.push_notices_of_ne hpid.symm]
    exact h.ownOlder
  pending hp := h.pending (by rwa [Page.ownPending_invalidate hpid] at hp)
  twin ht := by simp [htwin] at ht
  dirty hd := h.dirty hd
  seen := by
    rw [Function.update_of_ne hpid.symm]
    exact h.push_seen hpid hnew
  valid hv := by cases hv
  protValid hv := by cases hv
  protPriv hv := by cases hv
  protInvalid _ hn := absurd trivial hn
  protEmpty hv := by cases hv
  priv hv := by cases hv
  inval _ := rfl

/-- The diff of the newest own write notice is made. -/
theorem PageInv.diffOwn (h : PageInv me known dirty inval pg) (hp : pg.ownPending me = true) :
    PageInv me known dirty inval
      { pg.diffOwn me with prot := if pg.state = .valid then .read else pg.prot } := by
  obtain ⟨iv, nts, hnts⟩ := Page.exists_of_ownPending hp
  have hdirty := (h.pending hp).2
  have hown : Function.update pg.notices me (⟨iv, true⟩ :: nts) me = ⟨iv, true⟩ :: nts := Function.update_self ..
  have hforeign : ∀ i, i ≠ me → Function.update pg.notices me (⟨iv, true⟩ :: nts) i = pg.notices i :=
    fun i hi => Function.update_of_ne hi ..
  have holder : ∀ nt ∈ nts, nt.diff = true := by
    have := h.ownOlder
    rwa [hnts] at this
  rw [Page.diffOwn_eq hnts]
  refine ⟨fun i => ?_, fun i => ?_, ?_, fun hp => ?_, fun ht => by simp at ht, fun hd => absurd hd hdirty,
    fun own howm i hi nt hnt => ?_, fun hv i hi nt hnt => ?_, fun hv => ?_, fun hv => ?_, fun hv hn => ?_,
    fun hv => ?_, h.priv, h.inval⟩
  · by_cases hi : i = me
    · subst hi
      simp only [hown, List.map_cons]
      have := h.notices i
      rwa [hnts, List.map_cons] at this
    · simp only [hforeign i hi]
      exact h.notices i
  · by_cases hi : i = me
    · subst hi
      simp only [hown]
      have := h.older i
      rw [hnts, List.pairwise_cons] at this
      exact .cons (fun nt hnt _ => holder nt hnt) this.2
    · simp only [hforeign i hi]
      exact h.older i
  · simp only [hown, List.tail_cons]
    exact holder
  · simp [Page.ownPending] at hp
  · simp only [hforeign i hi] at hnt
    exact h.seen own howm i hi nt hnt
  · simp only [hforeign i hi] at hnt
    exact h.valid hv i hi nt hnt
  · simp only at hv ⊢
    simp [hv]
  · simp only at hv ⊢
    simp [hv, h.protPriv hv]
  · simp only at hv ⊢
    simp [hv, h.protInvalid hv hn]
  · simp only at hv ⊢
    simp [hv, h.protEmpty hv]

/-- A page that is still to be protected may have any protection. -/
theorem PageInv.setProt (h : PageInv me known dirty True pg) (prot : Prot) :
    PageInv me known dirty True { pg with prot := prot } := by
  have hinv := h.inval trivial
  exact { h with
    protValid := fun hv => by rw [hinv] at hv; cases hv
    protPriv := fun hv => by rw [hinv] at hv; cases hv
    protInvalid := fun _ hn => absurd trivial hn
    protEmpty := fun hv => by rw [hinv] at hv; cases hv }

/-- A valid page with changes of an interval that has ended: their diff is made first. -/
theorem PageInv.invalidate_pending (h : PageInv me known dirty inval pg) (hpid : pid ≠ me)
    (hnew : ∀ own ∈ known me, own.vector_time pid < iv.vector_time pid) (hp : pg.ownPending me = true) :
    PageInv me (Function.update known pid (iv :: known pid)) dirty True
      ((pg.invalidate pid iv).diffOwn me) := by
  obtain ⟨own, nts, hnts⟩ := Page.exists_of_ownPending hp
  have hnts' : (pg.invalidate pid iv).notices me = ⟨own, false⟩ :: nts :=
    (Page.push_notices_of_ne hpid.symm).trans hnts
  have htwin : (pg.diffOwn me).twin = false := by rw [Page.diffOwn_eq hnts]
  have h' := ((h.diffOwn hp).invalidate hpid hnew htwin).setProt pg.prot
  rw [Page.diffOwn_eq hnts] at h'
  rw [Page.diffOwn_eq hnts']
  have hcomm : Function.update (pg.push pid iv).notices me (⟨own, true⟩ :: nts) =
      Function.update (Function.update pg.notices me (⟨own, true⟩ :: nts)) pid (⟨iv, false⟩ :: pg.notices pid) := by
    exact Function.update_comm hpid _ _ _
  simp only [Page.invalidate, Page.push, Function.update_of_ne hpid] at h' hcomm ⊢
  rwa [hcomm]

/-- The end of the interval in which the page was written. -/
theorem PageInv.create (h : PageInv me known dirty inval pg) (hd : dirty) :
    PageInv me (Function.update known me (iv :: known me)) False inval (pg.push me iv) := by
  have htwin := h.dirty hd
  have hvalid := (h.twin htwin).1
  have hown : ∀ nt ∈ pg.notices me, nt.diff = true := by
    intro nt hnt
    cases hnts : pg.notices me with
    | nil => rw [hnts] at hnt; cases hnt
    | cons nt' nts =>
      have holder := h.ownOlder
      rw [hnts, List.tail_cons] at holder
      rw [hnts] at hnt
      rcases List.mem_cons.mp hnt with rfl | hnt
      · by_contra hdiff
        refine (h.pending ?_).2 hd
        simpa [Page.ownPending, hnts] using hdiff
      · exact holder nt hnt
  refine ⟨h.push_notices me iv, h.push_older me iv, ?_, fun _ => ⟨htwin, id⟩,
    fun _ => ⟨hvalid, .inr Page.ownPending_push_self⟩, False.elim, fun own hmem i hi nt hnt hle => ?_,
    fun hv i hi nt hnt => ?_, h.protValid, fun hv => ?_, fun hv => ?_, fun hv => ?_, fun hv => ?_, fun hi => h.inval hi⟩
  · rw [Page.push_notices_self, List.tail_cons]
    exact hown
  · rw [Page.push_notices_of_ne hi] at hnt
    exact h.valid hvalid i hi nt hnt
  · rw [Page.push_notices_of_ne hi] at hnt
    exact h.valid hvalid i hi nt hnt
  all_goals
    rw [Page.push_state, hvalid] at hv
    cases hv

/-- A dirty page: the interval is ended, and its diff made. -/
theorem PageInv.invalidate_dirty {own : Interval} (h : PageInv me known dirty inval pg) (hpid : pid ≠ me)
    (hnew : ∀ own ∈ known me, own.vector_time pid < iv.vector_time pid)
    (hown : own.vector_time pid < iv.vector_time pid) (hd : dirty) :
    PageInv me (Function.update (Function.update known pid (iv :: known pid)) me (own :: known me)) False True
      (((pg.invalidate pid iv).push me own).diffOwn me) := by
  have hcreate : PageInv me (Function.update known me (own :: known me)) False inval (pg.push me own) :=
    h.create hd
  have hnew' : ∀ o ∈ Function.update known me (own :: known me) me, o.vector_time pid < iv.vector_time pid := by
    rw [Function.update_self]
    intro o ho
    rcases List.mem_cons.mp ho with rfl | ho
    · exact hown
    · exact hnew o ho
  have hinv := hcreate.invalidate_pending hpid hnew' Page.ownPending_push_self
  have hknown : Function.update (Function.update known me (own :: known me)) pid
      (iv :: Function.update known me (own :: known me) pid) =
      Function.update (Function.update known pid (iv :: known pid)) me (own :: known me) := by
    rw [Function.update_of_ne hpid]
    exact Function.update_comm hpid.symm _ _ _
  have hpage : (pg.push me own).invalidate pid iv = (pg.invalidate pid iv).push me own := by
    simp only [Page.invalidate, Page.push, Function.update_of_ne hpid, Function.update_of_ne hpid.symm, Page.mk.injEq, true_and]
    exact Function.update_comm hpid.symm _ _ _
  rw [hknown, hpage] at hinv
  exact hinv

end Pages

theorem PageInv.congr {me : Proc} {known known' : Proc → List Interval} {dirty dirty' inval inval' : Prop} {pg : Page}
    (h : PageInv me known dirty inval pg) (hknown : known = known') (hdirty : dirty ↔ dirty')
    (hinval : inval ↔ inval') : PageInv me known' dirty' inval' pg := by
  rw [hknown, propext hdirty, propext hinval] at h
  exact h

end Tmk
