import SistemasDistribuidos.Tmk.Node

/-!
# Taking in the records that come with a lock

`Tmk_interval_incorporate` over a whole message.  A process knows of each process a first
part of its intervals, as many as its vector time says; each page has a write notice for each
interval known that wrote it.  A message with the records that are next leaves it so, and
every call that is made on the way succeeds: the loop that frees a twin comes to its end, and
an interval is ended at most once (`Advance`).
-/

namespace Tmk

/-! ## The intervals a process knows -/

/-- The intervals of process `i` that wrote page `p`, the newest first. -/
def writers (log : Proc → List Interval) (p : Nat) (i : Proc) : List Interval :=
  ((log i).filter fun iv => iv.covers p).reverse

/-- The same while the newest record of `pid` is taken in and the pages `todo` have not been reached. -/
def writersBut (log : Proc → List Interval) (pid : Proc) (todo : List Nat) (p : Nat) (i : Proc) : List Interval :=
  if i = pid ∧ p ∈ todo then (writers log p i).tail else writers log p i

@[simp] theorem writersBut_nil (log : Proc → List Interval) (pid : Proc) (p : Nat) :
    writersBut log pid [] p = writers log p := by
  funext i
  simp [writersBut]

theorem writers_append_self (log : Proc → List Interval) (i : Proc) (iv : Interval) (p : Nat) :
    writers (Function.update log i (log i ++ [iv])) p i =
      if iv.covers p then iv :: writers log p i else writers log p i := by
  unfold writers
  rw [Function.update_self, List.filter_append]
  split
  · next h => simp [h]
  · next h => simp [h]

theorem writers_append_of_ne (log : Proc → List Interval) {i j : Proc} (hj : j ≠ i) (l : List Interval) (p : Nat) :
    writers (Function.update log i l) p j = writers log p j := by
  unfold writers
  rw [Function.update_of_ne hj]

/-- An interval of the process itself, which takes in a record of another one. -/
theorem writersBut_own (log : Proc → List Interval) {me pid : Proc} (hpid : pid ≠ me) (todo : List Nat)
    (own : Interval) (p : Nat) :
    writersBut (Function.update log me (log me ++ [own])) pid todo p =
      if own.covers p then Function.update (writersBut log pid todo p) me (own :: writersBut log pid todo p me)
      else writersBut log pid todo p := by
  have hme : ∀ log, writersBut log pid todo p me = writers log p me := fun log =>
    if_neg fun h => hpid h.1.symm
  funext i
  by_cases hi : i = me
  · subst hi
    rw [hme, writers_append_self]
    split
    · rw [Function.update_self, hme]
    · rw [hme]
  · have hother : writersBut (Function.update log me (log me ++ [own])) pid todo p i = writersBut log pid todo p i := by
      simp only [writersBut, writers_append_of_ne log hi]
    rw [hother]
    split
    · rw [Function.update_of_ne hi]
    · rfl

/-- Page `p` is reached. -/
theorem writersBut_done (log : Proc → List Interval) (pid : Proc) (todo : List Nat) (iv : Interval) (p : Nat)
    (hp : p ∉ todo) (hw : (writers log p pid).head? = some iv) :
    Function.update (writersBut log pid (p :: todo) p) pid (iv :: writersBut log pid (p :: todo) p pid) =
      writersBut log pid todo p := by
  funext i
  by_cases hi : i = pid
  · subst hi
    obtain ⟨ws, hws⟩ := List.head?_eq_some_iff.mp hw
    rw [Function.update_self]
    simp [writersBut, hp, hws]
  · rw [Function.update_of_ne hi]
    simp [writersBut, hi]

theorem writersBut_of_ne (log : Proc → List Interval) (pid : Proc) (todo : List Nat) {p q : Nat} (hq : q ≠ p) :
    writersBut log pid (p :: todo) q = writersBut log pid todo q := by
  funext i
  simp [writersBut, hq]

/-- How process `me` has the record of an interval of process `i`. -/
def view (me i : Proc) (iv : Interval) : Interval := if i = me then iv else iv.wire

@[simp] theorem view_self (me : Proc) : view me me = id := funext fun _ => if_pos rfl

/-- What holds of a process whose history, like that of the others, is `H`.  `D` are its dirty pages, `I` those to
protect, `vt` the vector time the next interval of its own starts from. -/
structure NodeInv (me : Proc) (H : Proc → List Interval) (D I : Finset Nat) (vt : VectorTime) (pid : Proc)
    (todo : List Nat) (n : Node) : Prop where
  time : ∀ i, n.time i ≤ (H i).length
  own : n.time me = (H me).length
  log : ∀ i, n.log i = ((H i).take (n.time i)).map (view me i)
  dirty : ∃ starts, Merged pageDirty D n.dirty starts
  dirtyPages : ∀ p ∈ D, p < NPAGES
  inval : ∃ starts, Merged NPAGES I n.inval starts
  invalPages : ∀ p ∈ I, p < NPAGES
  pages : ∀ p, PageInv me (writersBut n.log pid todo p) (p ∈ D) (p ∈ I) (n.page p)
  base : ∀ i, i ≠ me → vt i ≤ n.time i
  baseOwn : D.Nonempty → vt me = n.time me
  ownTime : ∀ own ∈ H me, ∀ i, i ≠ me → own.vector_time i ≤ n.time i
  bound : ∀ i, (H i).length < 2 ^ 16

theorem NodeInv.ownLog {me pid : Proc} {H : Proc → List Interval} {D I : Finset Nat} {vt : VectorTime}
    {todo : List Nat} {n : Node} (h : NodeInv me H D I vt pid todo n) : n.log me = H me := by
  rw [h.log me, h.own, List.take_length, view_self, List.map_id]

/-- What a call may do to the history of the process: nothing, or end the open interval. -/
def Advance (me : Proc) (H : Proc → List Interval) (D : Finset Nat) (vt : VectorTime)
    (H' : Proc → List Interval) (D' : Finset Nat) (vt' : VectorTime) : Prop :=
  (D' = D ∧ H' = H ∧ vt' = vt) ∨
    (D.Nonempty ∧ D' = ∅ ∧ ∃ own : Interval, own.id = me ∧ own.Good ∧ (∀ p, own.covers p = true ↔ p ∈ D) ∧
      own.vector_time = vt' ∧ vt' = Function.update vt me (vt me + 1) ∧ H' = Function.update H me (H me ++ [own]))

theorem Advance.trans {me : Proc} {H H' H'' : Proc → List Interval} {D D' D'' : Finset Nat}
    {vt vt' vt'' : VectorTime} (h : Advance me H D vt H' D' vt') (h' : Advance me H' D' vt' H'' D'' vt'') :
    Advance me H D vt H'' D'' vt'' := by
  rcases h with ⟨rfl, rfl, rfl⟩ | ⟨hne, rfl, hown⟩
  · exact h'
  · rcases h' with ⟨rfl, rfl, rfl⟩ | ⟨hne', -⟩
    · exact .inr ⟨hne, rfl, hown⟩
    · exact absurd hne' (by simp)

/-- What records of others may do to the state of a page. -/
def Demoted (n n' : Node) : Prop :=
  ∀ q, (n'.page q).state = (n.page q).state ∨ ((n.page q).state = .valid ∧ (n'.page q).state = .invalid)

theorem Demoted.refl (n : Node) : Demoted n n := fun _ => .inl rfl

theorem Demoted.trans {n n' n'' : Node} (h : Demoted n n') (h' : Demoted n' n'') : Demoted n n'' := by
  intro q
  rcases h' q with heq | ⟨hv, hi⟩
  · rw [heq]
    exact h q
  · rcases h q with heq | ⟨-, hinv⟩
    · exact .inr ⟨heq ▸ hv, hi⟩
    · rw [hinv] at hv
      cases hv

theorem Demoted.priv {n n' : Node} (h : Demoted n n') {q : Nat} (hq : (n'.page q).state = .priv) :
    (n.page q).state = .priv := by
  rcases h q with heq | ⟨-, hinv⟩
  · rwa [← heq]
  · rw [hinv] at hq
    cases hq

theorem Demoted.setPage {n : Node} {p : Nat} {pg : Page}
    (h : pg.state = (n.page p).state ∨ ((n.page p).state = .valid ∧ pg.state = .invalid)) :
    Demoted n (n.setPage p pg) := by
  intro q
  by_cases hq : q = p
  · subst hq
    rwa [Node.setPage_page_self]
  · rw [Node.setPage_page_of_ne hq]
    exact .inl rfl

section Notice

variable {me : Proc} {H : Proc → List Interval} {D I : Finset Nat} {vt : VectorTime} {n : Node} {iv : Interval}
  {p : Nat} {todo : List Nat}

/-- What a process that takes in the record `iv` may have seen of it: nothing. -/
structure Fresh (me : Proc) (H : Proc → List Interval) (vt : VectorTime) (iv : Interval) : Prop where
  foreign : iv.id ≠ me
  seen : ∀ own ∈ H me, own.vector_time iv.id < iv.vector_time iv.id
  base : vt iv.id < iv.vector_time iv.id

theorem Fresh.advance {H' : Proc → List Interval} {D' : Finset Nat} {vt' : VectorTime} (h : Fresh me H vt iv)
    (hadv : Advance me H D vt H' D' vt') : Fresh me H' vt' iv := by
  rcases hadv with ⟨-, rfl, rfl⟩ | ⟨-, -, own, -, -, -, hown, hvt, rfl⟩
  · exact h
  · have hbase : vt' iv.id < iv.vector_time iv.id := by
      rw [hvt, Function.update_of_ne h.foreign]
      exact h.base
    refine ⟨h.foreign, fun o ho => ?_, hbase⟩
    rw [Function.update_self] at ho
    rcases List.mem_append.mp ho with ho | ho
    · exact h.seen o ho
    · rw [List.mem_singleton.mp ho, hown]
      exact hbase

theorem NodeInv.own_mem (h : NodeInv me H D I vt iv.id todo n) (hfresh : Fresh me H vt iv) {own : Interval}
    (hown : own ∈ writersBut n.log iv.id todo p me) : own ∈ H me := by
  rw [writersBut, if_neg fun hp => hfresh.foreign hp.1.symm, writers, List.mem_reverse] at hown
  rw [← h.ownLog]
  exact List.mem_of_mem_filter hown

/-- The write notice for page `p`, with what becomes of the page. -/
theorem NodeInv.setNotice (h : NodeInv me H D I vt iv.id (p :: todo) n) (hp : p ∉ todo)
    (hw : (writers n.log p iv.id).head? = some iv) {pg : Page} {I' : Finset Nat} {inval' : PageArray}
    (hinval : ∃ starts, Merged NPAGES I' inval' starts) (hI' : ∀ q, q ≠ p → (q ∈ I' ↔ q ∈ I)) (hlt : p < NPAGES)
    (hpg : PageInv me (Function.update (writersBut n.log iv.id (p :: todo) p) iv.id
      (iv :: writersBut n.log iv.id (p :: todo) p iv.id)) (p ∈ D) (p ∈ I') pg) :
    NodeInv me H D I' vt iv.id todo { n.setPage p pg with inval := inval' } where
  time := h.time
  own := h.own
  log := h.log
  dirty := h.dirty
  dirtyPages := h.dirtyPages
  inval := hinval
  invalPages q hq := by
    by_cases hqp : q = p
    · rwa [hqp]
    · exact h.invalPages q ((hI' q hqp).mp hq)
  pages q := by
    simp only [Node.setPage]
    by_cases hq : q = p
    · subst hq
      rw [Function.update_self]
      exact hpg.congr (writersBut_done n.log iv.id todo iv q hp hw) .rfl .rfl
    · rw [Function.update_of_ne hq]
      exact (h.pages q).congr (writersBut_of_ne n.log iv.id todo hq) .rfl (hI' q hq).symm
  base := h.base
  baseOwn := h.baseOwn
  ownTime := h.ownTime
  bound := h.bound

/-- The interval `own` ends, and the pages and the list of those to protect become what `hpages` says. -/
theorem NodeInv.append {pid : Proc} (h : NodeInv me H D I vt pid todo n) (hne : D.Nonempty) (todo' : List Nat)
    (page : Nat → Page) {own : Interval} (htime : own.vector_time = Function.update vt me (vt me + 1))
    (hroom : (H me).length + 1 < 2 ^ 16) {I' : Finset Nat} {inval : PageArray}
    (hinval : ∃ starts, Merged NPAGES I' inval starts) (hinvalPages : ∀ q ∈ I', q < NPAGES)
    (hpages : ∀ q, PageInv me (writersBut (Function.update n.log me (n.log me ++ [own])) pid todo' q) False (q ∈ I')
      (page q)) :
    NodeInv me (Function.update H me (H me ++ [own])) ∅ I' own.vector_time pid todo'
      { n with
        time := Function.update n.time me (own.vector_time me)
        log := Function.update n.log me (n.log me ++ [own])
        page := page
        dirty := flush pageDirty n.dirty
        inval := inval } := by
  have hown : own.vector_time me = n.time me + 1 := by
    rw [htime, Function.update_self, h.baseOwn hne]
  have hbase : ∀ i, i ≠ me → own.vector_time i = vt i := fun i hi => by rw [htime, Function.update_of_ne hi]
  obtain ⟨startsD, hD⟩ := h.dirty
  refine ⟨fun i => ?_, ?_, fun i => ?_, ⟨[], hD.flush h.dirtyPages⟩, by simp, hinval, hinvalPages,
    fun q => (hpages q).congr rfl (by simp) .rfl, fun i hi => ?_, by simp, fun o ho i hi => ?_, fun i => ?_⟩
  · by_cases hi : i = me
    · subst hi
      simp only [Function.update_self, List.length_append, List.length_singleton, hown, h.own]
      exact Nat.le_refl _
    · simp only [Function.update_of_ne hi]
      exact h.time i
  · simp only [Function.update_self, List.length_append, List.length_singleton, hown, h.own]
  · by_cases hi : i = me
    · subst hi
      simp only [Function.update_self, hown, view_self, List.map_id, h.ownLog]
      rw [List.take_of_length_le (by simp [h.own])]
    · simp only [Function.update_of_ne hi]
      exact h.log i
  · simp only [Function.update_of_ne hi, hbase i hi]
    exact h.base i hi
  · rw [Function.update_self] at ho
    simp only [Function.update_of_ne hi]
    rcases List.mem_append.mp ho with ho | ho
    · exact h.ownTime o ho i hi
    · rw [List.mem_singleton.mp ho, hbase i hi]
      exact h.base i hi
  · by_cases hi : i = me
    · subst hi
      simp only [Function.update_self, List.length_append, List.length_singleton]
      exact hroom
    · simp only [Function.update_of_ne hi]
      exact h.bound i

/-- The write notice for a dirty page, with the interval `own` that it ends. -/
theorem NodeInv.setCreated (h : NodeInv me H D I vt iv.id (p :: todo) n) (hp : p ∉ todo)
    (hw : (writers n.log p iv.id).head? = some iv) (hfresh : Fresh me H vt iv) (hpD : p ∈ D) (hpI : p ∉ I)
    {own : Interval} (htime : own.vector_time = Function.update vt me (vt me + 1))
    (hcov : ∀ q, own.covers q = true ↔ q ∈ D) (hroom : (H me).length + 1 < 2 ^ 16) :
    NodeInv me (Function.update H me (H me ++ [own])) ∅ (insert p I) own.vector_time iv.id todo
      { n with
        time := Function.update n.time me (own.vector_time me)
        log := Function.update n.log me (n.log me ++ [own])
        page := Function.update
          (fun q => if q ∈ D then ((n.setPage p ((n.page p).invalidate iv.id iv)).page q).push me own
            else (n.setPage p ((n.page p).invalidate iv.id iv)).page q) p
          ((((n.page p).invalidate iv.id iv).push me own).diffOwn me)
        dirty := flush pageDirty n.dirty
        inval := pageInvalMerge n.inval p } := by
  have hpid := hfresh.foreign
  have hbase : own.vector_time iv.id = vt iv.id := by rw [htime, Function.update_of_ne hpid]
  obtain ⟨startsI, hI⟩ := h.inval
  have hlt := h.dirtyPages p hpD
  refine h.append ⟨p, hpD⟩ todo _ htime hroom (hI.merge hpI (by omega)) (fun q hq => ?_) fun q => ?_
  · rcases Finset.mem_insert.mp hq with rfl | hq
    · exact hlt
    · exact h.invalPages q hq
  · rw [writersBut_own n.log hpid]
    by_cases hqp : q = p
    · subst hqp
      have hinv := (h.pages q).invalidate_dirty hpid (fun o ho => hfresh.seen o (h.own_mem hfresh ho))
        (by rw [hbase]; exact hfresh.base) hpD
      rw [Function.update_self, if_pos ((hcov q).mpr hpD)]
      refine hinv.congr ?_ .rfl (by simp)
      rw [← writersBut_done n.log iv.id todo iv q hp hw, Function.update_of_ne hpid.symm]
    · have hpage := h.pages q
      rw [writersBut_of_ne n.log iv.id todo hqp] at hpage
      rw [Function.update_of_ne hqp]
      simp only [Node.setPage, Function.update_of_ne hqp]
      by_cases hqD : q ∈ D
      · rw [if_pos hqD, if_pos ((hcov q).mpr hqD)]
        exact (hpage.create hqD).congr rfl .rfl (by simp [hqp])
      · rw [if_neg hqD, if_neg (mt (hcov q).mp hqD)]
        exact hpage.congr rfl (by simp [hqD]) (by simp [hqp])

theorem NodeInv.base_lt {pid : Proc} (h : NodeInv me H D I vt pid todo n) (hD : D.Nonempty) (k : Proc) :
    vt k < 2 ^ 16 := by
  have hk : vt k ≤ n.time k := by
    by_cases hk : k = me
    · rw [hk, h.baseOwn hD]
    · exact h.base k hk
  exact Nat.lt_of_le_of_lt (Nat.le_trans hk (h.time k)) (h.bound k)

/-- **The end of the open interval.** -/
theorem NodeInv.intervalCreate {pid : Proc} (h : NodeInv me H D ∅ n.time pid [] n)
    (hroom : D.Nonempty → (H me).length + 1 < 2 ^ 16) :
    ∃ n' H', NodeInv me H' ∅ ∅ n'.time pid [] n' ∧ Advance me H D n.time H' ∅ n'.time ∧
      n' = { (intervalCreate me n.time n).1 with time := (intervalCreate me n.time n).2 } ∧
      ∀ q, (n'.page q).state = (n.page q).state := by
  obtain ⟨starts, hD⟩ := h.dirty
  rcases D.eq_empty_or_nonempty with rfl | hne
  · refine ⟨n, H, h, .inl ⟨rfl, rfl, rfl⟩, ?_, fun _ => rfl⟩
    rw [intervalCreate_clean hD]
  · have hme : n.time me + 1 < 2 ^ 16 := by
      rw [h.own]
      exact hroom hne
    obtain ⟨own, hid, htime, hcov, hgood, hcreate⟩ := intervalCreate_eq hD h.dirtyPages hne hme (h.base_lt hne)
    have hupdate : Function.update n.time me (own.vector_time me) = own.vector_time := by
      rw [htime, Function.update_self]
    have h' := h.append hne [] (fun q => if q ∈ D then (n.page q).push me own else n.page q) htime (hroom hne) h.inval
      h.invalPages fun q => ?_
    · rw [hupdate] at h'
      refine ⟨_, _, h', .inr ⟨hne, rfl, own, hid, hgood, hcov, rfl, htime, rfl⟩, by rw [hcreate], fun q => ?_⟩
      simp only
      split <;> rfl
    · have hpage := h.pages q
      rw [writersBut_nil] at hpage ⊢
      have hwriters : writers (Function.update n.log me (n.log me ++ [own])) q =
          if q ∈ D then Function.update (writers n.log q) me (own :: writers n.log q me) else writers n.log q := by
        funext i
        by_cases hi : i = me
        · subst hi
          rw [writers_append_self, if_congr (hcov q) rfl rfl]
          split
          · rw [Function.update_self]
          · rfl
        · rw [writers_append_of_ne n.log hi]
          split
          · rw [Function.update_of_ne hi]
          · rfl
      rw [hwriters]
      by_cases hqD : q ∈ D
      · rw [if_pos hqD, if_pos hqD]
        exact (hpage.create hqD).congr rfl .rfl .rfl
      · rw [if_neg hqD, if_neg hqD]
        exact hpage.congr rfl (by simp [hqD]) .rfl

theorem noticePage_of_valid (hvalid : (n.page p).state = .valid) :
    noticePage me iv (n, some vt) p =
      (dropTwin me p 3 (n.setPage p ((n.page p).invalidate iv.id iv), some vt)).map
        fun (n, vt) => ({ n with inval := pageInvalMerge n.inval p }, vt) := by
  unfold noticePage
  simp only [Node.setPage_page_self, Page.push_state, if_pos hvalid, Node.setPage_setPage]
  rfl

/-- **One page of a new record.**  The call succeeds. -/
theorem NodeInv.noticePage (h : NodeInv me H D I vt iv.id (p :: todo) n) (hp : p ∉ todo)
    (hw : (writers n.log p iv.id).head? = some iv) (hfresh : Fresh me H vt iv) (hlt : p < NPAGES)
    (hpriv : (n.page p).state ≠ .priv) (hroom : D.Nonempty → (H me).length + 1 < 2 ^ 16) :
    ∃ n' vt' H' D' I', noticePage me iv (n, some vt) p = some (n', some vt') ∧
      NodeInv me H' D' I' vt' iv.id todo n' ∧ Advance me H D vt H' D' vt' ∧ n'.log iv.id = n.log iv.id ∧
      (∀ i, i ≠ me → n'.time i = n.time i) ∧ Demoted n n' := by
  have hpid := hfresh.foreign
  have hpage := h.pages p
  have hnew : ∀ o ∈ writersBut n.log iv.id (p :: todo) p me, o.vector_time iv.id < iv.vector_time iv.id :=
    fun o ho => hfresh.seen o (h.own_mem hfresh ho)
  have hsame : Advance me H D vt H D vt := .inl ⟨rfl, rfl, rfl⟩
  by_cases hvalid : (n.page p).state = .valid
  · have hpI : p ∉ I := fun hmem => by
      have := hpage.inval hmem
      rw [hvalid] at this
      cases this
    obtain ⟨startsI, hI⟩ := h.inval
    have hinval := hI.merge hpI (by omega : p ≠ NPAGES)
    have hI' : ∀ q, q ≠ p → (q ∈ insert p I ↔ q ∈ I) := fun q hq => by simp [hq]
    rw [noticePage_of_valid hvalid]
    by_cases htwin : (n.page p).twin = true
    · by_cases hpend : (n.page p).ownPending me = true
      · rw [dropTwin_of_pending 1 (some vt) (by simpa using htwin)
          (by simpa using (Page.ownPending_invalidate hpid).trans hpend)]
        simp only [Node.setPage_page_self, Node.setPage_setPage]
        refine ⟨_, vt, H, D, insert p I, rfl, ?_, hsame, rfl, fun _ _ => rfl,
          Demoted.setPage (.inr ⟨hvalid, by simp⟩)⟩
        have hpg := (hpage.invalidate_pending hpid hnew hpend).congr rfl .rfl
          (show True ↔ p ∈ insert p I by simp)
        exact h.setNotice hp hw hinval hI' hlt hpg
      · have hpD : p ∈ D := (hpage.twin htwin).2.resolve_right hpend
        obtain ⟨starts, hD⟩ := h.dirty
        have hvt := h.base_lt ⟨p, hpD⟩
        have hme : vt me + 1 < 2 ^ 16 := by
          rw [h.baseOwn ⟨p, hpD⟩, h.own]
          exact hroom ⟨p, hpD⟩
        obtain ⟨own, hid, htime, hcov, hgood, hdrop⟩ := dropTwin_of_dirty
          (n := n.setPage p ((n.page p).invalidate iv.id iv)) hD h.dirtyPages hpD (by simpa using htwin)
          (by simpa using (Page.ownPending_invalidate hpid).trans (Bool.not_eq_true _ ▸ hpend)) hme hvt
        rw [hdrop]
        simp only [Node.setPage_page_self]
        refine ⟨_, own.vector_time, Function.update H me (H me ++ [own]), ∅, insert p I, rfl, ?_,
          .inr ⟨⟨p, hpD⟩, rfl, own, hid, hgood, hcov, rfl, htime, rfl⟩, ?_, fun i hi => ?_, fun q => ?_⟩
        · exact h.setCreated hp hw hfresh hpD hpI htime hcov (hroom ⟨p, hpD⟩)
        · exact Function.update_of_ne hpid ..
        · exact Function.update_of_ne hi ..
        · by_cases hqp : q = p
          · subst hqp
            exact .inr ⟨hvalid, by simp⟩
          · simp only [Function.update_of_ne hqp, Node.setPage_page_of_ne hqp]
            split
            · exact .inl rfl
            · exact .inl rfl
    · rw [dropTwin_of_no_twin 2 _ (by simpa using htwin)]
      refine ⟨_, vt, H, D, insert p I, rfl, ?_, hsame, rfl, fun _ _ => rfl,
          Demoted.setPage (.inr ⟨hvalid, by simp⟩)⟩
      have hpg := (hpage.invalidate hpid hnew (Bool.not_eq_true _ ▸ htwin)).congr rfl .rfl
        (show True ↔ p ∈ insert p I by simp)
      exact h.setNotice hp hw hinval hI' hlt hpg
  · have hcall : Tmk.noticePage me iv (n, some vt) p = some (n.setPage p ((n.page p).push iv.id iv), some vt) := by
      unfold Tmk.noticePage
      simp only [Node.setPage_page_self, Page.push_state, if_neg hvalid]
    refine ⟨_, vt, H, D, I, hcall, ?_, hsame, rfl, fun _ _ => rfl, Demoted.setPage (.inl rfl)⟩
    exact h.setNotice hp hw h.inval (fun _ _ => .rfl) hlt (hpage.push hpid hnew hvalid hpriv)

theorem writers_head (log : Proc → List Interval) (hlast : (log iv.id).getLast? = some iv)
    (hcov : iv.covers p = true) : (writers log p iv.id).head? = some iv := by
  obtain ⟨ivs, hivs⟩ := List.getLast?_eq_some_iff.mp hlast
  rw [writers, hivs, List.filter_append, List.reverse_append]
  simp [hcov]

/-- **All pages of a new record.** -/
theorem NodeInv.noticePages (ps : List Nat) (h : NodeInv me H D I vt iv.id ps n) (hnd : ps.Nodup)
    (hps : ∀ p ∈ ps, p < NPAGES ∧ iv.covers p = true) (hlast : (n.log iv.id).getLast? = some iv)
    (hfresh : Fresh me H vt iv) (hpriv : ∀ p ∈ ps, (n.page p).state ≠ .priv)
    (hroom : D.Nonempty → (H me).length + 1 < 2 ^ 16) :
    ∃ n' vt' H' D' I', ps.foldlM (Tmk.noticePage me iv) (n, some vt) = some (n', some vt') ∧
      NodeInv me H' D' I' vt' iv.id [] n' ∧ Advance me H D vt H' D' vt' ∧
      (∀ i, i ≠ me → n'.time i = n.time i) ∧ Demoted n n' := by
  induction ps generalizing n vt H D I with
  | nil => exact ⟨n, vt, H, D, I, rfl, h, .inl ⟨rfl, rfl, rfl⟩, fun _ _ => rfl, .refl n⟩
  | cons p ps ih =>
    obtain ⟨hp, hnd⟩ := List.nodup_cons.mp hnd
    obtain ⟨hlt, hcov⟩ := hps p (.head _)
    obtain ⟨n₁, vt₁, H₁, D₁, I₁, hcall, h₁, hadv, hlog, htime, hstate⟩ :=
      h.noticePage hp (writers_head n.log hlast hcov) hfresh hlt (hpriv p (.head _)) hroom
    have hroom₁ : D₁.Nonempty → (H₁ me).length + 1 < 2 ^ 16 := by
      rcases hadv with ⟨rfl, rfl, -⟩ | ⟨-, rfl, -⟩
      · exact hroom
      · simp
    obtain ⟨n₂, vt₂, H₂, D₂, I₂, hcalls, h₂, hadv₂, htime₂, hstate₂⟩ := ih h₁ hnd
      (fun q hq => hps q (.tail _ hq)) (by rw [hlog]; exact hlast) (hfresh.advance hadv)
      (fun q hq hs => hpriv q (.tail _ hq) (hstate.priv hs)) hroom₁
    refine ⟨n₂, vt₂, H₂, D₂, I₂, ?_, h₂, hadv.trans hadv₂, fun i hi => ?_, hstate.trans hstate₂⟩
    · rw [List.foldlM_cons, hcall]
      exact hcalls
    · rw [htime₂ i hi, htime i hi]

/-- Between records it does not matter which one came last. -/
theorem NodeInv.rest {pid : Proc} (h : NodeInv me H D I vt pid [] n) (pid' : Proc) : NodeInv me H D I vt pid' [] n :=
  { h with pages := fun p => (h.pages p).congr (by rw [writersBut_nil, writersBut_nil]) .rfl .rfl }

theorem Interval.wire_wire (iv : Interval) : iv.wire.wire = iv.wire := by
  have hsplit : ∀ r : Nat × Nat, (splitPair r).flatMap splitPair = splitPair r := by
    intro r
    unfold splitPair
    split
    · simp
    · next h => simp [h]
  rw [Interval.wire, Interval.wire]
  congr 1
  rw [List.flatMap_assoc]
  exact List.flatMap_congr fun r _ => hsplit r

theorem splitPair_pages {r r' : Nat × Nat} (hr : r.1 ≤ r.2 ∧ r.2 < NPAGES) (hr' : r' ∈ splitPair r) :
    r'.1 ≤ r'.2 ∧ r'.2 < NPAGES := by
  unfold splitPair at hr'
  split at hr'
  · simp only [List.mem_cons, List.not_mem_nil, or_false] at hr'
    rcases hr' with rfl | rfl
    · exact ⟨Nat.le_refl _, by simp only; omega⟩
    · exact ⟨Nat.le_refl _, by simp only; omega⟩
  · rwa [List.mem_singleton.mp hr']

theorem Interval.Good.wire (h : iv.Good) : iv.wire.Good where
  ranges := by
    obtain ⟨r, rs, hrs⟩ := List.exists_cons_of_ne_nil h.ranges
    have hne : splitPair r ≠ [] := by
      unfold splitPair
      split <;> simp
    simp [Interval.wire, hrs, hne]
  pages r' hr' := by
    obtain ⟨r, hr, hr'⟩ := List.mem_flatMap.mp hr'
    exact splitPair_pages (h.pages r hr) hr'
  time := h.time
  nodup := by
    rw [Interval.pagesOf_wire]
    exact h.nodup

/-- The record of the interval that comes next in what the process knows of process `r.id`. -/
theorem NodeInv.insertRecord {pid : Proc} {r : Interval} (h : NodeInv me H D I vt pid [] n)
    (hr : (H r.id)[n.time r.id]? = some r) (htime : r.vector_time r.id = n.time r.id + 1) (hgood : r.Good)
    (hme : r.id ≠ me) (hpriv : ∀ p, r.covers p = true → (n.page p).state ≠ .priv)
    (hroom : D.Nonempty → (H me).length + 1 < 2 ^ 16) :
    ∃ n' vt' H' D' I', insertInterval me (n, some vt) r.wire = some (n', some vt') ∧
      NodeInv me H' D' I' vt' r.id [] n' ∧ Advance me H D vt H' D' vt' ∧
      (∀ i, i ≠ me → n'.time i = Function.update n.time r.id (n.time r.id + 1) i) ∧
      Demoted n n' := by
  have hlen : n.time r.id < (H r.id).length := (List.getElem?_eq_some_iff.mp hr).1
  have hpages : ∀ p, p ∈ pagesOf r.ranges ↔ r.covers p = true := fun p => by
    rw [mem_pagesOf, Interval.covers_iff]
  -- the record is linked in, and no page has its write notice
  have h₁ : NodeInv me H D I vt r.wire.id (pagesOf r.ranges)
      { n with
        time := Function.update n.time r.id (n.time r.id + 1)
        log := Function.update n.log r.id (n.log r.id ++ [r.wire]) } := by
    refine ⟨fun i => ?_, ?_, fun i => ?_, h.dirty, h.dirtyPages, h.inval, h.invalPages, fun p => ?_, fun i hi => ?_,
      fun hD => ?_, fun own hown i hi => ?_, h.bound⟩
    · by_cases hi : i = r.id
      · subst hi
        simp only [Function.update_self]
        omega
      · simp only [Function.update_of_ne hi]
        exact h.time i
    · simp only [Function.update_of_ne hme.symm]
      exact h.own
    · by_cases hi : i = r.id
      · subst hi
        have htake : (H r.id).take (n.time r.id + 1) = (H r.id).take (n.time r.id) ++ [r] := by
          rw [List.take_add_one, hr]
          rfl
        simp only [Function.update_self]
        rw [htake, List.map_append, ← h.log r.id, List.map_singleton, view, if_neg hme]
      · simp only [Function.update_of_ne hi]
        exact h.log i
    · refine (h.pages p).congr ?_ .rfl .rfl
      rw [writersBut_nil]
      funext i
      show _ = writersBut (Function.update n.log r.id (n.log r.id ++ [r.wire])) r.id (pagesOf r.ranges) p i
      by_cases hi : i = r.id
      · subst hi
        simp only [writersBut, true_and, writers_append_self, Interval.wire_covers, hpages p]
        split <;> rfl
      · simp only [writersBut, hi, false_and, if_false, writers_append_of_ne n.log hi]
    · by_cases hir : i = r.id
      · subst hir
        simp only [Function.update_self]
        exact Nat.le_succ_of_le (h.base r.id hi)
      · simp only [Function.update_of_ne hir]
        exact h.base i hi
    · simp only [Function.update_of_ne hme.symm]
      exact h.baseOwn hD
    · by_cases hir : i = r.id
      · subst hir
        simp only [Function.update_self]
        exact Nat.le_succ_of_le (h.ownTime own hown r.id hi)
      · simp only [Function.update_of_ne hir]
        exact h.ownTime own hown i hi
  have hfresh : Fresh me H vt r.wire := by
    refine ⟨hme, fun own hown => ?_, ?_⟩
    · have := h.ownTime own hown r.id hme
      show own.vector_time r.id < r.vector_time r.id
      omega
    · have := h.base r.id hme
      show vt r.id < r.vector_time r.id
      omega
  have hps : ∀ p ∈ pagesOf r.ranges, p < NPAGES ∧ r.wire.covers p = true := by
    intro p hp
    obtain ⟨r', hr', hle⟩ := (mem_pagesOf _ p).mp hp
    have := (hgood.pages r' hr').2
    exact ⟨by omega, by rw [Interval.wire_covers]; exact (hpages p).mp hp⟩
  have hlast : (Function.update n.log r.id (n.log r.id ++ [r.wire]) r.wire.id).getLast? = some r.wire := by
    show (Function.update n.log r.id (n.log r.id ++ [r.wire]) r.id).getLast? = some r.wire
    rw [Function.update_self, List.getLast?_concat]
  obtain ⟨n', vt', H', D', I', hcall, h', hadv, htime', hstate⟩ := NodeInv.noticePages (pagesOf r.ranges) h₁
    hgood.nodup hps hlast hfresh (fun p hp => hpriv p ((hpages p).mp hp)) hroom
  refine ⟨n', vt', H', D', I', ?_, h', hadv, htime', hstate⟩
  have hvt : r.wire.vector_time r.wire.id = n.time r.id + 1 := htime
  unfold insertInterval
  simp only [Interval.pagesOf_wire, hvt]
  exact hcall

end Notice

/-! ## Messages -/

section Message

variable {me pid : Proc} {H : Proc → List Interval} {D I : Finset Nat} {vt time : VectorTime} {n : Node}

/-- `w` is the record of an interval of the history, as its process or another one has it. -/
def FromHistory (H : Proc → List Interval) (w : Interval) : Prop :=
  ∃ r : Interval, (w = r ∨ w = r.wire) ∧ r.Good ∧ ∃ k, (H r.id)[k]? = some r ∧ r.vector_time r.id = k + 1

theorem FromHistory.good {w : Interval} (h : FromHistory H w) : w.Good := by
  obtain ⟨r, rfl | rfl, hr, -⟩ := h
  · exact hr
  · exact hr.wire

theorem FromHistory.advance {H' : Proc → List Interval} {D' : Finset Nat} {vt' : VectorTime} {w : Interval}
    (h : FromHistory H w) (hadv : Advance me H D vt H' D' vt') : FromHistory H' w := by
  rcases hadv with ⟨-, rfl, -⟩ | ⟨-, -, own, -, -, -, -, -, rfl⟩
  · exact h
  · obtain ⟨r, hw, hr, k, hk, htime⟩ := h
    refine ⟨r, hw, hr, k, ?_, htime⟩
    by_cases hme : r.id = me
    · rw [hme] at hk ⊢
      rw [Function.update_self, List.getElem?_append_left (List.getElem?_eq_some_iff.mp hk).1]
      exact hk
    · rwa [Function.update_of_ne hme]

/-- A vector time after the record `w`. -/
def bump (time : VectorTime) (w : Interval) : VectorTime :=
  Function.update time w.id (max (time w.id) (w.vector_time w.id))

/-- The records leave no gap. -/
def Contiguous : VectorTime → List Interval → Prop
  | _, [] => True
  | time, w :: ws => w.vector_time w.id ≤ time w.id + 1 ∧ Contiguous (bump time w) ws

/-- One record of a message, new or not. -/
theorem NodeInv.incorporateOne {w : Interval} (h : NodeInv me H D I vt pid [] n) (hw : FromHistory H w)
    (hnext : w.id ≠ me → w.vector_time w.id ≤ n.time w.id + 1)
    (hpriv : ∀ p, w.covers p = true → (n.page p).state ≠ .priv)
    (hroom : D.Nonempty → (H me).length + 1 < 2 ^ 16) :
    ∃ n' vt' H' D' I',
      Tmk.incorporateOne (fun s => s.1.time) (insertInterval me) (n, some vt) w = some (n', some vt') ∧
      NodeInv me H' D' I' vt' pid [] n' ∧ Advance me H D vt H' D' vt' ∧
      (∀ i, i ≠ me → n'.time i = bump n.time w i) ∧ Demoted n n' := by
  unfold Tmk.incorporateOne
  by_cases hnew : w.vector_time w.id > n.time w.id
  · rw [if_pos hnew]
    obtain ⟨r, hwr, hgood, k, hk, htime⟩ := hw
    have hid : w.id = r.id := by rcases hwr with rfl | rfl <;> rfl
    have hvt : w.vector_time = r.vector_time := by rcases hwr with rfl | rfl <;> rfl
    have hwire : w.wire = r.wire := by
      rcases hwr with rfl | rfl
      · rfl
      · exact r.wire_wire
    have hcov : ∀ p, w.covers p = r.covers p := fun p => by rw [← w.wire_covers, hwire, r.wire_covers]
    rw [hid, hvt] at hnew
    rw [hid, hvt, htime] at hnext
    have hlen := (List.getElem?_eq_some_iff.mp hk).1
    -- an interval of its own is no news to a process
    have hme : r.id ≠ me := fun hme => by
      rw [hme] at hlen hnew htime
      have := h.own
      omega
    have hkt : k = n.time r.id := by
      have := hnext hme
      omega
    rw [hkt] at hk htime
    obtain ⟨n', vt', H', D', I', hcall, h', hadv, htime', hstate⟩ :=
      h.insertRecord hk htime hgood hme (fun p hp => hpriv p (by rw [hcov]; exact hp)) hroom
    refine ⟨n', vt', H', D', I', by rw [hwire]; exact hcall, h'.rest pid, hadv, fun i hi => ?_, hstate⟩
    rw [htime' i hi, bump, hid, hvt, htime, Nat.max_eq_right (Nat.le_succ _)]
  · rw [if_neg hnew]
    refine ⟨n, vt, H, D, I, rfl, h, .inl ⟨rfl, rfl, rfl⟩, fun i _ => ?_, .refl n⟩
    rw [bump, Nat.max_eq_left (Nat.le_of_not_lt hnew), Function.update_eq_self]

/-- **All records of a message.** -/
theorem NodeInv.incorporateAll (ws : List Interval) (h : NodeInv me H D I vt pid [] n)
    (hws : ∀ w ∈ ws, FromHistory H w) (htime : ∀ i, i ≠ me → n.time i = time i) (hcontig : Contiguous time ws)
    (hpriv : ∀ w ∈ ws, ∀ p, w.covers p = true → (n.page p).state ≠ .priv)
    (hroom : D.Nonempty → (H me).length + 1 < 2 ^ 16) :
    ∃ n' vt' H' D' I',
      ws.foldlM (Tmk.incorporateOne (fun s => s.1.time) (insertInterval me)) (n, some vt) = some (n', some vt') ∧
      NodeInv me H' D' I' vt' pid [] n' ∧ Advance me H D vt H' D' vt' ∧
      (∀ i, i ≠ me → n'.time i = ws.foldl bump time i) ∧
      Demoted n n' := by
  induction ws generalizing n vt time H D I with
  | nil => exact ⟨n, vt, H, D, I, rfl, h, .inl ⟨rfl, rfl, rfl⟩, htime, .refl n⟩
  | cons w ws ih =>
    obtain ⟨hnext, hcontig⟩ := hcontig
    obtain ⟨n₁, vt₁, H₁, D₁, I₁, hcall, h₁, hadv, htime₁, hstate⟩ := h.incorporateOne (hws w (.head _))
      (fun hme => by rw [htime _ hme]; exact hnext) (hpriv w (.head _)) hroom
    have hroom₁ : D₁.Nonempty → (H₁ me).length + 1 < 2 ^ 16 := by
      rcases hadv with ⟨rfl, rfl, -⟩ | ⟨-, rfl, -⟩
      · exact hroom
      · simp
    have hbump : ∀ i, i ≠ me → n₁.time i = bump time w i := fun i hi => by
      rw [htime₁ i hi]
      unfold bump
      by_cases hw : i = w.id
      · subst hw
        rw [Function.update_self, Function.update_self, htime _ hi]
      · rw [Function.update_of_ne hw, Function.update_of_ne hw, htime i hi]
    obtain ⟨n₂, vt₂, H₂, D₂, I₂, hcalls, h₂, hadv₂, htime₂, hstate₂⟩ := ih h₁
      (fun w' hw' => (hws w' (.tail _ hw')).advance hadv) hbump hcontig
      (fun w' hw' p hp hs => hpriv w' (.tail _ hw') p hp (hstate.priv hs)) hroom₁
    refine ⟨n₂, vt₂, H₂, D₂, I₂, ?_, h₂, hadv.trans hadv₂, htime₂, hstate.trans hstate₂⟩
    rw [List.foldlM_cons, hcall]
    exact hcalls

/-- The pages that were made invalid are protected. -/
theorem NodeInv.invalPerform (h : NodeInv me H D I vt pid [] n) :
    NodeInv me H D ∅ vt pid [] (pageInvalPerform n) := by
  obtain ⟨starts, hI⟩ := h.inval
  have hpage : ∀ p, (pageInvalPerform n).page p =
      if p ∈ I then { n.page p with prot := .none } else n.page p := fun p => by
    have hfold := foldl_update (fun pg : Page => { pg with prot := Prot.none }) _ (hI.pagesOf_nodup h.invalPages) n.page p
    simp only [hI.mem_pagesOf h.invalPages] at hfold
    exact hfold
  refine { h with inval := ⟨[], hI.flush h.invalPages⟩, invalPages := by simp, pages := fun p => ?_ }
  rw [hpage p]
  have hp := h.pages p
  by_cases hmem : p ∈ I
  · rw [if_pos hmem]
    have hstate := hp.inval hmem
    exact { hp with
      protValid := fun hv => by rw [hstate] at hv; cases hv
      protPriv := fun hv => by rw [hstate] at hv; cases hv
      protInvalid := fun _ _ => rfl
      protEmpty := fun _ => rfl
      inval := by simp }
  · rw [if_neg hmem]
    exact hp.congr rfl .rfl (by simp [hmem])

theorem pageInvalPerform_state (n : Node) (q : Nat) :
    ((pageInvalPerform n).page q).state = (n.page q).state := by
  unfold pageInvalPerform
  simp only
  generalize pagesOf (ranges NPAGES n.inval) = ps
  generalize n.page = page
  induction ps generalizing page with
  | nil => rfl
  | cons p ps ih =>
    rw [List.foldl_cons, ih]
    by_cases hq : q = p
    · subst hq
      rw [Function.update_self]
    · rw [Function.update_of_ne hq]

/-- **A whole message.** -/
theorem NodeInv.incorporate (ws : List Interval) (h : NodeInv me H D ∅ vt pid [] n)
    (hws : ∀ w ∈ ws, FromHistory H w) (hcontig : Contiguous n.time ws)
    (hpriv : ∀ w ∈ ws, ∀ p, w.covers p = true → (n.page p).state ≠ .priv)
    (hroom : D.Nonempty → (H me).length + 1 < 2 ^ 16) :
    ∃ n' vt' H' D', intervalIncorporate me n (ws.flatMap encodeInterval) (some vt) = some n' ∧
      NodeInv me H' D' ∅ vt' pid [] n' ∧ Advance me H D vt H' D' vt' ∧
      (∀ i, i ≠ me → n'.time i = ws.foldl bump n.time i) ∧
      Demoted n n' := by
  obtain ⟨n', vt', H', D', I', hcall, h', hadv, htime, hstate⟩ :=
    h.incorporateAll ws hws (fun _ _ => rfl) hcontig hpriv hroom
  refine ⟨pageInvalPerform n', vt', H', D', ?_, h'.invalPerform, hadv, htime, fun q => ?_⟩
  · rw [intervalIncorporate, incorporate_encode _ _ _ _ fun w hw => (hws w hw).good.toWf, hcall]
    rfl
  · rw [pageInvalPerform_state]
    exact hstate q

theorem contiguous_append (as bs : List Interval) (time : VectorTime) (ha : Contiguous time as)
    (hb : Contiguous (as.foldl bump time) bs) : Contiguous time (as ++ bs) := by
  induction as generalizing time with
  | nil => exact hb
  | cons w as ih => exact ⟨ha.1, ih (bump time w) ha.2 hb⟩

/-- The records of one process, numbered from `m + 1` on. -/
theorem contiguous_slice (i : Proc) (l : List Interval) (m : Nat) (time : VectorTime)
    (hl : ∀ k w, l[k]? = some w → w.id = i ∧ w.vector_time i = m + k + 1) (hm : m ≤ time i) :
    Contiguous time l ∧ l.foldl bump time = Function.update time i (max (time i) (m + l.length)) := by
  induction l generalizing m time with
  | nil =>
    refine ⟨trivial, ?_⟩
    rw [List.foldl_nil, List.length_nil, Nat.add_zero, Nat.max_eq_left hm, Function.update_eq_self]
  | cons w l ih =>
    obtain ⟨hid, htime⟩ := hl 0 w rfl
    have hbump : bump time w = Function.update time i (max (time i) (m + 1)) := by
      rw [bump, hid, htime]
    obtain ⟨hcontig, hfold⟩ := ih (m + 1) (bump time w)
      (fun k w' hw' => by
        obtain ⟨hid', htime'⟩ := hl (k + 1) w' hw'
        exact ⟨hid', by omega⟩)
      (by rw [hbump, Function.update_self]; exact Nat.le_max_right _ _)
    refine ⟨⟨by rw [hid, htime]; omega, hcontig⟩, ?_⟩
    rw [List.foldl_cons, hfold, hbump, Function.update_idem, Function.update_self, List.length_cons]
    congr 1
    omega

/-- The records of several processes, one process after the other. -/
theorem contiguous_slices (ps : List Proc) (hnd : ps.Nodup) (l : Proc → List Interval) (v time : VectorTime)
    (hl : ∀ i k w, (l i)[k]? = some w → w.id = i ∧ w.vector_time i = v i + k + 1) (hv : ∀ i, v i ≤ time i) :
    Contiguous time (ps.flatMap l) ∧
      ∀ i, (ps.flatMap l).foldl bump time i = if i ∈ ps then max (time i) (v i + (l i).length) else time i := by
  induction ps generalizing time with
  | nil => exact ⟨trivial, fun i => rfl⟩
  | cons j ps ih =>
    obtain ⟨hj, hnd⟩ := List.nodup_cons.mp hnd
    obtain ⟨hcontig, hfold⟩ := contiguous_slice j (l j) (v j) time (hl j) (hv j)
    obtain ⟨hcontigs, hfolds⟩ := ih hnd ((l j).foldl bump time) fun i => by
      rw [hfold]
      by_cases hi : i = j
      · subst hi
        rw [Function.update_self]
        exact Nat.le_trans (hv i) (Nat.le_max_left _ _)
      · rw [Function.update_of_ne hi]
        exact hv i
    rw [List.flatMap_cons]
    refine ⟨contiguous_append _ _ _ hcontig hcontigs, fun i => ?_⟩
    rw [List.foldl_append, hfolds i, hfold]
    by_cases hi : i = j
    · subst hi
      rw [if_neg hj, if_pos (.head _), Function.update_self]
    · rw [Function.update_of_ne hi]
      simp only [List.mem_cons, hi, false_or]

/-- A history: the intervals of each process are numbered from 1, and can be sent. -/
structure IsHistory (nprocs : Nat) (H : Proc → List Interval) : Prop where
  numbered : ∀ i, Numbered i (H i)
  good : ∀ i, ∀ iv ∈ H i, iv.Good
  idle : ∀ i : Proc, nprocs ≤ i → H i = []

variable {nprocs : Nat} {K v : VectorTime} {sender : Proc}

@[simp] theorem view_id (me i : Proc) (iv : Interval) : (view me i iv).id = iv.id := by
  unfold view
  split <;> rfl

@[simp] theorem view_vector_time (me i : Proc) (iv : Interval) : (view me i iv).vector_time = iv.vector_time := by
  unfold view
  split <;> rfl

@[simp] theorem view_covers (me i : Proc) (iv : Interval) (p : Nat) : (view me i iv).covers p = iv.covers p := by
  unfold view
  split
  · rfl
  · exact iv.wire_covers p

theorem IsHistory.numbered_view (hH : IsHistory nprocs H) (me : Proc) (time : VectorTime) (i : Proc) :
    Numbered i (((H i).take (time i)).map (view me i)) := by
  intro k iv hk
  rw [List.getElem?_map] at hk
  obtain ⟨r, hr, rfl⟩ := Option.map_eq_some_iff.mp hk
  have hkt : k < time i := by
    have := (List.getElem?_eq_some_iff.mp hr).1
    rw [List.length_take] at this
    omega
  rw [List.getElem?_take_of_lt hkt] at hr
  rw [view_id, view_vector_time]
  exact hH.numbered i k r hr

theorem IsHistory.numbered_log (hH : IsHistory nprocs H) {log : Proc → List Interval}
    (hlog : ∀ i, log i = ((H i).take (K i)).map (view sender i)) (i : Proc) : Numbered i (log i) := by
  rw [hlog i]
  exact hH.numbered_view sender K i

theorem IsHistory.mem_take (hH : IsHistory nprocs H) {i : Proc} {t : Nat} {w : Interval}
    (hw : w ∈ ((H i).take t).map (view sender i)) : FromHistory H w := by
  obtain ⟨r, hr, rfl⟩ := List.mem_map.mp hw
  obtain ⟨k, hk⟩ := List.mem_iff_getElem?.mp (List.mem_of_mem_take hr)
  obtain ⟨hid, htime⟩ := hH.numbered i k r hk
  refine ⟨r, ?_, hH.good i r (List.mem_of_getElem? hk), k, by rw [hid]; exact hk, by rw [hid]; exact htime⟩
  unfold view
  split
  · exact .inl rfl
  · exact .inr rfl

/-- What a process with vector time `K` sends to one that has `v` and more. -/
theorem IsHistory.records (hH : IsHistory nprocs H) {log : Proc → List Interval}
    (hlog : ∀ i, log i = ((H i).take (K i)).map (view sender i)) (hK : ∀ i, K i ≤ (H i).length)
    (hv : ∀ i, v i ≤ time i) :
    (∀ w ∈ records nprocs log v, FromHistory H w) ∧ Contiguous time (records nprocs log v) ∧
      ∀ i, (records nprocs log v).foldl bump time i = max (time i) (K i) := by
  have hnd : ((List.finRange NPROCS).take nprocs).Nodup := (List.nodup_finRange NPROCS).sublist (List.take_sublist _ _)
  have hnum : ∀ i k w, ((log i).drop (v i))[k]? = some w → w.id = i ∧ w.vector_time i = v i + k + 1 := by
    intro i k w hw
    rw [List.getElem?_drop] at hw
    exact hH.numbered_log hlog i _ _ hw
  obtain ⟨hcontig, hfold⟩ := contiguous_slices _ hnd (fun i => (log i).drop (v i)) v time hnum hv
  refine ⟨fun w hw => ?_, hcontig, fun i => ?_⟩
  · obtain ⟨i, -, hw⟩ := List.mem_flatMap.mp hw
    have hw := List.mem_of_mem_drop hw
    rw [hlog i] at hw
    exact hH.mem_take hw
  · have hlen : (log i).length = K i := by
      rw [hlog i, List.length_map, List.length_take]
      have := hK i
      omega
    have hvi := hv i
    unfold Tmk.records
    rw [hfold i]
    simp only [List.length_drop, hlen]
    split
    · omega
    · next hi =>
      have hidle : nprocs ≤ i := by
        by_contra hlt
        refine hi (List.mem_take_iff_getElem.mpr ⟨i, by simp; omega, by simp⟩)
      have := hK i
      rw [hH.idle i hidle] at this
      simp only [List.length_nil] at this
      omega

end Message

end Tmk
