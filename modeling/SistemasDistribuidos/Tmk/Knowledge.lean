import SistemasDistribuidos.Tmk.Access

/-!
# What a process knows

The intervals of all processes, each with the vector time at which it ended, are a history.
A vector time cuts the history; the cut is `Closed` when it holds everything that its
intervals have seen.  Intervals that end at closed cuts, of which each sees more than anything
that it has seen, never see each other (`IsCausalHistory.antisymm`), so that the write notices
of a page can be sorted; and a process whose interval wrote a page can serve the diffs of all
that this interval has seen (`NodeInv.servable`).
-/

namespace Tmk

/-- The cut at vector time `c`. -/
structure Closed (H : Proc → List Interval) (c : VectorTime) : Prop where
  le : ∀ j, c j ≤ (H j).length
  seen : ∀ j, ∀ jv ∈ (H j).take (c j), ∀ i, jv.vector_time i ≤ c i

/-- Every interval ends at a closed cut, and nothing that it has seen has seen it. -/
structure IsCausalHistory (H : Proc → List Interval) : Prop where
  closed : ∀ i, ∀ iv ∈ H i, Closed H iv.vector_time
  fresh : ∀ i, ∀ iv ∈ H i, ∀ j, j ≠ i → ∀ jv ∈ (H j).take (iv.vector_time j), jv.vector_time i < iv.vector_time i

/-- Intervals are only added. -/
def Grown (H H' : Proc → List Interval) : Prop := ∀ i, H i <+: H' i

/-- A request for diffs of page `p`: its last interval, whose process is asked, wrote the page and has seen the others,
which wrote it too. -/
def Servable (H : Proc → List Interval) (me : Proc) (p : Nat) (r : List Interval) : Prop :=
  ∃ last, r.getLast? = some last ∧ last.id ≠ me ∧
    (∃ iv ∈ H last.id, iv.vector_time = last.vector_time ∧ iv.covers p = true) ∧
    ∀ w ∈ r, Knows last w ∧ ∃ iv ∈ H w.id, iv.vector_time = w.vector_time ∧ iv.covers p = true

/-! ## Lemmas -/

section Histories

variable {nprocs : Nat} {H H' : Proc → List Interval} {c : VectorTime} {i j me : Proc} {iv jv : Interval}

theorem Grown.refl (H : Proc → List Interval) : Grown H H := fun _ => List.prefix_rfl

theorem Grown.take (h : Grown H H') {t : Nat} (ht : t ≤ (H i).length) : (H' i).take t = (H i).take t := by
  obtain ⟨l, hl⟩ := h i
  rw [← hl, List.take_append_of_le_length ht]

theorem Grown.mem (h : Grown H H') (hiv : iv ∈ H i) : iv ∈ H' i := (h i).subset hiv

theorem Grown.length_le (h : Grown H H') (i : Proc) : (H i).length ≤ (H' i).length := (h i).length_le

theorem Closed.grown (hc : Closed H c) (h : Grown H H') : Closed H' c where
  le j := Nat.le_trans (hc.le j) (h.length_le j)
  seen j jv hjv := by
    rw [h.take (hc.le j)] at hjv
    exact hc.seen j jv hjv

theorem Servable.grown {p : Nat} {r : List Interval} (hr : Servable H me p r) (h : Grown H H') :
    Servable H' me p r := by
  obtain ⟨last, hlast, hme, ⟨iv, hiv, hivt, hcov⟩, hall⟩ := hr
  refine ⟨last, hlast, hme, ⟨iv, h.mem hiv, hivt, hcov⟩, fun w hw => ?_⟩
  obtain ⟨hknows, jv, hjv, hjvt, hjcov⟩ := hall w hw
  exact ⟨hknows, jv, h.mem hjv, hjvt, hjcov⟩

theorem IsHistory.mem (hH : IsHistory nprocs H) (hiv : iv ∈ H i) : iv.id = i ∧ 0 < iv.vector_time i := by
  obtain ⟨k, hk⟩ := List.mem_iff_getElem?.mp hiv
  obtain ⟨hid, htime⟩ := hH.numbered i k iv hk
  exact ⟨hid, by omega⟩

/-- The number of an interval says where it stands. -/
theorem IsHistory.mem_take_iff (hH : IsHistory nprocs H) {t : Nat} :
    iv ∈ (H i).take t ↔ iv ∈ H i ∧ iv.vector_time i ≤ t := by
  constructor
  · intro hiv
    obtain ⟨k, hk⟩ := List.mem_iff_getElem?.mp hiv
    have hkt : k < t := by
      have := (List.getElem?_eq_some_iff.mp hk).1
      rw [List.length_take] at this
      omega
    rw [List.getElem?_take_of_lt hkt] at hk
    exact ⟨List.mem_of_getElem? hk, by rw [(hH.numbered i k iv hk).2]; omega⟩
  · rintro ⟨hiv, hle⟩
    obtain ⟨k, hk⟩ := List.mem_iff_getElem?.mp hiv
    have := (hH.numbered i k iv hk).2
    refine List.mem_of_getElem? (i := k) ?_
    rw [List.getElem?_take_of_lt (by omega), hk]

theorem IsHistory.time_le_length (hH : IsHistory nprocs H) (hiv : iv ∈ H i) : iv.vector_time i ≤ (H i).length := by
  obtain ⟨k, hk⟩ := List.mem_iff_getElem?.mp hiv
  have := (hH.numbered i k iv hk).2
  have := (List.getElem?_eq_some_iff.mp hk).1
  omega

theorem IsHistory.eq_of_time (hH : IsHistory nprocs H) (hiv : iv ∈ H i) (hjv : jv ∈ H i)
    (h : iv.vector_time i = jv.vector_time i) : iv = jv := by
  obtain ⟨k, hk⟩ := List.mem_iff_getElem?.mp hiv
  obtain ⟨l, hl⟩ := List.mem_iff_getElem?.mp hjv
  have := (hH.numbered i k iv hk).2
  have := (hH.numbered i l jv hl).2
  obtain rfl : k = l := by omega
  exact Option.some.inj (hk.symm.trans hl)

theorem Closed.of_le (hc : Closed H c) (hH : IsHistory nprocs H) (hjv : jv ∈ H j) (hle : jv.vector_time j ≤ c j)
    (i : Proc) : jv.vector_time i ≤ c i :=
  hc.seen j jv (hH.mem_take_iff.mpr ⟨hjv, hle⟩) i

theorem Closed.sup {c' : VectorTime} (hc : Closed H c) (hc' : Closed H c') : Closed H fun i => max (c i) (c' i) where
  le j := Nat.max_le.mpr ⟨hc.le j, hc'.le j⟩
  seen j jv hjv i := by
    rcases Nat.le_total (c j) (c' j) with hle | hle
    · simp only [Nat.max_eq_right hle] at hjv
      exact Nat.le_trans (hc'.seen j jv hjv i) (Nat.le_max_right _ _)
    · simp only [Nat.max_eq_left hle] at hjv
      exact Nat.le_trans (hc.seen j jv hjv i) (Nat.le_max_left _ _)

/-- Two intervals that have seen each other are one. -/
theorem IsCausalHistory.antisymm (hC : IsCausalHistory H) (hH : IsHistory nprocs H) (hiv : iv ∈ H i) (hjv : jv ∈ H j)
    (hij : jv.vector_time j ≤ iv.vector_time j) (hji : iv.vector_time i ≤ jv.vector_time i) : i = j ∧ iv = jv := by
  by_cases h : j = i
  · subst h
    exact ⟨rfl, hH.eq_of_time hiv hjv (Nat.le_antisymm hji hij)⟩
  · have := hC.fresh i iv hiv j h jv (hH.mem_take_iff.mpr ⟨hjv, hij⟩)
    omega

end Histories

section Advance

variable {nprocs : Nat} {H H' : Proc → List Interval} {D D' : Finset Nat} {vt vt' : VectorTime} {me : Proc}

theorem Advance.grown (h : Advance me H D vt H' D' vt') : Grown H H' := by
  rcases h with ⟨-, rfl, -⟩ | ⟨-, -, own, -, -, -, -, -, rfl⟩
  · exact .refl H'
  · intro i
    by_cases hi : i = me
    · subst hi
      rw [Function.update_self]
      exact List.prefix_append _ _
    · rw [Function.update_of_ne hi]

theorem Advance.time_of_ne (h : Advance me H D vt H' D' vt') {i : Proc} (hi : i ≠ me) : vt' i = vt i := by
  rcases h with ⟨-, -, rfl⟩ | ⟨-, -, own, -, -, -, -, rfl, -⟩
  · rfl
  · exact Function.update_of_ne hi ..

/-- The interval that ends was numbered after the last one. -/
theorem Advance.isHistory (h : Advance me H D vt H' D' vt') (hH : IsHistory nprocs H) (hme : (me : Nat) < nprocs)
    (hbase : D.Nonempty → vt me = (H me).length) : IsHistory nprocs H' := by
  rcases h with ⟨-, rfl, -⟩ | ⟨hne, -, own, hid, hgood, -, hown, hvt, rfl⟩
  · exact hH
  · have hlen : own.vector_time me = (H me).length + 1 := by rw [hown, hvt, Function.update_self, hbase hne]
    refine ⟨fun i k iv hk => ?_, fun i iv hiv => ?_, fun i hi => ?_⟩
    · by_cases hi : i = me
      · subst hi
        rw [Function.update_self, List.getElem?_append] at hk
        split at hk
        · exact hH.numbered i k iv hk
        · rw [List.getElem?_singleton] at hk
          split at hk
          · next h₁ h₂ =>
            cases hk
            exact ⟨hid, by omega⟩
          · cases hk
      · rw [Function.update_of_ne hi] at hk
        exact hH.numbered i k iv hk
    · by_cases hi : i = me
      · subst hi
        rw [Function.update_self] at hiv
        rcases List.mem_append.mp hiv with hiv | hiv
        · exact hH.good i iv hiv
        · rw [List.mem_singleton.mp hiv]
          exact hgood
      · rw [Function.update_of_ne hi] at hiv
        exact hH.good i iv hiv
    · rw [Function.update_of_ne (by rintro rfl; omega)]
      exact hH.idle i hi

/-- The cut from which it started is closed, and so is the one at which it ends. -/
theorem Advance.closed (h : Advance me H D vt H' D' vt') (hc : Closed H vt)
    (hbase : D.Nonempty → vt me = (H me).length) : Closed H' vt' := by
  have hgrown := h.grown
  rcases h with ⟨-, rfl, rfl⟩ | ⟨hne, -, own, -, -, -, hown, hvt, rfl⟩
  · exact hc
  · have hle : ∀ i, vt i ≤ vt' i := fun i => by
      rw [hvt]
      by_cases hi : i = me
      · subst hi
        rw [Function.update_self]
        omega
      · rw [Function.update_of_ne hi]
    refine ⟨fun j => ?_, fun j jv hjv i => ?_⟩
    · by_cases hj : j = me
      · subst hj
        simp [hvt, hbase hne]
      · rw [hvt, Function.update_of_ne hj, Function.update_of_ne hj]
        exact hc.le j
    · by_cases hj : j = me
      · subst hj
        rw [Function.update_self] at hjv
        rcases List.mem_append.mp (List.mem_of_mem_take hjv) with hjv | hjv
        · refine Nat.le_trans (hc.seen j jv ?_ i) (hle i)
          rwa [hbase hne, List.take_length]
        · rw [List.mem_singleton.mp hjv, hown]
      · rw [hvt, Function.update_of_ne hj, hgrown.take (hc.le j)] at hjv
        exact Nat.le_trans (hc.seen j jv hjv i) (hle i)

/-- A cut `c` that the process has come to know in the meantime is closed with the interval that ended. -/
theorem Advance.closed_above (h : Advance me H D vt H' D' vt') {c c' : VectorTime} (hc : Closed H c)
    (hvt : ∀ i, i ≠ me → vt i ≤ c i) (hbase : D.Nonempty → vt me = (H me).length) (hme : c me = (H me).length)
    (hother : ∀ i, i ≠ me → c' i = c i) (hme' : c' me = (H' me).length) : Closed H' c' := by
  have hgrown := h.grown
  have hle : ∀ i, c i ≤ c' i := fun i => by
    by_cases hi : i = me
    · subst hi
      rw [hme, hme']
      exact hgrown.length_le i
    · rw [hother i hi]
  refine ⟨fun j => ?_, fun j jv hjv i => ?_⟩
  · by_cases hj : j = me
    · subst hj
      exact Nat.le_of_eq hme'
    · rw [hother j hj]
      exact Nat.le_trans (hc.le j) (hgrown.length_le j)
  · by_cases hj : j = me
    · subst hj
      have hold : jv ∈ H j → jv.vector_time i ≤ c' i := fun hjv =>
        Nat.le_trans (hc.seen j jv (by rwa [hme, List.take_length]) i) (hle i)
      have hjv := List.mem_of_mem_take hjv
      rcases h with ⟨-, rfl, -⟩ | ⟨hne, -, own, -, -, -, hown, hvt', rfl⟩
      · exact hold hjv
      · rw [Function.update_self] at hjv
        rcases List.mem_append.mp hjv with hjv | hjv
        · exact hold hjv
        · rw [List.mem_singleton.mp hjv, hown, hvt']
          by_cases hi : i = j
          · subst hi
            rw [Function.update_self, hbase hne, hme', Function.update_self]
            simp
          · rw [Function.update_of_ne hi]
            exact Nat.le_trans (hvt i hi) (hle i)
    · rw [hother j hj, hgrown.take (hc.le j)] at hjv
      exact Nat.le_trans (hc.seen j jv hjv i) (hle i)

theorem Advance.isCausalHistory (h : Advance me H D vt H' D' vt') (hC : IsCausalHistory H) (hc : Closed H vt)
    (hbase : D.Nonempty → vt me = (H me).length) : IsCausalHistory H' := by
  have hgrown := h.grown
  have hclosed := h.closed hc hbase
  rcases h with ⟨-, rfl, -⟩ | ⟨hne, -, own, -, -, -, hown, hvt, rfl⟩
  · exact hC
  · have hcases : ∀ i, ∀ iv ∈ Function.update H me (H me ++ [own]) i, iv ∈ H i ∨ (i = me ∧ iv = own) := by
      intro i iv hiv
      by_cases hi : i = me
      · subst hi
        rw [Function.update_self] at hiv
        rcases List.mem_append.mp hiv with hiv | hiv
        · exact .inl hiv
        · exact .inr ⟨rfl, List.mem_singleton.mp hiv⟩
      · rw [Function.update_of_ne hi] at hiv
        exact .inl hiv
    refine ⟨fun i iv hiv => ?_, fun i iv hiv j hj jv hjv => ?_⟩
    · rcases hcases i iv hiv with hiv | ⟨-, rfl⟩
      · exact (hC.closed i iv hiv).grown hgrown
      · rwa [hown]
    · rcases hcases i iv hiv with hiv | ⟨rfl, rfl⟩
      · rw [hgrown.take ((hC.closed i iv hiv).le j)] at hjv
        exact hC.fresh i iv hiv j hj jv hjv
      · rw [hown, hvt, Function.update_of_ne hj, hgrown.take (hc.le j)] at hjv
        have := hc.seen j jv hjv i
        rw [hown, hvt, Function.update_self]
        omega

end Advance

section Notices

variable {nprocs : Nat} {me pid i : Proc} {H : Proc → List Interval} {D : Finset Nat} {vt : VectorTime} {n : Node}
  {p : Nat} {r : Interval}

theorem NodeInv.mem_log (h : NodeInv me H D ∅ vt pid [] n) (hr : r ∈ (H i).take (n.time i)) :
    view me i r ∈ n.log i := by
  rw [h.log i]
  exact List.mem_map_of_mem hr

/-- A write notice stands for an interval of the history that the process knows. -/
theorem NodeInv.notice_mem (h : NodeInv me H D ∅ vt pid [] n) {nt : Notice} (hnt : nt ∈ (n.page p).notices i) :
    ∃ r ∈ (H i).take (n.time i), r.covers p = true ∧ nt.interval = view me i r := by
  have hmem := (h.page p).notice_mem hnt
  rw [writers, List.mem_reverse, List.mem_filter, h.log i] at hmem
  obtain ⟨r, hr, heq⟩ := List.mem_map.mp hmem.1
  refine ⟨r, hr, ?_, heq.symm⟩
  rw [← view_covers me i r p, heq]
  exact hmem.2

theorem NodeInv.exists_notice (h : NodeInv me H D ∅ vt pid [] n) (hr : r ∈ (H i).take (n.time i))
    (hcov : r.covers p = true) : ∃ nt ∈ (n.page p).notices i, nt.interval = view me i r := by
  have hmem : view me i r ∈ writers n.log p i := by
    rw [writers, List.mem_reverse, List.mem_filter, view_covers]
    exact ⟨h.mem_log hr, hcov⟩
  rw [← (h.page p).notices i] at hmem
  exact List.mem_map.mp hmem

theorem Numbered.pairwise {l : List Interval} (h : Numbered i l) :
    l.Pairwise fun iv iv' => iv.vector_time i < iv'.vector_time i := by
  rw [List.pairwise_iff_getElem]
  intro a b ha hb hab
  have h₁ := (h a l[a] (List.getElem?_eq_getElem ha)).2
  have h₂ := (h b l[b] (List.getElem?_eq_getElem hb)).2
  omega

theorem NodeInv.newest (h : NodeInv me H D ∅ vt pid [] n) (hH : IsHistory nprocs H) (p : Nat) :
    (n.page p).Newest := by
  intro i
  have hlog : (n.log i).Pairwise fun iv iv' => iv.vector_time i < iv'.vector_time i := by
    rw [h.log i]
    exact (hH.numbered_view me n.time i).pairwise
  have hmap : (((n.page p).notices i).map Notice.interval).Pairwise
      fun iv iv' => iv'.vector_time i < iv.vector_time i := by
    rw [(h.page p).notices i, writers, List.pairwise_reverse]
    exact hlog.sublist List.filter_sublist
  exact List.pairwise_map.mp hmap

/-- The write notices of a page can be sorted. -/
theorem NodeInv.consistent (h : NodeInv me H D ∅ vt pid [] n) (hH : IsHistory nprocs H) (hC : IsCausalHistory H)
    (p : Nat) : Consistent (n.page p).notices where
  id i nt hnt := by
    obtain ⟨r, hr, -, heq⟩ := h.notice_mem hnt
    rw [heq, view_id]
    exact (hH.mem (List.mem_of_mem_take hr)).1
  newest := h.newest hH p
  pos i nt hnt := by
    obtain ⟨r, hr, -, heq⟩ := h.notice_mem hnt
    rw [heq, view_vector_time]
    exact (hH.mem (List.mem_of_mem_take hr)).2
  seen i nt hnt j nt' hnt' hknows := by
    obtain ⟨r, hr, -, heq⟩ := h.notice_mem hnt
    obtain ⟨r', hr', -, heq'⟩ := h.notice_mem hnt'
    have hr := List.mem_of_mem_take hr
    have hr' := List.mem_of_mem_take hr'
    rw [Knows, heq, heq', view_id, view_vector_time, view_vector_time, (hH.mem hr').1] at hknows
    rw [heq, heq', view_vector_time, view_vector_time]
    exact (hC.closed i r hr).of_le hH hr' hknows
  antisymm i nt hnt j nt' hnt' hknows hknows' := by
    obtain ⟨r, hr, -, heq⟩ := h.notice_mem hnt
    obtain ⟨r', hr', -, heq'⟩ := h.notice_mem hnt'
    have hr := List.mem_of_mem_take hr
    have hr' := List.mem_of_mem_take hr'
    rw [Knows, heq, heq', view_id, view_vector_time, view_vector_time] at hknows hknows'
    rw [(hH.mem hr').1] at hknows
    rw [(hH.mem hr).1] at hknows'
    obtain ⟨rfl, rfl⟩ := hC.antisymm hH hr hr' hknows hknows'
    rw [heq, heq']

/-- **The requests of a page that is not valid** go to other processes, which have what is asked for. -/
theorem NodeInv.diffRequest (h : NodeInv me H D ∅ vt pid [] n) (hH : IsHistory nprocs H) (hC : IsCausalHistory H)
    (hstate : (n.page p).state ≠ .valid) : ∀ r ∈ diffRequest nprocs (n.page p).notices, Servable H me p r := by
  intro r hr
  have hcons := h.consistent hH hC p
  have hperm := hcons.diffRequest_perm nprocs
  obtain ⟨last, hget, hall⟩ := (hcons.diffRequest_flatten nprocs).2 r hr
  have hmem : ∀ w ∈ r, ∃ nt ∈ (n.page p).notices w.id, nt.diff = false ∧ nt.interval = w := by
    intro w hw
    obtain ⟨i, -, hpend⟩ := List.mem_flatMap.mp (hperm.mem_iff.mp (List.mem_flatten.mpr ⟨r, hr, hw⟩))
    rw [hcons.pending_id hpend]
    exact mem_pending hpend
  have hwrote : ∀ w ∈ r, ∃ iv ∈ H w.id, iv.vector_time = w.vector_time ∧ iv.covers p = true := by
    intro w hw
    obtain ⟨nt, hnt, -, rfl⟩ := hmem w hw
    obtain ⟨iv, hiv, hcov, heq⟩ := h.notice_mem hnt
    exact ⟨iv, List.mem_of_mem_take hiv, by rw [heq, view_vector_time], hcov⟩
  have hlastmem := List.mem_of_getLast? hget
  refine ⟨last, hget, fun hme => ?_, hwrote last hlastmem, fun w hw => ⟨hall w hw, hwrote w hw⟩⟩
  -- an own write notice without a diff has a twin, and the page would be valid
  obtain ⟨nt, hnt, hdiff, -⟩ := hmem last hlastmem
  rw [hme] at hnt
  obtain ⟨nts, hnts⟩ := (h.page p).own_head hnt hdiff
  have hpend : (n.page p).ownPending me = true := by simp [Page.ownPending, hnts, hdiff]
  exact hstate ((h.page p).twin ((h.page p).pending hpend).1).1

/-- **The process that is asked** has the write notices of the request, and the diffs of the other processes. -/
theorem NodeInv.servable {from_ : Proc} {r : List Interval} {last : Interval} (hlast : r.getLast? = some last)
    (h : NodeInv last.id H D ∅ vt pid [] n) (hH : IsHistory nprocs H) (hr : Servable H from_ p r) :
    ∀ w ∈ r, ServableOne last.id (n.page p) w := by
  obtain ⟨last', hget, -, ⟨own, hown, hownt, hcov⟩, hall⟩ := hr
  obtain rfl : last = last' := Option.some.inj (hlast.symm.trans hget)
  intro w hw
  obtain ⟨hknows, iv, hiv, hivt, hivcov⟩ := hall w hw
  have hknown : iv.vector_time w.id ≤ n.time w.id := by
    by_cases hid : w.id = last.id
    · rw [hid] at hiv ⊢
      rw [h.own]
      exact hH.time_le_length hiv
    · have := h.ownTime own hown w.id hid
      rw [hownt] at this
      rw [hivt]
      exact Nat.le_trans hknows this
  obtain ⟨nt, hnt, heq⟩ := h.exists_notice (hH.mem_take_iff.mpr ⟨hiv, hknown⟩) hivcov
  have htime : nt.interval.vector_time = w.vector_time := by rw [heq, view_vector_time, hivt]
  refine ⟨nt, hnt, by rw [htime], fun hne => ?_⟩
  have hmem : own ∈ writers n.log p last.id := by
    rw [writers, List.mem_reverse, List.mem_filter, h.ownLog]
    exact ⟨hown, hcov⟩
  refine (h.page p).seen own hmem w.id hne nt hnt ?_
  rw [htime, hownt]
  exact hknows

end Notices

end Tmk
