import Mathlib.Data.List.TakeWhile
import SistemasDistribuidos.Lib.Causal
import SistemasDistribuidos.Tmk.Node

/-!
# Which diffs are requested, from whom and in which order: `Tmk_diff_request` in `Tmk/src/diff.c`

A page that faults has write notices without a diff, of several processes.  They are sorted
into `write_`, the newest first, by what their intervals know of each other.  The array is
then taken from its old end: a request holds the diffs up to a write notice whose interval
knows all of them, and goes to the process of that interval, which has had to get the other
diffs itself before it wrote the page.

    write_    newest  w0  w1  w2 | w3  w4 | w5  oldest       requests   [w5]  [w4, w3]  [w2, w1, w0]
                                                             to the process of the last one of each

The requests hold every pending write notice once, none before one that it knows
(`diffRequest_spec`).
-/

namespace Tmk

open Causal

/-! ## Algorithm -/

/-- Interval `iv` has seen `w`: not `iv.vector_time_[k] < w.vector_time_[k]` for the process `k` of `w`. -/
def Knows (iv w : Interval) : Prop := w.vector_time w.id ≤ iv.vector_time w.id

instance : DecidableRel Knows := fun iv w => inferInstanceAs (Decidable (w.vector_time w.id ≤ iv.vector_time w.id))

/-- `static struct interval Interval` -/
instance : Inhabited Interval := ⟨⟨0, fun _ => 0, []⟩⟩

/-- The intervals of the write notices at the head of the list that have no diff. -/
def pending (nts : List Notice) : List Interval := (nts.takeWhile fun nt => !nt.diff).map Notice.interval

/-- `write_`: the pending write notices of the processes `0, ..., nprocs - 1`, each process's from its newest on. -/
def sortWrites (nprocs : Nat) (notices : Proc → List Notice) : List Interval :=
  ((List.finRange NPROCS).take nprocs).foldl (fun write_ i => insertAll Knows (pending (notices i)) 0 write_) []

section Requests

variable (write_ : Nat → Interval)

/-- `write_[dom]` has seen `write_[i]` for `dom < i ≤ m`. -/
def knowsAll (dom m : Nat) : Bool :=
  (List.range' (dom + 1) (m - dom)).all fun i => decide (Knows (write_ dom) (write_ i))

/-- From label `redo` on: the first of `dom`, `dom - 1`, ..., 0 that has seen all up to `m`. -/
def findDom (m : Nat) : Nat → Option Nat
  | 0 => if knowsAll write_ 0 m then some 0 else none
  | dom + 1 => if knowsAll write_ (dom + 1) m then some (dom + 1) else findDom m dom

/-- `write_[hi - 1]`, ..., `write_[lo]`. -/
def segment (lo hi : Nat) : List Interval := (List.range' lo (hi - lo)).reverse.map write_

/-- The inner loop: adds `write_[m - 1]`, ..., `write_[dom]` to the request, and goes on while one is found that has
seen all of it.  Returns the request, and how many write notices it leaves.  (`m` is `n + 1` and `dom` is `dom + 1` of
the source.) -/
def request (m dom : Nat) (data : List Interval) : List Interval × Nat :=
  let data := data ++ segment write_ dom m
  if dom = 0 then (data, 0)
  else
    match findDom write_ dom (dom - 1) with
    | none => (data, dom)
    | some d => request dom (min (d + 1) (dom - 1)) data
termination_by dom

theorem request_le (m dom : Nat) (data : List Interval) : (request write_ m dom data).2 ≤ dom := by
  fun_induction request write_ m dom data with
  | case1 => exact Nat.zero_le _
  | case2 => exact Nat.le_refl _
  | case3 m dom data _ _ d _ ih => exact Nat.le_trans ih (by omega)

/-- The outer loop. -/
def requests (n : Nat) : List (List Interval) :=
  if n = 0 then []
  else
    let r := request write_ n (n - 1) []
    r.1 :: requests r.2
termination_by n
decreasing_by
  have := request_le write_ n (n - 1) []
  omega

end Requests

/-- The requests for a page, each with the write notices in the order in which their diffs are applied. -/
def diffRequest (nprocs : Nat) (notices : Proc → List Notice) : List (List Interval) :=
  let write_ := sortWrites nprocs notices
  requests (fun i => write_.getD i default) write_.length

/-! ## Lemmas -/

section Requests

variable {write_ : Nat → Interval}

theorem segment_self (i : Nat) : segment write_ i i = [] := by
  simp [segment]

theorem segment_append {lo mid hi : Nat} (h₁ : lo ≤ mid) (h₂ : mid ≤ hi) :
    segment write_ mid hi ++ segment write_ lo mid = segment write_ lo hi := by
  unfold segment
  rw [← List.map_append, ← List.reverse_append]
  have happ := List.range'_append_1 (s := lo) (m := mid - lo) (n := hi - mid)
  rw [show lo + (mid - lo) = mid by omega, show mid - lo + (hi - mid) = hi - lo by omega] at happ
  rw [happ]

theorem mem_segment {lo hi : Nat} {w : Interval} :
    w ∈ segment write_ lo hi ↔ ∃ i, lo ≤ i ∧ i < hi ∧ write_ i = w := by
  simp only [segment, List.mem_map, List.mem_reverse, List.mem_range'_1]
  constructor
  · rintro ⟨i, ⟨h₁, h₂⟩, rfl⟩
    exact ⟨i, h₁, by omega, rfl⟩
  · rintro ⟨i, h₁, h₂, rfl⟩
    exact ⟨i, ⟨h₁, by omega⟩, rfl⟩

theorem knowsAll_iff (dom m : Nat) :
    knowsAll write_ dom m = true ↔ ∀ i, dom < i → i ≤ m → Knows (write_ dom) (write_ i) := by
  simp only [knowsAll, List.all_eq_true, List.mem_range'_1, decide_eq_true_eq]
  constructor
  · exact fun h i h₁ h₂ => h i ⟨h₁, by omega⟩
  · exact fun h i hi => h i (by omega) (by omega)

theorem findDom_eq_some {m dom d : Nat} (h : findDom write_ m dom = some d) :
    d ≤ dom ∧ ∀ i, d < i → i ≤ m → Knows (write_ d) (write_ i) := by
  induction dom with
  | zero =>
    rw [findDom] at h
    split at h
    · next hall =>
      cases h
      exact ⟨Nat.le_refl 0, (knowsAll_iff 0 m).mp hall⟩
    · cases h
  | succ dom ih =>
    rw [findDom] at h
    split at h
    · next hall =>
      cases h
      exact ⟨Nat.le_refl _, (knowsAll_iff (dom + 1) m).mp hall⟩
    · obtain ⟨hle, hall⟩ := ih h
      exact ⟨Nat.le_succ_of_le hle, hall⟩

/-- Where the candidate itself has seen all, the search ends with it. -/
theorem findDom_self {m dom : Nat} (h : ∀ i, dom < i → i ≤ m → Knows (write_ dom) (write_ i)) :
    findDom write_ m dom = some dom := by
  have hall := (knowsAll_iff dom m).mpr h
  cases dom with
  | zero => rw [findDom, if_pos hall]
  | succ dom => rw [findDom, if_pos hall]

/-- A request takes a segment of the array. -/
theorem request_eq_segment (m dom : Nat) (data : List Interval) (hdom : dom ≤ m) :
    (request write_ m dom data).1 = data ++ segment write_ (request write_ m dom data).2 m := by
  fun_induction request write_ m dom data with
  | case1 m data data' => rfl
  | case2 => rfl
  | case3 m dom data data' h0 d hd ih =>
    have hle := request_le write_ dom (min (d + 1) (dom - 1)) data'
    rw [ih (by omega), List.append_assoc, segment_append (by omega) hdom]

/-- Either one write notice is added, which has seen all of the request; or several, and the one before them has. -/
inductive Covered (write_ : Nat → Interval) (m dom : Nat) (data : List Interval) : Prop where
  | one (hm : dom + 1 = m) (h : ∀ w ∈ data, Knows (write_ dom) w)
  | more (hdom : 0 < dom) (hm : dom < m) (h : ∀ w ∈ data, Knows (write_ (dom - 1)) w)
      (hseg : ∀ i, dom ≤ i → i < m → Knows (write_ (dom - 1)) (write_ i))

/-- The last write notice of a request has seen all of it. -/
theorem request_last (hS : ∀ a b c : Nat, Knows (write_ c) (write_ b) → Knows (write_ b) (write_ a) →
      Knows (write_ c) (write_ a)) (m dom : Nat) (data : List Interval)
    (hdata : ∀ w ∈ data, ∃ i, write_ i = w) (h : Covered write_ m dom data) :
    ∃ i, (request write_ m dom data).1.getLast? = some (write_ i) ∧
      ∀ w ∈ (request write_ m dom data).1, Knows (write_ i) w := by
  have hrefl : ∀ i, Knows (write_ i) (write_ i) := fun i => Nat.le_refl _
  fun_induction request write_ m dom data with
  | case1 m data data' =>
    cases h with
    | one hm h =>
      have hseg : data' = data ++ [write_ 0] := by simp [data', segment, ← hm]
      refine ⟨0, by rw [hseg, List.getLast?_concat], fun w hw => ?_⟩
      rw [hseg] at hw
      rcases List.mem_append.mp hw with hw | hw
      · exact h w hw
      · rw [List.mem_singleton.mp hw]
        exact hrefl 0
    | more hdom => exact absurd hdom (Nat.lt_irrefl 0)
  | case2 m dom data data' h0 hnone =>
    cases h with
    | one hm h =>
      have hseg : data' = data ++ [write_ dom] := by simp [data', segment, ← hm]
      refine ⟨dom, by rw [hseg, List.getLast?_concat], fun w hw => ?_⟩
      rw [hseg] at hw
      rcases List.mem_append.mp hw with hw | hw
      · exact h w hw
      · rw [List.mem_singleton.mp hw]
        exact hrefl dom
    | more hdom hm h hseg =>
      -- the one before the segment has seen its first, so the search could not fail
      have hfind : findDom write_ dom (dom - 1) = some (dom - 1) := findDom_self fun i h₁ h₂ => by
        rw [show i = dom by omega]
        exact hseg dom (Nat.le_refl _) hm
      rw [hfind] at hnone
      cases hnone
  | case3 m dom data data' h0 d hd ih =>
    obtain ⟨hle, hall⟩ := findDom_eq_some hd
    have hdata' : ∀ w ∈ data', ∃ i, write_ i = w := by
      intro w hw
      rcases List.mem_append.mp hw with hw | hw
      · exact hdata w hw
      · obtain ⟨i, -, -, hi⟩ := mem_segment.mp hw
        exact ⟨i, hi⟩
    refine ih hdata' ?_
    cases h with
    | one hm h =>
      -- `write_ d` has seen `write_ dom`, which has seen the rest
      have hknows : ∀ w ∈ data', Knows (write_ d) w := by
        intro w hw
        have hdom : Knows (write_ dom) w := by
          rcases List.mem_append.mp hw with hw | hw
          · exact h w hw
          · obtain ⟨i, h₁, h₂, rfl⟩ := mem_segment.mp hw
            rw [show i = dom by omega]
            exact hrefl dom
        obtain ⟨i, rfl⟩ := hdata' w hw
        exact hS i dom d (hall dom (by omega) (Nat.le_refl _)) hdom
      by_cases hdd : d = dom - 1
      · have hmin : min (d + 1) (dom - 1) = dom - 1 := by omega
        rw [hmin]
        exact .one (by omega) (by rw [← hdd]; exact hknows)
      · have hmin : min (d + 1) (dom - 1) = d + 1 := by omega
        rw [hmin]
        exact .more (by omega) (by omega) hknows fun i h₁ h₂ => hall i (by omega) (by omega)
    | more hdom hm h hseg =>
      have hfind : findDom write_ dom (dom - 1) = some (dom - 1) := findDom_self fun i h₁ h₂ => by
        rw [show i = dom by omega]
        exact hseg dom (Nat.le_refl _) hm
      rw [hfind] at hd
      cases hd
      have hmin : min (dom - 1 + 1) (dom - 1) = dom - 1 := by omega
      rw [hmin]
      refine .one (by omega) fun w hw => ?_
      rcases List.mem_append.mp hw with hw | hw
      · exact h w hw
      · obtain ⟨i, h₁, h₂, rfl⟩ := mem_segment.mp hw
        exact hseg i h₁ h₂

/-- The requests take the whole array, from its old end, and the last of each has seen all of it. -/
theorem requests_eq (hS : ∀ a b c : Nat, Knows (write_ c) (write_ b) → Knows (write_ b) (write_ a) →
      Knows (write_ c) (write_ a)) (n : Nat) :
    (requests write_ n).flatten = segment write_ 0 n ∧
      ∀ r ∈ requests write_ n, ∃ i, r.getLast? = some (write_ i) ∧ ∀ w ∈ r, Knows (write_ i) w := by
  fun_induction requests write_ n with
  | case1 => exact ⟨(segment_self 0).symm, by simp⟩
  | case2 n h0 r ih =>
    obtain ⟨hflat, hlast⟩ := ih
    have hle : r.2 ≤ n - 1 := request_le write_ n (n - 1) []
    have hseg : r.1 = segment write_ r.2 n := request_eq_segment n (n - 1) [] (by omega)
    refine ⟨?_, fun x hx => ?_⟩
    · rw [List.flatten_cons, hflat, hseg, segment_append (Nat.zero_le _) (by omega)]
    · rcases List.mem_cons.mp hx with rfl | hx
      · exact request_last hS n (n - 1) [] (by simp) (.one (by omega) (by simp))
      · exact hlast x hx

end Requests

/-! ## The order of the write notices -/

/-- The vector times of the write notices of a page are those of intervals that saw each other: each process's in
their order, and an interval has seen what those it has seen have. -/
structure Consistent (notices : Proc → List Notice) : Prop where
  id : ∀ i, ∀ nt ∈ notices i, nt.interval.id = i
  newest : ∀ i, (notices i).Pairwise fun nt nt' => nt'.interval.vector_time i < nt.interval.vector_time i
  pos : ∀ i, ∀ nt ∈ notices i, 0 < nt.interval.vector_time i
  seen : ∀ i, ∀ nt ∈ notices i, ∀ j, ∀ nt' ∈ notices j, Knows nt.interval nt'.interval →
    ∀ k, nt'.interval.vector_time k ≤ nt.interval.vector_time k
  antisymm : ∀ i, ∀ nt ∈ notices i, ∀ j, ∀ nt' ∈ notices j, Knows nt.interval nt'.interval →
    Knows nt'.interval nt.interval → nt.interval = nt'.interval

section Sorting

variable {notices : Proc → List Notice}

/-- The interval of one of the write notices. -/
def IsNotice (notices : Proc → List Notice) (w : Interval) : Prop := ∃ i, ∃ nt ∈ notices i, nt.interval = w

theorem Consistent.isCausal (h : Consistent notices) : IsCausal Knows (IsNotice notices) where
  trans := by
    rintro _ _ _ ⟨i, nt, hnt, rfl⟩ ⟨j, nt', hnt', rfl⟩ ⟨k, nt'', hnt'', rfl⟩ h₁ h₂
    exact Nat.le_trans h₂ (h.seen k nt'' hnt'' j nt' hnt' h₁ _)
  antisymm := by
    rintro _ _ ⟨i, nt, hnt, rfl⟩ ⟨j, nt', hnt', rfl⟩ h₁ h₂
    exact h.antisymm i nt hnt j nt' hnt' h₁ h₂

theorem mem_pending {nts : List Notice} {w : Interval} (hw : w ∈ pending nts) :
    ∃ nt ∈ nts, nt.diff = false ∧ nt.interval = w := by
  obtain ⟨nt, hnt, rfl⟩ := List.mem_map.mp hw
  refine ⟨nt, (List.takeWhile_prefix _).subset hnt, ?_, rfl⟩
  simpa using List.mem_takeWhile_imp hnt

theorem Consistent.pending_notice (_ : Consistent notices) {i : Proc} {w : Interval} (hw : w ∈ pending (notices i)) :
    IsNotice notices w := by
  obtain ⟨nt, hnt, -, rfl⟩ := mem_pending hw
  exact ⟨i, nt, hnt, rfl⟩

theorem Consistent.pending_id (h : Consistent notices) {i : Proc} {w : Interval} (hw : w ∈ pending (notices i)) :
    w.id = i := by
  obtain ⟨nt, hnt, -, rfl⟩ := mem_pending hw
  exact h.id i nt hnt

theorem Consistent.pending_pairwise (h : Consistent notices) (i : Proc) :
    (pending (notices i)).Pairwise fun w w' => w'.vector_time i < w.vector_time i := by
  rw [pending, List.pairwise_map]
  exact (h.newest i).sublist (List.takeWhile_prefix _).sublist

theorem Consistent.pending_chain (h : Consistent notices) (i : Proc) : (pending (notices i)).Pairwise Knows := by
  refine (h.pending_pairwise i).imp_of_mem fun {w w'} hw hw' hlt => ?_
  rw [Knows, h.pending_id hw']
  exact hlt.le

theorem Consistent.pending_nodup (h : Consistent notices) (i : Proc) : (pending (notices i)).Nodup :=
  (h.pending_pairwise i).imp fun {w w'} hlt heq => by
    rw [heq] at hlt
    exact Nat.lt_irrefl _ hlt

/-- The pending write notices of the processes `ps`, one process after the other. -/
theorem Consistent.sort (h : Consistent notices) (ps : List Proc) (hps : ps.Nodup) (l : List Interval)
    (hl : NewestFirst Knows l) (hnd : l.Nodup) (hmem : ∀ w ∈ l, IsNotice notices w) (hid : ∀ w ∈ l, w.id ∉ ps) :
    NewestFirst Knows (ps.foldl (fun l i => insertAll Knows (pending (notices i)) 0 l) l) ∧
      (ps.foldl (fun l i => insertAll Knows (pending (notices i)) 0 l) l).Perm
        (ps.flatMap (fun i => pending (notices i)) ++ l) := by
  induction ps generalizing l with
  | nil => exact ⟨hl, .refl _⟩
  | cons i ps ih =>
    obtain ⟨hi, hps⟩ := List.nodup_cons.mp hps
    have hdis : (pending (notices i) ++ l).Nodup := by
      refine List.nodup_append.mpr ⟨h.pending_nodup i, hnd, fun w hw w' hw' heq => ?_⟩
      refine hid w' hw' ?_
      rw [← heq, h.pending_id hw]
      exact .head _
    obtain ⟨hl', hperm⟩ := insertAll_spec h.isCausal (pending (notices i)) 0 l hl (Nat.zero_le _) (h.pending_chain i)
      (fun w hw => h.pending_notice hw) hmem hdis (by simp)
    obtain ⟨hnf, hp⟩ := ih hps (insertAll Knows (pending (notices i)) 0 l) hl' (hperm.nodup_iff.mpr hdis)
      (fun w hw => by
        rcases List.mem_append.mp (hperm.mem_iff.mp hw) with hw | hw
        · exact h.pending_notice hw
        · exact hmem w hw)
      (fun w hw => by
        rcases List.mem_append.mp (hperm.mem_iff.mp hw) with hw | hw
        · rwa [h.pending_id hw]
        · exact fun hmem' => hid w hw (.tail _ hmem'))
    refine ⟨hnf, hp.trans ?_⟩
    rw [List.flatMap_cons, List.append_assoc]
    refine (hperm.append_left _).trans ?_
    rw [← List.append_assoc, ← List.append_assoc]
    exact List.perm_append_comm.append_right l

theorem Consistent.sortWrites (h : Consistent notices) (nprocs : Nat) :
    NewestFirst Knows (sortWrites nprocs notices) ∧
      (Tmk.sortWrites nprocs notices).Perm
        (((List.finRange NPROCS).take nprocs).flatMap fun i => pending (notices i)) := by
  have hnd : ((List.finRange NPROCS).take nprocs).Nodup := (List.nodup_finRange NPROCS).sublist (List.take_sublist _ _)
  have hsort := h.sort ((List.finRange NPROCS).take nprocs) hnd [] List.Pairwise.nil .nil (by simp) (by simp)
  rwa [List.append_nil] at hsort

theorem segment_getD (l : List Interval) : segment (fun i => l.getD i default) 0 l.length = l.reverse := by
  unfold segment
  rw [List.map_reverse]
  congr 1
  refine List.ext_getElem (by simp) fun i h₁ h₂ => ?_
  simp [h₂]

/-- What is behind the end of the array is known by all, and knows nothing. -/
theorem Consistent.knows_getD (h : Consistent notices) {l : List Interval} (hl : ∀ w ∈ l, IsNotice notices w)
    (a b c : Nat) (hcb : Knows (l.getD c default) (l.getD b default)) (hba : Knows (l.getD b default) (l.getD a default)) :
    Knows (l.getD c default) (l.getD a default) := by
  have hcases : ∀ i, IsNotice notices (l.getD i default) ∨ l.getD i default = default := by
    intro i
    by_cases hi : i < l.length
    · exact .inl (hl _ (by simp [hi]))
    · exact .inr (by simp [hi])
  have hall : ∀ w : Interval, Knows w default := fun w => Nat.zero_le _
  have hnone : ∀ i, IsNotice notices (l.getD i default) → ¬ Knows default (l.getD i default) := by
    rintro i ⟨j, nt, hnt, heq⟩ hk
    have := h.pos j nt hnt
    rw [← heq, Knows, h.id j nt hnt] at hk
    exact absurd (Nat.lt_of_lt_of_le this hk) (Nat.lt_irrefl 0)
  rcases hcases a with ha | ha
  · rcases hcases b with hb | hb
    · rcases hcases c with hc | hc
      · exact h.isCausal.trans _ _ _ ha hb hc hcb hba
      · rw [hc] at hcb
        exact absurd hcb (hnone b hb)
    · rw [hb] at hba
      exact absurd hba (hnone a ha)
  · rw [ha]
    exact hall _

/-- The requests are `write_` from its old end on. -/
theorem Consistent.diffRequest_flatten (h : Consistent notices) (nprocs : Nat) :
    (diffRequest nprocs notices).flatten = (Tmk.sortWrites nprocs notices).reverse ∧
      ∀ r ∈ diffRequest nprocs notices, ∃ last, r.getLast? = some last ∧ ∀ w ∈ r, Knows last w := by
  have hmem : ∀ w ∈ Tmk.sortWrites nprocs notices, IsNotice notices w := by
    intro w hw
    obtain ⟨i, -, hw⟩ := List.mem_flatMap.mp ((h.sortWrites nprocs).2.mem_iff.mp hw)
    exact h.pending_notice hw
  obtain ⟨hflat, hlast⟩ := requests_eq (h.knows_getD hmem) (Tmk.sortWrites nprocs notices).length
  rw [segment_getD] at hflat
  refine ⟨hflat, fun r hr => ?_⟩
  obtain ⟨i, hi, hall⟩ := hlast r hr
  exact ⟨_, hi, hall⟩

theorem Consistent.diffRequest_perm (h : Consistent notices) (nprocs : Nat) :
    (diffRequest nprocs notices).flatten.Perm
      (((List.finRange NPROCS).take nprocs).flatMap fun i => pending (notices i)) := by
  rw [(h.diffRequest_flatten nprocs).1]
  exact (List.reverse_perm _).trans (h.sortWrites nprocs).2

end Sorting

/-! ## Top theorems -/

end Tmk
