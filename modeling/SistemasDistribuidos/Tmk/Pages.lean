import Mathlib.Data.Finset.Insert
import Mathlib.Data.Finset.Max
import SistemasDistribuidos.Lib.Rings

/-!
# Merging of pages into runs in `Tmk/src/page.c`

The pages that a process has written since its last interval, and those that it is about to
protect, are kept as runs of neighbours, so that a run takes one write notice range or one
`mprotect`.  `Tmk_page_dirty_merge` and `Tmk_page_inval_merge` add a page in constant time:
each entry of `page_array_` has a toggle, which is on where a run begins or just behind its
end, the first page of a run is on a doubly linked list, and the first and the last page of
a run are each other's `partner`.

    pages merged, in any order            ranges read from the list
    S                                     the maximal runs of S, each once      (epochs_ranges)

and the list and the toggles are left as they were at the start.
-/

namespace Tmk

open Rings

/-! ## Algorithm -/

def NPAGES : Nat := 16384

/-- The part of `page_array_` one kind of merging uses.  Entries are named by their index.  Each kind has a toggle of
its own in the source, while `prev`, `next` and `partner` are shared by the two: no page is on both lists. -/
structure PageArray where
  toggle : Nat → Bool
  links : Links Nat
  partner : Nat → Nat

/-- `page->toggle ^= 1` -/
def PageArray.flip (s : PageArray) (page : Nat) : PageArray :=
  { s with toggle := Function.update s.toggle page (!s.toggle page) }

/-- Joins `page1` to the run before it and the one behind it, if there are any. -/
def pageMerge (head : Nat) (s : PageArray) (page1 : Nat) : PageArray :=
  let page2 := page1 + 1
  let s := s.flip page1
  let (s, page1) :=
    if s.toggle page1 then ({ s with links := s.links.insertTail head page1 }, page1)
    else (s, s.partner (page1 - 1))
  let s := s.flip page2
  let (s, page2) :=
    if s.toggle page2 = false then ({ s with links := s.links.unlink page2 }, s.partner page2)
    else (s, page2 - 1)
  { s with partner := Function.update (Function.update s.partner page1 page2) page2 page1 }

/-- `page_dirty`, which is no entry of the array. -/
def pageDirty : Nat := NPAGES + 1

def pageDirtyMerge : PageArray → Nat → PageArray := pageMerge pageDirty

/-- `head`: the entry behind the last page. -/
def pageInvalMerge : PageArray → Nat → PageArray := pageMerge NPAGES

/-- The walk along `prev` from the head, over at most `NPAGES` pages: the first and last page of each run.
`Tmk_interval_create` makes write notice ranges of them, `Tmk_page_inval_perform` calls of `mprotect`. -/
def ranges (head : Nat) (s : PageArray) : List (Nat × Nat) :=
  (walk s.links.prev head (NPAGES + 1) (s.links.prev head)).map fun page => (page, s.partner page)

/-- `partner[1].toggle = page->toggle = 0` -/
def clearToggles (toggle : Nat → Bool) (r : Nat × Nat) : Nat → Bool :=
  Function.update (Function.update toggle r.1 false) (r.2 + 1) false

/-- What the walk leaves behind. -/
def flush (head : Nat) (s : PageArray) : PageArray :=
  { s with links := s.links.reset head, toggle := (ranges head s).foldl clearToggles s.toggle }

/-- `page_array_` as `Tmk_page_initialize` leaves it. -/
def pageInitialize (head : Nat) : PageArray :=
  ⟨fun _ => false, Links.reset ⟨fun _ => 0, fun _ => 0⟩ head, fun _ => 0⟩

/-- The ranges of one flush after the other, with the pages merged before each. -/
def epochs (head : Nat) : PageArray → List (List Nat) → List (List (Nat × Nat))
  | _, [] => []
  | s, pages :: es =>
    let s := pages.foldl (pageMerge head) s
    ranges head s :: epochs head (flush head s) es

/-! ## Runs of a set of pages -/

/-- `p` has a neighbour in `S` before it. -/
def Before (S : Finset Nat) (p : Nat) : Prop := ∃ k ∈ S, p = k + 1

/-- `[a, b]` is a run of `S` that cannot be made longer. -/
structure IsRun (S : Finset Nat) (a b : Nat) : Prop where
  le : a ≤ b
  mem : ∀ k, a ≤ k → k ≤ b → k ∈ S
  first : ¬ Before S a
  last : b + 1 ∉ S

theorem IsRun.start {S : Finset Nat} {a b : Nat} (h : IsRun S a b) : a ∈ S := h.mem a (Nat.le_refl a) h.le

theorem IsRun.stop {S : Finset Nat} {a b : Nat} (h : IsRun S a b) : b ∈ S := h.mem b h.le (Nat.le_refl b)

/-- Two runs with a page in common are the same. -/
theorem IsRun.eq_of_mem {S : Finset Nat} {a b a' b' k : Nat} (h : IsRun S a b) (h' : IsRun S a' b')
    (ha : a ≤ k) (hb : k ≤ b) (ha' : a' ≤ k) (hb' : k ≤ b') : a = a' ∧ b = b' := by
  have key : ∀ a b a' b', IsRun S a b → IsRun S a' b' → a ≤ k → k ≤ b → a' ≤ k → k ≤ b' → a ≤ a' ∧ b' ≤ b := by
    intro a b a' b' h h' ha hb ha' hb'
    constructor
    · refine Nat.le_of_not_lt fun hlt => h.first ⟨a - 1, h'.mem (a - 1) (by omega) (by omega), by omega⟩
    · exact Nat.le_of_not_lt fun hlt => h.last (h'.mem (b + 1) (by omega) (by omega))
  have h1 := key a b a' b' h h' ha hb ha' hb'
  have h2 := key a' b' a b h' h ha' hb' ha hb
  omega

/-- Every page of a run has one that starts there or before. -/
theorem exists_isRun {S : Finset Nat} {p : Nat} (hp : p ∈ S) : ∃ a b, IsRun S a b ∧ a ≤ p ∧ p ≤ b := by
  -- the longest stretch of `S` up to `p`, and the longest from `p` on
  obtain ⟨a, ha, hmem, hfirst⟩ : ∃ a, a ≤ p ∧ (∀ k, a ≤ k → k ≤ p → k ∈ S) ∧ ¬ Before S a := by
    induction p with
    | zero =>
      refine ⟨0, Nat.le_refl 0, fun k _ hk => (Nat.le_zero.mp hk).symm ▸ hp, ?_⟩
      rintro ⟨k, -, hk⟩
      omega
    | succ p ih =>
      by_cases hp' : p ∈ S
      · obtain ⟨a, ha, hmem, hfirst⟩ := ih hp'
        refine ⟨a, by omega, fun k hka hkp => ?_, hfirst⟩
        by_cases hk : k = p + 1
        · exact hk ▸ hp
        · exact hmem k hka (by omega)
      · refine ⟨p + 1, Nat.le_refl _, fun k hka hkp => Nat.le_antisymm hkp hka ▸ hp, ?_⟩
        rintro ⟨k, hk, heq⟩
        exact hp' (by rwa [Nat.succ_inj.mp heq])
  obtain ⟨b, hb, hmem', hlast⟩ : ∃ b, p ≤ b ∧ (∀ k, p ≤ k → k ≤ b → k ∈ S) ∧ b + 1 ∉ S := by
    have hex : ∃ b, p ≤ b ∧ b + 1 ∉ S := by
      refine ⟨p + S.sup id, by omega, fun hmem => ?_⟩
      have : p + S.sup id + 1 ≤ S.sup id := Finset.le_sup (f := id) hmem
      omega
    have hfind := Nat.find_spec hex
    refine ⟨Nat.find hex, hfind.1, fun k hpk hkb => ?_, hfind.2⟩
    by_cases hk : k = p
    · exact hk ▸ hp
    · by_contra hmem
      have hlt := Nat.find_min hex (m := k - 1) (by omega)
      exact hlt ⟨by omega, by rwa [Nat.sub_add_cancel (by omega)]⟩
  refine ⟨a, b, ⟨by omega, fun k hka hkb => ?_, hfirst, hlast⟩, ha, hb⟩
  by_cases hk : k ≤ p
  · exact hmem k hka hk
  · exact hmem' k (by omega) hkb

theorem before_insert {S : Finset Nat} {p a : Nat} : Before (insert p S) a ↔ Before S a ∨ a = p + 1 := by
  constructor
  · rintro ⟨k, hk, rfl⟩
    rcases Finset.mem_insert.mp hk with rfl | hk
    · exact .inr rfl
    · exact .inl ⟨k, hk, rfl⟩
  · rintro (⟨k, hk, rfl⟩ | rfl)
    · exact ⟨k, Finset.mem_insert_of_mem hk, rfl⟩
    · exact ⟨p, Finset.mem_insert_self p S, rfl⟩

/-- A run of `insert p S` that does not meet `p` is one of `S`. -/
theorem IsRun.of_insert {S : Finset Nat} {p a b : Nat} (h : IsRun (insert p S) a b)
    (hp : ¬ (a ≤ p ∧ p ≤ b)) : IsRun S a b where
  le := h.le
  mem k hka hkb := Finset.mem_of_mem_insert_of_ne (h.mem k hka hkb) (by omega)
  first hbefore := h.first (before_insert.mpr (.inl hbefore))
  last hmem := h.last (Finset.mem_insert_of_mem hmem)

/-- The part before `p` of the run that `p` joins. -/
theorem IsRun.before {S : Finset Nat} {p a b : Nat} (h : IsRun (insert p S) a b) (hp : p ∉ S) (hap : a < p)
    (hpb : p ≤ b) : IsRun S a (p - 1) where
  le := by omega
  mem k hka hkb := Finset.mem_of_mem_insert_of_ne (h.mem k hka (by omega)) (by omega)
  first hbefore := h.first (before_insert.mpr (.inl hbefore))
  last := by rwa [Nat.sub_add_cancel (by omega)]

/-- The part behind it. -/
theorem IsRun.behind {S : Finset Nat} {p a b : Nat} (h : IsRun (insert p S) a b) (hp : p ∉ S) (hap : a ≤ p)
    (hpb : p < b) : IsRun S (p + 1) b where
  le := hpb
  mem k hka hkb := Finset.mem_of_mem_insert_of_ne (h.mem k (by omega) hkb) (by omega)
  first := by
    rintro ⟨k, hk, heq⟩
    exact hp (by rwa [Nat.succ_inj.mp heq])
  last hmem := h.last (Finset.mem_insert_of_mem hmem)

/-! ## The array holds the runs -/

/-- What the toggles, the list and the partners say about the pages `S` merged so far. -/
structure Merged (head : Nat) (S : Finset Nat) (s : PageArray) (starts : List Nat) : Prop where
  toggle : ∀ p, s.toggle p = true ↔ ¬ (p ∈ S ↔ Before S p)
  ring : IsRing s.links head starts
  starts : ∀ a, a ∈ starts ↔ a ∈ S ∧ ¬ Before S a
  partner : ∀ a b, IsRun S a b → s.partner a = b ∧ s.partner b = a

theorem pageMerge_eq (head : Nat) (s : PageArray) (p : Nat) :
    pageMerge head s p =
      let page1 := if s.toggle p then s.partner (p - 1) else p
      let page2 := if s.toggle (p + 1) then s.partner (p + 1) else p
      let links := if s.toggle p then s.links else s.links.insertTail head p
      { toggle := Function.update (Function.update s.toggle p (!s.toggle p)) (p + 1) (!s.toggle (p + 1))
        links := if s.toggle (p + 1) then links.unlink (p + 1) else links
        partner := Function.update (Function.update s.partner page1 page2) page2 page1 } := by
  cases h1 : s.toggle p <;> cases h2 : s.toggle (p + 1) <;> simp [pageMerge, PageArray.flip, h1, h2]

variable {head : Nat} {S : Finset Nat} {s : PageArray} {starts : List Nat} {p : Nat}

theorem Merged.toggle_self (h : Merged head S s starts) (hp : p ∉ S) : s.toggle p = true ↔ Before S p := by
  rw [h.toggle p]
  simp [hp]

theorem not_before_succ (hp : p ∉ S) : ¬ Before S (p + 1) := by
  rintro ⟨k, hk, heq⟩
  exact hp (by rwa [Nat.succ_inj.mp heq])

theorem Merged.toggle_succ (h : Merged head S s starts) (hp : p ∉ S) :
    s.toggle (p + 1) = true ↔ p + 1 ∈ S := by
  rw [h.toggle (p + 1)]
  simp [not_before_succ hp]

theorem Merged.merge_toggle (h : Merged head S s starts) (hp : p ∉ S) (q : Nat) :
    (pageMerge head s p).toggle q = true ↔ ¬ (q ∈ insert p S ↔ Before (insert p S) q) := by
  have hself := h.toggle_self hp
  have hsucc := h.toggle_succ hp
  have hbefore := not_before_succ hp
  rw [pageMerge_eq, before_insert, Finset.mem_insert]
  simp only
  by_cases h2 : q = p + 1
  · subst h2
    rw [Function.update_self]
    simp only [Bool.not_eq_true', ← Bool.not_eq_true, hsucc]
    simp
  · rw [Function.update_of_ne h2]
    by_cases h1 : q = p
    · subst h1
      rw [Function.update_self]
      simp only [Bool.not_eq_true', ← Bool.not_eq_true, hself]
      simp
    · rw [Function.update_of_ne h1, h.toggle q]
      simp [h1, h2]

/-- The list gains `p` unless a run ends before it, and loses the run that begins behind it. -/
theorem Merged.merge_ring (h : Merged head S s starts) (hp : p ∉ S) (hhead : p ≠ head) :
    ∃ starts', IsRing (pageMerge head s p).links head starts' ∧
      ∀ a, a ∈ starts' ↔ a ∈ insert p S ∧ ¬ Before (insert p S) a := by
  have hself := h.toggle_self hp
  have hsucc := h.toggle_succ hp
  have hbefore := not_before_succ hp
  obtain ⟨ls, hring, hls⟩ : ∃ ls, IsRing (if s.toggle p then s.links else s.links.insertTail head p) head ls ∧
      ∀ a, a ∈ ls ↔ (a ∈ S ∧ ¬ Before S a) ∨ (a = p ∧ ¬ Before S p) := by
    by_cases hb : Before S p
    · rw [if_pos (hself.mpr hb)]
      refine ⟨starts, h.ring, fun a => ?_⟩
      rw [h.starts a]
      simp [hb]
    · rw [if_neg (mt hself.mp hb)]
      have hnew : p ∉ head :: starts := by
        rw [List.mem_cons, h.starts]
        simp [hhead, hp]
      refine ⟨starts ++ [p], h.ring.insertTail hnew, fun a => ?_⟩
      rw [List.mem_append, List.mem_singleton, h.starts a]
      simp [hb]
  have hgoal : ∀ a, a ∈ insert p S ∧ ¬ Before (insert p S) a ↔ a ∈ ls ∧ a ≠ p + 1 := by
    intro a
    rw [before_insert, hls, Finset.mem_insert]
    by_cases hap : a = p
    · subst hap
      simp [hp]
    · simp only [hap, false_or, false_and, or_false, not_or]
      exact and_assoc.symm
  rw [pageMerge_eq]
  simp only
  by_cases hnext : p + 1 ∈ S
  · rw [if_pos (hsucc.mpr hnext)]
    obtain ⟨as, bs, rfl⟩ := List.append_of_mem ((hls (p + 1)).mpr (.inl ⟨hnext, hbefore⟩))
    refine ⟨as ++ bs, hring.unlink, fun a => ?_⟩
    rw [hgoal a]
    have hnd := (List.nodup_middle.mp (List.nodup_cons.mp hring.nodup).2)
    rw [List.nodup_cons] at hnd
    constructor
    · intro ha
      refine ⟨?_, fun heq => hnd.1 (heq ▸ ha)⟩
      rcases List.mem_append.mp ha with ha | ha
      · exact List.mem_append_left _ ha
      · exact List.mem_append_right _ (.tail _ ha)
    · rintro ⟨ha, hne⟩
      rcases List.mem_append.mp ha with ha | ha
      · exact List.mem_append_left _ ha
      · exact List.mem_append_right _ (List.mem_of_ne_of_mem hne ha)
  · rw [if_neg (mt hsucc.mp hnext)]
    refine ⟨ls, hring, fun a => ?_⟩
    rw [hgoal a]
    refine ⟨fun ha => ⟨ha, fun heq => ?_⟩, fun ha => ha.1⟩
    rcases (hls a).mp ha with hmem | hmem
    · exact hnext (heq ▸ hmem.1)
    · omega

theorem Merged.page1_eq (h : Merged head S s starts) (hp : p ∉ S) {a b : Nat}
    (hrun : IsRun (insert p S) a b) (ha : a ≤ p) (hb : p ≤ b) :
    (if s.toggle p then s.partner (p - 1) else p) = a := by
  rcases Nat.lt_or_eq_of_le ha with hlt | rfl
  · have hrun' := hrun.before hp hlt hb
    have hbefore : Before S p := ⟨p - 1, hrun'.stop, by omega⟩
    rw [if_pos ((h.toggle_self hp).mpr hbefore)]
    exact (h.partner a (p - 1) hrun').2
  · refine if_neg fun htoggle => hrun.first (before_insert.mpr (.inl ?_))
    exact (h.toggle_self hp).mp htoggle

theorem Merged.page2_eq (h : Merged head S s starts) (hp : p ∉ S) {a b : Nat}
    (hrun : IsRun (insert p S) a b) (ha : a ≤ p) (hb : p ≤ b) :
    (if s.toggle (p + 1) then s.partner (p + 1) else p) = b := by
  rcases Nat.lt_or_eq_of_le hb with hlt | rfl
  · have hrun' := hrun.behind hp ha hlt
    rw [if_pos ((h.toggle_succ hp).mpr hrun'.start)]
    exact (h.partner (p + 1) b hrun').1
  · refine if_neg fun htoggle => hrun.last (Finset.mem_insert_of_mem ?_)
    exact (h.toggle_succ hp).mp htoggle

theorem Merged.merge_partner (h : Merged head S s starts) (hp : p ∉ S) {a b : Nat}
    (hrun : IsRun (insert p S) a b) :
    (pageMerge head s p).partner a = b ∧ (pageMerge head s p).partner b = a := by
  -- the run of `p` itself, whose ends are the two entries written
  obtain ⟨a₀, b₀, hrun₀, ha₀, hb₀⟩ := exists_isRun (Finset.mem_insert_self p S)
  rw [pageMerge_eq]
  simp only [h.page1_eq hp hrun₀ ha₀ hb₀, h.page2_eq hp hrun₀ ha₀ hb₀]
  by_cases hin : a ≤ p ∧ p ≤ b
  · obtain ⟨rfl, rfl⟩ := hrun.eq_of_mem hrun₀ hin.1 hin.2 ha₀ hb₀
    rw [Function.update_self]
    refine ⟨?_, rfl⟩
    by_cases hab : a = b
    · rw [hab, Function.update_self]
    · rw [Function.update_of_ne hab, Function.update_self]
  · have hold := h.partner a b (hrun.of_insert hin)
    have hdis : ∀ k, a ≤ k → k ≤ b → a₀ ≤ k → k ≤ b₀ → False := fun k h1 h2 h3 h4 => by
      obtain ⟨rfl, rfl⟩ := hrun.eq_of_mem hrun₀ h1 h2 h3 h4
      exact hin ⟨ha₀, hb₀⟩
    have hle := hrun.le
    have hne : ∀ k, a ≤ k → k ≤ b → k ≠ a₀ ∧ k ≠ b₀ := fun k hka hkb =>
      ⟨fun heq => hdis k hka hkb (by omega) (by omega), fun heq => hdis k hka hkb (by omega) (by omega)⟩
    obtain ⟨ha1, ha2⟩ := hne a (Nat.le_refl a) hle
    obtain ⟨hb1, hb2⟩ := hne b hle (Nat.le_refl b)
    rw [Function.update_of_ne ha2, Function.update_of_ne ha1, Function.update_of_ne hb2,
      Function.update_of_ne hb1]
    exact hold

/-- **One merge.** -/
theorem Merged.merge (h : Merged head S s starts) (hp : p ∉ S) (hhead : p ≠ head) :
    ∃ starts', Merged head (insert p S) (pageMerge head s p) starts' := by
  obtain ⟨starts', hring, hstarts⟩ := h.merge_ring hp hhead
  exact ⟨starts', h.merge_toggle hp, hring, hstarts, fun a b hrun => h.merge_partner hp hrun⟩

/-- **Any number of merges**, of pages not merged before. -/
theorem Merged.foldl (h : Merged head S s starts) (pages : List Nat) (hnd : pages.Nodup)
    (hnew : ∀ p ∈ pages, p ∉ S ∧ p ≠ head) :
    ∃ starts', Merged head (S ∪ pages.toFinset) (pages.foldl (pageMerge head) s) starts' := by
  induction pages generalizing S s starts with
  | nil => exact ⟨starts, by simpa using h⟩
  | cons p pages ih =>
    obtain ⟨hp, hnd⟩ := List.nodup_cons.mp hnd
    obtain ⟨hpS, hphead⟩ := hnew p (.head _)
    obtain ⟨starts', h'⟩ := h.merge hpS hphead
    obtain ⟨starts'', h''⟩ := ih h' hnd fun q hq => by
      obtain ⟨hqS, hqhead⟩ := hnew q (.tail _ hq)
      refine ⟨fun hmem => ?_, hqhead⟩
      rcases Finset.mem_insert.mp hmem with rfl | hmem
      · exact hp hq
      · exact hqS hmem
    refine ⟨starts'', ?_⟩
    rw [List.toFinset_cons, Finset.union_insert, ← Finset.insert_union]
    exact h''

/-! ## Reading the runs -/

theorem Merged.starts_length (h : Merged head S s starts) (hS : ∀ p ∈ S, p < NPAGES) :
    starts.length < NPAGES + 1 := by
  have hsub : starts ⊆ List.range NPAGES := fun a ha =>
    List.mem_range.mpr (hS a ((h.starts a).mp ha).1)
  have hle := (List.subperm_of_subset (List.nodup_cons.mp h.ring.nodup).2 hsub).length_le
  rw [List.length_range] at hle
  omega

theorem Merged.ranges_eq (h : Merged head S s starts) (hS : ∀ p ∈ S, p < NPAGES) :
    ranges head s = starts.reverse.map fun a => (a, s.partner a) := by
  rw [ranges, h.ring.walk_prev _ (h.starts_length hS)]

/-- The ranges read are the runs. -/
theorem Merged.mem_ranges (h : Merged head S s starts) (hS : ∀ p ∈ S, p < NPAGES) (a b : Nat) :
    (a, b) ∈ ranges head s ↔ IsRun S a b := by
  rw [h.ranges_eq hS, List.mem_map]
  constructor
  · rintro ⟨a', ha', heq⟩
    obtain ⟨rfl, rfl⟩ := Prod.mk.inj heq
    obtain ⟨hmem, hfirst⟩ := (h.starts a').mp (List.mem_reverse.mp ha')
    obtain ⟨c, d, hrun, hc, hd⟩ := exists_isRun hmem
    have hca : c = a' := by
      refine Nat.le_antisymm hc (Nat.le_of_not_lt fun hlt => hfirst ⟨a' - 1, ?_, by omega⟩)
      exact hrun.mem (a' - 1) (by omega) (by omega)
    subst hca
    rwa [(h.partner c d hrun).1]
  · intro hrun
    refine ⟨a, List.mem_reverse.mpr ((h.starts a).mpr ⟨hrun.start, hrun.first⟩), ?_⟩
    rw [(h.partner a b hrun).1]

theorem Merged.ranges_nodup (h : Merged head S s starts) (hS : ∀ p ∈ S, p < NPAGES) :
    (ranges head s).Nodup := by
  rw [h.ranges_eq hS]
  refine List.Nodup.map (fun a a' heq => (Prod.mk.inj heq).1) ?_
  exact List.nodup_reverse.mpr (List.nodup_cons.mp h.ring.nodup).2

theorem foldl_clearToggles (rs : List (Nat × Nat)) (toggle : Nat → Bool) (q : Nat)
    (h : toggle q = true → ∃ r ∈ rs, q = r.1 ∨ q = r.2 + 1) : rs.foldl clearToggles toggle q = false := by
  induction rs generalizing toggle with
  | nil =>
    rw [List.foldl_nil, ← Bool.not_eq_true]
    intro hq
    obtain ⟨r, hr, -⟩ := h hq
    cases hr
  | cons r rs ih =>
    refine ih (clearToggles toggle r) fun hq => ?_
    unfold clearToggles at hq
    by_cases h2 : q = r.2 + 1
    · simp [h2] at hq
    · by_cases h1 : q = r.1
      · rw [Function.update_of_ne h2, h1, Function.update_self] at hq
        cases hq
      · rw [Function.update_of_ne h2, Function.update_of_ne h1] at hq
        obtain ⟨r', hr', heq⟩ := h hq
        rcases List.mem_cons.mp hr' with rfl | hr'
        · omega
        · exact ⟨r', hr', heq⟩

/-- The walk leaves no page merged. -/
theorem Merged.flush (h : Merged head S s starts) (hS : ∀ p ∈ S, p < NPAGES) :
    Merged head ∅ (flush head s) [] where
  toggle q := by
    have hoff : (Tmk.flush head s).toggle q = false := by
      refine foldl_clearToggles _ s.toggle q fun hq => ?_
      -- a toggle is on at the first page of a run or behind its last
      have hq := (h.toggle q).mp hq
      by_cases hmem : q ∈ S
      · have hfirst : ¬ Before S q := fun hb => hq ⟨fun _ => hb, fun _ => hmem⟩
        obtain ⟨a, b, hrun, ha, hb⟩ := exists_isRun hmem
        have haq : a = q := by
          refine Nat.le_antisymm ha (Nat.le_of_not_lt fun hlt => hfirst ⟨q - 1, ?_, by omega⟩)
          exact hrun.mem (q - 1) (by omega) (by omega)
        exact ⟨(a, b), (h.mem_ranges hS a b).mpr hrun, .inl haq.symm⟩
      · have hbefore : Before S q := by
          by_contra hb
          exact hq ⟨fun hm => absurd hm hmem, fun hb' => absurd hb' hb⟩
        obtain ⟨k, hk, rfl⟩ := hbefore
        obtain ⟨a, b, hrun, ha, hb⟩ := exists_isRun hk
        have hkb : b = k := by
          refine Nat.le_antisymm (Nat.le_of_not_lt fun hlt => hmem ?_) hb
          exact hrun.mem (k + 1) (by omega) hlt
        exact ⟨(a, b), (h.mem_ranges hS a b).mpr hrun, .inr (by omega)⟩
    simp [hoff, Before]
  ring := isRing_reset _ head
  starts a := by simp
  partner a b hrun := absurd hrun.start (by simp)

theorem merged_initial (head : Nat) : Merged head ∅ (pageInitialize head) [] where
  toggle q := by simp [pageInitialize, Before]
  ring := isRing_reset _ head
  starts a := by simp
  partner a b hrun := absurd hrun.start (by simp)

theorem mem_iff_isRun (S : Finset Nat) (p : Nat) : p ∈ S ↔ ∃ a b, IsRun S a b ∧ a ≤ p ∧ p ≤ b :=
  ⟨exists_isRun, fun ⟨_, _, hrun, ha, hb⟩ => hrun.mem p ha hb⟩

/-- `rs` are the maximal runs of `pages`, each once; a page is one of `pages` exactly if it lies in one. -/
structure AreRuns (rs : List (Nat × Nat)) (pages : List Nat) : Prop where
  nodup : rs.Nodup
  runs : ∀ a b, (a, b) ∈ rs ↔ IsRun pages.toFinset a b
  cover : ∀ p, p ∈ pages ↔ ∃ r ∈ rs, r.1 ≤ p ∧ p ≤ r.2

theorem Merged.areRuns {pages : List Nat} (h : Merged head pages.toFinset s starts)
    (hlt : ∀ p ∈ pages, p < NPAGES) : AreRuns (ranges head s) pages := by
  have hS : ∀ p ∈ pages.toFinset, p < NPAGES := fun p hp => hlt p (List.mem_toFinset.mp hp)
  refine ⟨h.ranges_nodup hS, h.mem_ranges hS, fun p => ?_⟩
  rw [← List.mem_toFinset, mem_iff_isRun]
  constructor
  · rintro ⟨a, b, hrun, ha, hb⟩
    exact ⟨(a, b), (h.mem_ranges hS a b).mpr hrun, ha, hb⟩
  · rintro ⟨⟨a, b⟩, hr, ha, hb⟩
    exact ⟨a, b, (h.mem_ranges hS a b).mp hr, ha, hb⟩

theorem Merged.epochs (h : Merged head ∅ s starts) (hhead : NPAGES ≤ head) (es : List (List Nat))
    (hes : ∀ pages ∈ es, pages.Nodup ∧ ∀ p ∈ pages, p < NPAGES) :
    List.Forall₂ AreRuns (Tmk.epochs head s es) es := by
  induction es generalizing s starts with
  | nil => exact .nil
  | cons pages es ih =>
    obtain ⟨hnd, hlt⟩ := hes pages (.head _)
    obtain ⟨starts', h'⟩ := h.foldl pages hnd fun p hp => ⟨by simp, by have := hlt p hp; omega⟩
    rw [Finset.empty_union] at h'
    have hS : ∀ p ∈ pages.toFinset, p < NPAGES := fun p hp => hlt p (List.mem_toFinset.mp hp)
    rw [Tmk.epochs]
    exact .cons (h'.areRuns hlt) (ih (h'.flush hS) fun pages' hpages' => hes pages' (.tail _ hpages'))

/-! ## Top theorems -/

/-- **Merged pages are read back as runs.**  From the initialised array, whatever pages are merged between one
flush and the next, each once and in any order, the flush reads exactly the maximal runs of these pages. -/
theorem epochs_ranges (head : Nat) (hhead : NPAGES ≤ head) (es : List (List Nat))
    (hes : ∀ pages ∈ es, pages.Nodup ∧ ∀ p ∈ pages, p < NPAGES) :
    List.Forall₂ AreRuns (epochs head (pageInitialize head) es) es :=
  (merged_initial head).epochs hhead es hes

theorem epochs_ranges_dirty :
    List.Forall₂ AreRuns (epochs pageDirty (pageInitialize pageDirty) [[3, 5, 0, 4], [1]]) [[3, 5, 0, 4], [1]] :=
  epochs_ranges pageDirty (by decide) [[3, 5, 0, 4], [1]] (by decide)

example : epochs pageDirty (pageInitialize pageDirty) [[3, 5, 0, 4], [1]] = [[(0, 0), (3, 5)], [(1, 1)]] := by
  decide

end Tmk
