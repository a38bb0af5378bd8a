import Mathlib.Data.List.Forall2
import SistemasDistribuidos.Lib.Runs
import SistemasDistribuidos.Tmk.Diff

/-!
# The heap the diffs are written to, in `Tmk/src/diff.c`

`Tmk_diff_create` writes a diff at `heap_1_brk` without asking how long it will be.  A chunk
of the heap ends in `heap_overflow_`, of `MTU` bytes; only when a diff is finished and
`heap_1_brk` has reached the overflow does the heap go on in the next chunk.  Nothing is
freed before `Tmk_diff_repo`, which starts again at the first chunk.

    no diff is written past the end of its chunk, and a diff that a write notice
    points to stays as it was created until the next repo          (createRun_reads)

Addresses are in units of two bytes, as `start` counts them.
-/

namespace Tmk

open Patch

/-! ## Algorithm -/

def H_SIZE : Nat := 1048576

def MTU : Nat := 32768

/-- `heap_`, of `H_SIZE - MTU - sizeof(struct heap *)` bytes. -/
def heapLength : Nat := (H_SIZE - MTU - 4) / 2

/-- With `heap_overflow_`. -/
def chunkLength : Nat := heapLength + MTU / 2

/-- `heap_1_current`, counted from `heap_1_start`, and `heap_1_brk` from the start of its `heap_`. -/
structure Heap where
  mem : Nat → Nat → Half
  current : Nat
  brk : Nat

/-- `write_notice->diff`, as a chunk and a place in it, and `write_notice->diff_size`. -/
structure DiffPtr where
  chunk : Nat
  diff : Nat
  diff_size : Nat
deriving DecidableEq, Repr

namespace Heap

def ptrInitialize (h : Heap) (chunk : Nat) : Heap := { h with current := chunk, brk := 0 }

/-- The stores of a diff from `brk` on; `none` is a store past the end of the chunk. -/
def store (h : Heap) (diff : List Half) : Option Heap :=
  if h.brk + diff.length ≤ chunkLength then
    some { h with mem := fun c i => if c = h.current ∧ h.brk ≤ i then diff[i - h.brk]?.getD (h.mem c i)
                                    else h.mem c i }
  else none

/-- The end of `Tmk_diff_create`: the break behind the diff, or the next chunk. -/
def advance (h : Heap) (size : Nat) : Heap :=
  if h.brk + size ≥ heapLength then h.ptrInitialize (h.current + 1) else { h with brk := h.brk + size }

def read (h : Heap) (p : DiffPtr) : List Half := (List.range p.diff_size).map fun i => h.mem p.chunk (p.diff + i)

end Heap

/-- The heap and the diffs that write notices point to, the newest first. -/
structure HeapState where
  heap : Heap
  diffs : List DiffPtr

inductive HeapOp where
  | create (vadr twin : List Word)
  | repo

/-- `Tmk_diff_create`, and `Tmk_diff_repo` with the write notices dropped. -/
def heapStep (s : HeapState) : HeapOp → Option HeapState
  | .create vadr twin =>
    let diff := diffCreate vadr twin
    (s.heap.store diff).map fun heap =>
      ⟨heap.advance diff.length, ⟨s.heap.current, s.heap.brk, diff.length⟩ :: s.diffs⟩
  | .repo => some ⟨s.heap.ptrInitialize 0, []⟩

def heapInit (mem : Nat → Nat → Half) : HeapState := ⟨⟨mem, 0, 0⟩, []⟩

/-- The pages and twins of the diffs created since the last repo, the newest first. -/
def createdSince : List HeapOp → List (List Word × List Word) → List (List Word × List Word)
  | [], ps => ps
  | .create vadr twin :: ops, ps => createdSince ops ((vadr, twin) :: ps)
  | .repo :: ops, _ => createdSince ops []

/-! ## Lemmas -/

/-- Written before the break, so that no later store meets it. -/
def Heap.Below (h : Heap) (p : DiffPtr) : Prop :=
  p.chunk < h.current ∨ p.chunk = h.current ∧ p.diff + p.diff_size ≤ h.brk

structure HeapInv (s : HeapState) (ps : List (List Word × List Word)) : Prop where
  brk : s.heap.brk < heapLength
  reads : List.Forall₂ (fun p q => s.heap.Below p ∧ s.heap.read p = diffCreate q.1 q.2) s.diffs ps

theorem Heap.read_store (h h' : Heap) (diff : List Half) (p : DiffPtr) (hs : h.store diff = some h')
    (hp : h.Below p) : h'.read p = h.read p := by
  unfold Heap.store at hs
  split at hs
  · cases hs
    refine List.map_congr_left fun i hi => ?_
    have hi := List.mem_range.mp hi
    simp only
    rw [if_neg]
    rintro ⟨hc, hb⟩
    rcases hp with hp | ⟨-, hp⟩ <;> omega
  · cases hs

theorem Heap.read_stored (h h' : Heap) (diff : List Half) (hs : h.store diff = some h') :
    h'.read ⟨h.current, h.brk, diff.length⟩ = diff := by
  unfold Heap.store at hs
  split at hs
  · cases hs
    refine List.ext_getElem? fun i => ?_
    simp only [Heap.read, List.getElem?_map]
    by_cases hi : i < diff.length
    · simp [hi]
    · rw [List.getElem?_eq_none (by simpa using hi), List.getElem?_eq_none (by omega)]
      rfl
  · cases hs

theorem Heap.advance_read (h : Heap) (size : Nat) (p : DiffPtr) : (h.advance size).read p = h.read p := by
  unfold Heap.advance
  split <;> rfl

theorem Heap.advance_brk (h : Heap) (size : Nat) : (h.advance size).brk < heapLength := by
  unfold Heap.advance
  split
  · exact Nat.zero_lt_of_lt (show 0 < heapLength by decide)
  · next hlt => exact Nat.lt_of_not_ge hlt

theorem Heap.Below.advance {h : Heap} {p : DiffPtr} (hp : h.Below p) (size : Nat) : (h.advance size).Below p := by
  unfold Heap.advance
  rcases hp with hp | ⟨heq, hle⟩
  · split
    · exact .inl (Nat.lt_succ_of_lt hp)
    · exact .inl hp
  · split
    · exact .inl (Nat.lt_succ_of_le heq.le)
    · exact .inr ⟨heq, Nat.le_trans hle (Nat.le_add_right _ _)⟩

theorem Heap.below_stored (h : Heap) (size : Nat) : (h.advance size).Below ⟨h.current, h.brk, size⟩ := by
  unfold Heap.advance
  split
  · exact .inl (Nat.lt_succ_self _)
  · exact .inr ⟨rfl, Nat.le_refl _⟩

theorem Heap.store_eq_some (h : Heap) (diff : List Half) (hbrk : h.brk < heapLength)
    (hdiff : 2 * diff.length ≤ MTU) : ∃ h', h.store diff = some h' ∧ h'.current = h.current ∧ h'.brk = h.brk := by
  have hfit : h.brk + diff.length ≤ chunkLength := by
    unfold chunkLength
    omega
  exact ⟨_, if_pos hfit, rfl, rfl⟩

/-- A diff that fits the overflow is written, and the diffs there were stay as they are. -/
theorem HeapInv.create {s : HeapState} {ps : List (List Word × List Word)} (h : HeapInv s ps)
    (vadr twin : List Word) (hdiff : 2 * (diffCreate vadr twin).length ≤ MTU) :
    ∃ t, heapStep s (.create vadr twin) = some t ∧ HeapInv t ((vadr, twin) :: ps) := by
  obtain ⟨heap, hs, hcur, hbrk⟩ := s.heap.store_eq_some (diffCreate vadr twin) h.brk hdiff
  refine ⟨⟨heap.advance (diffCreate vadr twin).length,
    ⟨s.heap.current, s.heap.brk, (diffCreate vadr twin).length⟩ :: s.diffs⟩,
    by rw [heapStep, hs]; rfl, heap.advance_brk _, List.forall₂_cons.mpr ⟨⟨?_, ?_⟩, ?_⟩⟩
  · have hbelow := heap.below_stored (diffCreate vadr twin).length
    rwa [hcur, hbrk] at hbelow
  · rw [Heap.advance_read]
    exact s.heap.read_stored heap _ hs
  · refine h.reads.imp fun p q hpq => ⟨?_, ?_⟩
    · have hbelow : heap.Below p := by
        unfold Heap.Below
        rw [hcur, hbrk]
        exact hpq.1
      exact hbelow.advance _
    · rw [Heap.advance_read, s.heap.read_store heap _ p hs hpq.1]
      exact hpq.2

theorem HeapInv.repo (s : HeapState) : ∃ t, heapStep s .repo = some t ∧ HeapInv t [] :=
  ⟨_, rfl, show 0 < heapLength by decide, .nil⟩

theorem HeapInv.run (n : Nat) (h4 : n % 4 = 0) (hsize : 4 * n < 2 ^ 15) (ops : List HeapOp)
    (hops : ∀ vadr twin, .create vadr twin ∈ ops → vadr.length = n ∧ twin.length = n) {s : HeapState}
    {ps : List (List Word × List Word)} (h : HeapInv s ps) :
    ∃ t, Runs.run heapStep s ops = some t ∧ HeapInv t (createdSince ops ps) := by
  induction ops generalizing s ps with
  | nil => exact ⟨s, rfl, h⟩
  | cons op ops ih =>
    have hrest : ∀ vadr twin, .create vadr twin ∈ ops → vadr.length = n ∧ twin.length = n :=
      fun vadr twin hmem => hops vadr twin (.tail _ hmem)
    cases op with
    | create vadr twin =>
      obtain ⟨hv, ht⟩ := hops vadr twin (.head _)
      have hlen := diffCreate_length vadr twin (by omega) (by omega)
      have hfit : 2 * (diffCreate vadr twin).length ≤ MTU := by
        unfold MTU
        omega
      obtain ⟨t, hstep, ht⟩ := h.create vadr twin hfit
      obtain ⟨u, hrun, hu⟩ := ih hrest ht
      exact ⟨u, (Runs.run_cons_eq_some _ _ _ _ _).mpr ⟨t, hstep, hrun⟩, hu⟩
    | repo =>
      obtain ⟨t, hstep, ht⟩ := HeapInv.repo s
      obtain ⟨u, hrun, hu⟩ := ih hrest ht
      exact ⟨u, (Runs.run_cons_eq_some _ _ _ _ _).mpr ⟨t, hstep, hrun⟩, hu⟩

/-! ## Top theorems -/

/-- **The heap holds every diff.**  However many diffs are created and however often the heap is taken back,
no store leaves its chunk, and each diff created since the last repo is still what was made of its page and
twin. -/
theorem createRun_reads (n : Nat) (h4 : n % 4 = 0) (hsize : 4 * n < 2 ^ 15) (mem : Nat → Nat → Half)
    (ops : List HeapOp) (hops : ∀ vadr twin, .create vadr twin ∈ ops → vadr.length = n ∧ twin.length = n) :
    ∃ s, Runs.run heapStep (heapInit mem) ops = some s ∧
      List.Forall₂ (fun p q => s.heap.read p = diffCreate q.1 q.2) s.diffs (createdSince ops []) := by
  have hinit : HeapInv (heapInit mem) [] := ⟨show 0 < heapLength by decide, .nil⟩
  obtain ⟨s, hrun, hs⟩ := HeapInv.run n h4 hsize ops hops hinit
  exact ⟨s, hrun, hs.reads.imp fun p q hpq => hpq.2⟩

/-- Two diffs, a repo, and two diffs more, which are written over the first. -/
theorem createRun_reads_four :
    let page (a b c d : Half) : List Word := [⟨a, 0⟩, ⟨b, 0⟩, ⟨c, 0⟩, ⟨d, 0⟩]
    let ops : List HeapOp := [.create (page 1 2 3 4) (page 1 0 3 4), .create (page 1 2 3 5) (page 1 2 3 4), .repo,
      .create (page 1 0 3 5) (page 1 0 3 4), .create (page 7 2 3 9) (page 1 2 3 5)]
    ∃ s, Runs.run heapStep (heapInit fun _ _ => 0) ops = some s ∧ s.diffs = [⟨0, 6, 10⟩, ⟨0, 0, 6⟩] ∧
      s.diffs.map s.heap.read = [[4, 0, 7, 0, 4, 12, 9, 0, 0, 0], [4, 12, 5, 0, 0, 0]] := by
  intro page ops
  have hops : ∀ vadr twin, .create vadr twin ∈ ops → vadr.length = 4 ∧ twin.length = 4 := by
    intro vadr twin hmem
    simp only [ops, List.mem_cons, HeapOp.create.injEq, reduceCtorEq, List.not_mem_nil, or_false, false_or] at hmem
    rcases hmem with ⟨rfl, rfl⟩ | ⟨rfl, rfl⟩ | ⟨rfl, rfl⟩ | ⟨rfl, rfl⟩ <;> exact ⟨rfl, rfl⟩
  obtain ⟨s, hrun, hs⟩ := createRun_reads 4 rfl (by decide) (fun _ _ => 0) ops hops
  refine ⟨s, hrun, ?_, ?_⟩
  · have hdiffs : (some s).map HeapState.diffs = some [⟨0, 6, 10⟩, ⟨0, 0, 6⟩] := by
      rw [← hrun]
      decide
    exact Option.some.inj hdiffs
  · have hread := List.forall₂_map_left_iff.mpr (List.forall₂_map_right_iff.mpr hs)
    rw [List.forall₂_eq_eq_eq] at hread
    rw [hread]
    decide

end Tmk
