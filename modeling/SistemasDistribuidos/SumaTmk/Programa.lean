import SistemasDistribuidos.Lib.Cuts
import SistemasDistribuidos.Lib.Runs
import Mathlib.Data.Fintype.Basic
import Mathlib.Algebra.BigOperators.Fin

/-!
# Parallel sum over TreadMarks

`codigo/suma_tmk.c` as one program run by `n = Tmk_nprocs` processes.

* **Memory**: `shared->array`, `shared->sum` and `shared->turn`.  `turn` is read and
  written outside the lock, so the state keeps every value ever written to it
  (`turnos`) and, for each process, how far into that history it has already seen
  (`visto`): a read may return any entry from there on.  A barrier brings `visto`
  up to the last write made before it.
* **Barriers**: the program calls `Tmk_barrier(0)` `n + 2` times; call `b` is left only
  when everybody has arrived at it.
* **Lock 0**: one holder at a time; the holder works on its own copy of `sum`, and the
  release publishes it to the next acquirer.

An action is a process together with the entry of `turnos` it reads, if it reads one.
Memory for `shared` and its array is assumed to be granted, and the frees after the
last print, which nobody reads past, are left out.
-/

namespace SumaTmk

/-! ## Intervals -/

/-- `start` of process `id`; the source computes `end` by the same formula at `id + 1`. -/
def start (DIM nprocs id : Nat) : Nat :=
  let perProc := DIM / nprocs
  let leftOver := DIM % nprocs
  id * perProc + id * leftOver / nprocs

theorem start_eq (DIM n id : Nat) (hn : 0 < n) : start DIM n id = id * DIM / n := by
  have h : id * DIM = n * (id * (DIM / n)) + id * (DIM % n) := by
    conv_lhs => rw [← Nat.div_add_mod DIM n]
    rw [Nat.mul_add, Nat.mul_left_comm]
  rw [h, Nat.mul_add_div hn, start]

theorem start_zero (DIM n : Nat) : start DIM n 0 = 0 := by
  simp [start]

theorem start_nprocs (DIM n : Nat) (hn : 0 < n) : start DIM n n = DIM := by
  rw [start_eq _ _ _ hn, Nat.mul_div_cancel_left _ hn]

theorem start_monotone (DIM n : Nat) (hn : 0 < n) : Monotone (start DIM n) := by
  intro p q h
  rw [start_eq _ _ _ hn, start_eq _ _ _ hn]
  exact Nat.div_le_div_right (Nat.mul_le_mul_right _ h)

/-- A block has `DIM / nprocs` elements or one more. -/
theorem start_succ (DIM n p : Nat) (hn : 0 < n) :
    start DIM n p + DIM / n ≤ start DIM n (p + 1) ∧
      start DIM n (p + 1) ≤ start DIM n p + DIM / n + 1 := by
  have hr : DIM % n < n := Nat.mod_lt _ hn
  -- the shares of the remainder at `p` and `p + 1` differ by less than one whole `n`
  have hlo : p * (DIM % n) / n ≤ (p + 1) * (DIM % n) / n :=
    Nat.div_le_div_right (Nat.mul_le_mul_right _ (Nat.le_succ p))
  have hhi : (p + 1) * (DIM % n) / n ≤ p * (DIM % n) / n + 1 := by
    rw [← Nat.add_div_right _ hn]
    refine Nat.div_le_div_right ?_
    rw [Nat.succ_mul]
    omega
  have hq : (p + 1) * (DIM / n) = p * (DIM / n) + DIM / n := Nat.succ_mul _ _
  simp only [start]
  omega

/-- **Block distribution.**  The intervals `[start, end)` of the processes are disjoint, one after the
other they are `0, ..., DIM - 1`, and no two of them differ in size by more than one. -/
theorem bloques_reparten (DIM nprocs : Nat) (hn : 1 ≤ nprocs) :
    (∀ p q, p < nprocs → q < nprocs → p ≠ q →
      Disjoint (Finset.Ico (start DIM nprocs p) (start DIM nprocs (p + 1)))
        (Finset.Ico (start DIM nprocs q) (start DIM nprocs (q + 1)))) ∧
    (List.range nprocs).flatMap (fun p => List.range' (start DIM nprocs p)
      (start DIM nprocs (p + 1) - start DIM nprocs p)) = List.range DIM ∧
    ∀ p q, p < nprocs → q < nprocs →
      (Finset.Ico (start DIM nprocs p) (start DIM nprocs (p + 1))).card ≤
        (Finset.Ico (start DIM nprocs q) (start DIM nprocs (q + 1))).card + 1 := by
  have hmono := start_monotone DIM nprocs hn
  refine ⟨fun p q _ _ hpq => ?_, ?_, fun p q _ _ => ?_⟩
  · rw [Finset.disjoint_left]
    intro i hp hq
    rw [Finset.mem_Ico] at hp hq
    exact hpq (Cuts.piece_unique _ hmono p q i hp.1 hp.2 hq.1 hq.2)
  · have h := Cuts.flatMap_pieces (start DIM nprocs) (start_zero DIM nprocs) hmono nprocs
    rw [start_nprocs DIM nprocs hn] at h
    exact h
  · have hp := start_succ DIM nprocs p hn
    have hq := start_succ DIM nprocs q hn
    rw [Nat.card_Ico, Nat.card_Ico]
    omega

/-- Seven elements over three processes: blocks of two, two and three. -/
theorem bloques_reparten_siete : (List.range 3).flatMap (fun p => List.range' (start 7 3 p)
    (start 7 3 (p + 1) - start 7 3 p)) = [0, 1, 2, 3, 4, 5, 6] ∧
    (start 7 3 1, start 7 3 2, start 7 3 3) = (2, 4, 7) :=
  ⟨(bloques_reparten 7 3 (by decide)).2.1, by decide⟩

/-! ## Algorithm -/

def COORDINADOR : Nat := 0

/-- What the processes print, in order. -/
inductive Evento where
  | somos (nprocs : Nat)
  | yoSoy (id start fin : Nat)
  | misElementos (id : Nat)
  | elem (id i : Nat) (v : Int)
  | laSuma (v : Int)
  deriving DecidableEq, Repr

/-- Where a process is.  `b` counts the barriers, `k` the turns of the loop, `i` the
element being printed or added, `m` is `mySum`, and `t` a value read from memory. -/
inductive Pc where
  | inicio
  | llega (b : Nat)
  | espera (b : Nat)
  | saluda
  | presenta
  | revisa (k : Nat)
  | cabecera (k : Nat)
  | imprime (k i : Nat)
  | leeTurno (k : Nat)
  | escribeTurno (k t : Nat)
  | sumaLocal (i : Nat) (m : Int)
  | pideCandado (m : Int)
  | leeSum (m : Int)
  | escribeSum (m t : Int)
  | suelta (t : Int)
  | imprimeSuma
  | fin
  deriving DecidableEq, Repr

structure Estado (n : Nat) where
  pc : Fin n → Pc
  /-- Entry of `turnos` each process has last seen. -/
  visto : Fin n → Nat
  /-- The values written to `shared->turn`, oldest first. -/
  turnos : List Nat
  /-- Barrier ↦ last entry of `turnos` at the latest arrival there. -/
  marca : Nat → Nat
  array : Nat → Int
  /-- `shared->sum` as the last release of the lock left it. -/
  sum : Int
  candado : Option (Fin n)
  salida : List Evento

/-- Barriers a process has arrived at. -/
def llegadas (n : Nat) : Pc → Nat
  | .inicio => 0
  | .llega b => b
  | .espera b => b + 1
  | .saluda | .presenta => 1
  | .revisa k | .cabecera k | .imprime k _ | .leeTurno k | .escribeTurno k _ => k + 1
  | .sumaLocal .. | .pideCandado _ | .leeSum _ | .escribeSum .. | .suelta _ => n + 1
  | .imprimeSuma | .fin => n + 2

/-- Barriers a process has left. -/
def salidas (n : Nat) : Pc → Nat
  | .espera b => b
  | pc => llegadas n pc

/-- Where a process goes on after barrier `b`: into the loop, to its local sum, or to the end. -/
def trasBarrera (DIM n : Nat) (id b : Nat) : Pc :=
  if b = 0 then .saluda
  else if b < n then .revisa b
  else if b = n then .sumaLocal (start DIM n id) 0
  else .imprimeSuma

variable {n : Nat}

@[simps]
def Estado.con (s : Estado n) (p : Fin n) (pc : Pc) : Estado n :=
  { s with pc := Function.update s.pc p pc }

@[simps]
def Estado.imprime (s : Estado n) (e : Evento) : Estado n := { s with salida := s.salida ++ [e] }

/-- A write of `v` to `shared->turn` by `p`, which from then on sees it. -/
@[simps]
def Estado.escribeTurn (s : Estado n) (p : Fin n) (v : Nat) : Estado n :=
  { s with turnos := s.turnos ++ [v], visto := Function.update s.visto p s.turnos.length }

/-- A read of `shared->turn` by `p` that returns entry `j`: nothing older than `p` has seen. -/
def Estado.leeTurn (s : Estado n) (p : Fin n) (j : Nat) : Option (Nat × Estado n) :=
  if s.visto p ≤ j then
    s.turnos[j]?.map fun v => (v, { s with visto := Function.update s.visto p j })
  else none

/-- The coordinator's block before the first barrier. -/
@[simps]
def Estado.inicializa (DIM : Nat) (s : Estado n) (p : Fin n) : Estado n :=
  { s.escribeTurn p 0 with
    array := fun i => if i < DIM then (i : Int) + 1 else s.array i
    sum := 0 }

/-- One step of process `a.1`, reading entry `a.2` of `turnos` where it reads `shared->turn`. -/
def paso (DIM : Nat) (s : Estado n) (a : Fin n × Nat) : Option (Estado n) :=
  let p := a.1
  match s.pc p with
  | .inicio =>
    if p.val = COORDINADOR then some ((s.inicializa DIM p).con p (.llega 0))
    else some (s.con p (.llega 0))
  | .llega b =>
    some { s.con p (.espera b) with marca := Function.update s.marca b (s.turnos.length - 1) }
  | .espera b =>
    if ∀ q, b < llegadas n (s.pc q) then
      some { s.con p (trasBarrera DIM n p b) with
        visto := Function.update s.visto p (max (s.visto p) (s.marca b)) }
    else none
  | .saluda => some ((s.imprime (.somos n)).con p .presenta)
  | .presenta =>
    some ((s.imprime (.yoSoy p (start DIM n p) (start DIM n (p + 1)))).con p (.revisa 0))
  | .revisa k =>
    (s.leeTurn p a.2).map fun (turn, s) =>
      if turn = p.val then s.con p (.cabecera k) else s.con p (.llega (k + 1))
  | .cabecera k => some ((s.imprime (.misElementos p)).con p (.imprime k (start DIM n p)))
  | .imprime k i =>
    if i < start DIM n (p + 1) then
      some ((s.imprime (.elem p i (s.array i))).con p (.imprime k (i + 1)))
    else some (s.con p (.leeTurno k))
  | .leeTurno k => (s.leeTurn p a.2).map fun (turn, s) => s.con p (.escribeTurno k turn)
  | .escribeTurno k turn => some ((s.escribeTurn p (turn + 1)).con p (.llega (k + 1)))
  | .sumaLocal i mySum =>
    if i < start DIM n (p + 1) then some (s.con p (.sumaLocal (i + 1) (mySum + s.array i)))
    else some (s.con p (.pideCandado mySum))
  | .pideCandado mySum =>
    match s.candado with
    | none => some { s.con p (.leeSum mySum) with candado := some p }
    | some _ => none
  | .leeSum mySum => some (s.con p (.escribeSum mySum s.sum))
  | .escribeSum mySum sum => some (s.con p (.suelta (sum + mySum)))
  | .suelta sum => some { s.con p (.llega (n + 1)) with sum := sum, candado := none }
  | .imprimeSuma =>
    if p.val = COORDINADOR then some ((s.imprime (.laSuma s.sum)).con p .fin)
    else some (s.con p .fin)
  | .fin => none

/-- The moves of process `p`, one for each branch of `paso`. -/
inductive Mueve (DIM : Nat) (s : Estado n) (p : Fin n) : Estado n → Prop
  | inicia (hp : p.val = COORDINADOR) (h : s.pc p = .inicio) :
    Mueve DIM s p ((s.inicializa DIM p).con p (.llega 0))
  | empieza (hp : p.val ≠ COORDINADOR) (h : s.pc p = .inicio) :
    Mueve DIM s p (s.con p (.llega 0))
  | llega (b : Nat) (h : s.pc p = .llega b) :
    Mueve DIM s p
      { s.con p (.espera b) with marca := Function.update s.marca b (s.turnos.length - 1) }
  | sale (b : Nat) (hb : ∀ q, b < llegadas n (s.pc q)) (h : s.pc p = .espera b) :
    Mueve DIM s p { s.con p (trasBarrera DIM n p b) with
      visto := Function.update s.visto p (max (s.visto p) (s.marca b)) }
  | saluda (h : s.pc p = .saluda) : Mueve DIM s p ((s.imprime (.somos n)).con p .presenta)
  | presenta (h : s.pc p = .presenta) :
    Mueve DIM s p
      ((s.imprime (.yoSoy p (start DIM n p) (start DIM n (p + 1)))).con p (.revisa 0))
  | esMiTurno (k j : Nat) (hj : s.visto p ≤ j) (hv : s.turnos[j]? = some p.val)
    (h : s.pc p = .revisa k) :
    Mueve DIM s p { s.con p (.cabecera k) with visto := Function.update s.visto p j }
  | noEsMiTurno (k j v : Nat) (hj : s.visto p ≤ j) (hv : s.turnos[j]? = some v)
    (hne : v ≠ p.val) (h : s.pc p = .revisa k) :
    Mueve DIM s p { s.con p (.llega (k + 1)) with visto := Function.update s.visto p j }
  | cabecera (k : Nat) (h : s.pc p = .cabecera k) :
    Mueve DIM s p ((s.imprime (.misElementos p)).con p (.imprime k (start DIM n p)))
  | imprime (k i : Nat) (hi : i < start DIM n (p + 1)) (h : s.pc p = .imprime k i) :
    Mueve DIM s p ((s.imprime (.elem p i (s.array i))).con p (.imprime k (i + 1)))
  | impreso (k i : Nat) (hi : ¬ i < start DIM n (p + 1)) (h : s.pc p = .imprime k i) :
    Mueve DIM s p (s.con p (.leeTurno k))
  | leeTurno (k j v : Nat) (hj : s.visto p ≤ j) (hv : s.turnos[j]? = some v)
    (h : s.pc p = .leeTurno k) :
    Mueve DIM s p { s.con p (.escribeTurno k v) with visto := Function.update s.visto p j }
  | escribeTurno (k t : Nat) (h : s.pc p = .escribeTurno k t) :
    Mueve DIM s p ((s.escribeTurn p (t + 1)).con p (.llega (k + 1)))
  | suma (i : Nat) (m : Int) (hi : i < start DIM n (p + 1)) (h : s.pc p = .sumaLocal i m) :
    Mueve DIM s p (s.con p (.sumaLocal (i + 1) (m + s.array i)))
  | sumado (i : Nat) (m : Int) (hi : ¬ i < start DIM n (p + 1)) (h : s.pc p = .sumaLocal i m) :
    Mueve DIM s p (s.con p (.pideCandado m))
  | adquiere (m : Int) (hc : s.candado = none) (h : s.pc p = .pideCandado m) :
    Mueve DIM s p { s.con p (.leeSum m) with candado := some p }
  | leeSum (m : Int) (h : s.pc p = .leeSum m) : Mueve DIM s p (s.con p (.escribeSum m s.sum))
  | escribeSum (m t : Int) (h : s.pc p = .escribeSum m t) :
    Mueve DIM s p (s.con p (.suelta (t + m)))
  | suelta (t : Int) (h : s.pc p = .suelta t) :
    Mueve DIM s p { s.con p (.llega (n + 1)) with sum := t, candado := none }
  | imprimeSuma (hp : p.val = COORDINADOR) (h : s.pc p = .imprimeSuma) :
    Mueve DIM s p ((s.imprime (.laSuma s.sum)).con p .fin)
  | termina (hp : p.val ≠ COORDINADOR) (h : s.pc p = .imprimeSuma) :
    Mueve DIM s p (s.con p .fin)

theorem leeTurn_eq_some (s t : Estado n) (p : Fin n) (j v : Nat) :
    s.leeTurn p j = some (v, t) ↔
      s.visto p ≤ j ∧ s.turnos[j]? = some v ∧
        t = { s with visto := Function.update s.visto p j } := by
  unfold Estado.leeTurn
  split
  next h =>
    simp only [Option.map_eq_some_iff, Prod.mk.injEq, h, true_and]
    constructor
    · rintro ⟨w, hw, rfl, rfl⟩
      exact ⟨hw, rfl⟩
    · rintro ⟨hv, rfl⟩
      exact ⟨v, hv, rfl, rfl⟩
  next h => simp [h]

/-- Every step is one of the moves. -/
theorem paso_mueve (DIM : Nat) (s t : Estado n) (a : Fin n × Nat) (h : paso DIM s a = some t) :
    Mueve DIM s a.1 t := by
  obtain ⟨p, j⟩ := a
  unfold paso at h
  dsimp only at h ⊢
  split at h
  case h_1 hpc =>
    split at h <;> cases h
    next hp => exact .inicia hp hpc
    next hp => exact .empieza hp hpc
  case h_2 b hpc => cases h; exact .llega b hpc
  case h_3 b hpc =>
    split at h <;> cases h
    next hb => exact .sale b hb hpc
  case h_4 hpc => cases h; exact .saluda hpc
  case h_5 hpc => cases h; exact .presenta hpc
  case h_6 k hpc =>
    obtain ⟨⟨v, s'⟩, hl, h⟩ := Option.map_eq_some_iff.mp h
    obtain ⟨hj, hv, rfl⟩ := (leeTurn_eq_some _ _ _ _ _).mp hl
    dsimp only at h
    split at h <;> cases h
    next hp => exact .esMiTurno k j hj (hp ▸ hv) hpc
    next hp => exact .noEsMiTurno k j v hj hv hp hpc
  case h_7 k hpc => cases h; exact .cabecera k hpc
  case h_8 k i hpc =>
    split at h <;> cases h
    next hi => exact .imprime k i hi hpc
    next hi => exact .impreso k i hi hpc
  case h_9 k hpc =>
    obtain ⟨⟨v, s'⟩, hl, h⟩ := Option.map_eq_some_iff.mp h
    obtain ⟨hj, hv, rfl⟩ := (leeTurn_eq_some _ _ _ _ _).mp hl
    cases h
    exact .leeTurno k j v hj hv hpc
  case h_10 k t hpc => cases h; exact .escribeTurno k t hpc
  case h_11 i m hpc =>
    split at h <;> cases h
    next hi => exact .suma i m hi hpc
    next hi => exact .sumado i m hi hpc
  case h_12 m hpc =>
    split at h <;> cases h
    next hc => exact .adquiere m hc hpc
  case h_13 m hpc => cases h; exact .leeSum m hpc
  case h_14 m t hpc => cases h; exact .escribeSum m t hpc
  case h_15 t hpc => cases h; exact .suelta t hpc
  case h_16 hpc =>
    split at h <;> cases h
    next hp => exact .imprimeSuma hp hpc
    next hp => exact .termina hp hpc
  case h_17 => cases h

/-- Before the program: nothing written to `turn` yet, anything in the rest of the memory. -/
def inicial (n : Nat) (array : Nat → Int) (sum : Int) : Estado n :=
  { pc := fun _ => .inicio, visto := fun _ => 0, turnos := [], marca := fun _ => 0
    array := array, sum := sum, candado := none, salida := [] }

/-- The states the program can be in, from any contents of the fresh memory. -/
def Alcanzable (DIM : Nat) (s : Estado n) : Prop :=
  ∃ array sum, Runs.Reachable (paso DIM) (inicial n array sum) s

end SumaTmk
