import SistemasDistribuidos.SumaTmk.Suma
import Mathlib.Algebra.Order.BigOperators.Group.Finset

/-!
# The program comes to its end

No state the program can be in is stuck (`Alcanzable.progresa`): a process waiting for the
lock waits for one that can go on, and of those waiting at barriers the last one behind
finds all the others there.  Every step brings one process nearer to its end
(`paso_medida`), so every run can be completed, and in no more steps than `medida`:

    every state of the program has a run to the end, where the sum is printed   (programa_termina)
-/

namespace SumaTmk

variable {n : Nat}

/-! ## Lemmas -/

/-- Between acquiring the lock and releasing it. -/
def EnCandado : Pc → Prop
  | .leeSum _ | .escribeSum .. | .suelta _ => True
  | _ => False

/-- What a process needs to go on: a value of `turn` to read, and a lock whose holder can
release it. -/
structure Vivo (s : Estado n) : Prop where
  visto : ∀ p, s.visto p ≤ s.turnos.length - 1
  iniciado : ∀ p : Fin n, p.val = COORDINADOR → s.pc p ≠ .inicio → s.turnos ≠ []
  candado : ∀ p, s.candado = some p → EnCandado (s.pc p)
  impresa : ∀ p : Fin n, p.val = COORDINADOR → s.pc p = .fin → ∃ v, .laSuma v ∈ s.salida

/-- A move out of the lock that writes nothing to `turn`. -/
theorem Vivo.avanza (s t : Estado n) (p : Fin n) (hs : Vivo s)
    (hpc : ∀ q, q ≠ p → t.pc q = s.pc q) (hturnos : t.turnos = s.turnos)
    (hvisto : ∀ q, q ≠ p → t.visto q = s.visto q) (hp : t.visto p ≤ s.turnos.length - 1)
    (hini : p.val = COORDINADOR → s.pc p ≠ .inicio) (hcan : t.candado = s.candado)
    (hnc : ¬ EnCandado (s.pc p)) (hsal : ∀ e ∈ s.salida, e ∈ t.salida)
    (hfin : p.val = COORDINADOR → t.pc p = .fin → ∃ v, .laSuma v ∈ t.salida) : Vivo t := by
  refine ⟨fun q => ?_, fun q hq h => ?_, fun q hq => ?_, fun q hq h => ?_⟩
  · rw [hturnos]
    by_cases hqp : q = p
    · exact hqp ▸ hp
    · rw [hvisto q hqp]
      exact hs.visto q
  · rw [hturnos]
    by_cases hqp : q = p
    · exact hs.iniciado q hq (hqp ▸ hini (hqp ▸ hq))
    · exact hs.iniciado q hq (hpc q hqp ▸ h)
  · rw [hcan] at hq
    have hqp : q ≠ p := fun hqp => hnc (hqp ▸ hs.candado q hq)
    rw [hpc q hqp]
    exact hs.candado q hq
  · by_cases hqp : q = p
    · subst hqp
      exact hfin hq h
    · obtain ⟨v, hv⟩ := hs.impresa q hq (hpc q hqp ▸ h)
      exact ⟨v, hsal _ hv⟩

/-- A move that writes to `turn`. -/
theorem Vivo.escribe (s t : Estado n) (p : Fin n) (hs : Vivo s) (v : Nat)
    (hpc : ∀ q, q ≠ p → t.pc q = s.pc q) (hturnos : t.turnos = s.turnos ++ [v])
    (hvisto : t.visto = Function.update s.visto p s.turnos.length)
    (hcan : t.candado = s.candado) (hnc : ¬ EnCandado (s.pc p)) (hsal : t.salida = s.salida)
    (hfin : t.pc p ≠ .fin) : Vivo t := by
  refine ⟨fun q => ?_, fun q _ _ => by simp [hturnos], fun q hq => ?_, fun q hq h => ?_⟩
  · have hq := hs.visto q
    rw [hturnos, hvisto, Function.update_apply, List.length_append, List.length_singleton]
    split <;> omega
  · rw [hcan] at hq
    have hqp : q ≠ p := fun hqp => hnc (hqp ▸ hs.candado q hq)
    rw [hpc q hqp]
    exact hs.candado q hq
  · rw [hsal]
    by_cases hqp : q = p
    · exact absurd (hqp ▸ h) hfin
    · exact hs.impresa q hq (hpc q hqp ▸ h)

/-- A move under the lock, or one that takes or releases it. -/
theorem Vivo.conCandado (s t : Estado n) (p : Fin n) (hs : Vivo s)
    (hpc : ∀ q, q ≠ p → t.pc q = s.pc q) (hturnos : t.turnos = s.turnos)
    (hvisto : t.visto = s.visto) (hsal : t.salida = s.salida) (hini : s.pc p ≠ .inicio)
    (hfin : t.pc p ≠ .fin) (hcan : ∀ q, t.candado = some q → q = p ∧ EnCandado (t.pc p)) :
    Vivo t := by
  refine ⟨fun q => ?_, fun q hq h => ?_, fun q hq => ?_, fun q hq h => ?_⟩
  · rw [hturnos, hvisto]
    exact hs.visto q
  · rw [hturnos]
    by_cases hqp : q = p
    · exact hs.iniciado q hq (hqp ▸ hini)
    · exact hs.iniciado q hq (hpc q hqp ▸ h)
  · obtain ⟨rfl, h⟩ := hcan q hq
    exact h
  · rw [hsal]
    by_cases hqp : q = p
    · exact absurd (hqp ▸ h) hfin
    · exact hs.impresa q hq (hpc q hqp ▸ h)

theorem Vivo.mueve (DIM : Nat) (s t : Estado n) (p : Fin n) (hs : Vivo s) (ht : Turno s)
    (hsum : SumaParcial DIM s) (h : Mueve DIM s p t) : Vivo t := by
  have hvis := hs.visto p
  have hen := hsum.enSuma p
  cases h with
  | inicia hp h =>
    exact hs.escribe s _ p 0 (fun q hq => by simp [hq]) rfl rfl rfl (by simp [h, EnCandado]) rfl
      (by simp)
  | escribeTurno k v h =>
    exact hs.escribe s _ p (v + 1) (fun q hq => by simp [hq]) rfl rfl rfl (by simp [h, EnCandado])
      rfl (by simp)
  | adquiere m hc h =>
    refine hs.conCandado s _ p (fun q hq => by simp [hq]) rfl rfl rfl (by simp [h]) (by simp) ?_
    intro q hq
    exact ⟨(Option.some.inj hq).symm, by simp [EnCandado]⟩
  | leeSum m h =>
    rw [EnSuma, h] at hen
    refine hs.conCandado s _ p (fun q hq => by simp [hq]) rfl rfl rfl (by simp [h]) (by simp) ?_
    intro q hq
    exact ⟨(Option.some.inj (hen.1.symm.trans hq)).symm, by simp [EnCandado]⟩
  | escribeSum m v h =>
    rw [EnSuma, h] at hen
    refine hs.conCandado s _ p (fun q hq => by simp [hq]) rfl rfl rfl (by simp [h]) (by simp) ?_
    intro q hq
    exact ⟨(Option.some.inj (hen.1.symm.trans hq)).symm, by simp [EnCandado]⟩
  | suelta v h =>
    refine hs.conCandado s _ p (fun q hq => by simp [hq]) rfl rfl rfl (by simp [h]) (by simp) ?_
    intro q hq
    cases hq
  | sale b hb h =>
    refine hs.avanza s _ p (fun q hq => by simp [hq]) rfl (fun q hq => by simp [hq]) ?_
      (fun _ => by simp [h]) rfl (by simp [h, EnCandado]) (fun _ he => he) ?_
    · have := ht.tope b
      simp only [Function.update_self]
      omega
    · intro _ hf
      simp only [Estado.con_pc, Function.update_self] at hf
      unfold trasBarrera at hf
      split_ifs at hf
  | esMiTurno k j hj hv h | leeTurno k j v hj hv h | noEsMiTurno k j v hj hv hne h =>
    have hlt := (ht.entrada s j _ hv).2
    refine hs.avanza s _ p (fun q hq => by simp [hq]) rfl (fun q hq => by simp [hq]) ?_
      (fun _ => by simp [h]) rfl (by simp [h, EnCandado]) (fun _ he => he) (by simp)
    simp only [Function.update_self]
    omega
  | empieza hp h =>
    exact hs.avanza s _ p (fun q hq => by simp [hq]) rfl (fun _ _ => rfl) hvis
      (fun h' => absurd h' hp) rfl (by simp [h, EnCandado]) (fun _ he => he) (by simp)
  | imprimeSuma hp h =>
    exact hs.avanza s _ p (fun q hq => by simp [hq]) rfl (fun _ _ => rfl) hvis
      (fun _ => by simp [h]) rfl (by simp [h, EnCandado]) (fun e he => by simp [he])
      (fun _ _ => ⟨s.sum, by simp⟩)
  | termina hp h =>
    exact hs.avanza s _ p (fun q hq => by simp [hq]) rfl (fun _ _ => rfl) hvis
      (fun _ => by simp [h]) rfl (by simp [h, EnCandado]) (fun _ he => he)
      (fun h' _ => absurd h' hp)
  | _ =>
    rename_i h
    exact hs.avanza s _ p (fun q hq => by simp [hq]) rfl (fun _ _ => rfl) hvis
      (fun _ => by simp [h]) rfl (by simp [h, EnCandado]) (fun e he => by simp [he]) (by simp)

theorem Alcanzable.vivo {DIM : Nat} {s : Estado n} (h : Alcanzable DIM s) : Vivo s := by
  obtain ⟨array, sum, h⟩ := h
  refine h.induction Vivo ⟨by simp [inicial], by simp [inicial], by simp [inicial],
    by simp [inicial]⟩ ?_
  intro s a t hr hs ht
  have hs' : Alcanzable DIM s := ⟨array, sum, hr⟩
  exact hs.mueve DIM s t a.1 hs'.turno hs'.sumaParcial (paso_mueve DIM s t a ht)

/-- Past the first barrier there is a value of `turn` to read. -/
theorem Vivo.lee (s : Estado n) (p : Fin n) (hs : Vivo s) (hf : Fases s)
    (hp : 1 ≤ salidas n (s.pc p)) : ∃ v t, s.leeTurn p (s.visto p) = some (v, t) := by
  have hne : s.turnos ≠ [] := by
    refine hs.iniciado ⟨0, p.pos⟩ rfl fun h0 => ?_
    have := hf.barrera p ⟨0, p.pos⟩
    rw [h0] at this
    exact absurd (hp.trans this) (by simp [llegadas])
  have hlt : s.visto p < s.turnos.length := by
    have := hs.visto p
    have := List.length_pos_of_ne_nil hne
    omega
  exact ⟨s.turnos[s.visto p], _, (leeTurn_eq_some _ _ _ _ _).mpr
    ⟨Nat.le_refl _, List.getElem?_eq_getElem hlt, rfl⟩⟩

/-- Only the end, a barrier and the lock can hold a process up. -/
theorem Vivo.puede (DIM : Nat) (s : Estado n) (p : Fin n) (hs : Vivo s) (hf : Fases s) :
    s.pc p = .fin ∨ (∃ b, s.pc p = .espera b) ∨ (∃ m, s.pc p = .pideCandado m) ∨
      ∃ t, paso DIM s (p, s.visto p) = some t := by
  have hlee := hs.lee s p hf
  cases h : s.pc p with
  | fin => exact .inl rfl
  | espera b => exact .inr (.inl ⟨b, rfl⟩)
  | pideCandado m => exact .inr (.inr (.inl ⟨m, rfl⟩))
  | revisa k | leeTurno k =>
    rw [h] at hlee
    obtain ⟨v, t, hv⟩ := hlee (by simp [salidas, llegadas])
    exact .inr (.inr (.inr (by simp [paso, h, hv])))
  | inicio | imprimeSuma | imprime k i | sumaLocal i m =>
    refine .inr (.inr (.inr ?_))
    simp only [paso, h]
    split <;> exact ⟨_, rfl⟩
  | _ => exact .inr (.inr (.inr (by simp [paso, h])))

/-- **No deadlock.** -/
theorem Alcanzable.progresa {DIM : Nat} {s : Estado n} (hs : Alcanzable DIM s) :
    (∀ p, s.pc p = .fin) ∨ ∃ a t, paso DIM s a = some t := by
  by_contra hno
  obtain ⟨hfin, hstuck⟩ := not_or.mp hno
  have hcase : ∀ p, s.pc p = .fin ∨ ∃ b, s.pc p = .espera b := by
    intro p
    obtain h | h | ⟨m, h⟩ | ⟨t, h⟩ := hs.vivo.puede DIM s p hs.fases
    · exact .inl h
    · exact .inr h
    · exfalso
      cases hc : s.candado with
      | none => exact hstuck ⟨(p, 0), _, by simp only [paso, h, hc]; rfl⟩
      | some q =>
        -- the holder of the lock is not waiting for anything
        have hq := hs.vivo.candado q hc
        obtain h' | ⟨b, h'⟩ | ⟨m', h'⟩ | ⟨t, h'⟩ := hs.vivo.puede DIM s q hs.fases
        · simp [h', EnCandado] at hq
        · simp [h', EnCandado] at hq
        · simp [h', EnCandado] at hq
        · exact hstuck ⟨_, t, h'⟩
    · exact absurd ⟨_, t, h⟩ hstuck
  -- among the processes at barriers, take one that has left the fewest
  obtain ⟨p₀, hp₀⟩ := not_forall.mp hfin
  obtain ⟨p, hp, hmin⟩ := Finset.exists_min_image
    (Finset.univ.filter fun p => s.pc p ≠ .fin) (fun p => salidas n (s.pc p))
    ⟨p₀, by simpa using hp₀⟩
  obtain ⟨b, hb⟩ := (hcase p).resolve_left (Finset.mem_filter.mp hp).2
  have hall : ∀ q, b < llegadas n (s.pc q) := by
    intro q
    rcases hcase q with hq | ⟨c, hq⟩
    · have hr := hs.fases.rango p
      rw [hb] at hr
      rw [hq]
      exact Nat.lt_succ_of_le hr
    · have := hmin q (by simp [hq])
      rw [hb, hq] at this
      rw [hq]
      exact Nat.lt_succ_of_le this
  exact hstuck ⟨(p, 0), _, by simp only [paso, hb]; rw [if_pos hall]⟩

/-! ## Termination -/

/-- Steps a process can take before it leaves its next barrier; fewer than `DIM + 12`. -/
def enFase (DIM n id : Nat) : Pc → Nat
  | .inicio => 3
  | .llega _ => 2
  | .espera _ => 1
  | .saluda => DIM + 11
  | .presenta => DIM + 10
  | .revisa _ => DIM + 9
  | .cabecera _ => DIM + 8
  | .imprime _ i => 6 + (start DIM n (id + 1) - i)
  | .leeTurno _ => 5
  | .escribeTurno .. => 4
  | .sumaLocal i _ => 8 + (start DIM n (id + 1) - i)
  | .pideCandado _ => 7
  | .leeSum _ => 6
  | .escribeSum .. => 5
  | .suelta _ => 4
  | .imprimeSuma => 1
  | .fin => 0

/-- Steps left to a process at most: whole phases, and the rest of this one. -/
def resto (DIM n id : Nat) (pc : Pc) : Nat :=
  (n + 2 - salidas n pc) * (DIM + 12) + enFase DIM n id pc

def medida (DIM : Nat) (s : Estado n) : Nat := ∑ p : Fin n, resto DIM n p (s.pc p)

theorem start_le (DIM : Nat) (p : Fin n) : start DIM n (p + 1) ≤ DIM := by
  have h := start_monotone DIM n p.pos (show p.val + 1 ≤ n from p.isLt)
  rwa [start_nprocs DIM n p.pos] at h

theorem enFase_trasBarrera (DIM : Nat) (p : Fin n) (b : Nat) :
    enFase DIM n p (trasBarrera DIM n p b) < DIM + 12 := by
  have := start_le DIM p
  unfold trasBarrera
  split_ifs <;> simp only [enFase] <;> omega

/-- Each move leaves less to the process that makes it. -/
theorem Mueve.resto_lt (DIM : Nat) (s t : Estado n) (p : Fin n) (h : Mueve DIM s p t)
    (hr : EnRango n (s.pc p)) :
    ∃ pc, t.pc = Function.update s.pc p pc ∧ resto DIM n p pc < resto DIM n p (s.pc p) := by
  have hend := start_le DIM p
  cases h with
  | sale b hb h =>
    refine ⟨_, rfl, ?_⟩
    rw [h] at hr
    have hb' : b ≤ n + 1 := hr
    have hlt := enFase_trasBarrera DIM p b
    rw [h, resto, (llegadas_trasBarrera DIM n p b hb').2, resto]
    show (n + 2 - (b + 1)) * (DIM + 12) + _ < (n + 2 - b) * (DIM + 12) + 1
    rw [show n + 2 - b = n + 2 - (b + 1) + 1 by omega, Nat.succ_mul]
    omega
  | _ =>
    rename_i h
    refine ⟨_, rfl, ?_⟩
    rw [h]
    simp only [resto, salidas, llegadas, enFase, Nat.zero_add]
    omega

theorem paso_medida (DIM : Nat) (s t : Estado n) (a : Fin n × Nat) (hs : Fases s)
    (h : paso DIM s a = some t) : medida DIM t < medida DIM s := by
  obtain ⟨pc, hpc, hlt⟩ := (paso_mueve DIM s t a h).resto_lt DIM s t a.1 (hs.rango a.1)
  unfold medida
  rw [hpc]
  apply Finset.sum_lt_sum
  · intro q _
    rw [Function.update_apply]
    split
    next hq => exact hq ▸ hlt.le
    next => exact Nat.le_refl _
  · refine ⟨a.1, Finset.mem_univ _, ?_⟩
    rw [Function.update_self]
    exact hlt

theorem medida_inicial (DIM : Nat) (array : Nat → Int) (sum : Int) :
    medida DIM (inicial n array sum) = n * ((n + 2) * (DIM + 12) + 3) := by
  simp [medida, inicial, resto, salidas, llegadas, enFase]

/-! ## Top theorems -/

/-- **The program ends.**  From the start no run is longer than `n ((n + 2) (DIM + 12) + 3)`
steps, and every state on the way has a run to one where all processes are over, the loop
has printed every element in order and the coordinator the sum of the array. -/
theorem programa_termina (DIM n : Nat) (hn : 0 < n) (array : Nat → Int) (sum : Int)
    (as : List (Fin n × Nat)) (s : Estado n)
    (hs : Runs.run (paso DIM) (inicial n array sum) as = some s) :
    as.length ≤ n * ((n + 2) * (DIM + 12) + 3) ∧
    ∃ bs t, Runs.run (paso DIM) s bs = some t ∧ (∀ p, t.pc p = .fin) ∧
      t.salida.filterMap Evento.elemento = (List.range DIM).map (fun i => (i, t.array i)) ∧
      .laSuma (∑ i ∈ Finset.range DIM, t.array i) ∈ t.salida := by
  have hdec : ∀ s a t, Runs.Reachable (paso DIM) (inicial n array sum) s →
      paso DIM s a = some t → medida DIM t < medida DIM s :=
    fun s a t hr h => paso_medida DIM s t a (Alcanzable.fases ⟨array, sum, hr⟩) h
  have hreach : Runs.Reachable (paso DIM) (inicial n array sum) s := ⟨as, hs⟩
  constructor
  · have := (Runs.Reachable.refl _ _).length_le (medida DIM) hdec as s hs
    rw [medida_inicial] at this
    omega
  · obtain ⟨bs, t, ht, hfin⟩ := hreach.completes (medida DIM) hdec (fun s => ∀ p, s.pc p = .fin)
      fun s hr => Alcanzable.progresa ⟨array, sum, hr⟩
    have hreach' : Alcanzable DIM t :=
      ⟨array, sum, as ++ bs, (Runs.run_append_eq_some _ _ _ _ _).mpr ⟨s, hs, ht⟩⟩
    have hfin0 := hfin ⟨0, hn⟩
    refine ⟨bs, t, ht, hfin, ?_, ?_⟩
    · exact hreach'.elementos ⟨0, hn⟩ (by rw [hfin0]; exact Nat.le_succ (n + 1))
    · obtain ⟨v, hv⟩ := hreach'.vivo.impresa ⟨0, hn⟩ rfl hfin0
      rw [← (hreach'.sumaParcial.impresa v hv).2]
      exact hv

/-- Two processes and three elements, after the coordinator has begun. -/
theorem programa_termina_dos : ∃ s : Estado 2, Runs.run (paso 3) (inicial 2 (fun _ => 7) 7) [(0, 0)] = some s ∧
    ∃ bs t, Runs.run (paso 3) s bs = some t ∧ (∀ p, t.pc p = .fin) ∧
      t.salida.filterMap Evento.elemento = (List.range 3).map (fun i => (i, t.array i)) ∧
      .laSuma (∑ i ∈ Finset.range 3, t.array i) ∈ t.salida := by
  obtain ⟨s, hs⟩ : ∃ s, Runs.run (paso 3) (inicial 2 (fun _ => 7) 7) [(0, 0)] = some s := ⟨_, rfl⟩
  exact ⟨s, hs, (programa_termina 3 2 (by decide) (fun _ => 7) 7 [(0, 0)] s hs).2⟩

end SumaTmk
