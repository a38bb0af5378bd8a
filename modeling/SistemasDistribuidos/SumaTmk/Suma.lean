import SistemasDistribuidos.SumaTmk.Turnos

/-!
# The global sum

After the loop each process adds its own interval into `mySum` and then, under lock 0,
`mySum` into `shared->sum`.  The invariant `SumaParcial` is that `sum` holds the intervals
of the processes that have released the lock, and that whoever holds it has read `sum` as
it still is.

    Alcanzable DIM s → past the last barrier → s.sum = ∑ i < DIM, s.array i   (suma_completa)
-/

namespace SumaTmk

variable {n : Nat}

/-! ## Partial sums -/

/-- The elements of the interval of process `id`, added up. -/
def sumaBloque (DIM n : Nat) (array : Nat → Int) (id : Nat) : Int :=
  ∑ i ∈ Finset.Ico (start DIM n id) (start DIM n (id + 1)), array i

theorem sum_sumaBloque (DIM n : Nat) (hn : 0 < n) (array : Nat → Int) :
    ∑ p : Fin n, sumaBloque DIM n array p = ∑ i ∈ Finset.range DIM, array i := by
  rw [Fin.sum_univ_eq_sum_range (sumaBloque DIM n array) n]
  have h := Cuts.sum_pieces (start DIM n) array (start_zero DIM n) (start_monotone DIM n hn) n
  rwa [start_nprocs DIM n hn] at h

/-- Whether a process has added its `mySum` and released the lock. -/
def yaSumo (n : Nat) : Pc → Bool
  | .llega b | .espera b => n < b
  | .imprimeSuma | .fin => true
  | _ => false

/-- What process `p` has contributed to `shared->sum`. -/
def aporte (DIM : Nat) (array : Nat → Int) (p : Fin n) (pc : Pc) : Int :=
  if yaSumo n pc then sumaBloque DIM n array p else 0

/-- What a process carries while it adds: the elements so far, its `mySum`, and, holding the
lock, the value of `sum` as it still is. -/
def EnSuma (DIM : Nat) (s : Estado n) (p : Fin n) : Prop :=
  match s.pc p with
  | .sumaLocal i m =>
    start DIM n p ≤ i ∧ i ≤ start DIM n (p + 1) ∧ m = ∑ j ∈ Finset.Ico (start DIM n p) i, s.array j
  | .pideCandado m => m = sumaBloque DIM n s.array p
  | .leeSum m => s.candado = some p ∧ m = sumaBloque DIM n s.array p
  | .escribeSum m t => s.candado = some p ∧ m = sumaBloque DIM n s.array p ∧ t = s.sum
  | .suelta t => s.candado = some p ∧ t = s.sum + sumaBloque DIM n s.array p
  | _ => True

structure SumaParcial (DIM : Nat) (s : Estado n) : Prop where
  suma : s.turnos ≠ [] → s.sum = ∑ p, aporte DIM s.array p (s.pc p)
  enSuma : ∀ p, EnSuma DIM s p
  impresa : ∀ v, .laSuma v ∈ s.salida →
    s.turnos ≠ [] ∧ v = ∑ i ∈ Finset.range DIM, s.array i

/-! ## Lemmas -/

/-- A process out of the lock does not notice what happens to `sum` and the lock. -/
theorem EnSuma.marco (DIM : Nat) (s t : Estado n) (q : Fin n) (h : EnSuma DIM s q)
    (hpc : t.pc q = s.pc q) (harray : t.array = s.array)
    (hc : s.candado = some q → t.candado = s.candado ∧ t.sum = s.sum) : EnSuma DIM t q := by
  unfold EnSuma at h ⊢
  rw [hpc, harray]
  split at h
  · exact h
  · exact h
  · obtain ⟨h1, h2⟩ := h
    exact ⟨(hc h1).1 ▸ h1, h2⟩
  · obtain ⟨h1, h2, h3⟩ := h
    exact ⟨(hc h1).1 ▸ h1, h2, (hc h1).2 ▸ h3⟩
  · obtain ⟨h1, h2⟩ := h
    exact ⟨(hc h1).1 ▸ h1, (hc h1).2 ▸ h2⟩
  · exact trivial

/-- A move that leaves the array and the writes to `turn` alone and prints no sum. -/
theorem SumaParcial.avanza (DIM : Nat) (s t : Estado n) (p : Fin n) (hs : SumaParcial DIM s)
    (hpc : ∀ q, q ≠ p → t.pc q = s.pc q) (harray : t.array = s.array)
    (hturnos : t.turnos = [] ↔ s.turnos = [])
    (hc : ∀ q, q ≠ p → s.candado = some q → t.candado = s.candado ∧ t.sum = s.sum)
    (hsum : t.sum - s.sum = aporte DIM s.array p (t.pc p) - aporte DIM s.array p (s.pc p))
    (hp : EnSuma DIM t p)
    (himp : ∀ v, .laSuma v ∈ t.salida →
      .laSuma v ∈ s.salida ∨ (s.turnos ≠ [] ∧ v = ∑ i ∈ Finset.range DIM, s.array i)) :
    SumaParcial DIM t := by
  refine ⟨?_, ?_, ?_⟩
  · intro ht
    have hs' := hs.suma (fun h => ht (hturnos.mpr h))
    have hsplit : ∀ u : Estado n, ∑ q, aporte DIM s.array q (u.pc q)
        = aporte DIM s.array p (u.pc p)
          + ∑ q ∈ Finset.univ.erase p, aporte DIM s.array q (u.pc q) :=
      fun u => (Finset.add_sum_erase _ _ (Finset.mem_univ p)).symm
    have hrest : ∑ q ∈ Finset.univ.erase p, aporte DIM s.array q (t.pc q)
        = ∑ q ∈ Finset.univ.erase p, aporte DIM s.array q (s.pc q) :=
      Finset.sum_congr rfl fun q hq => by rw [hpc q (Finset.ne_of_mem_erase hq)]
    rw [hsplit s] at hs'
    rw [harray, hsplit t, hrest]
    omega
  · intro q
    by_cases hq : q = p
    · exact hq ▸ hp
    · exact (hs.enSuma q).marco DIM s t q (hpc q hq) harray (hc q hq)
  · intro v hv
    rw [harray, ne_eq, hturnos]
    rcases himp v hv with h | h
    · exact hs.impresa v h
    · exact h

/-- As `avanza`, for a move that touches neither `sum` nor the lock. -/
theorem SumaParcial.callado (DIM : Nat) (s t : Estado n) (p : Fin n) (hs : SumaParcial DIM s)
    (hpc : ∀ q, q ≠ p → t.pc q = s.pc q) (harray : t.array = s.array)
    (hturnos : t.turnos = [] ↔ s.turnos = []) (hcandado : t.candado = s.candado)
    (hsum : t.sum = s.sum)
    (haporte : aporte DIM s.array p (t.pc p) = aporte DIM s.array p (s.pc p))
    (hp : EnSuma DIM t p) (himp : ∀ v, .laSuma v ∈ t.salida → .laSuma v ∈ s.salida) :
    SumaParcial DIM t := by
  refine hs.avanza DIM s t p hpc harray hturnos (fun _ _ _ => ⟨hcandado, hsum⟩) ?_ hp
    (fun v hv => .inl (himp v hv))
  rw [hsum, haporte, sub_self, sub_self]

/-- A move of the program counter alone, before the process has added its part. -/
theorem SumaParcial.con (DIM : Nat) (s : Estado n) (p : Fin n) (pc : Pc) (hs : SumaParcial DIM s)
    (hantes : yaSumo n (s.pc p) = false) (hdespues : yaSumo n pc = false)
    (hp : EnSuma DIM (s.con p pc) p) : SumaParcial DIM (s.con p pc) := by
  refine hs.callado DIM s _ p (fun q hq => by simp [hq]) rfl Iff.rfl rfl rfl ?_ hp (fun _ hv => hv)
  simp [aporte, hantes, hdespues]

theorem yaSumo_of_llegadas (n : Nat) (pc : Pc) (hr : EnRango n pc) (h : n + 2 ≤ llegadas n pc) :
    yaSumo n pc = true := by
  cases pc <;> simp only [EnRango, llegadas, yaSumo, decide_eq_true_eq] at * <;> omega

/-- Past the last barrier every process has contributed. -/
theorem SumaParcial.completa (DIM : Nat) (s : Estado n) (p : Fin n) (hs : SumaParcial DIM s)
    (hr : Alcanzable DIM s) (hp : s.pc p = .imprimeSuma) :
    s.turnos ≠ [] ∧ s.sum = ∑ i ∈ Finset.range DIM, s.array i := by
  have hlen := (hr.fin_del_bucle p (by simp [hp, salidas, llegadas])).1
  have hnil : s.turnos ≠ [] := by
    intro h
    simp [h] at hlen
  refine ⟨hnil, ?_⟩
  rw [hs.suma hnil, ← sum_sumaBloque DIM n p.pos]
  refine Finset.sum_congr rfl fun q _ => ?_
  have hq := hr.fases.barrera p q
  rw [hp] at hq
  rw [aporte, if_pos (yaSumo_of_llegadas n _ (hr.fases.rango q) hq)]

theorem aporte_trasBarrera (DIM : Nat) (array : Nat → Int) (p : Fin n) (b : Nat) :
    aporte DIM array p (trasBarrera DIM n p b) = aporte DIM array p (.espera b) := by
  unfold aporte trasBarrera
  split_ifs <;> simp_all [yaSumo] <;> omega

theorem SumaParcial.inicia (DIM : Nat) (s : Estado n) (p : Fin n) (hs : SumaParcial DIM s)
    (hr : Alcanzable DIM s) (hp : p.val = COORDINADOR) (h : s.pc p = .inicio) :
    SumaParcial DIM ((s.inicializa DIM p).con p (.llega 0)) := by
  have hnil : s.turnos = [] := hr.turno.antes p hp h
  have hsal := hr.fases.antes s p h
  -- before the first barrier nobody adds and nobody has added
  have hno : ∀ q, ((s.inicializa DIM p).con p (.llega 0)).pc q = .inicio ∨
      ((s.inicializa DIM p).con p (.llega 0)).pc q = .llega 0 ∨
      ((s.inicializa DIM p).con p (.llega 0)).pc q = .espera 0 := by
    intro q
    by_cases hq : q = p
    · simp [hq]
    · simpa [hq] using hsal q
  refine ⟨?_, ?_, ?_⟩
  · intro _
    refine (Finset.sum_eq_zero fun q _ => ?_).symm
    rcases hno q with h' | h' | h' <;> rw [h'] <;> exact if_neg (by simp [yaSumo])
  · intro q
    unfold EnSuma
    rcases hno q with h' | h' | h' <;> rw [h'] <;> trivial
  · intro v hv
    exact absurd hnil (hs.impresa v hv).1

theorem SumaParcial.mueve (DIM : Nat) (s t : Estado n) (p : Fin n) (hs : SumaParcial DIM s)
    (hr : Alcanzable DIM s) (h : Mueve DIM s p t) : SumaParcial DIM t := by
  have hen := hs.enSuma p
  have hle : start DIM n p ≤ start DIM n (p + 1) :=
    start_monotone DIM n p.pos (Nat.le_succ p.val)
  cases h with
  | inicia hp h => exact hs.inicia DIM s p hr hp h
  | sale b hb h =>
    refine hs.callado DIM s _ p (fun q hq => by simp [hq]) rfl Iff.rfl rfl rfl ?_ ?_
      (fun _ hv => hv)
    · simp [h, aporte_trasBarrera]
    · simp only [EnSuma, Estado.con_pc, Function.update_self]
      unfold trasBarrera
      split_ifs <;> simp [hle]
  | escribeTurno k v h =>
    refine hs.callado DIM s _ p (fun q hq => by simp [hq]) rfl ?_ rfl rfl ?_ ?_ (fun _ hv => hv)
    · have hlen := (hr.turno.imprimiendo p (by simp [h, Imprimiendo])).1
      have hnil : s.turnos ≠ [] := List.ne_nil_of_length_pos (by omega)
      simp [hnil]
    · have hk : k < n := by simpa [h, EnRango] using hr.fases.rango p
      simp [h, aporte, yaSumo, hk]
    · simp [EnSuma]
  | noEsMiTurno k j v hj hv hne h =>
    refine hs.callado DIM s _ p (fun q hq => by simp [hq]) rfl Iff.rfl rfl rfl ?_ ?_
      (fun _ hv => hv)
    · have hk : k < n := by simpa [h, EnRango] using hr.fases.rango p
      simp [h, aporte, yaSumo, hk]
    · simp [EnSuma]
  | suma i m hi h =>
    rw [EnSuma, h] at hen
    obtain ⟨h1, h2, rfl⟩ := hen
    refine hs.con DIM s p _ (by rw [h]; rfl) rfl ?_
    simp only [EnSuma, Estado.con_pc, Function.update_self]
    refine ⟨by omega, hi, ?_⟩
    exact (Finset.sum_Ico_succ_top h1 _).symm
  | sumado i m hi h =>
    rw [EnSuma, h] at hen
    obtain ⟨h1, h2, rfl⟩ := hen
    obtain rfl : i = start DIM n (p + 1) := by omega
    refine hs.con DIM s p _ (by rw [h]; rfl) rfl ?_
    simp only [EnSuma, Estado.con_pc, Function.update_self]
    rfl
  | adquiere m hc h =>
    rw [EnSuma, h] at hen
    refine hs.avanza DIM s _ p (fun q hq => by simp [hq]) rfl Iff.rfl (fun q _ hq => ?_)
      ?_ ?_ (fun _ hv => .inl hv)
    · rw [hc] at hq
      cases hq
    · simp [h, aporte, yaSumo]
    · simp only [EnSuma, Estado.con_pc, Function.update_self]
      exact ⟨trivial, hen⟩
  | leeSum m h =>
    rw [EnSuma, h] at hen
    refine hs.con DIM s p _ (by rw [h]; rfl) rfl ?_
    simp only [EnSuma, Estado.con_pc, Function.update_self]
    exact ⟨hen.1, hen.2, rfl⟩
  | escribeSum m v h =>
    rw [EnSuma, h] at hen
    obtain ⟨h1, rfl, rfl⟩ := hen
    refine hs.con DIM s p _ (by rw [h]; rfl) rfl ?_
    simp only [EnSuma, Estado.con_pc, Function.update_self]
    exact ⟨h1, rfl⟩
  | suelta v h =>
    rw [EnSuma, h] at hen
    obtain ⟨h1, rfl⟩ := hen
    refine hs.avanza DIM s _ p (fun q hq => by simp [hq]) rfl Iff.rfl (fun q hq hc => ?_)
      ?_ ?_ (fun _ hv => .inl hv)
    · rw [h1] at hc
      exact absurd (Option.some.inj hc).symm hq
    · simp [h, aporte, yaSumo]
    · simp [EnSuma]
  | imprimeSuma hp h =>
    obtain ⟨hnil, hsum⟩ := hs.completa DIM s p hr h
    refine hs.avanza DIM s _ p (fun q hq => by simp [hq]) rfl Iff.rfl (fun _ _ _ => ⟨rfl, rfl⟩)
      ?_ ?_ ?_
    · simp [h, aporte, yaSumo]
    · simp [EnSuma]
    · intro v hv
      simp only [Estado.con_salida, Estado.imprime_salida, List.mem_append, List.mem_singleton,
        Evento.laSuma.injEq] at hv
      rcases hv with hv | rfl
      · exact .inl hv
      · exact .inr ⟨hnil, hsum⟩
  | _ =>
    rename_i h
    refine hs.callado DIM s _ p (fun q hq => by simp [hq]) rfl Iff.rfl rfl rfl ?_ ?_ (fun v hv => ?_)
    · simp [h, aporte, yaSumo]
    · simp [EnSuma]
    · simpa using hv

theorem Alcanzable.sumaParcial {DIM : Nat} {s : Estado n} (h : Alcanzable DIM s) :
    SumaParcial DIM s := by
  obtain ⟨array, sum, h⟩ := h
  refine h.induction (SumaParcial DIM) ⟨fun h => absurd rfl h, fun _ => trivial, ?_⟩ ?_
  · simp [inicial]
  · intro s a t hr hs ht
    exact hs.mueve DIM s t a.1 ⟨array, sum, hr⟩ (paso_mueve DIM s t a ht)

/-! ## Top theorems -/

/-- **The sum is complete.**  Whatever the order of the processes at the barriers and the
lock: past the last barrier `shared->sum` is the sum of the whole array, which the
intervals of the processes cover once; and that is the value printed. -/
theorem suma_completa (DIM n : Nat) (s : Estado n) (hs : Alcanzable DIM s) :
    (∀ p, s.pc p = .imprimeSuma → s.sum = ∑ i ∈ Finset.range DIM, s.array i ∧
      ∀ i < DIM, ∃! q : Fin n, start DIM n q ≤ i ∧ i < start DIM n (q + 1)) ∧
    ∀ v, .laSuma v ∈ s.salida → v = ∑ i ∈ Finset.range DIM, s.array i := by
  refine ⟨fun p hp => ⟨?_, fun i hi => ?_⟩, fun v hv => (hs.sumaParcial.impresa v hv).2⟩
  · exact (hs.sumaParcial.completa DIM s p hs hp).2
  · refine Cuts.existsUnique_piece _ (start_zero DIM n) (start_monotone DIM n p.pos) n i ?_
    rwa [start_nprocs DIM n p.pos]

/-- Two processes and three elements, process 1 adding first: the coordinator prints 6. -/
theorem suma_completa_dos : ∃ s : Estado 2, Alcanzable 3 s ∧ s.pc 0 = .imprimeSuma ∧
    s.sum = 6 := by
  have hrun : ∃ s : Estado 2, Runs.run (paso 3) (inicial 2 (fun _ => 7) 7)
      (List.replicate 2 (0, 0) ++ List.replicate 2 (1, 0) ++ List.replicate 10 (0, 0) ++
        List.replicate 5 (1, 0) ++ [(0, 0), (0, 1), (0, 0), (1, 0), (1, 1), (1, 0), (1, 0), (1, 0),
        (1, 0), (1, 1), (1, 0), (1, 0)] ++ List.replicate 9 (1, 0) ++ List.replicate 9 (0, 0))
        = some s ∧ s.pc 0 = .imprimeSuma ∧ ∑ i ∈ Finset.range 3, s.array i = 6 :=
    ⟨_, rfl, rfl, by decide⟩
  obtain ⟨s, hrun, hp, hsum⟩ := hrun
  have hs : Alcanzable 3 s := ⟨_, _, _, hrun⟩
  exact ⟨s, hs, hp, ((suma_completa 3 2 s hs).1 0 hp).1.trans hsum⟩

end SumaTmk
