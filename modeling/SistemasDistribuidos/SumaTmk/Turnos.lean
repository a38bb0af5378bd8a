import SistemasDistribuidos.Lib.Meet
import SistemasDistribuidos.SumaTmk.Programa

/-!
# Ordered printing

In the loop each process prints its block when it sees its own id in `shared->turn`,
which it reads and increments without the lock.  The invariants, each on top of the
ones before it:

* `Fases`: nobody has left a barrier that somebody has not reached (`Meet` is what the
  protocol of `Tmk_barrier` promises too);
* `Turno`: the writes to `turn` are `0, 1, 2, ...`, and process `q` has made its own by
  the time it arrives at barrier `q + 1`, because it left barrier `q` having seen at
  least `q` and could not read past its own id;
* `Salida`: the loop has printed the blocks of the processes whose increment is in
  `turnos`, and part of the next one.

    Alcanzable DIM s → somebody is past the loop →
      elements printed = a[0], ..., a[DIM - 1], block by block   (bucle_en_orden)
-/

namespace SumaTmk

variable {n : Nat}

/-! ## Phases -/

/-- Barriers and turns of the loop that the program has. -/
def EnRango (n : Nat) : Pc → Prop
  | .llega b | .espera b => b ≤ n + 1
  | .revisa k | .cabecera k | .imprime k _ | .leeTurno k | .escribeTurno k _ => k < n
  | _ => True

/-- Nobody has left a barrier that somebody has not reached. -/
structure Fases (s : Estado n) : Prop where
  rango : ∀ p, EnRango n (s.pc p)
  barrera : ∀ p q, salidas n (s.pc p) ≤ llegadas n (s.pc q)

theorem llegadas_trasBarrera (DIM n id b : Nat) (hb : b ≤ n + 1) :
    llegadas n (trasBarrera DIM n id b) = b + 1 ∧ salidas n (trasBarrera DIM n id b) = b + 1 := by
  unfold trasBarrera
  split
  next h => subst h; exact ⟨rfl, rfl⟩
  next h0 =>
    split
    next => exact ⟨rfl, rfl⟩
    next h1 =>
      split
      next h2 => subst h2; exact ⟨rfl, rfl⟩
      next h2 =>
        obtain rfl : b = n + 1 := by omega
        exact ⟨rfl, rfl⟩

theorem enRango_trasBarrera (DIM n id b : Nat) : EnRango n (trasBarrera DIM n id b) := by
  unfold trasBarrera
  split
  · trivial
  · split
    · assumption
    · split <;> trivial

/-- A move takes one process on, and past a barrier only when all have reached it. -/
theorem Mueve.avanza (DIM : Nat) (s t : Estado n) (p : Fin n) (h : Mueve DIM s p t)
    (hr : EnRango n (s.pc p)) :
    ∃ pc, t.pc = Function.update s.pc p pc ∧ EnRango n pc ∧
      llegadas n (s.pc p) ≤ llegadas n pc ∧
      (salidas n pc ≤ salidas n (s.pc p) ∨ ∀ q, salidas n pc ≤ llegadas n (s.pc q)) := by
  have hn : 0 < n := p.pos
  cases h with
  | sale b hb h =>
    rw [h] at hr
    obtain ⟨h1, h2⟩ := llegadas_trasBarrera DIM n p b hr
    refine ⟨_, rfl, enRango_trasBarrera DIM n p b, ?_, .inr ?_⟩
    · rw [h, h1, llegadas]
    · intro q
      rw [h2]
      exact hb q
  | _ =>
    rename_i h
    simp only [h, EnRango] at hr
    refine ⟨_, rfl, ?_, ?_, .inl ?_⟩ <;> simp [h, EnRango, llegadas, salidas] <;> omega

theorem Fases.mueve (DIM : Nat) (s t : Estado n) (p : Fin n) (hs : Fases s)
    (h : Mueve DIM s p t) : Fases t := by
  obtain ⟨pc, hpc, hr, hll, hsal⟩ := h.avanza DIM s t p (hs.rango p)
  have hmono : ∀ q, llegadas n (s.pc q) ≤ llegadas n (t.pc q) := by
    intro q
    rw [hpc, Function.update_apply]
    split
    next hq => exact hq ▸ hll
    next => exact Nat.le_refl _
  have hnew : ∀ q, salidas n pc ≤ llegadas n (s.pc q) := by
    rcases hsal with h | h
    · exact fun q => h.trans (hs.barrera p q)
    · exact h
  refine ⟨?_, ?_⟩
  · intro q
    rw [hpc, Function.update_apply]
    split
    · exact hr
    · exact hs.rango q
  · intro q r
    refine Nat.le_trans ?_ (hmono r)
    rw [hpc, Function.update_apply]
    split
    · exact hnew r
    · exact hs.barrera q r

theorem Alcanzable.fases {DIM : Nat} {s : Estado n} (h : Alcanzable DIM s) : Fases s := by
  obtain ⟨array, sum, h⟩ := h
  refine h.invariant Fases ⟨fun _ => trivial, fun _ _ => Nat.le_refl _⟩ ?_
  intro s a t hs ht
  exact hs.mueve DIM s t a.1 (paso_mueve DIM s t a ht)

/-- The barrier of the program: how often each process has come to it and left it. -/
def Estado.encuentro (s : Estado n) : Meet.State (Fin n) :=
  ⟨fun p => llegadas n (s.pc p), fun p => salidas n (s.pc p)⟩

theorem encuentro_con {s t : Estado n} {p : Fin n} {pc : Pc} (hpc : t.pc = Function.update s.pc p pc) :
    t.encuentro = ⟨Function.update s.encuentro.came p (llegadas n pc),
      Function.update s.encuentro.gone p (salidas n pc)⟩ := by
  unfold Estado.encuentro
  rw [hpc]
  congr 1
  · funext q
    by_cases hq : q = p
    · subst hq
      rw [Function.update_self, Function.update_self]
    · rw [Function.update_of_ne hq, Function.update_of_ne hq]
  · funext q
    by_cases hq : q = p
    · subst hq
      rw [Function.update_self, Function.update_self]
    · rw [Function.update_of_ne hq, Function.update_of_ne hq]

/-- A move is the way of one process to a barrier or out of it, or has to do with none. -/
theorem Mueve.encuentro (DIM : Nat) (s t : Estado n) (p : Fin n) (h : Mueve DIM s p t) (hr : EnRango n (s.pc p)) :
    t.encuentro = s.encuentro ∨ ∃ b, Meet.step s.encuentro b = some t.encuentro := by
  cases h with
  | llega b h =>
    refine .inr ⟨.come p, ?_⟩
    have hcame : s.encuentro.came p = b := by
      simp only [Estado.encuentro, h, llegadas]
    have hgone : s.encuentro.gone p = b := by
      simp only [Estado.encuentro, h, salidas, llegadas]
    rw [Meet.step, if_pos (hcame.trans hgone.symm), hcame]
    refine congrArg some (Eq.trans ?_ (encuentro_con (s := s) (p := p) rfl).symm)
    congr 1
    exact (Function.update_eq_self_iff.mpr hgone.symm).symm
  | sale b hb h =>
    rw [h] at hr
    obtain ⟨hll, hsal⟩ := llegadas_trasBarrera DIM n p b hr
    have hcame : s.encuentro.came p = b + 1 := by
      simp only [Estado.encuentro, h, llegadas]
    have hgone : s.encuentro.gone p = b := by
      simp only [Estado.encuentro, h, salidas]
    refine .inr ⟨.go p, ?_⟩
    rw [Meet.step, if_pos (by rw [hgone]; exact hb), hgone]
    refine congrArg some (Eq.trans ?_ (encuentro_con (s := s) (p := p) rfl).symm)
    rw [hll, hsal]
    congr 1
    exact (Function.update_eq_self_iff.mpr hcame.symm).symm
  | _ =>
    rename_i h
    left
    rw [encuentro_con rfl]
    unfold Estado.encuentro
    congr 1 <;> exact Function.update_eq_self_iff.mpr (by simp [h, llegadas, salidas])

/-- The barrier that `paso` takes for granted is the one that the protocol of `Tmk_barrier` keeps
(`Tmk.Barriers.rounds_meet`): by how often its processes have come and gone the program goes through its states, so
nobody is two calls ahead of another. -/
theorem llegadas_encuentro {DIM : Nat} {s : Estado n} (h : Alcanzable DIM s) :
    Runs.Reachable Meet.step Meet.init s.encuentro ∧ ∀ p q, llegadas n (s.pc p) ≤ llegadas n (s.pc q) + 1 := by
  have hmeet : Runs.Reachable Meet.step Meet.init s.encuentro := by
    obtain ⟨array, sum, h⟩ := h
    exact h.simulates Meet.step Estado.encuentro fun s a t hr ha =>
      (paso_mueve DIM s t a ha).encuentro DIM s t a.1 ((Alcanzable.fases ⟨array, sum, hr⟩).rango a.1)
  exact ⟨hmeet, fun p q => (Meet.came_le hmeet p q).2⟩

/-! ## Turns -/

/-- Between having seen its id in `turn` and having incremented it. -/
def Imprimiendo : Pc → Prop
  | .cabecera _ | .imprime .. | .leeTurno _ | .escribeTurno .. => True
  | _ => False

/-- Turns of the loop a process has finished. -/
def vueltas (n : Nat) : Pc → Nat
  | .llega b => b
  | pc => llegadas n pc - 1

/-- The writes to `turn` are `0, 1, 2, ...`, one by the coordinator and one by each process
in turn; who is printing has seen the last of them, who has printed will not see its id
again, and process `q` has printed by the end of its turn `q` of the loop. -/
structure Turno (s : Estado n) : Prop where
  turnos : s.turnos = List.range s.turnos.length
  pocos : s.turnos.length ≤ n + 1
  antes : ∀ q : Fin n, q.val = COORDINADOR → s.pc q = .inicio → s.turnos = []
  imprimiendo : ∀ q, Imprimiendo (s.pc q) → q.val + 1 = s.turnos.length ∧ s.visto q = q.val
  escrito : ∀ q k t, s.pc q = .escribeTurno k t → t = q.val
  pasado : ∀ q : Fin n, q.val + 1 < s.turnos.length → q.val + 1 ≤ s.visto q
  vuelta : ∀ q, q.val + 1 ≤ vueltas n (s.pc q) → q.val + 1 < s.turnos.length
  marca : ∀ q, q.val + 2 ≤ llegadas n (s.pc q) → q.val + 1 ≤ s.marca (q.val + 1)
  revisa : ∀ q k, s.pc q = .revisa k → k ≤ s.visto q
  tope : ∀ b, s.marca b ≤ s.turnos.length - 1

/-- What a process must bring to its new place, in a move that writes nothing to `turn`. -/
structure EnSitio (t : Estado n) (p : Fin n) : Prop where
  imprimiendo : Imprimiendo (t.pc p) → p.val + 1 = t.turnos.length ∧ t.visto p = p.val
  escrito : ∀ k v, t.pc p = .escribeTurno k v → v = p.val
  vuelta : p.val + 1 ≤ vueltas n (t.pc p) → p.val + 1 < t.turnos.length
  marca : p.val + 2 ≤ llegadas n (t.pc p) → p.val + 1 ≤ t.marca (p.val + 1)
  revisa : ∀ k, t.pc p = .revisa k → k ≤ t.visto p
  inicio : t.pc p ≠ .inicio

theorem Turno.avanza (s t : Estado n) (p : Fin n) (hs : Turno s)
    (hpc : ∀ q, q ≠ p → t.pc q = s.pc q) (hturnos : t.turnos = s.turnos)
    (hvisto : ∀ q, q ≠ p → t.visto q = s.visto q) (hp : s.visto p ≤ t.visto p)
    (hmarca : ∀ b, s.marca b ≤ t.marca b) (htope : ∀ b, t.marca b ≤ t.turnos.length - 1)
    (h : EnSitio t p) : Turno t := by
  refine ⟨?_, ?_, ?_, ?_, ?_, ?_, ?_, ?_, ?_, htope⟩
  · rw [hturnos]
    exact hs.turnos
  · rw [hturnos]
    exact hs.pocos
  all_goals intro q; by_cases hq : q = p
  · subst hq
    exact fun _ h' => absurd h' h.inicio
  · rw [hpc q hq, hturnos]
    exact hs.antes q
  · exact hq ▸ h.imprimiendo
  · rw [hpc q hq, hvisto q hq, hturnos]
    exact hs.imprimiendo q
  · exact hq ▸ h.escrito
  · rw [hpc q hq]
    exact hs.escrito q
  · subst hq
    rw [hturnos]
    exact fun h' => (hs.pasado q h').trans hp
  · rw [hvisto q hq, hturnos]
    exact hs.pasado q
  · exact hq ▸ h.vuelta
  · rw [hpc q hq, hturnos]
    exact hs.vuelta q
  · exact hq ▸ h.marca
  · rw [hpc q hq]
    exact fun h' => (hs.marca q h').trans (hmarca _)
  · exact hq ▸ h.revisa
  · rw [hpc q hq, hvisto q hq]
    exact hs.revisa q

/-- Entry `j` of `turnos` holds `j`. -/
theorem Turno.entrada (s : Estado n) (hs : Turno s) (j v : Nat) (h : s.turnos[j]? = some v) :
    v = j ∧ j < s.turnos.length := by
  rw [hs.turnos] at h
  obtain ⟨hj, hv⟩ := List.getElem?_eq_some_iff.mp h
  rw [List.getElem_range] at hv
  exact ⟨hv.symm, by simpa using hj⟩

/-- Nobody is past the first barrier while somebody has not started. -/
theorem Fases.antes (s : Estado n) (hf : Fases s) (p : Fin n) (h : s.pc p = .inicio) (q : Fin n) :
    s.pc q = .inicio ∨ s.pc q = .llega 0 ∨ s.pc q = .espera 0 := by
  have hq := hf.barrera q p
  rw [h] at hq
  generalize s.pc q = pc at hq ⊢
  cases pc <;> simp [salidas, llegadas] at hq ⊢
  all_goals exact hq

theorem Turno.callado (s t : Estado n) (p : Fin n) (hs : Turno s)
    (hpc : ∀ q, q ≠ p → t.pc q = s.pc q) (hturnos : t.turnos = s.turnos)
    (hvisto : t.visto = s.visto) (hmarca : t.marca = s.marca)
    (himp : Imprimiendo (t.pc p) → Imprimiendo (s.pc p))
    (hesc : ∀ k v, t.pc p ≠ .escribeTurno k v)
    (hvue : p.val + 1 ≤ vueltas n (t.pc p) → p.val + 1 ≤ vueltas n (s.pc p))
    (hlle : llegadas n (t.pc p) ≤ llegadas n (s.pc p))
    (hrev : ∀ k, t.pc p = .revisa k → k = 0) (hini : t.pc p ≠ .inicio) : Turno t := by
  refine hs.avanza s t p hpc hturnos (fun q _ => by rw [hvisto]) (by rw [hvisto])
    (fun b => by rw [hmarca]) (fun b => by rw [hmarca, hturnos]; exact hs.tope b) ?_
  refine ⟨?_, fun k v h => absurd h (hesc k v), ?_, ?_, ?_, hini⟩
  · rw [hturnos, hvisto]
    exact fun h => hs.imprimiendo p (himp h)
  · rw [hturnos]
    exact fun h => hs.vuelta p (hvue h)
  · rw [hmarca]
    exact fun h => hs.marca p (h.trans hlle)
  · intro k h
    rw [hrev k h]
    exact Nat.zero_le _

theorem llegadas_le_vueltas (n : Nat) (pc : Pc) : llegadas n pc ≤ vueltas n pc + 1 := by
  cases pc <;> simp [llegadas, vueltas]

theorem Turno.llega (s : Estado n) (p : Fin n) (hs : Turno s) (b : Nat) (h : s.pc p = .llega b) :
    Turno { s.con p (.espera b) with
      marca := Function.update s.marca b (s.turnos.length - 1) } := by
  have hmarca : ∀ c, s.marca c ≤ Function.update s.marca b (s.turnos.length - 1) c := by
    intro c
    rw [Function.update_apply]
    split
    next hc => exact hs.tope c
    next => exact Nat.le_refl _
  refine hs.avanza s _ p (fun q hq => by simp [hq]) rfl (fun _ _ => rfl) (Nat.le_refl _) hmarca
    ?_ ?_
  · intro c
    dsimp only
    rw [Function.update_apply]
    split
    · exact Nat.le_refl _
    · exact hs.tope c
  · have hv := hs.vuelta p
    have hm := hs.marca p
    rw [h] at hv hm
    refine ⟨?_, ?_, ?_, ?_, ?_, ?_⟩ <;> simp [Imprimiendo, vueltas, llegadas, h] at *
    · exact hv
    · intro hb
      rw [Function.update_apply]
      split
      next hc => have := hv (by omega); omega
      next hc => exact hm (by omega)

/-- Everybody leaves barrier `b` having seen at least the value `b` of `turn`: process `b - 1`
had printed when it arrived there. -/
theorem Turno.marca_de_todos (s : Estado n) (hs : Turno s) (b : Nat) (hb : b ≤ n)
    (h : ∀ q, b < llegadas n (s.pc q)) : b ≤ s.marca b := by
  cases b with
  | zero => exact Nat.zero_le _
  | succ q => exact hs.marca ⟨q, by omega⟩ (h ⟨q, by omega⟩)

theorem Turno.sale (DIM : Nat) (s : Estado n) (p : Fin n) (hs : Turno s) (hf : Fases s) (b : Nat)
    (hb : ∀ q, b < llegadas n (s.pc q)) (h : s.pc p = .espera b) :
    Turno { s.con p (trasBarrera DIM n p b) with
      visto := Function.update s.visto p (max (s.visto p) (s.marca b)) } := by
  have hr : b ≤ n + 1 := by simpa [h, EnRango] using hf.rango p
  have hlle := (llegadas_trasBarrera DIM n p b hr).1
  refine hs.avanza s _ p (fun q hq => by simp [hq]) rfl (fun q hq => by simp [hq])
    (by simp) (fun _ => Nat.le_refl _) hs.tope ?_
  have hv := hs.vuelta p
  have hm := hs.marca p
  rw [h] at hv hm
  -- the four places a barrier leads to: only `revisa` asks for anything about `visto`
  refine ⟨?_, ?_, ?_, ?_, ?_, ?_⟩ <;> simp only [Estado.con_pc, Function.update_self]
  · intro hi
    unfold trasBarrera at hi
    split_ifs at hi <;> cases hi
  · intro k v hi
    unfold trasBarrera at hi
    split_ifs at hi
  · intro hi
    refine hv (hi.trans ?_)
    unfold trasBarrera
    split_ifs <;> simp [vueltas, llegadas] <;> omega
  · intro hi
    exact hm (by rw [hlle] at hi; exact hi)
  · intro k hi
    unfold trasBarrera at hi
    split_ifs at hi with _ hbn
    cases hi
    exact le_max_of_le_right (hs.marca_de_todos s _ (Nat.le_of_lt hbn) hb)
  · unfold trasBarrera
    split_ifs <;> simp

/-- A move that reads entry `j` of `turnos`. -/
theorem Turno.lee (s : Estado n) (p : Fin n) (hs : Turno s) (j : Nat) (pc : Pc)
    (hj : s.visto p ≤ j)
    (h : EnSitio { s.con p pc with visto := Function.update s.visto p j } p) :
    Turno { s.con p pc with visto := Function.update s.visto p j } :=
  hs.avanza s _ p (fun q hq => by simp [hq]) rfl (fun q hq => by simp [hq]) (by simpa using hj)
    (fun _ => Nat.le_refl _) hs.tope h

theorem Turno.esMiTurno (s : Estado n) (p : Fin n) (hs : Turno s) (k j : Nat)
    (hj : s.visto p ≤ j) (hv : s.turnos[j]? = some p.val) (h : s.pc p = .revisa k) :
    Turno { s.con p (.cabecera k) with visto := Function.update s.visto p j } := by
  obtain ⟨hpj, hlt⟩ := hs.entrada s j _ hv
  -- had it printed already, it would have seen a later turn than its own
  have hlast : p.val + 1 = s.turnos.length := by
    have := hs.pasado p
    omega
  refine hs.lee s p j _ hj ?_
  have hv := hs.vuelta p
  have hm := hs.marca p
  rw [h] at hv hm
  refine ⟨?_, ?_, ?_, ?_, ?_, ?_⟩ <;> simp [Imprimiendo, vueltas, llegadas] at *
  · exact ⟨hlast, hpj.symm⟩
  · exact hv
  · exact hm

theorem Turno.noEsMiTurno (s : Estado n) (p : Fin n) (hs : Turno s) (k j v : Nat)
    (hj : s.visto p ≤ j) (hv : s.turnos[j]? = some v) (hne : v ≠ p.val)
    (h : s.pc p = .revisa k) :
    Turno { s.con p (.llega (k + 1)) with visto := Function.update s.visto p j } := by
  obtain ⟨hvj, hlt⟩ := hs.entrada s j _ hv
  have hk := hs.revisa p k h
  refine hs.lee s p j _ hj ?_
  have hv := hs.vuelta p
  have hm := hs.marca p
  rw [h] at hv hm
  refine ⟨?_, ?_, ?_, ?_, ?_, ?_⟩ <;> simp [Imprimiendo, vueltas, llegadas] at *
  · intro hpk
    rcases Nat.eq_or_lt_of_le hpk with he | hlt'
    · omega
    · exact hv hlt'
  · exact hm

theorem Turno.leeTurno (s : Estado n) (p : Fin n) (hs : Turno s) (k j v : Nat)
    (hj : s.visto p ≤ j) (hv : s.turnos[j]? = some v) (h : s.pc p = .leeTurno k) :
    Turno { s.con p (.escribeTurno k v) with visto := Function.update s.visto p j } := by
  obtain ⟨hvj, hlt⟩ := hs.entrada s j _ hv
  obtain ⟨hlast, hvis⟩ := hs.imprimiendo p (by rw [h]; trivial)
  refine hs.lee s p j _ hj ?_
  have hv := hs.vuelta p
  have hm := hs.marca p
  rw [h] at hv hm
  refine ⟨?_, ?_, ?_, ?_, ?_, ?_⟩ <;> simp [Imprimiendo, vueltas, llegadas] at *
  · exact ⟨hlast, by omega⟩
  · omega
  · exact hv
  · exact hm

theorem Turno.escribeTurno (s : Estado n) (p : Fin n) (hs : Turno s) (k v : Nat)
    (h : s.pc p = .escribeTurno k v) :
    Turno ((s.escribeTurn p (v + 1)).con p (.llega (k + 1))) := by
  obtain ⟨hlast, hvis⟩ := hs.imprimiendo p (by rw [h]; trivial)
  obtain rfl := hs.escrito p k v h
  refine ⟨?_, ?_, ?_, ?_, ?_, ?_, ?_, ?_, ?_, fun b => ?_⟩
  · simp [List.range_succ, ← hs.turnos, hlast]
  · simp [← hlast]
  case refine_10 =>
    have := hs.tope b
    simp only [Estado.con_marca, Estado.escribeTurn_marca, Estado.con_turnos,
      Estado.escribeTurn_turnos, List.length_append, List.length_singleton]
    omega
  all_goals intro q; by_cases hq : q = p
  · simp [hq]
  · have := hs.antes q
    simp [hq] at *
    intro h0 h1
    have := this h0 h1
    simp [this] at hlast
  · simp [hq, Imprimiendo]
  · intro hi
    obtain ⟨hq', -⟩ := hs.imprimiendo q (by simpa [hq] using hi)
    exact absurd (Fin.ext (by omega)) hq
  · simp [hq]
  · simpa [hq] using hs.escrito q
  · simp [hq, ← hlast]
  · have := hs.pasado q
    have : q.val ≠ p.val := fun h => hq (Fin.ext h)
    simp only [Estado.con_turnos, Estado.escribeTurn_turnos, List.length_append,
      List.length_singleton, Estado.con_visto, Estado.escribeTurn_visto, Function.update_of_ne hq]
    omega
  · simp [hq, ← hlast]
  · intro hi
    have := hs.vuelta q (by simpa [hq] using hi)
    simpa using Nat.lt_succ_of_lt this
  · have := hs.marca p
    rw [h] at this
    simpa [hq, llegadas] using this
  · simpa [hq] using hs.marca q
  · simp [hq]
  · simpa [hq] using hs.revisa q

theorem Turno.inicia (DIM : Nat) (s : Estado n) (p : Fin n) (hs : Turno s) (hf : Fases s)
    (hp : p.val = COORDINADOR) (h : s.pc p = .inicio) :
    Turno ((s.inicializa DIM p).con p (.llega 0)) := by
  have hnil : s.turnos = [] := hs.antes p hp h
  have hsal := hf.antes s p h
  -- what is true of a place in the new state and false of `llega 0` was true in the old one
  have hpc : ∀ (q : Fin n) (P : Pc → Prop), ¬ P (.llega 0) →
      P (((s.inicializa DIM p).con p (.llega 0)).pc q) → P (s.pc q) := by
    intro q P hP hi
    by_cases hq : q = p
    · subst hq
      simp [hP] at hi
    · simpa [hq] using hi
  have hlle : ∀ q, llegadas n (s.pc q) ≤ 1 ∧ vueltas n (s.pc q) = 0 := by
    intro q
    rcases hsal q with h | h | h <;> rw [h] <;> simp [llegadas, vueltas]
  have hlen : ((s.inicializa DIM p).con p (.llega 0)).turnos.length = 1 := by simp [hnil]
  refine ⟨?_, ?_, ?_, ?_, ?_, ?_, ?_, ?_, ?_, ?_⟩
  · simp [hnil]
  · simp [hnil]
  · intro q hq0 hi
    obtain rfl : q = p := Fin.ext (hq0.trans hp.symm)
    simp at hi
  · intro q hi
    have := (hs.imprimiendo q (hpc q _ (by simp [Imprimiendo]) hi)).1
    simp [hnil] at this
  · intro q k v hi
    exact hs.escrito q k v (hpc q (· = .escribeTurno k v) (by simp) hi)
  · intro q hq
    omega
  · intro q hq
    have := hpc q (q.val + 1 ≤ vueltas n ·) (by simp [vueltas]) hq
    have := (hlle q).2
    omega
  · intro q hq
    have := hpc q (q.val + 2 ≤ llegadas n ·) (by simp [llegadas]) hq
    have := (hlle q).1
    omega
  · intro q k hi
    have hk := hpc q (· = .revisa k) (by simp) hi
    rcases hsal q with h | h | h <;> rw [h] at hk <;> cases hk
  · intro b
    have := hs.tope b
    simpa [hnil] using this

theorem Turno.mueve (DIM : Nat) (s t : Estado n) (p : Fin n) (hs : Turno s) (hf : Fases s)
    (h : Mueve DIM s p t) : Turno t := by
  cases h with
  | inicia hp h => exact hs.inicia DIM s p hf hp h
  | llega b h => exact hs.llega s p b h
  | sale b hb h => exact hs.sale DIM s p hf b hb h
  | esMiTurno k j hj hv h => exact hs.esMiTurno s p k j hj hv h
  | noEsMiTurno k j v hj hv hne h => exact hs.noEsMiTurno s p k j v hj hv hne h
  | leeTurno k j v hj hv h => exact hs.leeTurno s p k j v hj hv h
  | escribeTurno k v h => exact hs.escribeTurno s p k v h
  | _ =>
    rename_i h
    refine hs.callado s _ p (fun q hq => by simp [hq]) rfl rfl rfl ?_ ?_ ?_ ?_ ?_ ?_ <;>
      simp [h, Imprimiendo, vueltas, llegadas]

theorem Alcanzable.turno {DIM : Nat} {s : Estado n} (h : Alcanzable DIM s) : Turno s := by
  obtain ⟨array, sum, h⟩ := h
  refine h.induction Turno ⟨rfl, by simp [inicial], fun _ _ _ => rfl, ?_, ?_, ?_, ?_, ?_, ?_, ?_⟩ ?_
  case refine_8 =>
    intro s a t hr hs ht
    exact hs.mueve DIM s t a.1 (Alcanzable.fases ⟨array, sum, hr⟩) (paso_mueve DIM s t a ht)
  all_goals simp [inicial, Imprimiendo, vueltas, llegadas]

/-! ## Output -/

/-- What the loop prints, against the lines before and after it. -/
def Evento.delBucle : Evento → Bool
  | .misElementos _ | .elem .. => true
  | _ => false

def Evento.elemento : Evento → Option (Nat × Int)
  | .elem _ i v => some (i, v)
  | _ => none

/-- The line of element `i` in the block of process `id`. -/
def linea (array : Nat → Int) (id i : Nat) : Evento := .elem id i (array i)

/-- The block of process `id`: the heading and its elements in index order. -/
def bloque (DIM n : Nat) (array : Nat → Int) (id : Nat) : List Evento :=
  .misElementos id :: (Cuts.piece (start DIM n) id).map (linea array id)

/-- The part of its block that a process has printed in this turn of the loop. -/
def parcial (DIM n : Nat) (array : Nat → Int) (id : Nat) : Pc → List Evento
  | .imprime _ i =>
    .misElementos id :: (List.range' (start DIM n id) (i - start DIM n id)).map (linea array id)
  | .leeTurno _ | .escribeTurno .. => bloque DIM n array id
  | _ => []

/-- The loop has printed the blocks of the processes whose turn is over, and `r` of one more. -/
structure Salida (DIM : Nat) (s : Estado n) (r : List Evento) : Prop where
  salida : s.salida.filter Evento.delBucle
    = (List.range (s.turnos.length - 1)).flatMap (bloque DIM n s.array) ++ r
  nadie : (∀ q, ¬ Imprimiendo (s.pc q)) → r = []
  alguien : ∀ q : Fin n, Imprimiendo (s.pc q) → r = parcial DIM n s.array q (s.pc q)
  cursor : ∀ (q : Fin n) k i, s.pc q = .imprime k i →
    start DIM n q ≤ i ∧ i ≤ start DIM n (q + 1)

/-- A move that neither writes to `turn` nor prints in the loop, by somebody not printing. -/
theorem Salida.callado (DIM : Nat) (s t : Estado n) (r : List Evento) (p : Fin n)
    (hs : Salida DIM s r) (hpc : ∀ q, q ≠ p → t.pc q = s.pc q)
    (hturnos : t.turnos = s.turnos) (harray : t.array = s.array)
    (hsal : t.salida.filter Evento.delBucle = s.salida.filter Evento.delBucle)
    (hi : ¬ Imprimiendo (s.pc p)) (hi' : ¬ Imprimiendo (t.pc p)) : Salida DIM t r := by
  refine ⟨?_, ?_, ?_, ?_⟩
  · rw [hsal, hturnos, harray]
    exact hs.salida
  · intro hno
    refine hs.nadie fun q => ?_
    by_cases hq : q = p
    · exact hq ▸ hi
    · exact hpc q hq ▸ hno q
  · intro q hq
    by_cases hqp : q = p
    · exact absurd (hqp ▸ hq) hi'
    · rw [hpc q hqp] at hq ⊢
      rw [harray]
      exact hs.alguien q hq
  · intro q k i hq
    by_cases hqp : q = p
    · rw [hqp] at hq
      rw [hq] at hi'
      exact absurd trivial hi'
    · exact hs.cursor q k i (hpc q hqp ▸ hq)

/-- At most one process is printing: the one whose id is the last value of `turn`. -/
theorem Turno.solo (s : Estado n) (hs : Turno s) (p q : Fin n) (hp : Imprimiendo (s.pc p))
    (hq : Imprimiendo (s.pc q)) : q = p := by
  have h1 := (hs.imprimiendo p hp).1
  have h2 := (hs.imprimiendo q hq).1
  exact Fin.ext (by omega)

/-- A move by the one process that is printing, or that begins to print. -/
theorem Salida.propio (DIM : Nat) (s t : Estado n) (r r' : List Evento) (p : Fin n)
    (hs : Salida DIM s r) (ht : Turno t) (hpc : ∀ q, q ≠ p → t.pc q = s.pc q)
    (hturnos : t.turnos = s.turnos) (harray : t.array = s.array)
    (hsal : t.salida.filter Evento.delBucle = s.salida.filter Evento.delBucle ++ r')
    (hi : Imprimiendo (t.pc p))
    (hr : r ++ r' = parcial DIM n s.array p (t.pc p))
    (hcur : ∀ k i, t.pc p = .imprime k i → start DIM n p ≤ i ∧ i ≤ start DIM n (p + 1)) :
    Salida DIM t (r ++ r') := by
  refine ⟨?_, ?_, ?_, ?_⟩
  · rw [hsal, hturnos, harray, hs.salida, List.append_assoc]
  · exact fun hno => absurd hi (hno p)
  · intro q hq
    obtain rfl := ht.solo t p q hi hq
    rw [harray]
    exact hr
  · intro q k i hq
    by_cases hqp : q = p
    · exact hqp ▸ hcur k i (hqp ▸ hq)
    · exact hs.cursor q k i (hpc q hqp ▸ hq)

/-- With nobody printing it is enough to look at the output. -/
theorem Salida.de_nadie (DIM : Nat) (t : Estado n) (hno : ∀ q, ¬ Imprimiendo (t.pc q))
    (hsal : t.salida.filter Evento.delBucle
      = (List.range (t.turnos.length - 1)).flatMap (bloque DIM n t.array)) : Salida DIM t [] := by
  refine ⟨by rw [hsal, List.append_nil], fun _ => rfl, fun q hq => absurd hq (hno q), ?_⟩
  intro q k i hq
  have := hno q
  rw [hq] at this
  exact absurd trivial this

theorem Salida.inicia (DIM : Nat) (s : Estado n) (r : List Evento) (p : Fin n)
    (hs : Salida DIM s r) (hf : Turno s) (hp : p.val = COORDINADOR) (h : s.pc p = .inicio) :
    Salida DIM ((s.inicializa DIM p).con p (.llega 0)) [] := by
  have hnil : s.turnos = [] := hf.antes p hp h
  have hno : ∀ q, ¬ Imprimiendo (s.pc q) := by
    intro q hq
    have := (hf.imprimiendo q hq).1
    simp [hnil] at this
  have hsal := hs.salida
  rw [hs.nadie hno] at hsal
  apply Salida.de_nadie
  · intro q
    by_cases hq : q = p
    · simp [hq, Imprimiendo]
    · simpa [hq] using hno q
  · simpa [hnil] using hsal

theorem Salida.escribeTurno (DIM : Nat) (s : Estado n) (r : List Evento) (p : Fin n)
    (hs : Salida DIM s r) (hf : Turno s) (k v : Nat) (h : s.pc p = .escribeTurno k v) :
    Salida DIM ((s.escribeTurn p (v + 1)).con p (.llega (k + 1))) [] := by
  have hi : Imprimiendo (s.pc p) := by
    rw [h]
    trivial
  have hlast : s.turnos.length = p.val + 1 := (hf.imprimiendo p hi).1.symm
  have hr : r = bloque DIM n s.array p := by simpa [h, parcial] using hs.alguien p hi
  have hno : ∀ q, q ≠ p → ¬ Imprimiendo (s.pc q) := fun q hq h' => hq (hf.solo s p q hi h')
  apply Salida.de_nadie
  · intro q
    by_cases hq : q = p
    · simp [hq, Imprimiendo]
    · simpa [hq] using hno q hq
  · have hsal := hs.salida
    rw [hr, hlast, Nat.add_sub_cancel] at hsal
    have hlen : ((s.escribeTurn p (v + 1)).con p (.llega (k + 1))).turnos.length - 1
        = p.val + 1 := by simp [hlast]
    rw [hlen, List.range_succ, List.flatMap_append, List.flatMap_singleton]
    exact hsal

theorem Salida.mueve (DIM : Nat) (s t : Estado n) (r : List Evento) (p : Fin n)
    (hs : Salida DIM s r) (hf : Turno s) (ht : Turno t) (h : Mueve DIM s p t) :
    ∃ r', Salida DIM t r' := by
  have hle : start DIM n p ≤ start DIM n (p + 1) :=
    start_monotone DIM n p.pos (Nat.le_succ p.val)
  cases h with
  | inicia hp h => exact ⟨[], hs.inicia DIM s r p hf hp h⟩
  | escribeTurno k v h => exact ⟨[], hs.escribeTurno DIM s r p hf k v h⟩
  | sale b hb h =>
    refine ⟨r, hs.callado DIM s _ r p (fun q hq => by simp [hq]) rfl rfl rfl ?_ ?_⟩
    · simp [h, Imprimiendo]
    · simp only [Estado.con_pc, Function.update_self]
      unfold trasBarrera
      split_ifs <;> simp [Imprimiendo]
  | esMiTurno k j hj hv h =>
    have hr : r = [] := by
      refine hs.nadie fun q hq => ?_
      have hqp : q ≠ p := by
        rintro rfl
        simp [h, Imprimiendo] at hq
      exact hqp (ht.solo _ p q (by simp [Imprimiendo]) (by simpa [hqp] using hq))
    refine ⟨_, hs.propio DIM s _ r [] p ht (fun q hq => by simp [hq]) rfl rfl ?_ ?_ ?_ ?_⟩ <;>
      simp [Imprimiendo, parcial, hr]
  | cabecera k h =>
    have hr := hs.alguien p (by simp [h, Imprimiendo])
    refine ⟨_, hs.propio DIM s _ r [.misElementos p] p ht (fun q hq => by simp [hq]) rfl rfl
      ?_ ?_ ?_ ?_⟩ <;> simp [Imprimiendo, parcial, hr, h, Evento.delBucle, hle]
  | imprime k i hi h =>
    have hr := hs.alguien p (by simp [h, Imprimiendo])
    obtain ⟨h1, h2⟩ := hs.cursor p k i h
    refine ⟨_, hs.propio DIM s _ r [.elem p i (s.array i)] p ht (fun q hq => by simp [hq]) rfl rfl
      ?_ ?_ ?_ ?_⟩ <;> simp [Imprimiendo, parcial, hr, h, Evento.delBucle]
    · rw [Nat.succ_sub h1, List.range'_concat]
      simp [linea, Nat.add_sub_cancel' h1]
    · omega
  | impreso k i hi h =>
    have hr := hs.alguien p (by simp [h, Imprimiendo])
    obtain ⟨h1, h2⟩ := hs.cursor p k i h
    obtain rfl : i = start DIM n (p + 1) := by omega
    refine ⟨_, hs.propio DIM s _ r [] p ht (fun q hq => by simp [hq]) rfl rfl ?_ ?_ ?_ ?_⟩ <;>
      simp [Imprimiendo, parcial, hr, h, bloque, Cuts.piece]
  | leeTurno k j v hj hv h =>
    have hr := hs.alguien p (by simp [h, Imprimiendo])
    refine ⟨_, hs.propio DIM s _ r [] p ht (fun q hq => by simp [hq]) rfl rfl ?_ ?_ ?_ ?_⟩ <;>
      simp [Imprimiendo, parcial, hr, h]
  | _ =>
    rename_i h
    refine ⟨r, hs.callado DIM s _ r p (fun q hq => by simp [hq]) rfl rfl ?_ ?_ ?_⟩ <;>
      simp [h, Imprimiendo, Evento.delBucle]

theorem Alcanzable.salida {DIM : Nat} {s : Estado n} (h : Alcanzable DIM s) :
    ∃ r, Salida DIM s r := by
  obtain ⟨array, sum, h⟩ := h
  refine h.induction (fun s => ∃ r, Salida DIM s r) ⟨[], rfl, fun _ => rfl, ?_, ?_⟩ ?_
  · simp [inicial, Imprimiendo]
  · simp [inicial]
  · rintro s a t hr ⟨r, hs⟩ ht
    have hf : Turno s := Alcanzable.turno ⟨array, sum, hr⟩
    have hf' : Turno t := Alcanzable.turno ⟨array, sum, hr.step a ht⟩
    exact hs.mueve DIM s t r a.1 hf hf' (paso_mueve DIM s t a ht)

/-- Once somebody has left the last barrier of the loop, all `n` increments have been made
and nobody is printing. -/
theorem Alcanzable.fin_del_bucle {DIM : Nat} {s : Estado n} (h : Alcanzable DIM s) (p : Fin n)
    (hp : n + 1 ≤ salidas n (s.pc p)) :
    s.turnos.length = n + 1 ∧ ∀ q, ¬ Imprimiendo (s.pc q) := by
  have hn : 0 < n := p.pos
  have ht := h.turno
  have hlle := h.fases.barrera p ⟨n - 1, by omega⟩
  have hvue := llegadas_le_vueltas n (s.pc ⟨n - 1, by omega⟩)
  have hlast := ht.vuelta ⟨n - 1, by omega⟩ (by dsimp only; omega)
  have hlen : s.turnos.length = n + 1 := by
    have := ht.pocos
    dsimp only at hlast
    omega
  refine ⟨hlen, fun q hq => ?_⟩
  have := (ht.imprimiendo q hq).1
  have := q.isLt
  omega

theorem elemento_delBucle (es : List Evento) :
    es.filterMap Evento.elemento = (es.filter Evento.delBucle).filterMap Evento.elemento := by
  rw [List.filterMap_filter]
  refine List.filterMap_congr fun e _ => ?_
  cases e <;> rfl

theorem elementos_bloque (DIM n : Nat) (array : Nat → Int) (id : Nat) :
    (bloque DIM n array id).filterMap Evento.elemento
      = (Cuts.piece (start DIM n) id).map fun i => (i, array i) := by
  rw [bloque, List.filterMap_cons_none rfl, List.filterMap_map]
  exact congrFun List.filterMap_eq_map _

theorem elementos_bloques (DIM n k : Nat) (hn : 0 < n) (array : Nat → Int) :
    ((List.range k).flatMap (bloque DIM n array)).filterMap Evento.elemento
      = (List.range (start DIM n k)).map fun i => (i, array i) := by
  rw [← Cuts.flatMap_pieces _ (start_zero DIM n) (start_monotone DIM n hn), List.filterMap_flatMap,
    List.map_flatMap]
  simp only [elementos_bloque]

theorem count_misElementos (DIM n id k : Nat) (array : Nat → Int) :
    ((List.range k).flatMap (bloque DIM n array)).count (.misElementos id)
      = if id < k then 1 else 0 := by
  induction k with
  | zero => simp
  | succ k ih =>
    have hmap : ∀ l : List Nat, (l.map (linea array k)).count (.misElementos id) = 0 := by
      intro l
      rw [List.count_eq_zero]
      simp [linea]
    rw [List.range_succ, List.flatMap_append, List.count_append, ih, List.flatMap_singleton,
      bloque, List.count_cons, hmap]
    simp only [beq_iff_eq, Evento.misElementos.injEq]
    split_ifs <;> omega

/-- By the end of the loop it has printed the blocks of all processes in order, -/
theorem Alcanzable.bloques {DIM : Nat} {s : Estado n} (hs : Alcanzable DIM s) (p : Fin n)
    (hp : n + 1 ≤ salidas n (s.pc p)) :
    s.salida.filter Evento.delBucle = (List.range n).flatMap (bloque DIM n s.array) := by
  obtain ⟨hlen, hno⟩ := hs.fin_del_bucle p hp
  obtain ⟨r, hr⟩ := hs.salida
  rw [hr.salida, hlen, hr.nadie hno, List.append_nil, Nat.add_sub_cancel]

/-- and so every element of the array. -/
theorem Alcanzable.elementos {DIM : Nat} {s : Estado n} (hs : Alcanzable DIM s) (p : Fin n)
    (hp : n + 1 ≤ salidas n (s.pc p)) :
    s.salida.filterMap Evento.elemento = (List.range DIM).map fun i => (i, s.array i) := by
  rw [elemento_delBucle, hs.bloques p hp, elementos_bloques DIM n n p.pos,
    start_nprocs DIM n p.pos]

/-! ## Top theorems -/

/-- **Ordered printing.**  By the end of the loop, whatever values of `turn` the processes
saw, the loop has printed the blocks of all processes, once each and in increasing id, and
the elements printed are `a[0], ..., a[DIM - 1]` in index order. -/
theorem bucle_en_orden (DIM n : Nat) (s : Estado n) (p : Fin n) (hs : Alcanzable DIM s)
    (hp : n + 1 ≤ salidas n (s.pc p)) :
    s.salida.filter Evento.delBucle = (List.range n).flatMap (bloque DIM n s.array) ∧
    (∀ q : Fin n, s.salida.count (.misElementos q) = 1) ∧
    s.salida.filterMap Evento.elemento = (List.range DIM).map fun i => (i, s.array i) := by
  have hsal := hs.bloques p hp
  refine ⟨hsal, fun q => ?_, hs.elementos p hp⟩
  rw [← List.count_filter (p := Evento.delBucle) rfl, hsal, count_misElementos, if_pos q.isLt]

/-- Two processes and three elements: process 1 first reads a stale turn and prints one
barrier later. -/
theorem bucle_en_orden_dos : ∃ s : Estado 2, Alcanzable 3 s ∧ 3 ≤ salidas 2 (s.pc 0) ∧
    s.salida.filterMap Evento.elemento = [(0, 1), (1, 2), (2, 3)] := by
  have hrun : ∃ s : Estado 2, Runs.run (paso 3) (inicial 2 (fun _ => 7) 7)
      (List.replicate 2 (0, 0) ++ List.replicate 2 (1, 0) ++ List.replicate 10 (0, 0) ++
        List.replicate 5 (1, 0) ++ [(0, 0), (0, 1), (0, 0), (1, 0), (1, 1), (1, 0), (1, 0), (1, 0),
        (1, 0), (1, 1), (1, 0), (1, 0), (0, 0)]) = some s ∧ 3 ≤ salidas 2 (s.pc 0) ∧
        (List.range 3).map (fun i => (i, s.array i)) = [(0, 1), (1, 2), (2, 3)] :=
    ⟨_, rfl, by decide, by decide⟩
  obtain ⟨s, hrun, hp, harray⟩ := hrun
  have hs : Alcanzable 3 s := ⟨_, _, _, hrun⟩
  exact ⟨s, hs, hp, (bucle_en_orden 3 2 s 0 hs hp).2.2.trans harray⟩

end SumaTmk
