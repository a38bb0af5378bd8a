import SistemasDistribuidos.Lib.Sessions
import SistemasDistribuidos.Estructura.Server

/-!
# Passengers of `Practica02/estructura_client.c` against the server

Each passenger asks for one trip; if it is given a vehicle it later makes one
`terminarViaje` call with the plate and the fare of the reply.  The calls of any
number of passengers and any number of `estadoServicio` calls interleave, each
handled atomically (`Lender.step` at `servicio e`).

The vehicle is handed out by index and given back by plate, so a reply leads back to
its vehicle only if no earlier vehicle has the same plate:

    every reachable state is consistent  ↔  the plates drawn differ   (consistente_iff_sorteos_distintos)
-/

namespace Estructura

open CText

/-! ## Algorithm -/

/-- The call `solicitarViaje` with the index behind the reply, which the client never sees. -/
def solicitarConIndice (e : Entorno) (s : Servidor) (origen : PosicionPasajero) :
    Servidor × Option (Fin N × InfoAuto) :=
  ((solicitarViaje e s origen).1,
    (vehiculoElegido (asegurarVehiculos e s).vehiculos origen).bind fun i =>
      (solicitarViaje e s origen).2.map fun info => (i, info))

/-- `terminarviaje_1_arg` as the client fills it in. -/
def terminarArgs (info : InfoAuto) (destino : PosicionFinal) : TerminarViajeArgs where
  posicionFinal := destino
  costoViaje := info.tarifa
  placa := info.placa

/-- The server as its passengers use it.  A fleet that has not been drawn yet is free. -/
def servicio (e : Entorno) : Lender Servidor (Fin N) PosicionPasajero PosicionFinal InfoAuto where
  init := servidor0
  ask := solicitarConIndice e
  giveBack := fun s info destino => (terminarViaje s (terminarArgs info destino)).1
  poll := fun s => (estadoServicio e s).1
  free := fun s i => ((asegurarVehiculos e s).vehiculos i).disponible

abbrev Mundo (n : Nat) := Lender.World Servidor (Fin N) InfoAuto (Fin n)

/-- Some interleaving of the calls of `n` passengers leads to `w`. -/
def Alcanzable (e : Entorno) {n : Nat} (w : Mundo n) : Prop :=
  Runs.Reachable (servicio e).step (servicio e).world0 w

/-- Trips in progress. -/
def enCurso {n : Nat} (w : Mundo n) : Nat :=
  (Finset.univ.filter fun k => (w.ses k).held.isSome = true).card

/-- No vehicle is shared, a passenger who finishes releases its own vehicle and touches no
other, and the reported number of free vehicles is the number of vehicles not on a trip. -/
structure Consistente (e : Entorno) {n : Nat} (w : Mundo n) : Prop where
  sinCompartir : ∀ k l i, (w.ses k).held = some i → (w.ses l).held = some i → k = l
  liberaElSuyo : ∀ k i destino w', (w.ses k).held = some i →
    (servicio e).step w (.giveBack k destino) = some w' →
      (w'.srv.vehiculos i).disponible = true ∧
      ∀ j, j ≠ i → w'.srv.vehiculos j = w.srv.vehiculos j
  disponibles : (estadoServicio e w.srv).2.vehiculosDisponibles + enCurso w = N

/-! ## Lemmas -/

/-- The answer is the vehicle chosen, with its data. -/
theorem solicitarConIndice_snd (e : Entorno) (s : Servidor) (p : PosicionPasajero) :
    (solicitarConIndice e s p).2 =
      (vehiculoElegido (asegurarVehiculos e s).vehiculos p).map fun i =>
        (i, infoAuto e ((asegurarVehiculos e s).vehiculos i)) := by
  unfold solicitarConIndice
  cases h : vehiculoElegido (asegurarVehiculos e s).vehiculos p with
  | none => rfl
  | some i => rw [solicitarViaje_some e s p i h]; rfl

/-- Plates are those drawn at the start. -/
def PlacasSorteadas (e : Entorno) (s : Servidor) : Prop :=
  ∀ i, ((asegurarVehiculos e s).vehiculos i).placa = placaSorteada e i

/-- The reply `info` carries the plate of vehicle `i`. -/
def Boleto (e : Entorno) (s : Servidor) (i : Fin N) (info : InfoAuto) : Prop :=
  s.vehiculosInicializados = true ∧ info.placa = placaSorteada e i

theorem PlacasSorteadas.vehiculos {e : Entorno} {s : Servidor} (h : PlacasSorteadas e s)
    (hini : s.vehiculosInicializados = true) (i : Fin N) :
    (s.vehiculos i).placa = placaSorteada e i := by
  have := h i
  rwa [asegurarVehiculos_of_inicializados e s hini] at this

theorem askLaws (e : Entorno) :
    Lender.AskLaws (servicio e) (PlacasSorteadas e) (Boleto e) where
  init := fun _ => rfl
  init_free := fun _ => rfl
  ask_good := by
    intro s p hs i
    show ((asegurarVehiculos e (solicitarViaje e s p).1).vehiculos i).placa = _
    rw [asegurarVehiculos_of_inicializados e _ (solicitarViaje_inicializados e s p),
      solicitarViaje_placa]
    exact hs i
  ask_none := by
    intro s p _ ho
    have hnone : vehiculoElegido (asegurarVehiculos e s).vehiculos p = none := by
      simpa [servicio, solicitarConIndice_snd] using ho
    funext i
    show ((asegurarVehiculos e (solicitarViaje e s p).1).vehiculos i).disponible = _
    rw [asegurarVehiculos_of_inicializados e _ (solicitarViaje_inicializados e s p),
      solicitarViaje_none e s p hnone]
    rfl
  ask_some := by
    intro s p i info hs ho
    have ho' : (solicitarConIndice e s p).2 = some (i, info) := ho
    rw [solicitarConIndice_snd] at ho'
    obtain ⟨c, hc, hci⟩ := Option.map_eq_some_iff.mp ho'
    simp only [Prod.mk.injEq] at hci
    obtain ⟨rfl, rfl⟩ := hci
    refine ⟨vehiculoElegido_disponible _ p c hc, ?_, solicitarViaje_inicializados e s p, hs c⟩
    funext i
    show ((asegurarVehiculos e (solicitarViaje e s p).1).vehiculos i).disponible = _
    rw [asegurarVehiculos_of_inicializados e _ (solicitarViaje_inicializados e s p),
      solicitarViaje_some e s p c hc]
    by_cases hi : i = c
    · subst hi; simp
    · simp [ocupar_of_ne _ _ _ hi, Function.update_of_ne hi, servicio]
  ask_ticket := fun s p i info _ h => ⟨solicitarViaje_inicializados e s p, h.2⟩
  poll_good := by
    intro s hs i
    show ((asegurarVehiculos e (asegurarVehiculos e s)).vehiculos i).placa = _
    rw [asegurarVehiculos_of_inicializados e _ (asegurarVehiculos_inicializados e s)]
    exact hs i
  poll_free := by
    intro s _
    funext i
    show ((asegurarVehiculos e (asegurarVehiculos e s)).vehiculos i).disponible = _
    rw [asegurarVehiculos_of_inicializados e _ (asegurarVehiculos_inicializados e s)]
    rfl
  poll_ticket := fun s i info _ h => ⟨asegurarVehiculos_inicializados e s, h.2⟩

/-- With different plates the search for a plate finds its vehicle. -/
theorem buscarPlaca_boleto (e : Entorno) (s : Servidor) (i : Fin N) (info : InfoAuto)
    (hd : Function.Injective (placaSorteada e)) (hs : PlacasSorteadas e s) (hb : Boleto e s i info) :
    buscarPlaca s.vehiculos info.placa = some i := by
  have hv := hs.vehiculos hb.1
  obtain ⟨j, hj⟩ := buscarPlaca_isSome s.vehiculos info.placa i (by rw [hv i, hb.2])
  have hji := buscarPlaca_eq_some s.vehiculos _ j hj
  rw [hv j, hb.2] at hji
  rw [hj, hd hji]

theorem laws (e : Entorno) (hd : Function.Injective (placaSorteada e)) :
    Lender.Laws (servicio e) (PlacasSorteadas e) (Boleto e) where
  toAskLaws := askLaws e
  back_good := by
    intro s i info d hs hb j
    have hini := (terminarViaje_inicializados s (terminarArgs info d)).trans hb.1
    show ((asegurarVehiculos e (terminarViaje s (terminarArgs info d)).1).vehiculos j).placa = _
    rw [asegurarVehiculos_of_inicializados e _ hini, terminarViaje_placa]
    exact hs.vehiculos hb.1 j
  back_free := by
    intro s i info d hs hb
    have hini := (terminarViaje_inicializados s (terminarArgs info d)).trans hb.1
    funext j
    show ((asegurarVehiculos e (terminarViaje s (terminarArgs info d)).1).vehiculos j).disponible = _
    rw [asegurarVehiculos_of_inicializados e _ hini,
      terminarViaje_vehiculos s (terminarArgs info d) i (buscarPlaca_boleto e s i info hd hs hb)]
    by_cases hj : j = i
    · subst hj; simp
    · simp [liberar_of_ne _ _ _ _ hj, Function.update_of_ne hj, servicio,
        asegurarVehiculos_of_inicializados e s hb.1]
  back_ticket := fun s _ info d _ _ _ hb h =>
    ⟨(terminarViaje_inicializados s (terminarArgs info d)).trans hb.1, h.2⟩

/-- The count of `estadoServicio` is the number of free resources of the pool. -/
theorem estadoServicio_disponibles (e : Entorno) {n : Nat} (w : Mundo n) :
    (estadoServicio e w.srv).2.vehiculosDisponibles =
      (Finset.univ.filter fun i => ((servicio e).pool w).free i = true).card :=
  Indices.countP_finRange ((servicio e).pool w).free

/-- With different plates every reachable state is consistent. -/
theorem consistente_of_placas_distintas (e : Entorno) (hd : Function.Injective (placaSorteada e))
    {n : Nat} (w : Mundo n) (h : Alcanzable e w) : Consistente e w := by
  have hw := (laws e hd).reachable w h
  refine ⟨hw.lent.holder_unique, fun k i d w' hk hs => ?_, ?_⟩
  · obtain ⟨k', p, ha, -, -⟩ | ⟨k', d', i', info, ha, hk', rfl⟩ | ⟨ha, -⟩ :=
      Lender.step_cases _ w w' _ hs
    · cases ha
    · cases ha
      rw [hk'] at hk
      obtain rfl : i' = i := Option.some.inj hk
      have hb := buscarPlaca_boleto e w.srv i' info hd hw.good (hw.ticket k i' info hk')
      show ((terminarViaje w.srv (terminarArgs info d)).1.vehiculos i').disponible = true ∧
        ∀ j, j ≠ i' → (terminarViaje w.srv (terminarArgs info d)).1.vehiculos j = w.srv.vehiculos j
      rw [terminarViaje_vehiculos _ (terminarArgs info d) i' hb]
      exact ⟨by simp, fun j hj => liberar_of_ne _ _ _ _ hj⟩
    · cases ha
  · rw [estadoServicio_disponibles]
    exact hw.lent.card_free_add_card_held.trans (Fintype.card_fin N)

/-! ## Repeated plates

When all `N` passengers are travelling, the one in the later of two vehicles with the
same plate releases the earlier one.  No vehicle is given back on the way there, so only
`askLaws` is used. -/

/-- The first `m` passengers ask, in order, and each gets a vehicle. -/
theorem solicitan_todos (e : Entorno) (m : Nat) (hm : m ≤ N) :
    ∃ w : Mundo N, Alcanzable e w ∧ Lender.Sound (servicio e) (PlacasSorteadas e) (Boleto e) w ∧
      (∀ k : Fin N, k.val < m → (w.ses k).held.isSome = true) ∧
      (∀ k : Fin N, m ≤ k.val → w.ses k = .fresh) := by
  induction m with
  | zero =>
    exact ⟨_, Runs.Reachable.refl _ _, (askLaws e).sound_world0, fun k hk => absurd hk (by omega),
      fun k _ => rfl⟩
  | succ m ih =>
    obtain ⟨w, hr, hw, hbusy, hnew⟩ := ih (by omega)
    have hk := hnew ⟨m, by omega⟩ (Nat.le_refl m)
    let p : PosicionPasajero := ⟨0, 0⟩
    -- passenger `m` travels in no vehicle, so fewer than `N` vehicles are taken
    have hlt : (Finset.univ.filter fun k => (((servicio e).pool w).held k).isSome = true).card <
        (Finset.univ : Finset (Fin N)).card :=
      Finset.card_lt_card (Finset.filter_ssubset.mpr
        ⟨⟨m, by omega⟩, Finset.mem_univ _, by simp [Lender.pool, hk, Session.held]⟩)
    have hcard := hw.lent.card_free_add_card_held
    rw [Finset.card_univ] at hlt
    obtain ⟨i, hi⟩ := Finset.card_pos.mp (show 0 <
      (Finset.univ.filter fun i => ((servicio e).pool w).free i = true).card by omega)
    obtain ⟨c, hc⟩ : ∃ c, vehiculoElegido (asegurarVehiculos e w.srv).vehiculos p = some c := by
      rw [← Option.ne_none_iff_exists', Ne, vehiculoElegido_eq_none]
      intro hno
      have := (Finset.mem_filter.mp hi).2
      simp only [Lender.pool, servicio] at this
      rw [hno i] at this
      cases this
    refine ⟨_, hr.step (.ask ⟨m, by omega⟩ p) (by simp only [Lender.step, hk]),
      (askLaws e).sound_ask w _ p hw hk, fun k hkm => ?_, fun k hkm => ?_⟩
    · by_cases hkm' : k = ⟨m, by omega⟩
      · rw [hkm']
        simp [servicio, solicitarConIndice_snd, hc]
      · simp only [Function.update_of_ne hkm']
        refine hbusy k ?_
        have : k.val ≠ m := fun h => hkm' (Fin.ext h)
        omega
    · have hkm' : k ≠ ⟨m, by omega⟩ := fun h => by
        rw [h] at hkm
        simp at hkm
      simp only [Function.update_of_ne hkm']
      exact hnew k (by omega)

/-- Some passenger travels in vehicle `j` while every vehicle is taken. -/
theorem flota_llena (e : Entorno) (j : Fin N) :
    ∃ (w : Mundo N) (k : Fin N) (info : InfoAuto), Alcanzable e w ∧ w.ses k = .active j info ∧
      PlacasSorteadas e w.srv ∧ Boleto e w.srv j info ∧
      ∀ i, (w.srv.vehiculos i).disponible = false := by
  obtain ⟨w, hr, hw, hbusy, -⟩ := solicitan_todos e N (Nat.le_refl N)
  have hall : (Finset.univ.filter fun k => (((servicio e).pool w).held k).isSome = true) =
      Finset.univ := Finset.filter_true_of_mem fun k _ => hbusy k k.isLt
  have hcard := hw.lent.card_free_add_card_held
  rw [hall, Finset.card_univ] at hcard
  have hfree : ∀ i, ((servicio e).pool w).free i = false := by
    intro i
    have h0 : (Finset.univ.filter fun i => ((servicio e).pool w).free i = true).card = 0 := by omega
    rw [Finset.card_eq_zero, Finset.filter_eq_empty_iff] at h0
    simpa using h0 (Finset.mem_univ i)
  obtain ⟨k, hk⟩ := (hw.lent.busy_iff j).mp (hfree j)
  obtain ⟨info, hs⟩ := (Session.held_eq_some _ _).mp hk
  have hb := hw.ticket k j info hs
  refine ⟨w, k, info, hr, hs, hw.good, hb, fun i => ?_⟩
  have := hfree i
  simp only [Lender.pool, servicio] at this
  rwa [asegurarVehiculos_of_inicializados e _ hb.1] at this

theorem placas_distintas_of_consistente (e : Entorno)
    (h : ∀ w : Mundo N, Alcanzable e w → Consistente e w) :
    Function.Injective (placaSorteada e) := by
  -- enough: no vehicle shares its plate with an earlier one
  have key : ∀ i j : Fin N, i < j → placaSorteada e i ≠ placaSorteada e j := by
    intro i j hij heq
    obtain ⟨w, k, info, hr, hk, hp, hb, hbusy⟩ := flota_llena e j
    have hv := hp.vehiculos hb.1
    obtain ⟨c, hc⟩ := buscarPlaca_isSome w.srv.vehiculos info.placa j (by rw [hv j, hb.2])
    have hci : c ≤ i := buscarPlaca_le _ _ c i hc (by rw [hv i, hb.2, heq])
    have hcj : c ≠ j := fun e => by rw [e] at hci; exact absurd hij (not_lt.mpr hci)
    have hs : (servicio e).step w (.giveBack k ⟨0, 0⟩) = some
        ⟨(terminarViaje w.srv (terminarArgs info ⟨0, 0⟩)).1, Function.update w.ses k (.done info)⟩ := by
      simp only [Lender.step, hk, servicio]
    have hsame := ((h w hr).liberaElSuyo k j ⟨0, 0⟩ _ (by rw [hk]; rfl) hs).2 c hcj
    simp only at hsame
    rw [terminarViaje_vehiculos _ (terminarArgs info ⟨0, 0⟩) c hc, liberar_self] at hsame
    have hfree := congrArg Vehiculo.disponible hsame
    rw [hbusy c] at hfree
    cases hfree
  intro i j heq
  rcases lt_trichotomy i j with hlt | rfl | hlt
  · exact absurd heq (key i j hlt)
  · rfl
  · exact absurd heq.symm (key j i hlt)

/-! ## Top theorems -/

/-- **The service is consistent exactly when no two vehicles drew the same number and the same
three letters.** -/
theorem consistente_iff_sorteos_distintos (e : Entorno) :
    (∀ (n : Nat) (w : Mundo n), Alcanzable e w → Consistente e w) ↔
      ∀ i j, i ≠ j → sorteoPlaca e i ≠ sorteoPlaca e j := by
  have hinj : (∀ i j, i ≠ j → sorteoPlaca e i ≠ sorteoPlaca e j) ↔
      Function.Injective (placaSorteada e) := by
    constructor
    · intro h i j hij
      by_contra hne
      exact h i j hne ((placaSorteada_inj e i j).mp hij)
    · intro h i j hne hij
      exact hne (h ((placaSorteada_inj e i j).mpr hij))
  rw [hinj]
  exact ⟨fun h => placas_distintas_of_consistente e (h N),
    fun hd n w hr => consistente_of_placas_distintas e hd w hr⟩

/-- Every draw is zero: five vehicles with the plate `000AAA`. -/
def entornoCero : Entorno := ⟨fun _ => 0, .refl _, 0⟩

/-- Two passengers travel in vehicles 0 and 1; the second finishes and releases vehicle 0, which
the third one is then given while the first is still in it. -/
theorem vehiculo_compartido :
    ¬ ∀ (e : Entorno) (n : Nat) (w : Mundo n), Alcanzable e w → Consistente e w := by
  intro h
  have hrun : ∃ w : Mundo 3, Runs.run (servicio entornoCero).step (servicio entornoCero).world0
      [.ask 0 ⟨0, 0⟩, .ask 1 ⟨0, 0⟩, .giveBack 1 ⟨0, 0⟩, .ask 2 ⟨0, 0⟩] = some w ∧
      (w.ses 0).held = some ⟨0, by decide⟩ ∧ (w.ses 2).held = some ⟨0, by decide⟩ :=
    ⟨_, rfl, by decide, by decide⟩
  obtain ⟨w, hw, h0, h2⟩ := hrun
  have := (h entornoCero 3 w ⟨_, hw⟩).sinCompartir 0 2 _ h0 h2
  exact absurd this (by decide)

end Estructura
