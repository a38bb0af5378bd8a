import Mathlib.Algebra.BigOperators.Group.Finset.Piecewise
import SistemasDistribuidos.Lib.Sessions
import SistemasDistribuidos.UberRpc.Servidor

/-!
# Passengers of `Practica02_2/UBER_Cliente.c` against the server

`clientePasajero` makes one `SolicitarViaje` call; with `disponible == 0` in the
reply it stops, otherwise it later calls `TerminarViaje` with the plate of the reply
and its fare as `costoViaje`.  Any number of passengers interleave.

Trips are counted when they are granted, money when they end, free cars by a scan of
the fleet; `estadoServicio_cuadra` relates all three to the sessions.  A plate starts
with the index of its car, so plates always lead back to the right car.

Here a plate is read as the full text that `sprintf` formats (`solicitarEntero`), which is
what the server stores when the plates fit in their buffer (`solicitarViaje_of_caben`).
-/

namespace UberRpc

open CText

/-! ## Algorithm -/

/-- The call `SolicitarViaje` as the passenger reads it, with the index behind the reply. -/
def solicitarConIndice (e : Entorno) (s : Servidor) (origen : Posicion) :
    Servidor × Option (Fin NUM_AUTOS × InfoAuto) :=
  ((solicitarEntero e s origen).1,
    if (solicitarEntero e s origen).2.disponible = 0 then none
    else some ((busqueda (conFlota e s).autos origen).available, (solicitarEntero e s origen).2))

/-- The `TerminarViaje` call of a passenger with the reply `result`. -/
def terminarConRespuesta (s : Servidor) (result : InfoAuto) (destino : Posicion) : Option Servidor :=
  result.placa.bind fun placa => terminarViaje s ⟨destino, result.tarifa, placa⟩

/-- The server as its passengers use it; cars that have not been drawn yet are free.  A crash would
leave the state as it is; `terminarConRespuesta_boleto` excludes it. -/
def servicio (e : Entorno) : Lender Servidor (Fin NUM_AUTOS) Posicion Posicion InfoAuto where
  init := servidor0
  ask := solicitarConIndice e
  giveBack := fun s result destino => (terminarConRespuesta s result destino).getD s
  poll := fun s => s
  free := fun s i => ((conFlota e s).autos i).disponible = 1

abbrev Mundo (n : Nat) := Lender.World Servidor (Fin NUM_AUTOS) InfoAuto (Fin n)

/-- Some interleaving of the calls of `n` passengers leads to `w`. -/
def Alcanzable (e : Entorno) {n : Nat} (w : Mundo n) : Prop :=
  Runs.Reachable (servicio e).step (servicio e).world0 w

/-- Sessions in progress. -/
def enCurso {n : Nat} (w : Mundo n) : Nat :=
  (Finset.univ.filter fun k => (w.ses k).held.isSome = true).card

/-- Requests that were granted. -/
def concedidas {n : Nat} (w : Mundo n) : Nat :=
  (Finset.univ.filter fun k => (w.ses k).granted = true).card

/-- The fare quoted to a session that has ended. -/
def cobrado : Session (Fin NUM_AUTOS) InfoAuto → Int
  | .done result => result.tarifa
  | _ => 0

/-! ## Lemmas -/

theorem solicitarEntero_isFirstTime (e : Entorno) (s : Servidor) (p : Posicion) :
    (solicitarEntero e s p).1.isFirstTime = false := by
  have h := conFlota_isFirstTime e s
  simp only [solicitarEntero, asignar]
  split <;> exact h

theorem solicitarEntero_placa (e : Entorno) (s : Servidor) (p : Posicion) (i : Fin NUM_AUTOS) :
    ((solicitarEntero e s p).1.autos i).placa = ((conFlota e s).autos i).placa := by
  simp only [solicitarEntero, asignar]
  split
  · by_cases hi : i = (busqueda (conFlota e s).autos p).available
    · rw [hi]; simp [cotizar]
    · simp [Function.update_of_ne hi]
  · rfl

theorem solicitarEntero_gananciaTotal (e : Entorno) (s : Servidor) (p : Posicion) :
    (solicitarEntero e s p).1.gananciaTotal = s.gananciaTotal := by
  simp only [solicitarEntero, asignar]
  split <;> exact conFlota_gananciaTotal e s

/-- The answer the passenger reads: the car the search ended on, if it found one. -/
theorem solicitarConIndice_snd (e : Entorno) (s : Servidor) (p : Posicion) :
    (solicitarConIndice e s p).2 =
      if (busqueda (conFlota e s).autos p).isAvailable then
        some ((busqueda (conFlota e s).autos p).available,
          cotizar e ((conFlota e s).autos (busqueda (conFlota e s).autos p).available) p)
      else none := by
  unfold solicitarConIndice
  cases h : (busqueda (conFlota e s).autos p).isAvailable with
  | true =>
    have hd := busqueda_disponible _ p h
    rw [solicitarEntero, asignar_concede e _ p h]
    simp [cotizar, hd]
  | false =>
    rw [solicitarEntero, asignar_rechaza e _ p h]
    simp

theorem solicitarEntero_viajesRealizados (e : Entorno) (s : Servidor) (p : Posicion) :
    (solicitarEntero e s p).1.viajesRealizados =
      s.viajesRealizados + if (solicitarConIndice e s p).2.isSome then 1 else 0 := by
  rw [solicitarConIndice_snd]
  cases h : (busqueda (conFlota e s).autos p).isAvailable with
  | true => rw [solicitarEntero, asignar_concede e _ p h]; simp
  | false => rw [solicitarEntero, asignar_rechaza e _ p h]; simp

/-- Plates are those drawn at the start. -/
def PlacasSorteadas (e : Entorno) (s : Servidor) : Prop :=
  ∀ i, ((conFlota e s).autos i).placa = some (placaSorteada e i)

/-- The reply `result` carries the plate of car `i`. -/
def Boleto (e : Entorno) (s : Servidor) (i : Fin NUM_AUTOS) (result : InfoAuto) : Prop :=
  s.isFirstTime = false ∧ result.placa = some (placaSorteada e i)

/-- A passenger with a ticket ends its trip in its own car; no NULL plate is compared. -/
theorem terminarConRespuesta_boleto (e : Entorno) (s : Servidor) (i : Fin NUM_AUTOS)
    (result : InfoAuto) (destino : Posicion) (hs : PlacasSorteadas e s) (hb : Boleto e s i result) :
    terminarConRespuesta s result destino =
      some (cerrarViaje s i ⟨destino, result.tarifa, placaSorteada e i⟩) := by
  have hp : ∀ j, (s.autos j).placa = some (placaSorteada e j) := fun j => by
    have := hs j
    rwa [conFlota_of_not_first e s hb.1] at this
  simp only [terminarConRespuesta, hb.2, Option.bind_some, terminarViaje]
  rw [buscarPlaca_placaSorteada e s.autos hp i]

theorem laws (e : Entorno) : Lender.Laws (servicio e) (PlacasSorteadas e) (Boleto e) where
  init := fun _ => rfl
  init_free := fun _ => rfl
  ask_good := by
    intro s p hs i
    show ((conFlota e (solicitarEntero e s p).1).autos i).placa = _
    rw [conFlota_of_not_first e _ (solicitarEntero_isFirstTime e s p), solicitarEntero_placa]
    exact hs i
  ask_none := by
    intro s p _ ho
    have hno : (busqueda (conFlota e s).autos p).isAvailable = false := by
      have ho' : (solicitarConIndice e s p).2 = none := ho
      rw [solicitarConIndice_snd] at ho'
      split at ho'
      · cases ho'
      · next h => simpa using h
    funext i
    show decide (((conFlota e (solicitarEntero e s p).1).autos i).disponible = 1) = _
    rw [conFlota_of_not_first e _ (solicitarEntero_isFirstTime e s p),
      solicitarEntero, asignar_rechaza e _ p hno]
    rfl
  ask_some := by
    intro s p i result hs ho
    have ho' : (solicitarConIndice e s p).2 = some (i, result) := ho
    rw [solicitarConIndice_snd] at ho'
    split at ho'
    · next h =>
      simp only [Option.some.injEq, Prod.mk.injEq] at ho'
      obtain ⟨hi, hres⟩ := ho'
      have hd := busqueda_disponible _ p h
      refine ⟨by rw [← hi]; exact decide_eq_true hd, ?_, solicitarEntero_isFirstTime e s p, ?_⟩
      · funext j
        show decide (((conFlota e (solicitarEntero e s p).1).autos j).disponible = 1) = _
        rw [conFlota_of_not_first e _ (solicitarEntero_isFirstTime e s p),
          solicitarEntero, asignar_concede e _ p h, hi]
        by_cases hj : j = i
        · subst hj; simp
        · simp [Function.update_of_ne hj, servicio]
      · rw [← hres, ← hi]
        exact hs _
    · cases ho'
  ask_ticket := fun s p i _ _ h => ⟨solicitarEntero_isFirstTime e s p, h.2⟩
  poll_good := fun _ h => h
  poll_free := fun _ _ => rfl
  poll_ticket := fun _ _ _ _ h => h
  back_good := by
    intro s i result d hs hb j
    show ((conFlota e ((terminarConRespuesta s result d).getD s)).autos j).placa = _
    rw [terminarConRespuesta_boleto e s i result d hs hb, Option.getD_some,
      conFlota_of_not_first e (cerrarViaje _ _ _) hb.1]
    have := hs j
    rw [conFlota_of_not_first e s hb.1] at this
    by_cases hj : j = i
    · subst hj; simpa [cerrarViaje, liberar] using this
    · simpa [cerrarViaje, liberar, Function.update_of_ne hj] using this
  back_free := by
    intro s i result d hs hb
    funext j
    show decide (((conFlota e ((terminarConRespuesta s result d).getD s)).autos j).disponible = 1) = _
    rw [terminarConRespuesta_boleto e s i result d hs hb, Option.getD_some,
      conFlota_of_not_first e (cerrarViaje _ _ _) hb.1]
    by_cases hj : j = i
    · subst hj; simp [cerrarViaje, liberar]
    · simp [cerrarViaje, liberar, Function.update_of_ne hj, servicio, conFlota_of_not_first e s hb.1]
  back_ticket := by
    intro s i result d j result' hs hb h
    refine ⟨?_, h.2⟩
    show ((terminarConRespuesta s result d).getD s).isFirstTime = false
    rw [terminarConRespuesta_boleto e s i result d hs hb]
    exact hb.1

/-! ## The counters -/

/-- The counters agree with the sessions, and a request has been made once a session has left
its initial state. -/
structure Cuentas {n : Nat} (w : Mundo n) : Prop where
  viajes : w.srv.viajesRealizados = concedidas w
  ganancia : w.srv.gananciaTotal = ∑ k, cobrado (w.ses k)
  primera : ∀ k, w.ses k ≠ .fresh → w.srv.isFirstTime = false

theorem concedidas_eq_sum {n : Nat} (w : Mundo n) :
    concedidas w = ∑ k, if (w.ses k).granted then 1 else 0 :=
  Finset.card_filter _ _

theorem cobrado_ofAnswer (o : Option (Fin NUM_AUTOS × InfoAuto)) : cobrado (.ofAnswer o) = 0 := by
  cases o <;> rfl

theorem cuentas_paso (e : Entorno) {n : Nat} (w w' : Mundo n)
    (c : Lender.Call Posicion Posicion (Fin n))
    (hw : Lender.Sound (servicio e) (PlacasSorteadas e) (Boleto e) w) (hc : Cuentas w)
    (h : (servicio e).step w c = some w') : Cuentas w' := by
  obtain ⟨k, p, -, hk, rfl⟩ | ⟨k, d, i, result, -, hk, rfl⟩ | ⟨-, rfl⟩ :=
    Lender.step_cases _ w w' c h
  · have hsum := Lender.sum_update (fun s => if s.granted then 1 else 0) w.ses k
      (.ofAnswer (solicitarConIndice e w.srv p).2)
    have hcob := Lender.sum_update cobrado w.ses k (.ofAnswer (solicitarConIndice e w.srv p).2)
    refine ⟨?_, ?_, fun l _ => solicitarEntero_isFirstTime e w.srv p⟩
    · show (solicitarEntero e w.srv p).1.viajesRealizados = _
      rw [solicitarEntero_viajesRealizados, hc.viajes, concedidas_eq_sum, concedidas_eq_sum]
      rw [hk, Session.granted_ofAnswer] at hsum
      exact hsum.symm
    · show (solicitarEntero e w.srv p).1.gananciaTotal = _
      rw [solicitarEntero_gananciaTotal, hc.ganancia]
      rw [hk, cobrado_ofAnswer, add_zero, show cobrado .fresh = 0 from rfl, add_zero] at hcob
      exact hcob.symm
  · have ht := hw.ticket k i result hk
    have hsum := Lender.sum_update (fun s => if s.granted then 1 else 0) w.ses k (.done result)
    have hcob := Lender.sum_update cobrado w.ses k (.done result)
    have hb : (servicio e).giveBack w.srv result d =
        cerrarViaje w.srv i ⟨d, result.tarifa, placaSorteada e i⟩ := by
      show (terminarConRespuesta w.srv result d).getD w.srv = _
      rw [terminarConRespuesta_boleto e w.srv i result d hw.good ht]
      rfl
    rw [hk] at hsum hcob
    refine ⟨?_, ?_, fun l _ => ?_⟩
    · rw [hb]
      show w.srv.viajesRealizados = _
      rw [hc.viajes, concedidas_eq_sum, concedidas_eq_sum]
      simpa [Session.granted] using hsum.symm
    · rw [hb]
      show w.srv.gananciaTotal + result.tarifa = _
      rw [hc.ganancia]
      simpa [cobrado] using hcob.symm
    · rw [hb]
      exact ht.1
  · exact hc

theorem cuentas_mundo0 (e : Entorno) (n : Nat) : Cuentas ((servicio e).world0 : Mundo n) where
  viajes := by simp [Lender.world0, servicio, servidor0, concedidas, Session.granted]
  ganancia := by simp [Lender.world0, servicio, servidor0, cobrado]
  primera := fun k hk => absurd rfl hk

theorem alcanzable_cuentas (e : Entorno) {n : Nat} (w : Mundo n) (h : Alcanzable e w) :
    Cuentas w :=
  (h.invariant (fun w => Lender.Sound (servicio e) (PlacasSorteadas e) (Boleto e) w ∧ Cuentas w)
    ⟨(laws e).sound_world0, cuentas_mundo0 e n⟩ fun s c t hs ht =>
      ⟨(laws e).sound_step s t c hs.1 ht, cuentas_paso e s t c hs.1 hs.2 ht⟩).2

/-! ## Top theorems -/

/-- **The report agrees with the sessions.**  From the first request on, `EstadoServicio` reports
the granted requests, the fares of the sessions that have ended and the cars of no session in
progress; and no car is shared. -/
theorem estadoServicio_cuadra (e : Entorno) (n : Nat) (w : Mundo n) (h : Alcanzable e w)
    (hprimera : ∃ k, w.ses k ≠ .fresh) :
    (estadoServicio w.srv).numViajes = concedidas w ∧
    (estadoServicio w.srv).gananciaTotal = ∑ k, cobrado (w.ses k) ∧
    (estadoServicio w.srv).numAutosLibres + enCurso w = NUM_AUTOS ∧
    ∀ k l i, (w.ses k).held = some i → (w.ses l).held = some i → k = l := by
  have hw := (laws e).reachable w h
  have hc := alcanzable_cuentas e w h
  obtain ⟨k, hk⟩ := hprimera
  have hlibres : (estadoServicio w.srv).numAutosLibres =
      (Finset.univ.filter fun i => ((servicio e).pool w).free i = true).card := by
    have := Indices.countP_finRange ((servicio e).pool w).free
    rw [← this]
    simp only [Lender.pool, servicio, conFlota_of_not_first e _ (hc.primera k hk)]
    rfl
  refine ⟨hc.viajes, hc.ganancia, ?_, hw.lent.holder_unique⟩
  rw [hlibres]
  exact hw.lent.card_free_add_card_held.trans (Fintype.card_fin NUM_AUTOS)

/-- Every draw is zero. -/
def entornoCero : Entorno := ⟨fun _ => 0, .refl _, 0⟩

/-- Two passengers at (1, 0) are granted cars 0 and 1 at fare 10; the first one has finished. -/
theorem estadoServicio_cuadra_dos :
    ∃ w : Mundo 2, Alcanzable entornoCero w ∧ (∃ k, w.ses k ≠ .fresh) ∧
      (estadoServicio w.srv).numViajes = 2 ∧ (estadoServicio w.srv).gananciaTotal = 10 ∧
      (estadoServicio w.srv).numAutosLibres + 1 = NUM_AUTOS := by
  obtain ⟨w, hw, h0, hv, hg, hn⟩ : ∃ w : Mundo 2,
      Runs.run (servicio entornoCero).step (servicio entornoCero).world0
        [.ask 0 ⟨1, 0⟩, .ask 1 ⟨1, 0⟩, .giveBack 0 ⟨1, 1⟩] = some w ∧ w.ses 0 ≠ .fresh ∧
      concedidas w = 2 ∧ ∑ k, cobrado (w.ses k) = 10 ∧ enCurso w = 1 :=
    ⟨_, rfl, by decide, by decide, by decide, by decide⟩
  obtain ⟨h1, h2, h3, -⟩ := estadoServicio_cuadra entornoCero 2 w ⟨_, hw⟩ ⟨0, h0⟩
  exact ⟨w, ⟨_, hw⟩, ⟨0, h0⟩, h1.trans hv, h2.trans hg, hn ▸ h3⟩

end UberRpc
