import Mathlib.Data.Fintype.Basic
import SistemasDistribuidos.Lib.Serve
import SistemasDistribuidos.Lib.Ledger
import SistemasDistribuidos.Estructura.Server

/-!
# The server of `Practica02/estructura_server.c` against its event log

Any calls in any order, with any arguments, as `calc_prog_1` dispatches them.  The log
keeps for each call the state it met and its reply; `movimiento` reads off it which
vehicle was granted and which one a `terminarViaje` hit (the first with that plate).

After initialisation the fleet and the counter of trips are functions of the log:

    Refina e (final (atender e) (inicial e) cs) (serve (atender e) (inicial e) cs)   (bitacora_refina)

`terminarViaje` does not look at `disponible`, so trips that end can outnumber those
that were granted; `cuentas_iff` says in which runs they do not.
-/

namespace Estructura

open CText Ledger Serve

/-! ## Algorithm -/

inductive Llamada where
  | solicitarViaje (arg1 : PosicionPasajero)
  | terminarViaje (arg1 : TerminarViajeArgs)
  | estadoServicio
deriving DecidableEq, Repr

/-- A NULL result is `auto none` or `fin false`. -/
inductive Respuesta where
  | auto (info : Option InfoAuto)
  | fin (encontrado : Bool)
  | servicio (info : InfoServicio)
deriving DecidableEq, Repr

def atender (e : Entorno) (s : Servidor) : Llamada → Servidor × Respuesta
  | .solicitarViaje arg1 => ((solicitarViaje e s arg1).1, .auto (solicitarViaje e s arg1).2)
  | .terminarViaje arg1 => ((terminarViaje s arg1).1, .fin (terminarViaje s arg1).2)
  | .estadoServicio => ((estadoServicio e s).1, .servicio (estadoServicio e s).2)

abbrev Registro := Serve.Entry Servidor Llamada Respuesta

/-- The server with its fleet just initialised. -/
def inicial (e : Entorno) : Servidor := asegurarVehiculos e servidor0

/-! ## Event log -/

/-- `.grant i`: the call was given vehicle `i`.  `.release i`: a `terminarViaje` that hits vehicle
`i`, the least index with its plate. -/
def movimiento (e : Entorno) (x : Registro) : Move (Fin N) :=
  match x.call with
  | .solicitarViaje arg1 =>
    match vehiculoElegido (asegurarVehiculos e x.before).vehiculos arg1 with
    | some i => .grant i
    | none => .idle
  | .terminarViaje arg1 =>
    match buscarPlaca x.before.vehiculos arg1.placa with
    | some i => .release i
    | none => .idle
  | .estadoServicio => .idle

/-- The call hits some vehicle. -/
def toca (e : Entorno) (x : Registro) : Bool :=
  match movimiento e x with
  | .release _ => true
  | _ => false

/-- Where the call leaves vehicle `i`, if it hits it. -/
def destino (e : Entorno) (i : Fin N) (x : Registro) : Option PosicionFinal :=
  match x.call with
  | .terminarViaje arg1 => if movimiento e x = .release i then some arg1.posicionFinal else none
  | _ => none

def posicion (v : Vehiculo) : PosicionFinal := ⟨v.posicionX, v.posicionY⟩

/-- The fare of each type. -/
def tarifas : List (Text × Int) :=
  [("UberPlanet".toList, 10), ("UberXL".toList, 15), ("UberBlack".toList, 25)]

/-- The state is what the log says.  The first four clauses say what the moves of the log are. -/
structure Refina (e : Entorno) (s : Servidor) (log : List Registro) : Prop where
  /-- A call hits vehicle `i`: it is a `terminarViaje`, and `i` is the least index with its plate. -/
  toca_iff : ∀ x ∈ log, ∀ i, movimiento e x = .release i ↔ ∃ a, x.call = .terminarViaje a ∧
    (x.before.vehiculos i).placa = a.placa ∧ ∀ j, j < i → (x.before.vehiculos j).placa ≠ a.placa
  /-- A call is granted vehicle `i`: it was available, and the call takes it. -/
  concede_iff : ∀ x ∈ log, ∀ i, movimiento e x = .grant i ↔
    (x.before.vehiculos i).disponible = true ∧ (x.after.vehiculos i).disponible = false
  /-- The reply to a grant is the record of the vehicle. -/
  concede : ∀ x ∈ log, ∀ i, movimiento e x = .grant i → ∃ tarifa, x.reply =
    .auto (some ⟨(x.before.vehiculos i).posicionX, (x.before.vehiculos i).posicionY,
      (x.before.vehiculos i).tipo, tarifa, (x.before.vehiculos i).placa⟩)
  /-- A `solicitarViaje` that is granted nothing found no vehicle, returns NULL and changes nothing. -/
  rechaza : ∀ x ∈ log, ∀ p, x.call = .solicitarViaje p → (∀ i, movimiento e x ≠ .grant i) →
    (∀ i, (x.before.vehiculos i).disponible = false) ∧ x.reply = .auto none ∧ x.after = x.before
  /-- Unavailable: granted, and not hit since its last grant. -/
  ocupado_iff : ∀ i, (s.vehiculos i).disponible = false ↔
    ∃ pre x post, log = pre ++ x :: post ∧ movimiento e x = .grant i ∧
      ∀ y ∈ post, movimiento e y ≠ .grant i ∧ movimiento e y ≠ .release i
  /-- The position of the last hit, or the initial one. -/
  posicion : ∀ i, posicion (s.vehiculos i) =
    last (destino e i) (posicion (inicializarVehiculos e i)) log
  placa : ∀ i, (s.vehiculos i).placa = (inicializarVehiculos e i).placa
  tipo : ∀ i, (s.vehiculos i).tipo = (inicializarVehiculos e i).tipo
  /-- A reply quotes the fare of the type of the vehicle granted. -/
  tarifa : ∀ x ∈ log, ∀ info, x.reply = .auto (some info) → ∃ i, movimiento e x = .grant i ∧
    info.tipo = (inicializarVehiculos e i).tipo ∧ (info.tipo, info.tarifa) ∈ tarifas
  /-- Between two grants of a vehicle its plate is called in. -/
  alterna : ∀ pre x mid y post i, log = pre ++ x :: (mid ++ y :: post) →
    movimiento e x = .grant i → movimiento e y = .grant i →
      ∃ z ∈ mid, ∃ a, z.call = .terminarViaje a ∧ a.placa = (inicializarVehiculos e i).placa
  viajes : s.viajes = log.countP (toca e)
  /-- A `terminarViaje` that hits nothing returns NULL and changes nothing. -/
  nadie : ∀ x ∈ log, ∀ a, x.call = .terminarViaje a → toca e x = false →
    x.reply = .fin false ∧ x.after = x.before
  estado : ∀ x ∈ log, x.call = .estadoServicio → ∃ info, x.reply = .servicio info ∧
    info.viajes = x.before.viajes ∧
    info.vehiculosDisponibles = (List.finRange N).countP fun i => (x.before.vehiculos i).disponible

/-! ## Lemmas -/

theorem inicial_inicializados (e : Entorno) : (inicial e).vehiculosInicializados = true :=
  asegurarVehiculos_inicializados e servidor0

/-- Everything one call can do once the fleet is initialised. -/
theorem atender_cases (e : Entorno) (s : Servidor) (c : Llamada)
    (h : s.vehiculosInicializados = true) :
    (∃ p, c = .solicitarViaje p ∧ vehiculoElegido s.vehiculos p = none ∧
      movimiento e (entry (atender e) s c) = .idle ∧ atender e s c = (s, .auto none)) ∨
    (∃ p i, c = .solicitarViaje p ∧ vehiculoElegido s.vehiculos p = some i ∧
      movimiento e (entry (atender e) s c) = .grant i ∧
      atender e s c = ({ s with vehiculos := ocupar s.vehiculos i },
        .auto (some (infoAuto e (s.vehiculos i))))) ∨
    (∃ a, c = .terminarViaje a ∧ buscarPlaca s.vehiculos a.placa = none ∧
      movimiento e (entry (atender e) s c) = .idle ∧ atender e s c = (s, .fin false)) ∨
    (∃ a i, c = .terminarViaje a ∧ buscarPlaca s.vehiculos a.placa = some i ∧
      movimiento e (entry (atender e) s c) = .release i ∧
      atender e s c = ((terminarViaje s a).1, .fin true)) ∨
    (c = .estadoServicio ∧ movimiento e (entry (atender e) s c) = .idle ∧
      atender e s c = (s, .servicio (estadoServicio e s).2)) := by
  have hs := asegurarVehiculos_of_inicializados e s h
  cases c with
  | solicitarViaje p =>
    cases hv : vehiculoElegido s.vehiculos p with
    | none => exact .inl ⟨p, rfl, hv, by simp [movimiento, hs, hv], by
        simp [atender, solicitarViaje, hs, hv]⟩
    | some i => exact .inr (.inl ⟨p, i, rfl, hv, by simp [movimiento, hs, hv], by
        simp [atender, solicitarViaje, hs, hv]⟩)
  | terminarViaje a =>
    cases hb : buscarPlaca s.vehiculos a.placa with
    | none => exact .inr (.inr (.inl ⟨a, rfl, hb, by simp [movimiento, hb], by
        simp [atender, terminarViaje, hb]⟩))
    | some i => exact .inr (.inr (.inr (.inl ⟨a, i, rfl, hb, by simp [movimiento, hb], by
        simp [atender, terminarViaje, hb]⟩)))
  | estadoServicio =>
    exact .inr (.inr (.inr (.inr ⟨rfl, rfl, by simp [atender, estadoServicio, hs]⟩)))

/-- A grant comes from the loops of `solicitarViaje`. -/
theorem movimiento_grant {e : Entorno} {x : Registro} {i : Fin N} (h : movimiento e x = .grant i) :
    ∃ p, x.call = .solicitarViaje p ∧
      vehiculoElegido (asegurarVehiculos e x.before).vehiculos p = some i := by
  unfold movimiento at h
  split at h
  next p hc =>
    split at h
    next j hj =>
      cases h
      exact ⟨p, hc, hj⟩
    next => cases h
  next =>
    split at h
    next => cases h
    next => cases h
  next => cases h

/-- What a call makes of each vehicle. -/
theorem atender_vehiculo (e : Entorno) (s : Servidor) (c : Llamada)
    (h : s.vehiculosInicializados = true) (i : Fin N) :
    (((atender e s c).1.vehiculos i).disponible =
      !((mark i (movimiento e (entry (atender e) s c))).getD (!(s.vehiculos i).disponible))) ∧
    posicion ((atender e s c).1.vehiculos i) =
      (destino e i (entry (atender e) s c)).getD (posicion (s.vehiculos i)) ∧
    ((atender e s c).1.vehiculos i).placa = (s.vehiculos i).placa ∧
    ((atender e s c).1.vehiculos i).tipo = (s.vehiculos i).tipo := by
  obtain ⟨p, rfl, -, hm, ha⟩ | ⟨p, j, rfl, -, hm, ha⟩ | ⟨a, rfl, -, hm, ha⟩ | ⟨a, j, rfl, hb, hm, ha⟩ |
    ⟨rfl, hm, ha⟩ := atender_cases e s c h
  · simp [mark, destino, hm, ha]
  · by_cases hj : i = j
    · subst hj
      simp [mark, destino, hm, ha, posicion]
    · simp [mark, destino, hm, ha, ocupar_of_ne _ _ _ hj, Ne.symm hj]
  · simp [mark, destino, hm, ha]
  · by_cases hj : i = j
    · subst hj
      simp [mark, destino, hm, ha, terminarViaje_vehiculos s a i hb, posicion]
    · simp [mark, destino, hm, ha, terminarViaje_vehiculos s a j hb, liberar_of_ne _ _ _ _ hj,
        Ne.symm hj]
  · simp [mark, destino, hm, ha]

/-- A vehicle is granted when it was available and the call takes it. -/
theorem movimiento_grant_iff (e : Entorno) (s : Servidor) (c : Llamada)
    (h : s.vehiculosInicializados = true) (i : Fin N) :
    movimiento e (entry (atender e) s c) = .grant i ↔
      (s.vehiculos i).disponible = true ∧ ((atender e s c).1.vehiculos i).disponible = false := by
  have hdisp := (atender_vehiculo e s c h i).1
  constructor
  · intro hm
    obtain ⟨p, -, hv⟩ := movimiento_grant hm
    rw [entry_before, asegurarVehiculos_of_inicializados e s h] at hv
    exact ⟨vehiculoElegido_disponible _ p i hv, by rw [hdisp, hm]; simp [mark]⟩
  · rintro ⟨hbefore, hafter⟩
    rw [hdisp, hbefore] at hafter
    rw [← mark_eq_true]
    cases hm : mark i (movimiento e (entry (atender e) s c)) with
    | none => simp [hm] at hafter
    | some b => simpa [hm] using hafter

/-- A vehicle is hit when its index is the least with the plate of the call. -/
theorem movimiento_release_iff (e : Entorno) (x : Registro) (i : Fin N) :
    movimiento e x = .release i ↔ ∃ a, x.call = .terminarViaje a ∧
      (x.before.vehiculos i).placa = a.placa ∧ ∀ j, j < i → (x.before.vehiculos j).placa ≠ a.placa := by
  cases hc : x.call with
  | solicitarViaje p =>
    simp only [movimiento, hc]
    split <;> simp
  | terminarViaje a =>
    simp only [movimiento, hc, Llamada.terminarViaje.injEq, exists_eq_left', ← buscarPlaca_eq_some_iff]
    cases hb : buscarPlaca x.before.vehiculos a.placa <;> simp
  | estadoServicio => simp [movimiento, hc]

theorem atender_inicializados (e : Entorno) (s : Servidor) (c : Llamada)
    (h : s.vehiculosInicializados = true) : (atender e s c).1.vehiculosInicializados = true := by
  cases c with
  | solicitarViaje p => exact solicitarViaje_inicializados e s p
  | terminarViaje a => exact (terminarViaje_inicializados s a).trans h
  | estadoServicio => exact asegurarVehiculos_inicializados e s

theorem terminarViaje_viajes (s : Servidor) (a : TerminarViajeArgs) :
    (terminarViaje s a).1.viajes =
      s.viajes + if (buscarPlaca s.vehiculos a.placa).isSome then 1 else 0 := by
  unfold terminarViaje
  split
  · next h => simp [h]
  · next i h => simp [h]

theorem atender_viajes (e : Entorno) (s : Servidor) (c : Llamada)
    (h : s.vehiculosInicializados = true) :
    (atender e s c).1.viajes = s.viajes + if toca e (entry (atender e) s c) then 1 else 0 := by
  obtain ⟨p, rfl, -, hm, ha⟩ | ⟨p, j, rfl, -, hm, ha⟩ | ⟨a, rfl, -, hm, ha⟩ | ⟨a, j, rfl, hb, hm, ha⟩ |
    ⟨rfl, hm, ha⟩ := atender_cases e s c h
  · simp [toca, hm, ha]
  · simp [toca, hm, ha]
  · simp [toca, hm, ha]
  · rw [ha]
    simp [toca, hm, terminarViaje_viajes, hb]
  · simp [toca, hm, ha]

theorem tarifaDe_mem (e : Entorno) (tipo : Text) (h : tipo ∈ tipos) :
    (tipo, tarifaDe e tipo) ∈ tarifas := by
  simp only [tipos, List.mem_cons, List.not_mem_nil, or_false] at h
  rcases h with rfl | rfl | rfl
  · exact .head _
  · exact .tail _ (.head _)
  · exact .tail _ (.tail _ (.head _))

theorem inicializarVehiculos_tipo (e : Entorno) (i : Fin N) :
    (inicializarVehiculos e i).tipo ∈ tipos := List.get_mem _ _

/-! ## One call against the log -/

/-- Plates and types are those drawn. -/
structure Flota (e : Entorno) (s : Servidor) : Prop where
  inicializados : s.vehiculosInicializados = true
  placa : ∀ i, (s.vehiculos i).placa = (inicializarVehiculos e i).placa
  tipo : ∀ i, (s.vehiculos i).tipo = (inicializarVehiculos e i).tipo

theorem flota_inicial (e : Entorno) : Flota e (inicial e) :=
  ⟨inicial_inicializados e, fun _ => rfl, fun _ => rfl⟩

theorem Flota.atender {e : Entorno} {s : Servidor} (h : Flota e s) (c : Llamada) :
    Flota e (atender e s c).1 := by
  refine ⟨atender_inicializados e s c h.inicializados, fun i => ?_, fun i => ?_⟩
  · exact (atender_vehiculo e s c h.inicializados i).2.2.1.trans (h.placa i)
  · exact (atender_vehiculo e s c h.inicializados i).2.2.2.trans (h.tipo i)

/-- What each entry of the log satisfies by itself. -/
structure Entrada (e : Entorno) (x : Registro) : Prop where
  concede_iff : ∀ i, movimiento e x = .grant i ↔
    (x.before.vehiculos i).disponible = true ∧ (x.after.vehiculos i).disponible = false
  concede : ∀ i, movimiento e x = .grant i → ∃ tarifa, x.reply =
    .auto (some ⟨(x.before.vehiculos i).posicionX, (x.before.vehiculos i).posicionY,
      (x.before.vehiculos i).tipo, tarifa, (x.before.vehiculos i).placa⟩)
  rechaza : ∀ p, x.call = .solicitarViaje p → (∀ i, movimiento e x ≠ .grant i) →
    (∀ i, (x.before.vehiculos i).disponible = false) ∧ x.reply = .auto none ∧ x.after = x.before
  tarifa : ∀ info, x.reply = .auto (some info) → ∃ i, movimiento e x = .grant i ∧
    info.tipo = (inicializarVehiculos e i).tipo ∧ (info.tipo, info.tarifa) ∈ tarifas
  placa : ∀ i, movimiento e x = .release i → ∃ a, x.call = .terminarViaje a ∧
    a.placa = (inicializarVehiculos e i).placa
  nadie : ∀ a, x.call = .terminarViaje a → toca e x = false →
    x.reply = .fin false ∧ x.after = x.before
  estado : x.call = .estadoServicio → ∃ info, x.reply = .servicio info ∧
    info.viajes = x.before.viajes ∧
    info.vehiculosDisponibles = (List.finRange N).countP fun i => (x.before.vehiculos i).disponible

theorem Flota.entrada {e : Entorno} {s : Servidor} (h : Flota e s) (c : Llamada) :
    Entrada e (entry (Estructura.atender e) s c) := by
  have hgrant := movimiento_grant_iff e s c h.inicializados
  obtain ⟨p, rfl, hno, hm, ha⟩ | ⟨p, j, rfl, -, hm, ha⟩ | ⟨a, rfl, -, hm, ha⟩ |
    ⟨a, j, rfl, hb, hm, ha⟩ | ⟨rfl, hm, ha⟩ := atender_cases e s c h.inicializados
  · exact ⟨hgrant, by simp [hm], fun _ _ _ => ⟨(vehiculoElegido_eq_none _ p).mp hno, by simp [ha]⟩,
      by simp [ha], by simp [hm], by simp, by simp⟩
  · refine ⟨hgrant, fun i hi => ?_, fun _ _ hno => absurd hm (hno j), fun info hr => ⟨j, hm, ?_⟩,
      by simp [hm], by simp, by simp⟩
    · obtain rfl : j = i := by simpa [hm] using hi
      exact ⟨_, by rw [entry_reply, ha]; rfl⟩
    obtain rfl : infoAuto e (s.vehiculos j) = info := by simpa [ha] using hr
    have htipo : (s.vehiculos j).tipo ∈ tipos := by
      rw [h.tipo j]
      exact inicializarVehiculos_tipo e j
    exact ⟨h.tipo j, tarifaDe_mem e _ htipo⟩
  · exact ⟨hgrant, by simp [hm], by simp, by simp [ha], by simp [hm], by simp [ha], by simp⟩
  · refine ⟨hgrant, by simp [hm], by simp, by simp [ha], fun i hi => ⟨a, rfl, ?_⟩, by simp [toca, hm],
      by simp⟩
    obtain rfl : j = i := by simpa [hm] using hi
    rw [← h.placa j, buscarPlaca_eq_some s.vehiculos _ j hb]
  · refine ⟨hgrant, by simp [hm], by simp, by simp [ha], by simp [hm], by simp,
      fun _ => ⟨_, by rw [entry_reply, ha], ?_⟩⟩
    simp [estadoServicio, asegurarVehiculos_of_inicializados e s h.inicializados]

/-- The fleet and the counter of trips, after the calls of the log. -/
structure Sigue (e : Entorno) (s : Servidor) (log : List Registro) : Prop where
  flota : Flota e s
  ocupado : ∀ i, (s.vehiculos i).disponible = !busy (movimiento e) log i
  propio : Proper (movimiento e) log
  posicion : ∀ i, posicion (s.vehiculos i) =
    last (destino e i) (posicion (inicializarVehiculos e i)) log
  viajes : s.viajes = log.countP (toca e)
  entradas : ∀ x ∈ log, Entrada e x

theorem sigue_inicial (e : Entorno) : Sigue e (inicial e) [] where
  flota := flota_inicial e
  ocupado := fun _ => rfl
  propio := throughout_nil _
  posicion := fun _ => rfl
  viajes := rfl
  entradas := by simp

/-- One call: the state moves as its entry in the log says. -/
theorem Sigue.atender {e : Entorno} {s : Servidor} {log : List Registro} (h : Sigue e s log)
    (c : Llamada) :
    Sigue e (atender e s c).1 (log ++ [entry (Estructura.atender e) s c]) := by
  have hini := h.flota.inicializados
  refine ⟨h.flota.atender c, fun i => ?_, h.propio.concat _ fun i hi => ?_, fun i => ?_, ?_, ?_⟩
  · rw [(atender_vehiculo e s c hini i).1, busy_concat, h.ocupado i, Bool.not_not]
  · have hbusy := h.ocupado i
    rw [((movimiento_grant_iff e s c hini i).mp hi).1] at hbusy
    simpa using hbusy.symm
  · rw [(atender_vehiculo e s c hini i).2.1, last_concat, h.posicion i]
  · rw [atender_viajes e s c hini, h.viajes, List.countP_append]
    simp [List.countP_cons]
  · exact List.forall_mem_append.mpr ⟨h.entradas, List.forall_mem_singleton.mpr (h.flota.entrada c)⟩

theorem Sigue.refina {e : Entorno} {s : Servidor} {log : List Registro} (h : Sigue e s log) :
    Refina e s log where
  toca_iff := fun x _ => movimiento_release_iff e x
  concede_iff := fun x hx => (h.entradas x hx).concede_iff
  concede := fun x hx => (h.entradas x hx).concede
  rechaza := fun x hx => (h.entradas x hx).rechaza
  ocupado_iff := fun i => by rw [← busy_iff, h.ocupado i, Bool.not_eq_false']
  posicion := h.posicion
  placa := h.flota.placa
  tipo := h.flota.tipo
  tarifa := fun x hx => (h.entradas x hx).tarifa
  alterna := by
    intro pre x mid y post i hlog hx hy
    obtain ⟨z, hz, hrel⟩ := h.propio.release_between hlog hx hy
    exact ⟨z, hz, (h.entradas z (by simp [hlog, hz])).placa i hrel⟩
  viajes := h.viajes
  nadie := fun x hx => (h.entradas x hx).nadie
  estado := fun x hx => (h.entradas x hx).estado

/-! ## Top theorems -/

/-- **The server refines its event log**, after any calls from an initialised fleet. -/
theorem bitacora_refina (e : Entorno) (calls : List Llamada) :
    Refina e (final (atender e) (inicial e) calls) (serve (atender e) (inicial e) calls) :=
  (history_invariant (atender e) (Sigue e) (inicial e) [] (sigue_inicial e)
    (fun _ _ c h => h.atender c) calls).refina

end Estructura
