import SistemasDistribuidos.Estructura.Pasajeros
import SistemasDistribuidos.Estructura.Cuentas

/-!
# The passenger program of `Practica02/estructura_client.c`, step by step

In `Pasajeros` a passenger is what the server sees of it.  Here it is the program itself
(`main`, branch `pasajero`), and a call goes through the layers that `rpcgen` puts in between:

* the handler runs and `calc_prog_1` sends its result, unless it is NULL (`atiende`);
* the stub returns the result that arrived, or NULL when its time is up (`vuelve`);
* `main` prints an error for NULL, sleeps, and reads `result_1->placa` (`continua`).

Nothing stands between the error message and that read, so a refused passenger ends in a
read through NULL (`caida`):

    the session of k ends as it should  ↔  a vehicle was available when its request
                                           was handled                (sesion_bien_iff)

Without the steps the server does not see, this is the model of `Pasajeros` (`refina`).
-/

namespace Estructura

open Runs

/-! ## Algorithm -/

/-- Where the program of a passenger is.  Pointers and replies are `none` when they are NULL or not
sent. -/
inductive Punto where
  | inicio
  | solicitado (origen : PosicionPasajero)
  | respondido (respuesta : Option InfoAuto)
  | durmiendo (result_1 : Option InfoAuto)
  | terminando (arg1 : TerminarViajeArgs)
  | terminado (respuesta : Bool)
  | fin
  | caida
deriving DecidableEq, Repr

/-- A passenger: besides its program point, the vehicle it was assigned with its data, and the
`terminarViaje` calls it has sent. -/
structure Sesion where
  punto : Punto
  asignado : Option (Fin N × InfoAuto)
  enviados : List TerminarViajeArgs
deriving DecidableEq, Repr

structure Sistema (n : Nat) where
  srv : Servidor
  ses : Fin n → Sesion

inductive Accion (n : Nat) where
  | solicita (k : Fin n) (origen : PosicionPasajero)
  | atiende (k : Fin n)
  | vuelve (k : Fin n)
  | continua (k : Fin n) (destino : PosicionFinal)
  | consulta
deriving DecidableEq, Repr

def sesion0 : Sesion := ⟨.inicio, none, []⟩

def sistema0 (n : Nat) : Sistema n := ⟨servidor0, fun _ => sesion0⟩

def Sistema.con {n : Nat} (w : Sistema n) (srv : Servidor) (k : Fin n) (s : Sesion) : Sistema n :=
  ⟨srv, Function.update w.ses k s⟩

/-- One step; `none` when it is not the turn of that passenger or of its call. -/
def paso (e : Entorno) {n : Nat} (w : Sistema n) : Accion n → Option (Sistema n)
  | .solicita k origen =>
    match (w.ses k).punto with
    | .inicio => some (w.con w.srv k { w.ses k with punto := .solicitado origen })
    | _ => none
  | .atiende k =>
    match (w.ses k).punto with
    | .solicitado origen => some (w.con (solicitarViaje e w.srv origen).1 k
        { w.ses k with
          punto := .respondido (solicitarViaje e w.srv origen).2
          asignado := (solicitarConIndice e w.srv origen).2 })
    | .terminando arg1 => some (w.con (terminarViaje w.srv arg1).1 k
        { w.ses k with punto := .terminado (terminarViaje w.srv arg1).2 })
    | _ => none
  | .vuelve k =>
    match (w.ses k).punto with
    | .respondido respuesta => some (w.con w.srv k { w.ses k with punto := .durmiendo respuesta })
    | .terminado _ => some (w.con w.srv k { w.ses k with punto := .fin })
    | _ => none
  | .continua k destino =>
    match (w.ses k).punto with
    | .durmiendo none => some (w.con w.srv k { w.ses k with punto := .caida })
    | .durmiendo (some result_1) => some (w.con w.srv k
        { w.ses k with
          punto := .terminando (terminarArgs result_1 destino)
          enviados := (w.ses k).enviados ++ [terminarArgs result_1 destino] })
    | _ => none
  | .consulta => some { w with srv := (estadoServicio e w.srv).1 }

/-- Some interleaving leads to `w`. -/
def Alcanza (e : Entorno) {n : Nat} (w : Sistema n) : Prop := Reachable (paso e) (sistema0 n) w

/-! ## Specification -/

/-- The program has ended, or was ended. -/
def Punto.acabado : Punto → Bool
  | .fin => true
  | .caida => true
  | _ => false

/-- One of the two ways to end: with a vehicle, after one `terminarViaje` call with its plate and the
fare of its type; or without, and without a call. -/
def Sesion.TerminaBien (e : Entorno) (s : Sesion) : Prop :=
  s.punto = .fin ∧
    ((∃ i info arg1, s.asignado = some (i, info) ∧ s.enviados = [arg1] ∧
      arg1.placa = (inicializarVehiculos e i).placa ∧
      arg1.costoViaje = tarifaDe e (inicializarVehiculos e i).tipo) ∨
    s.asignado = none ∧ s.enviados = [])

/-- Passenger `k` after the run `acts` to `w`. -/
structure SesionBien (e : Entorno) {n : Nat} (acts : List (Accion n)) (w : Sistema n) (k : Fin n) :
    Prop where
  termina : (w.ses k).TerminaBien e
  /-- A refusal leaves the server as it was. -/
  negativa : ∀ acts₁ acts₂ w₀ w₁, acts = acts₁ ++ .atiende k :: acts₂ →
    run (paso e) (sistema0 n) acts₁ = some w₀ → paso e w₀ (.atiende k) = some w₁ →
    (w₁.ses k).punto = .respondido none → w₁.srv = w₀.srv

/-- In the run `acts` the request of `k` was handled while some vehicle was available. -/
def HuboVehiculo (e : Entorno) {n : Nat} (acts : List (Accion n)) (k : Fin n) : Prop :=
  ∃ acts₁ acts₂ w₀ origen, acts = acts₁ ++ .atiende k :: acts₂ ∧
    run (paso e) (sistema0 n) acts₁ = some w₀ ∧ (w₀.ses k).punto = .solicitado origen ∧
    ∃ i, ((asegurarVehiculos e w₀.srv).vehiculos i).disponible = true

/-! ## The server -/

/-- The reply is what goes with the vehicle assigned. -/
theorem solicitarViaje_snd (e : Entorno) (v : Servidor) (p : PosicionPasajero) :
    (solicitarViaje e v p).2 = (solicitarConIndice e v p).2.map Prod.snd := by
  rw [solicitarConIndice_snd]
  cases h : vehiculoElegido (asegurarVehiculos e v).vehiculos p with
  | none => rw [solicitarViaje_none e v p h]; rfl
  | some i => rw [solicitarViaje_some e v p i h]; rfl

/-- A vehicle is assigned exactly when one is available. -/
theorem solicitarConIndice_isSome (e : Entorno) (v : Servidor) (p : PosicionPasajero) :
    (solicitarConIndice e v p).2.isSome = true ↔
      ∃ i, ((asegurarVehiculos e v).vehiculos i).disponible = true := by
  have h := vehiculoElegido_eq_none (asegurarVehiculos e v).vehiculos p
  rw [solicitarConIndice_snd, Option.isSome_map]
  constructor
  · intro hs
    by_contra hno
    rw [h.mpr fun i => Bool.eq_false_iff.mpr fun hi => hno ⟨i, hi⟩] at hs
    cases hs
  · rintro ⟨i, hi⟩
    rw [Option.isSome_iff_ne_none]
    intro hnone
    rw [h.mp hnone i] at hi
    cases hi

/-- A refusal changes nothing: a fleet that is drawn by the call is all available. -/
theorem solicitarViaje_negada (e : Entorno) (v : Servidor) (p : PosicionPasajero)
    (h : (solicitarViaje e v p).2 = none) : (solicitarViaje e v p).1 = v := by
  rw [solicitarViaje_snd, Option.map_eq_none_iff, solicitarConIndice_snd, Option.map_eq_none_iff] at h
  rw [solicitarViaje_none e v p h]
  cases hini : v.vehiculosInicializados with
  | true => exact asegurarVehiculos_of_inicializados e v hini
  | false =>
    have hno := (vehiculoElegido_eq_none _ p).mp h ⟨0, by decide⟩
    simp [asegurarVehiculos, hini, inicializarVehiculos] at hno

/-- Whatever is called, the fleet keeps the plates and types drawn or to be drawn. -/
theorem flota_atender (e : Entorno) (v : Servidor) (c : Llamada) (h : Flota e (asegurarVehiculos e v)) :
    Flota e (asegurarVehiculos e (atender e v c).1) := by
  by_cases hc : ∃ a, c = .terminarViaje a
  · obtain ⟨a, rfl⟩ := hc
    cases hini : v.vehiculosInicializados with
    | true =>
      rw [asegurarVehiculos_of_inicializados e v hini] at h
      rw [asegurarVehiculos_of_inicializados e _ (atender_inicializados e v _ hini)]
      exact h.atender _
    | false =>
      have hno := (terminarViaje_inicializados v a).trans hini
      simp only [atender, asegurarVehiculos, hno]
      exact ⟨rfl, fun _ => rfl, fun _ => rfl⟩
  · rw [atender_asegurar e v c (not_exists.mp hc),
      asegurarVehiculos_of_inicializados e _ (h.atender c).inicializados]
    exact h.atender c

/-- The reply carries the plate of the vehicle assigned and the fare of its type. -/
theorem Flota.solicitarConIndice {e : Entorno} {v : Servidor} (h : Flota e (asegurarVehiculos e v))
    (p : PosicionPasajero) (i : Fin N) (info : InfoAuto)
    (hi : (solicitarConIndice e v p).2 = some (i, info)) :
    info.placa = (inicializarVehiculos e i).placa ∧
      info.tarifa = tarifaDe e (inicializarVehiculos e i).tipo := by
  rw [solicitarConIndice_snd] at hi
  obtain ⟨j, -, hj⟩ := Option.map_eq_some_iff.mp hi
  simp only [Prod.mk.injEq] at hj
  obtain ⟨rfl, rfl⟩ := hj
  exact ⟨h.placa j, by rw [← h.tipo j]; rfl⟩

/-! ## Steps -/

@[simp] theorem Sistema.con_srv {n : Nat} (w : Sistema n) (v : Servidor) (k : Fin n) (s : Sesion) :
    (w.con v k s).srv = v := rfl

@[simp] theorem Sistema.con_self {n : Nat} (w : Sistema n) (v : Servidor) (k : Fin n) (s : Sesion) :
    (w.con v k s).ses k = s :=
  Function.update_self ..

theorem Sistema.con_of_ne {n : Nat} (w : Sistema n) (v : Servidor) (k l : Fin n) (s : Sesion)
    (h : l ≠ k) : (w.con v k s).ses l = w.ses l :=
  Function.update_of_ne h ..

/-- What an action of passenger `k` does to the server and to its session. -/
inductive Mueve (e : Entorno) {n : Nat} (k : Fin n) :
    Accion n → Servidor → Sesion → Servidor → Sesion → Prop where
  | solicita {v : Servidor} {s : Sesion} (origen : PosicionPasajero) (h : s.punto = .inicio) :
    Mueve e k (.solicita k origen) v s v { s with punto := .solicitado origen }
  | atiende {v : Servidor} {s : Sesion} (origen : PosicionPasajero) (h : s.punto = .solicitado origen) :
    Mueve e k (.atiende k) v s (solicitarViaje e v origen).1
      { s with
        punto := .respondido (solicitarViaje e v origen).2
        asignado := (solicitarConIndice e v origen).2 }
  | vuelve {v : Servidor} {s : Sesion} (r : Option InfoAuto) (h : s.punto = .respondido r) :
    Mueve e k (.vuelve k) v s v { s with punto := .durmiendo r }
  | cae {v : Servidor} {s : Sesion} (destino : PosicionFinal) (h : s.punto = .durmiendo none) :
    Mueve e k (.continua k destino) v s v { s with punto := .caida }
  | continua {v : Servidor} {s : Sesion} (info : InfoAuto) (destino : PosicionFinal)
    (h : s.punto = .durmiendo (some info)) :
    Mueve e k (.continua k destino) v s v
      { s with
        punto := .terminando (terminarArgs info destino)
        enviados := s.enviados ++ [terminarArgs info destino] }
  | termina {v : Servidor} {s : Sesion} (arg1 : TerminarViajeArgs) (h : s.punto = .terminando arg1) :
    Mueve e k (.atiende k) v s (terminarViaje v arg1).1
      { s with punto := .terminado (terminarViaje v arg1).2 }
  | acaba {v : Servidor} {s : Sesion} (r : Bool) (h : s.punto = .terminado r) :
    Mueve e k (.vuelve k) v s v { s with punto := .fin }

/-- Everything one step can do. -/
theorem paso_mueve (e : Entorno) {n : Nat} (w w' : Sistema n) (a : Accion n)
    (h : paso e w a = some w') :
    (∃ k v s, Mueve e k a w.srv (w.ses k) v s ∧ w' = w.con v k s) ∨
      a = .consulta ∧ w' = { w with srv := (estadoServicio e w.srv).1 } := by
  cases a with
  | solicita k origen =>
    simp only [paso] at h
    split at h
    · next hp => exact .inl ⟨k, _, _, .solicita origen hp, (Option.some.inj h).symm⟩
    · cases h
  | atiende k =>
    simp only [paso] at h
    split at h
    · next origen hp => exact .inl ⟨k, _, _, .atiende origen hp, (Option.some.inj h).symm⟩
    · next arg1 hp => exact .inl ⟨k, _, _, .termina arg1 hp, (Option.some.inj h).symm⟩
    · cases h
  | vuelve k =>
    simp only [paso] at h
    split at h
    · next r hp => exact .inl ⟨k, _, _, .vuelve r hp, (Option.some.inj h).symm⟩
    · next r hp => exact .inl ⟨k, _, _, .acaba r hp, (Option.some.inj h).symm⟩
    · cases h
  | continua k destino =>
    simp only [paso] at h
    split at h
    · next hp => exact .inl ⟨k, _, _, .cae destino hp, (Option.some.inj h).symm⟩
    · next info hp => exact .inl ⟨k, _, _, .continua info destino hp, (Option.some.inj h).symm⟩
    · cases h
  | consulta => exact .inr ⟨rfl, (Option.some.inj h).symm⟩

/-- And each of these can be done. -/
theorem Mueve.paso {e : Entorno} {n : Nat} {w : Sistema n} {k : Fin n} {a : Accion n} {v : Servidor}
    {s : Sesion} (h : Mueve e k a w.srv (w.ses k) v s) : paso e w a = some (w.con v k s) := by
  generalize hs : w.ses k = s₀ at h
  cases h with
  | _ => simp only [Estructura.paso, *]

/-- A fact about every passenger that its own steps keep is kept. -/
theorem paso_conserva (e : Entorno) {n : Nat} (P : Sesion → Prop) (w w' : Sistema n) (a : Accion n)
    (hP : ∀ (k : Fin n) s v' s', Mueve e k a w.srv s v' s' → P s → P s') (h : paso e w a = some w')
    (l : Fin n) (hl : P (w.ses l)) : P (w'.ses l) := by
  rcases paso_mueve e w w' a h with ⟨k, v, s, hm, rfl⟩ | ⟨-, rfl⟩
  · by_cases hlk : l = k
    · subst hlk
      rw [Sistema.con_self]
      exact hP _ _ _ _ hm hl
    · rw [Sistema.con_of_ne _ _ _ _ _ hlk]
      exact hl
  · exact hl

/-! ## Invariants -/

/-- Program point, vehicle and calls sent agree. -/
def Sesion.Coherente (s : Sesion) : Prop :=
  match s.punto with
  | .inicio => s.asignado = none ∧ s.enviados = []
  | .solicitado _ => s.asignado = none ∧ s.enviados = []
  | .respondido r => r = s.asignado.map Prod.snd ∧ s.enviados = []
  | .durmiendo r => r = s.asignado.map Prod.snd ∧ s.enviados = []
  | .terminando arg1 => ∃ i info destino, s.asignado = some (i, info) ∧
      arg1 = terminarArgs info destino ∧ s.enviados = [arg1]
  | .terminado _ => ∃ i info destino, s.asignado = some (i, info) ∧
      s.enviados = [terminarArgs info destino]
  | .fin => ∃ i info destino, s.asignado = some (i, info) ∧ s.enviados = [terminarArgs info destino]
  | .caida => s.asignado = none ∧ s.enviados = []

theorem Mueve.coherente {e : Entorno} {n : Nat} {k : Fin n} {a : Accion n} {v v' : Servidor}
    {s s' : Sesion} (h : Mueve e k a v s v' s') (hs : s.Coherente) : s'.Coherente := by
  cases h with
  | solicita origen h =>
    simp only [Sesion.Coherente, h] at hs ⊢
    exact hs
  | atiende origen h =>
    simp only [Sesion.Coherente, h] at hs ⊢
    exact ⟨solicitarViaje_snd e v origen, hs.2⟩
  | vuelve r h =>
    simp only [Sesion.Coherente, h] at hs ⊢
    exact hs
  | cae destino h =>
    simp only [Sesion.Coherente, h] at hs ⊢
    exact ⟨Option.map_eq_none_iff.mp hs.1.symm, hs.2⟩
  | continua info destino h =>
    simp only [Sesion.Coherente, h] at hs ⊢
    obtain ⟨⟨i, info'⟩, ha, rfl⟩ := Option.map_eq_some_iff.mp hs.1.symm
    exact ⟨i, info', destino, ha, rfl, by simp [hs.2]⟩
  | termina arg1 h =>
    simp only [Sesion.Coherente, h] at hs ⊢
    obtain ⟨i, info, destino, ha, rfl, hs⟩ := hs
    exact ⟨i, info, destino, ha, hs⟩
  | acaba r h =>
    simp only [Sesion.Coherente, h] at hs ⊢
    exact hs

theorem Alcanza.coherente {e : Entorno} {n : Nat} {w : Sistema n} (h : Alcanza e w) (k : Fin n) :
    (w.ses k).Coherente :=
  h.invariant (fun w => (w.ses k).Coherente) ⟨rfl, rfl⟩ fun w a w' hw hp =>
    paso_conserva e Sesion.Coherente w w' a (fun _ _ _ _ hm hs => hm.coherente hs) hp k hw

/-- The data a passenger was sent is that of its vehicle. -/
def Sesion.Informada (e : Entorno) (s : Sesion) : Prop :=
  ∀ i info, s.asignado = some (i, info) → info.placa = (inicializarVehiculos e i).placa ∧
    info.tarifa = tarifaDe e (inicializarVehiculos e i).tipo

/-- A step of a passenger is a call to the server or leaves it as it is. -/
theorem Mueve.flota {e : Entorno} {n : Nat} {k : Fin n} {a : Accion n} {v v' : Servidor}
    {s s' : Sesion} (h : Mueve e k a v s v' s') (hv : Flota e (asegurarVehiculos e v)) :
    Flota e (asegurarVehiculos e v') := by
  cases h with
  | atiende origen h => exact flota_atender e v (.solicitarViaje origen) hv
  | termina arg1 h => exact flota_atender e v (.terminarViaje arg1) hv
  | _ => exact hv

theorem Mueve.informada {e : Entorno} {n : Nat} {k : Fin n} {a : Accion n} {v v' : Servidor}
    {s s' : Sesion} (h : Mueve e k a v s v' s') (hv : Flota e (asegurarVehiculos e v))
    (hs : s.Informada e) : s'.Informada e := by
  cases h with
  | atiende origen h => exact hv.solicitarConIndice origen
  | _ => exact hs

theorem Alcanza.flota {e : Entorno} {n : Nat} {w : Sistema n} (h : Alcanza e w) :
    Flota e (asegurarVehiculos e w.srv) := by
  refine h.invariant (fun w => Flota e (asegurarVehiculos e w.srv)) (flota_inicial e) fun w a w' hw hp => ?_
  rcases paso_mueve e w w' a hp with ⟨k, v, s, hm, rfl⟩ | ⟨-, rfl⟩
  · exact hm.flota hw
  · exact flota_atender e w.srv .estadoServicio hw

theorem Alcanza.informada {e : Entorno} {n : Nat} {w : Sistema n} (h : Alcanza e w) (k : Fin n) :
    (w.ses k).Informada e := by
  refine h.induction (fun w => (w.ses k).Informada e) (fun i info hi => ?_) fun w a w' hr hw hp => ?_
  · cases hi
  · exact paso_conserva e (Sesion.Informada e) w w' a
      (fun _ _ _ _ hm hs => hm.informada (Alcanza.flota hr) hs) hp k hw

/-- A session that has ended did so as it should exactly when it was assigned a vehicle. -/
theorem Sesion.Coherente.terminaBien_iff {e : Entorno} {s : Sesion} (h : s.Coherente)
    (hi : s.Informada e) (hf : s.punto.acabado = true) :
    s.TerminaBien e ↔ s.asignado.isSome = true := by
  cases hp : s.punto with
  | fin =>
    simp only [Sesion.Coherente, hp] at h
    obtain ⟨i, info, destino, ha, he⟩ := h
    obtain ⟨hplaca, htarifa⟩ := hi i info ha
    exact iff_of_true ⟨hp, .inl ⟨i, info, _, ha, he, hplaca, htarifa⟩⟩ (by simp [ha])
  | caida =>
    simp only [Sesion.Coherente, hp] at h
    refine iff_of_false (fun ht => ?_) (by simp [h.1])
    have hfin := ht.1
    rw [hp] at hfin
    cases hfin
  | _ => simp [hp, Punto.acabado] at hf

/-! ## The run of a session -/

/-- The request has not been handled. -/
def Punto.pendiente : Punto → Bool
  | .inicio => true
  | .solicitado _ => true
  | _ => false

/-- Once the request is handled the assignment stays. -/
theorem Mueve.asignado {e : Entorno} {n : Nat} {k : Fin n} {a : Accion n} {v v' : Servidor}
    {s s' : Sesion} (h : Mueve e k a v s v' s') (hs : s.punto.pendiente = false) :
    s'.punto.pendiente = false ∧ s'.asignado = s.asignado := by
  cases h with
  | solicita origen h => simp [h, Punto.pendiente] at hs
  | atiende origen h => simp [h, Punto.pendiente] at hs
  | _ => exact ⟨rfl, rfl⟩

theorem asignado_conserva (e : Entorno) {n : Nat} (acts : List (Accion n)) (w w' : Sistema n) (k : Fin n)
    (h : run (paso e) w acts = some w') (hk : (w.ses k).punto.pendiente = false) :
    (w'.ses k).asignado = (w.ses k).asignado := by
  have hinv := run_invariant (paso e)
    (fun u => (u.ses k).punto.pendiente = false ∧ (u.ses k).asignado = (w.ses k).asignado)
    (fun u a u' hu hp => ?_) acts w w' ⟨hk, rfl⟩ h
  · exact hinv.2
  · refine paso_conserva e (fun s => s.punto.pendiente = false ∧ s.asignado = (w.ses k).asignado) u u' a
      ?_ hp k hu
    rintro l s v' s' hm ⟨hs, ha⟩
    obtain ⟨hs', ha'⟩ := hm.asignado hs
    exact ⟨hs', ha'.trans ha⟩

/-- Only `atiende` takes a request from those to be handled. -/
theorem atiende_of_pendiente (e : Entorno) {n : Nat} (w w' : Sistema n) (a : Accion n) (k : Fin n)
    (h : paso e w a = some w') (hk : (w.ses k).punto.pendiente = true)
    (hk' : (w'.ses k).punto.pendiente = false) :
    a = .atiende k ∧ ∃ origen, (w.ses k).punto = .solicitado origen := by
  rcases paso_mueve e w w' a h with ⟨l, v, s, hm, rfl⟩ | ⟨-, rfl⟩
  · by_cases hkl : k = l
    · subst hkl
      rw [Sistema.con_self] at hk'
      cases hm with
      | solicita => cases hk'
      | atiende origen hp => exact ⟨rfl, origen, hp⟩
      | _ => simp_all [Punto.pendiente]
    · rw [Sistema.con_of_ne _ _ _ _ _ hkl, hk] at hk'
      cases hk'
  · rw [hk] at hk'
    cases hk'

/-- The assignment is the one of the step that handled the request. -/
theorem asignado_de (e : Entorno) {n : Nat} (acts₁ acts₂ : List (Accion n)) (w₀ w : Sistema n) (k : Fin n)
    (origen : PosicionPasajero) (h₀ : run (paso e) (sistema0 n) acts₁ = some w₀)
    (h : run (paso e) (sistema0 n) (acts₁ ++ .atiende k :: acts₂) = some w)
    (hk : (w₀.ses k).punto = .solicitado origen) :
    (w.ses k).asignado = (solicitarConIndice e w₀.srv origen).2 := by
  obtain ⟨u, hu, h⟩ := (run_append_eq_some _ _ _ _ _).mp h
  rw [h₀] at hu
  obtain rfl := Option.some.inj hu
  obtain ⟨w₁, h₁, h⟩ := (run_cons_eq_some _ _ _ _ _).mp h
  rw [(Mueve.atiende origen hk).paso] at h₁
  obtain rfl := Option.some.inj h₁
  rw [asignado_conserva e acts₂ _ w k h (by rw [Sistema.con_self]; rfl), Sistema.con_self]

/-- How many steps a session has left. -/
def Punto.resto : Punto → Nat
  | .inicio => 6
  | .solicitado _ => 5
  | .respondido _ => 4
  | .durmiendo _ => 3
  | .terminando _ => 2
  | .terminado _ => 1
  | .fin => 0
  | .caida => 0

/-- Nothing holds a session up: it has ended or its next step can be taken. -/
theorem sesion_avanza (e : Entorno) {n : Nat} (w : Sistema n) (k : Fin n) :
    (w.ses k).punto.acabado = true ∨
      ∃ a w', paso e w a = some w' ∧ (w'.ses k).punto.resto < (w.ses k).punto.resto := by
  cases hp : (w.ses k).punto with
  | inicio => exact .inr ⟨_, _, (Mueve.solicita ⟨0, 0⟩ hp).paso, by simp [Punto.resto]⟩
  | solicitado origen => exact .inr ⟨_, _, (Mueve.atiende origen hp).paso, by simp [Punto.resto]⟩
  | respondido r => exact .inr ⟨_, _, (Mueve.vuelve r hp).paso, by simp [Punto.resto]⟩
  | durmiendo r =>
    cases r with
    | none => exact .inr ⟨_, _, (Mueve.cae ⟨0, 0⟩ hp).paso, by simp [Punto.resto]⟩
    | some info => exact .inr ⟨_, _, (Mueve.continua info ⟨0, 0⟩ hp).paso, by simp [Punto.resto]⟩
  | terminando arg1 => exact .inr ⟨_, _, (Mueve.termina arg1 hp).paso, by simp [Punto.resto]⟩
  | terminado r => exact .inr ⟨_, _, (Mueve.acaba r hp).paso, by simp [Punto.resto]⟩
  | fin => exact .inl rfl
  | caida => exact .inl rfl

/-! ## Refinement -/

/-- The session as the server sees it. -/
def Sesion.abstracta (s : Sesion) : Session (Fin N) InfoAuto :=
  match s.punto with
  | .inicio => .fresh
  | .solicitado _ => .fresh
  | .terminado _ => s.asignado.elim .refused fun x => .done x.2
  | .fin => s.asignado.elim .refused fun x => .done x.2
  | _ => .ofAnswer s.asignado

def Sistema.abstracto {n : Nat} (w : Sistema n) : Mundo n := ⟨w.srv, fun k => (w.ses k).abstracta⟩

theorem Sistema.abstracto_con {n : Nat} (w : Sistema n) (v : Servidor) (k : Fin n) (s : Sesion) :
    (w.con v k s).abstracto = ⟨v, Function.update w.abstracto.ses k s.abstracta⟩ := by
  have h : (fun l => ((w.con v k s).ses l).abstracta) =
      Function.update w.abstracto.ses k s.abstracta :=
    Function.comp_update Sesion.abstracta w.ses k s
  rw [← h]
  rfl

/-- A step the server does not see. -/
theorem Sistema.abstracto_con_self {n : Nat} (w : Sistema n) (k : Fin n) (s : Sesion)
    (h : s.abstracta = (w.ses k).abstracta) : (w.con w.srv k s).abstracto = w.abstracto := by
  rw [abstracto_con, h]
  exact congrArg (Lender.World.mk w.srv) (Function.update_eq_self k w.abstracto.ses)

/-- What the server sees of a step: nothing, a request or a return. -/
theorem Mueve.abstracta {e : Entorno} {n : Nat} {k : Fin n} {a : Accion n} {v v' : Servidor}
    {s s' : Sesion} (h : Mueve e k a v s v' s') (hs : s.Coherente) :
    (v' = v ∧ s'.abstracta = s.abstracta) ∨
    (∃ origen, s.abstracta = .fresh ∧ v' = ((servicio e).ask v origen).1 ∧
      s'.abstracta = .ofAnswer ((servicio e).ask v origen).2) ∨
    ∃ i info destino, s.abstracta = .active i info ∧ v' = (servicio e).giveBack v info destino ∧
      s'.abstracta = .done info := by
  cases h with
  | solicita origen h => exact .inl ⟨rfl, by simp only [Sesion.abstracta, h]⟩
  | atiende origen h => exact .inr (.inl ⟨origen, by simp only [Sesion.abstracta, h], rfl, rfl⟩)
  | vuelve r h => exact .inl ⟨rfl, by simp only [Sesion.abstracta, h]⟩
  | cae destino h => exact .inl ⟨rfl, by simp only [Sesion.abstracta, h]⟩
  | continua info destino h => exact .inl ⟨rfl, by simp only [Sesion.abstracta, h]⟩
  | termina arg1 h =>
    simp only [Sesion.Coherente, h] at hs
    obtain ⟨i, info, destino, ha, rfl, -⟩ := hs
    refine .inr (.inr ⟨i, info, destino, ?_, rfl, ?_⟩)
    · simp only [Sesion.abstracta, h, ha, Session.ofAnswer]
    · simp only [Sesion.abstracta, ha, Option.elim_some]
  | acaba r h => exact .inl ⟨rfl, by simp only [Sesion.abstracta, h]⟩

/-- **Refinement.**  What the server sees of a run is a run of `servicio`. -/
theorem refina (e : Entorno) {n : Nat} (w : Sistema n) (h : Alcanza e w) : Alcanzable e w.abstracto := by
  refine h.simulates (servicio e).step Sistema.abstracto fun w a w' hr hp => ?_
  rcases paso_mueve e w w' a hp with ⟨k, v, s, hm, rfl⟩ | ⟨-, rfl⟩
  · rcases hm.abstracta (Alcanza.coherente hr k) with
      ⟨rfl, hs⟩ | ⟨origen, hk, rfl, hs⟩ | ⟨i, info, destino, hk, rfl, hs⟩
    · exact .inl (w.abstracto_con_self k s hs)
    · refine .inr ⟨.ask k origen, ?_⟩
      have hses : w.abstracto.ses k = .fresh := hk
      rw [Sistema.abstracto_con, hs]
      simp only [Lender.step, hses]
      rfl
    · refine .inr ⟨.giveBack k destino, ?_⟩
      have hses : w.abstracto.ses k = .active i info := hk
      rw [Sistema.abstracto_con, hs]
      simp only [Lender.step, hses]
      rfl
  · exact .inr ⟨.poll, rfl⟩

/-! ## Top theorems -/

/-- **Every session can be run to its end, and it ends as it should exactly when a vehicle was available
when its request was handled.** -/
theorem sesion_bien_iff (e : Entorno) {n : Nat} (acts : List (Accion n)) (w : Sistema n)
    (h : run (paso e) (sistema0 n) acts = some w) (k : Fin n) :
    (∃ acts' w', run (paso e) w acts' = some w' ∧ (w'.ses k).punto.acabado = true) ∧
      ((w.ses k).punto.acabado = true → (SesionBien e acts w k ↔ HuboVehiculo e acts k)) := by
  refine ⟨run_descends (paso e) (fun w => (w.ses k).punto.resto) _ (fun w => sesion_avanza e w k) w,
    fun hfin => ?_⟩
  have hr : Alcanza e w := ⟨acts, h⟩
  have hbien := (hr.coherente k).terminaBien_iff (hr.informada k) hfin
  constructor
  · intro hs
    -- the step that handled the request
    have hpend : ¬ (w.ses k).punto.pendiente = true := by
      intro hp
      cases hpt : (w.ses k).punto <;> simp [hpt, Punto.pendiente, Punto.acabado] at hp hfin
    obtain ⟨acts₁, a, acts₂, w₀, w₁, rfl, h₀, hk, ha, hk', -⟩ :=
      run_breaks (paso e) (fun w => (w.ses k).punto.pendiente = true) acts _ w h rfl hpend
    obtain ⟨rfl, origen, hp⟩ := atiende_of_pendiente e w₀ w₁ a k ha hk (by simpa using hk')
    refine ⟨acts₁, acts₂, w₀, origen, rfl, h₀, hp, ?_⟩
    rw [← solicitarConIndice_isSome e w₀.srv origen, ← asignado_de e acts₁ acts₂ w₀ w k origen h₀ h hp]
    exact hbien.mp hs.termina
  · rintro ⟨acts₁, acts₂, w₀, origen, rfl, h₀, hp, hlibre⟩
    refine ⟨hbien.mpr ?_, fun bs cs u u' _ _ hu hnone => ?_⟩
    · rw [asignado_de e acts₁ acts₂ w₀ w k origen h₀ h hp]
      exact (solicitarConIndice_isSome e w₀.srv origen).mpr hlibre
    · simp only [paso] at hu
      split at hu
      · obtain rfl := Option.some.inj hu
        rw [Sistema.con_self] at hnone
        exact solicitarViaje_negada e u.srv _ (Punto.respondido.inj hnone)
      · obtain rfl := Option.some.inj hu
        rw [Sistema.con_self] at hnone
        cases hnone
      · cases hu

/-- One passenger, alone. -/
def unViaje : List (Accion 1) :=
  [.solicita 0 ⟨0, 0⟩, .atiende 0, .vuelve 0, .continua 0 ⟨3, 4⟩, .atiende 0, .vuelve 0]

theorem sesion_bien_uno : ∃ w, run (paso entornoCero) (sistema0 1) unViaje = some w ∧
    SesionBien entornoCero unViaje w 0 :=
  ⟨_, rfl, ((sesion_bien_iff entornoCero unViaje _ rfl 0).2 (by decide)).mpr
    ⟨[.solicita 0 ⟨0, 0⟩], [.vuelve 0, .continua 0 ⟨3, 4⟩, .atiende 0, .vuelve 0], _, _, rfl, rfl, rfl,
      ⟨0, by decide⟩, by decide⟩⟩

/-- Six passengers ask, and the sixth goes on after the error. -/
def seisPasajeros : List (Accion 6) :=
  (List.finRange 6).flatMap (fun k => [.solicita k ⟨0, 0⟩, .atiende k]) ++ [.vuelve 5, .continua 5 ⟨0, 0⟩]

/-- The sixth passenger reads the plate through NULL. -/
theorem sexto_pasajero : ¬ ∀ (e : Entorno) (n : Nat) (acts : List (Accion n)) (w : Sistema n) (k : Fin n),
    run (paso e) (sistema0 n) acts = some w → (w.ses k).punto.acabado = true → SesionBien e acts w k := by
  intro h
  have hrun : ∃ w, run (paso entornoCero) (sistema0 6) seisPasajeros = some w ∧
      (w.ses 5).punto = .caida := ⟨_, rfl, by decide⟩
  obtain ⟨w, hw, h5⟩ := hrun
  have hfin := (h entornoCero 6 seisPasajeros w 5 hw (by rw [h5]; rfl)).termina.1
  rw [h5] at hfin
  cases hfin

end Estructura
