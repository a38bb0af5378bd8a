import SistemasDistribuidos.Lib.Pool
import SistemasDistribuidos.Lib.Runs
import SistemasDistribuidos.UberTcp.Cliente

/-!
# Clients and server of `Practica01` over TCP

Any number of clients `κ` run `clienteTCPUber.c` against `servidorTCPUber.py`.  A request
is sent, handled by the server and answered in three steps, and those of all clients
interleave; each text sent is received whole.

Between a `viaje` and its `viaje_terminado` the car is known to the client only as the
number it cut out of a JSON text, so the protocol rests on that number being the index
the server gave away:

    False in autos_disponibles  ↔  granted, and its viaje_terminado not handled   (autos_cuadran)
-/

namespace UberTcp

open CText CString Json

/-! ## Algorithm -/

/-- What is on its way between one client and the server. -/
inductive Canal where
  | nada
  | peticion (t : Text)
  | respuesta (t : Text)
  deriving DecidableEq, Repr

/-- One client.  The last two fields are ghosts: the answer of `solicitar_viaje` to it (the
index, or none for a refusal), and whether its `viaje_terminado` has been handled. -/
structure Sesion where
  fase : Fase
  memoria : Memoria
  canal : Canal
  concedido : Option (Option Nat)
  devuelto : Bool
  deriving DecidableEq, Repr

structure Mundo (κ : Type*) where
  servidor : Except PyError Servidor
  ses : κ → Sesion

def sesion0 : Sesion :=
  { fase := .menu, memoria := memoria0, canal := .nada, concedido := none, devuelto := false }

variable {κ : Type*}

def mundo0 (N : Nat) : Mundo κ := { servidor := .ok (servidor0 N), ses := fun _ => sesion0 }

inductive Accion (κ : Type*) where
  | opcion (k : κ) (opcion : Int)
  | atiende (k : κ) (costo_viaje : Nat)
  | recibe (k : κ)
  | termina (k : κ)

def Sesion.elige (c : Sesion) (opcion : Int) : Sesion :=
  { c with
    fase := (elegir opcion).1
    canal := match (elegir opcion).2 with
      | some t => .peticion t
      | none => .nada }

/-- The ghosts after the server handled the request of `c` in state `s`. -/
def Sesion.anota (N : Nat) (s : Servidor) (costo : Nat) (c : Sesion) : Sesion :=
  match c.fase with
  | .esperaViaje =>
    { c with concedido := (asignar s costo (List.range N)).toOption.map Prod.snd }
  | .esperaFin => { c with devuelto := true }
  | _ => c

def Sesion.recibe (c : Sesion) (t : Text) : Sesion :=
  { c with
    fase := (recibir c.fase c.memoria t).1
    memoria := (recibir c.fase c.memoria t).2
    canal := .nada }

def Sesion.termina (c : Sesion) : Sesion :=
  { c with fase := .esperaFin, canal := .peticion (peticionTerminado c.memoria.placas) }

section Step

variable [DecidableEq κ]

def Mundo.con (w : Mundo κ) (k : κ) (c : Sesion) : Mundo κ :=
  { w with ses := Function.update w.ses k c }

/-- The world after the server answered `r` to client `k`, from state `s` to `t`. -/
def Mundo.respondido (N : Nat) (w : Mundo κ) (s t : Servidor) (costo : Nat) (k : κ) (r : Text) :
    Mundo κ :=
  { servidor := .ok t
    ses := Function.update w.ses k { (w.ses k).anota N s costo with canal := .respuesta r } }

/-- One step: a choice in a menu, a request handled, a reply received, the end of a trip. -/
def paso (flotante : Text → Nat → Bool) (N : Nat) (w : Mundo κ) : Accion κ → Option (Mundo κ)
  | .opcion k opcion =>
    if (w.ses k).fase = .menu then some (w.con k ((w.ses k).elige opcion)) else none
  | .atiende k costo =>
    match w.servidor, (w.ses k).canal with
    | .ok s, .peticion t =>
      if 10 ≤ costo ∧ costo ≤ 100 then
        match atender flotante N s costo (t.take 1024) with
        | .ok (s', r) => some (w.respondido N s s' costo k r)
        | .error e => some { w with servidor := .error e }
      else none
    | _, _ => none
  | .recibe k =>
    match (w.ses k).canal with
    | .respuesta t => some (w.con k ((w.ses k).recibe t))
    | _ => none
  | .termina k =>
    if (w.ses k).fase = .viajando then some (w.con k (w.ses k).termina) else none

end Step

/-! ## Invariant -/

/-- The car granted to the client, until its `viaje_terminado` has been handled. -/
def Sesion.auto (c : Sesion) : Option Nat := if c.devuelto then none else c.concedido.join

/-- What holds of a client in each phase: texts on the way, `placas`, and the ghosts. -/
def Sesion.Bien (N : Nat) (c : Sesion) : Prop :=
  match c.fase with
  | .menu => c.canal = .nada ∧ c.concedido = none ∧ c.devuelto = false
  | .esperaViaje =>
    c.devuelto = false ∧
    ((c.canal = .peticion peticionViaje ∧ c.concedido = none) ∨
      ∃ i costo, c.canal = .respuesta (respuestaViaje costo i) ∧ c.concedido = some i ∧
        costo ≤ 100 ∧ ∀ j, i = some j → j < N)
  | .viajando =>
    c.canal = .nada ∧ c.devuelto = false ∧
    ∃ i : Nat, c.concedido = some (some i) ∧ c.memoria.placas = i ∧ i < N
  | .esperaFin =>
    ∃ i : Nat, c.concedido = some (some i) ∧ c.memoria.placas = i ∧ i < N ∧
      ((c.canal = .peticion (peticionTerminado i) ∧ c.devuelto = false) ∨
        (c.canal = .respuesta viajeTerminado ∧ c.devuelto = true))
  | .esperaEstado =>
    c.concedido = none ∧ c.devuelto = false ∧
    (c.canal = .peticion peticionEstado ∨ ∃ s, c.canal = .respuesta (obtener_estado s))
  | .rechazado => c.canal = .nada ∧ c.concedido = some none ∧ c.devuelto = false
  | .salio =>
    c.canal = .nada ∧ ((c.concedido = none ∧ c.devuelto = false) ∨
      ∃ i, c.concedido = some (some i) ∧ c.devuelto = true)
  | .indefinido => False

/-- The flags of the server and the cars the clients hold. -/
def pool (s : Servidor) (ses : κ → Sesion) : Pool Nat κ where
  free := fun i => (s.autos_disponibles[i]?).getD true
  held := fun k => (ses k).auto

structure Acuerdo (N : Nat) (s : Servidor) (w : Mundo κ) : Prop where
  servidor : w.servidor = .ok s
  longitud : s.autos_disponibles.length = N
  sesiones : ∀ k, (w.ses k).Bien N
  autos : (pool s w.ses).Lent

/-! ## Lemmas -/

theorem snprintf_take (t : Text) : (snprintf 255 t).take 1024 = snprintf 255 t := by
  rw [snprintf, List.take_take]
  rfl

theorem Sesion.Bien.elige (N : Nat) (c : Sesion) (opcion : Int) (hc : c.Bien N)
    (h : c.fase = .menu) : (c.elige opcion).Bien N := by
  rw [Sesion.Bien, h] at hc
  obtain ⟨-, h2, h3⟩ := hc
  unfold Sesion.elige elegir
  split_ifs
  · exact ⟨h3, .inl ⟨rfl, h2⟩⟩
  · exact ⟨h2, h3, .inl rfl⟩
  · exact ⟨rfl, .inl ⟨h2, h3⟩⟩
  · exact ⟨rfl, h2, h3⟩

theorem Sesion.Bien.termina (N : Nat) (c : Sesion) (hc : c.Bien N) (h : c.fase = .viajando) :
    c.termina.Bien N := by
  rw [Sesion.Bien, h] at hc
  obtain ⟨-, h2, i, h3, h4, h5⟩ := hc
  refine ⟨i, h3, h4, h5, .inl ⟨?_, h2⟩⟩
  simp only [Sesion.termina, h4]

/-- A request on its way is one of the three, sent in its own phase. -/
theorem Sesion.Bien.peticion (N : Nat) (c : Sesion) (t : Text) (hc : c.Bien N)
    (h : c.canal = .peticion t) :
    (c.fase = .esperaViaje ∧ t = peticionViaje ∧ c.concedido = none ∧ c.devuelto = false) ∨
    (c.fase = .esperaEstado ∧ t = peticionEstado ∧ c.concedido = none ∧ c.devuelto = false) ∨
    (c.fase = .esperaFin ∧ ∃ i : Nat, t = peticionTerminado i ∧ c.concedido = some (some i) ∧
      c.memoria.placas = i ∧ i < N ∧ c.devuelto = false) := by
  unfold Sesion.Bien at hc
  rw [h] at hc
  split at hc <;> simp_all
  obtain ⟨i, h1, h2, h3, h4, h5⟩ := hc
  exact ⟨i, h4, h1, h2, h3, h5⟩

/-- A reply on its way answers the request of the phase. -/
theorem Sesion.Bien.respuesta (N : Nat) (c : Sesion) (t : Text) (hc : c.Bien N)
    (h : c.canal = .respuesta t) :
    (c.fase = .esperaViaje ∧ c.devuelto = false ∧ ∃ i costo, t = respuestaViaje costo i ∧
      c.concedido = some i ∧ costo ≤ 100 ∧ ∀ j, i = some j → j < N) ∨
    (c.fase = .esperaEstado ∧ (∃ s, t = obtener_estado s) ∧ c.concedido = none ∧
      c.devuelto = false) ∨
    (c.fase = .esperaFin ∧ t = viajeTerminado ∧ c.devuelto = true ∧
      ∃ i, c.concedido = some (some i)) := by
  unfold Sesion.Bien at hc
  rw [h] at hc
  split at hc <;> simp_all
  obtain ⟨i, h1, -, -, h2, h3⟩ := hc
  exact ⟨h2, h3, i, h1⟩

theorem Sesion.Bien.recibe (N : Nat) (hN : N ≤ 2 ^ 31) (c : Sesion) (t : Text) (hc : c.Bien N)
    (h : c.canal = .respuesta t) : (c.recibe t).Bien N := by
  unfold Sesion.recibe
  obtain ⟨hf, h1, i, costo, rfl, h2, h3, h4⟩ | ⟨hf, ⟨s, rfl⟩, h1, h2⟩ | ⟨hf, rfl, h1, i, h2⟩ :=
    hc.respuesta N c t h
  · rw [hf]
    cases i with
    | some i =>
      have hi : i < N := h4 i rfl
      rw [recibir_concedido _ costo i h3 (by omega)]
      exact ⟨rfl, h1, i, h2, rfl, hi⟩
    | none =>
      rw [recibir_rechazado]
      exact ⟨rfl, h2, h1⟩
  · rw [hf, Sesion.Bien, recibir_ultima _ _ _ (.inr rfl) (p_notMem_obtener_estado s)]
    exact ⟨rfl, .inl ⟨h1, h2⟩⟩
  · rw [hf, Sesion.Bien, recibir_ultima _ _ _ (.inl rfl) (by decide)]
    exact ⟨rfl, .inr ⟨i, h2, h1⟩⟩

theorem free_set (autos : List Bool) (i : Nat) (b : Bool) (hi : i < autos.length) :
    (fun j => ((autos.set i b)[j]?).getD true)
      = Function.update (fun j => (autos[j]?).getD true) i b := by
  funext j
  by_cases hj : j = i
  · subst hj
    simp [hi]
  · have hij : i ≠ j := fun h => hj h.symm
    simp [hj, hij]

section Steps

variable [DecidableEq κ]

theorem held_update (ses : κ → Sesion) (k : κ) (c : Sesion) :
    (fun l => (Function.update ses k c l).auto)
      = Function.update (fun l => (ses l).auto) k c.auto := by
  funext l
  by_cases hl : l = k
  · subst hl
    simp
  · simp [hl]

/-- A step that leaves the cars alone. -/
theorem pool_update (s t : Servidor) (ses : κ → Sesion) (k : κ) (c : Sesion)
    (ht : t.autos_disponibles = s.autos_disponibles) (hc : c.auto = (ses k).auto) :
    pool t (Function.update ses k c) = pool s ses := by
  rw [pool, pool, held_update, hc, Function.update_eq_self, ht]

theorem pool_grant (s t : Servidor) (ses : κ → Sesion) (k : κ) (c : Sesion) (i : Nat)
    (hi : i < s.autos_disponibles.length)
    (ht : t.autos_disponibles = s.autos_disponibles.set i false) (hc : c.auto = some i) :
    pool t (Function.update ses k c) = (pool s ses).grant k i := by
  rw [pool, held_update, hc, ht, free_set _ i false hi]
  rfl

theorem pool_release (s t : Servidor) (ses : κ → Sesion) (k : κ) (c : Sesion) (i : Nat)
    (hi : i < s.autos_disponibles.length)
    (ht : t.autos_disponibles = s.autos_disponibles.set i true) (hc : c.auto = none) :
    pool t (Function.update ses k c) = (pool s ses).release k i := by
  rw [pool, held_update, hc, ht, free_set _ i true hi]
  rfl

/-- One client moves on by itself. -/
theorem Acuerdo.con (N : Nat) (s : Servidor) (w : Mundo κ) (hw : Acuerdo N s w) (k : κ)
    (c : Sesion) (hc : c.Bien N) (hauto : c.auto = (w.ses k).auto) :
    Acuerdo N s (w.con k c) := by
  refine ⟨hw.servidor, hw.longitud, fun l => ?_, ?_⟩
  · by_cases hl : l = k
    · subst hl
      simpa [Mundo.con] using hc
    · simpa [Mundo.con, hl] using hw.sesiones l
  · rw [Mundo.con, pool_update s s w.ses k c rfl hauto]
    exact hw.autos

/-- The server handles a request of client `k`: the flags move as the pool does. -/
theorem Acuerdo.responde (N : Nat) (s t : Servidor) (w : Mundo κ) (hw : Acuerdo N s w) (k : κ)
    (c : Sesion) (hlen : t.autos_disponibles.length = N) (hc : c.Bien N)
    (hpool : (pool s w.ses).Step (pool t (Function.update w.ses k c))) :
    Acuerdo N t { servidor := .ok t, ses := Function.update w.ses k c } := by
  refine ⟨rfl, hlen, fun l => ?_, hw.autos.step hpool⟩
  by_cases hl : l = k
  · subst hl
    simpa using hc
  · simpa [hl] using hw.sesiones l

variable (flotante : Text → Nat → Bool) (N : Nat)

theorem Acuerdo.atiende_viaje (s : Servidor) (w : Mundo κ) (hw : Acuerdo N s w) (k : κ)
    (costo : Nat) (hcosto : costo ≤ 100) (hf : (w.ses k).fase = .esperaViaje)
    (h1 : (w.ses k).concedido = none) (h2 : (w.ses k).devuelto = false) :
    ∃ s' r, atender flotante N s costo peticionViaje = .ok (s', r) ∧
      Acuerdo N s' (w.respondido N s s' costo k r) := by
  have hlen := hw.longitud
  have hrange : ∀ i ∈ List.range N, i < s.autos_disponibles.length :=
    fun i hi => hlen ▸ List.mem_range.mp hi
  have hauto : (w.ses k).auto = none := by simp [Sesion.auto, h1]
  rw [peticionViaje_eq, atender_viaje]
  rcases asignar_cases s costo (List.range N) hrange with ⟨i, hi, hfree, hok⟩ | ⟨-, hok⟩
  · refine ⟨_, _, solicitar_viaje_eq N s _ costo _ hok, ?_⟩
    refine hw.responde N s _ w k _ (by simp [conceder, hlen]) ?_ ?_
    · simp only [Sesion.anota, hf, hok, Sesion.Bien]
      refine ⟨h2, .inr ⟨some i, costo, rfl, rfl, hcosto, ?_⟩⟩
      rintro j ⟨⟩
      exact List.mem_range.mp hi
    · rw [pool_grant s _ w.ses k _ i (hrange i hi) rfl
        (by simp [Sesion.auto, Sesion.anota, hf, hok, h2, Except.toOption])]
      exact .grant k i hauto (by simp [pool, hfree])
  · refine ⟨_, _, solicitar_viaje_eq N s _ costo _ hok, ?_⟩
    refine hw.responde N s s w k _ hlen ?_ ?_
    · simp only [Sesion.anota, hf, hok, Sesion.Bien]
      refine ⟨h2, .inr ⟨none, costo, rfl, rfl, hcosto, ?_⟩⟩
      rintro j ⟨⟩
    · rw [pool_update s s w.ses k _ rfl]
      · exact .idle
      · rw [hauto]
        simp [Sesion.auto, Sesion.anota, hf, hok, Except.toOption]

theorem Acuerdo.atiende_estado (s : Servidor) (w : Mundo κ) (hw : Acuerdo N s w) (k : κ)
    (costo : Nat) (hf : (w.ses k).fase = .esperaEstado) (h1 : (w.ses k).concedido = none)
    (h2 : (w.ses k).devuelto = false) :
    ∃ s' r, atender flotante N s costo peticionEstado = .ok (s', r) ∧
      Acuerdo N s' (w.respondido N s s' costo k r) := by
  rw [peticionEstado_eq, atender_estado]
  refine ⟨_, _, rfl, ?_⟩
  refine hw.responde N s s w k _ hw.longitud ?_ ?_
  · simp only [Sesion.anota, hf, Sesion.Bien]
    exact ⟨h1, h2, .inr ⟨s, rfl⟩⟩
  · rw [pool_update s s w.ses k _ rfl]
    · exact .idle
    · simp [Sesion.auto, Sesion.anota, hf]

theorem Acuerdo.atiende_viaje_terminado (hN : N ≤ 2 ^ 31) (s : Servidor) (w : Mundo κ)
    (hw : Acuerdo N s w) (k : κ) (costo i : Nat) (hi : i < N)
    (hf : (w.ses k).fase = .esperaFin) (h1 : (w.ses k).concedido = some (some i))
    (h2 : (w.ses k).memoria.placas = i) (h3 : (w.ses k).devuelto = false) :
    ∃ s' r, atender flotante N s costo (peticionTerminado i) = .ok (s', r) ∧
      Acuerdo N s' (w.respondido N s s' costo k r) := by
  have hlen := hw.longitud
  rw [peticionTerminado_eq i (by omega), atender_viaje_terminado, terminarEntero_eq N i s hlen hi]
  refine ⟨_, _, rfl, ?_⟩
  refine hw.responde N s _ w k _ (by simp [hlen]) ?_ ?_
  · simp only [Sesion.anota, hf, Sesion.Bien]
    exact ⟨i, h1, h2, hi, .inr (by simp)⟩
  · rw [pool_release s _ w.ses k _ i (hlen ▸ hi) rfl (by simp [Sesion.auto, Sesion.anota, hf])]
    exact .release k i (by simp [pool, Sesion.auto, h1, h3])

/-- The server survives every request a client sends and leaves all in agreement. -/
theorem Acuerdo.atiende (hN : N ≤ 2 ^ 31) (s : Servidor) (w : Mundo κ) (hw : Acuerdo N s w)
    (k : κ) (costo : Nat) (hcosto : costo ≤ 100) (t : Text)
    (h : (w.ses k).canal = .peticion t) :
    ∃ s' r, atender flotante N s costo (t.take 1024) = .ok (s', r) ∧
      Acuerdo N s' (w.respondido N s s' costo k r) := by
  obtain ⟨hf, rfl, h1, h2⟩ | ⟨hf, rfl, h1, h2⟩ | ⟨hf, i, rfl, h1, h2, hi, h3⟩ :=
    (hw.sesiones k).peticion N _ t h
  · rw [show peticionViaje.take 1024 = peticionViaje from snprintf_take _]
    exact hw.atiende_viaje flotante N s w k costo hcosto hf h1 h2
  · rw [show peticionEstado.take 1024 = peticionEstado from snprintf_take _]
    exact hw.atiende_estado flotante N s w k costo hf h1 h2
  · rw [show (peticionTerminado i).take 1024 = peticionTerminado i from snprintf_take _]
    exact hw.atiende_viaje_terminado flotante N hN s w k costo i hi hf h1 h2 h3

theorem Acuerdo.paso (hN : N ≤ 2 ^ 31) (s : Servidor) (w w' : Mundo κ) (a : Accion κ)
    (hw : Acuerdo N s w) (h : paso flotante N w a = some w') : ∃ t, Acuerdo N t w' := by
  cases a with
  | opcion k opcion =>
    simp only [UberTcp.paso] at h
    split at h <;> cases h
    next hf => exact ⟨s, hw.con N s w k _ ((hw.sesiones k).elige N _ opcion hf) rfl⟩
  | atiende k costo =>
    simp only [UberTcp.paso, hw.servidor] at h
    split at h
    next t hs hcanal =>
      cases hs
      split at h
      next hcosto =>
        obtain ⟨s', r, hok, hw'⟩ := hw.atiende flotante N hN s w k costo hcosto.2 t hcanal
        rw [hok] at h
        cases h
        exact ⟨s', hw'⟩
      next => cases h
    next => cases h
  | recibe k =>
    simp only [UberTcp.paso] at h
    split at h <;> cases h
    next t hcanal => exact ⟨s, hw.con N s w k _ ((hw.sesiones k).recibe N hN _ t hcanal) rfl⟩
  | termina k =>
    simp only [UberTcp.paso] at h
    split at h <;> cases h
    next hf => exact ⟨s, hw.con N s w k _ ((hw.sesiones k).termina N _ hf) rfl⟩

omit [DecidableEq κ] in
theorem acuerdo_mundo0 : Acuerdo N (servidor0 N) (mundo0 N : Mundo κ) := by
  refine ⟨rfl, by simp [servidor0], fun _ => ⟨rfl, rfl, rfl⟩, ?_⟩
  have hidle : pool (servidor0 N) (mundo0 N : Mundo κ).ses = Pool.idle := by
    rw [pool, Pool.idle]
    congr 1
    funext i
    simp only [servidor0, List.getElem?_replicate]
    split <;> rfl
  rw [hidle]
  exact Pool.lent_idle

theorem acuerdo_alcanzable (hN : N ≤ 2 ^ 31) (w : Mundo κ)
    (hw : Runs.Reachable (UberTcp.paso flotante N) (mundo0 N) w) : ∃ s, Acuerdo N s w := by
  refine hw.invariant (fun w => ∃ s, Acuerdo N s w) ⟨_, acuerdo_mundo0 N⟩ ?_
  rintro v a v' ⟨s, hv⟩ hstep
  exact hv.paso flotante N hN s v v' a hstep

end Steps

/-! ## Agreement -/

/-- The session is over: the client was turned away, or made its last request. -/
def Sesion.terminada (c : Sesion) : Prop := c.fase = .rechazado ∨ c.fase = .salio

/-- The server is up and the sessions are in agreement with its list. -/
structure Cuadra (N : Nat) (s : Servidor) (w : Mundo κ) : Prop where
  servidor : w.servidor = .ok s
  longitud : s.autos_disponibles.length = N
  /-- A traveller has extracted the index it was granted, -/
  placas : ∀ k, (w.ses k).fase = .viajando ∨ (w.ses k).fase = .esperaFin →
    ∃ i : Nat, (w.ses k).concedido = some (some i) ∧ (w.ses k).memoria.placas = i
  /-- and it is the one its `viaje_terminado` carries. -/
  terminado : ∀ k t, (w.ses k).fase = .esperaFin → (w.ses k).canal = .peticion t →
    ∃ i, (w.ses k).concedido = some (some i) ∧ loads t = some (terminadoDict i)
  /-- A refused client is about to read the refusal, or has left on it. -/
  rechazo : ∀ k, (w.ses k).concedido = some none →
    ((w.ses k).fase = .esperaViaje ∧ (w.ses k).canal = .respuesta sinConductores) ∨
    (w.ses k).fase = .rechazado
  /-- The cars marked `False` are those granted whose `viaje_terminado` was not handled, -/
  autos : ∀ i : Nat, s.autos_disponibles[i]? = some false ↔
    ∃ k, (w.ses k).concedido = some (some i) ∧ (w.ses k).devuelto = false
  /-- and each is held by one client. -/
  unico : ∀ k l i, (w.ses k).concedido = some (some i) → (w.ses k).devuelto = false →
    (w.ses l).concedido = some (some i) → (w.ses l).devuelto = false → k = l
  final : (∀ k, (w.ses k).terminada) → ∀ b ∈ s.autos_disponibles, b = true

theorem Sesion.auto_eq_some (c : Sesion) (i : Nat) :
    c.auto = some i ↔ c.concedido = some (some i) ∧ c.devuelto = false := by
  unfold Sesion.auto
  cases c.devuelto <;> simp [Option.join_eq_some_iff]

theorem Sesion.Bien.terminada (N : Nat) (c : Sesion) (hc : c.Bien N) (h : c.terminada) :
    c.auto = none := by
  unfold Sesion.Bien at hc
  rcases h with h | h <;> rw [h] at hc
  · simp [Sesion.auto, hc.2.1]
  · obtain ⟨-, ⟨h1, -⟩ | ⟨i, -, h1⟩⟩ := hc <;> simp [Sesion.auto, h1]

theorem Acuerdo.cuadra (N : Nat) (hN : N ≤ 2 ^ 31) (s : Servidor) (w : Mundo κ)
    (hw : Acuerdo N s w) : Cuadra N s w := by
  have hautos : ∀ i : Nat, s.autos_disponibles[i]? = some false ↔
      ∃ k, (w.ses k).concedido = some (some i) ∧ (w.ses k).devuelto = false := by
    intro i
    have hb := hw.autos.busy_iff i
    simp only [pool, Sesion.auto_eq_some] at hb
    rw [← hb]
    cases s.autos_disponibles[i]? <;> simp
  refine ⟨hw.servidor, hw.longitud, ?_, ?_, ?_, hautos, ?_, ?_⟩
  · intro k hf
    have hk := hw.sesiones k
    unfold Sesion.Bien at hk
    rcases hf with hf | hf <;> rw [hf] at hk
    · obtain ⟨-, -, i, h1, h2, -⟩ := hk
      exact ⟨i, h1, h2⟩
    · obtain ⟨i, h1, h2, -⟩ := hk
      exact ⟨i, h1, h2⟩
  · intro k t hf hcanal
    obtain ⟨hf', -⟩ | ⟨hf', -⟩ | ⟨-, i, rfl, h1, -, hi, -⟩ :=
      (hw.sesiones k).peticion N _ t hcanal
    · rw [hf'] at hf
      cases hf
    · rw [hf'] at hf
      cases hf
    · refine ⟨i, h1, ?_⟩
      rw [peticionTerminado_eq i (by omega), loads_viaje_terminado]
  · intro k hr
    have hk := hw.sesiones k
    unfold Sesion.Bien at hk
    rw [hr] at hk
    split at hk <;> simp_all
    obtain ⟨-, costo, h1, -⟩ := hk
    exact h1
  · intro k l i h1 h2 h3 h4
    refine hw.autos.holder_unique k l i ?_ ?_
    · exact (Sesion.auto_eq_some _ i).mpr ⟨h1, h2⟩
    · exact (Sesion.auto_eq_some _ i).mpr ⟨h3, h4⟩
  · intro hfin b hb
    by_contra hne
    obtain rfl : b = false := by simpa using hne
    obtain ⟨i, hi, hget⟩ := List.getElem_of_mem hb
    obtain ⟨k, h1, h2⟩ := (hautos i).mp (by rw [List.getElem?_eq_getElem hi, hget])
    have hnone := (hw.sesiones k).terminada N _ (hfin k)
    rw [(Sesion.auto_eq_some _ i).mpr ⟨h1, h2⟩] at hnone
    cases hnone

/-! ## Top theorems -/

/-- **The cars and the sessions agree** in every reachable state, for any number of cars
whose indices fit an `int` and any number of clients. -/
theorem autos_cuadran [DecidableEq κ] (flotante : Text → Nat → Bool) (N : Nat) (hN : N ≤ 2 ^ 31)
    (w : Mundo κ) (hw : Runs.Reachable (paso flotante N) (mundo0 N) w) : ∃ s, Cuadra N s w := by
  obtain ⟨s, hs⟩ := acuerdo_alcanzable flotante N hN w hw
  exact ⟨s, hs.cuadra N hN s w⟩

/-- One car and two clients: the first is given car 0, the second is refused, and when both
have left the car is free again. -/
theorem autos_cuadran_dos : ∃ w : Mundo (Fin 2),
    (w.ses 0).concedido = some (some 0) ∧ (w.ses 1).fase = .rechazado ∧ (∀ k, (w.ses k).terminada) ∧
    ∃ s, Cuadra 1 s w ∧ s.autos_disponibles = [true] := by
  have hrun : (Runs.run (paso (fun _ _ => false) 1) (mundo0 1 : Mundo (Fin 2))
      [.opcion 0 1, .opcion 1 1, .atiende 0 50, .recibe 0, .atiende 1 70, .termina 0, .recibe 1,
        .atiende 0 10, .recibe 0]).any (fun w => (w.ses 0).concedido = some (some 0) ∧
          (w.ses 0).fase = .salio ∧ (w.ses 1).fase = .rechazado) = true := by decide +kernel
  obtain ⟨w, hrun, hw⟩ := (Option.any_eq_true _ _).mp hrun
  obtain ⟨hgrant, hleft, hrefused⟩ := of_decide_eq_true hw
  have hover : ∀ k, (w.ses k).terminada := by
    intro k
    match k with
    | 0 => exact .inr hleft
    | 1 => exact .inl hrefused
  obtain ⟨s, hs⟩ := autos_cuadran _ 1 (by decide) w ⟨_, hrun⟩
  refine ⟨w, hgrant, hrefused, hover, s, hs, ?_⟩
  obtain ⟨b, hb⟩ := List.length_eq_one_iff.mp hs.longitud
  rw [hb, hs.final hover b (hb ▸ List.mem_singleton_self b)]

end UberTcp
