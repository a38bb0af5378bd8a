import SistemasDistribuidos.Lib.Ledger
import SistemasDistribuidos.Lib.Serve
import SistemasDistribuidos.UberTcp.Mensajes

/-!
# Well-formed requests to `Practica01/servidorTCPUber.py`

Texts that are `estado`, `viaje` or `viaje_terminado` requests (any integer `placas`,
forged or repeated ones too), in any order and from any clients, with whatever
`random.randint(10, 100)` returns.  What was granted is read off the replies, as a client
reads them (`concesion`).

No request raises, and after any of them the flags, the two counters and the history of
grants agree (`contrato_cumplido`).
-/

namespace UberTcp

open CText Json Ledger Serve

/-! ## Requests -/

inductive Peticion where
  | estado
  | viaje
  | viaje_terminado (placas : Int)
  deriving DecidableEq, Repr

/-- The request a text is, if it is a well-formed one. -/
def peticion (data : Text) : Option Peticion :=
  match loads data with
  | some (.dict solicitud) =>
    match lookup solicitud (str "tipo".toList) with
    | some tipo =>
      if esStr tipo "estado".toList then some .estado
      else if esStr tipo "viaje".toList then some .viaje
      else if esStr tipo "viaje_terminado".toList then
        match (lookup solicitud (str "placas".toList)).getD (.int (-1)) with
        | .int placas => some (.viaje_terminado placas)
        | _ => none
      else none
    | none => none
  | _ => none

/-- A text received, with what `random.randint(10, 100)` returns while it is handled. -/
structure Mensaje where
  data : Text
  costo_viaje : Nat

def Mensaje.Valido (m : Mensaje) : Prop :=
  (peticion m.data).isSome = true ∧ 10 ≤ m.costo_viaje ∧ m.costo_viaje ≤ 100

/-- The process, `none` once an exception has ended it. -/
def proceso (flotante : Text → Nat → Bool) (NUM_AUTOS : Nat) :
    Option Servidor → Mensaje → Option Servidor × Option Text :=
  orDead fun s m => (atender flotante NUM_AUTOS s m.costo_viaje m.data).toOption

abbrev Registro := Serve.Entry (Option Servidor) Mensaje (Option Text)

/-! ## History -/

/-- `placas` and `costo_viaje` in the reply to a `viaje`. -/
def concesion (x : Registro) : Option (Int × Int) :=
  match peticion x.call.data, x.reply.bind loads with
  | some .viaje, some (.dict respuesta) =>
    match lookup respuesta (str "placas".toList), lookup respuesta (str "costo_viaje".toList) with
    | some (.int placas), some (.int costo_viaje) => some (placas, costo_viaje)
    | _, _ => none
  | _, _ => none

/-- `.grant i`: car `i` was granted.  `.release i`: a `viaje_terminado` that names `i`. -/
def movimiento (x : Registro) : Move Int :=
  match concesion x, peticion x.call.data with
  | some (placas, _), _ => .grant placas
  | none, some (.viaje_terminado placas) => .release placas
  | none, _ => .idle

/-- The state and the history of requests and replies agree. -/
structure Contrato (NUM_AUTOS : Nat) (s : Servidor) (log : List Registro) : Prop where
  autos : s.autos_disponibles.length = NUM_AUTOS
  viajes : s.viajes_realizados = (log.filterMap concesion).length
  ganancia : (s.ganancia_total : Int) = ((log.filterMap concesion).map Prod.snd).sum
  minimo : 10 * s.viajes_realizados ≤ s.ganancia_total
  maximo : s.ganancia_total ≤ 100 * s.viajes_realizados
  /-- A `viaje` is refused exactly when all cars are taken, and then changes nothing. -/
  rechazo : ∀ x ∈ log, peticion x.call.data = some .viaje → ∃ t, x.before = some t ∧
    (concesion x = none ↔ ∀ b ∈ t.autos_disponibles, b = false) ∧
    (concesion x = none → x.after = some t)
  /-- Between two grants of a car there is a `viaje_terminado` that names it. -/
  alterna : ∀ pre x mid y post placas costo costo', log = pre ++ x :: (mid ++ y :: post) →
    concesion x = some (placas, costo) → concesion y = some (placas, costo') →
      ∃ z ∈ mid, peticion z.call.data = some (.viaje_terminado placas)
  /-- `placas` out of range change nothing. -/
  fuera : ∀ x ∈ log, ∀ placas, peticion x.call.data = some (.viaje_terminado placas) →
    ¬ (0 ≤ placas ∧ placas < NUM_AUTOS) → x.after = x.before

/-! ## Lemmas -/

section Handlers

variable (flotante : Text → Nat → Bool) (N : Nat) (s : Servidor) (costo : Nat)

/-- A well-formed request is dispatched to its handler. -/
theorem atender_of_peticion (data : Text) (p : Peticion) (h : peticion data = some p) :
    atender flotante N s costo data =
      match p with
      | .estado => .ok (s, obtener_estado s)
      | .viaje => solicitar_viaje N s costo
      | .viaje_terminado placas => terminarEntero N s placas := by
  unfold peticion at h
  unfold atender
  split at h
  next solicitud hl =>
    rw [hl]
    dsimp only
    split at h
    next tipo ht =>
      rw [ht]
      dsimp only
      split at h
      next he =>
        rw [if_pos he]
        cases h
        rfl
      next he =>
        rw [if_neg he]
        split at h
        next hv =>
          rw [if_pos hv]
          cases h
          rfl
        next hv =>
          rw [if_neg hv]
          split at h
          next hf =>
            rw [if_pos hf]
            split at h
            next placas hp =>
              rw [hp]
              cases h
              rfl
            next => cases h
          next => cases h
    next => cases h
  next => cases h

theorem loads_respuestaViaje_some (i : Nat) :
    loads (respuestaViaje costo (some i)) = some (.dict [(str "placas".toList, .int i),
      (str "costo_viaje".toList, .int costo)]) := by
  refine loads_dumps _ _ ?_
  intro kv hkv
  rcases List.mem_cons.mp hkv with rfl | hkv
  · exact ⟨plain_of_all _ rfl, trivial⟩
  · rw [List.mem_singleton.mp hkv]
    exact ⟨plain_of_all _ rfl, trivial⟩

theorem loads_respuestaViaje_none :
    loads (respuestaViaje costo none) =
      some (.dict [(str "error".toList, .str (str "No hay conductores".toList))]) := by
  refine loads_dumps _ _ ?_
  intro kv hkv
  rw [List.mem_singleton.mp hkv]
  exact ⟨plain_of_all _ rfl, plain_of_all _ rfl⟩

/-- Everything a well-formed request can do. -/
theorem proceso_cases (hN : s.autos_disponibles.length = N) (m : Mensaje)
    (hm : (peticion m.data).isSome = true) :
    (∃ i, i < N ∧ s.autos_disponibles[i]? = some true ∧ peticion m.data = some .viaje ∧
      proceso flotante N (some s) m = (some (conceder s m.costo_viaje i),
        some (respuestaViaje m.costo_viaje (some i)))) ∨
    ((∀ i, i < N → s.autos_disponibles[i]? = some false) ∧ peticion m.data = some .viaje ∧
      proceso flotante N (some s) m = (some s, some (respuestaViaje m.costo_viaje none))) ∨
    (∃ i, i < N ∧ peticion m.data = some (.viaje_terminado i) ∧
      proceso flotante N (some s) m =
        (some { s with autos_disponibles := s.autos_disponibles.set i true }, some viajeTerminado)) ∨
    (∃ placas, ¬ (0 ≤ placas ∧ placas < (N : Int)) ∧ peticion m.data = some (.viaje_terminado placas) ∧
      proceso flotante N (some s) m = (some s, some placasInvalidas)) ∨
    (peticion m.data = some .estado ∧
      proceso flotante N (some s) m = (some s, some (obtener_estado s))) := by
  obtain ⟨p, hp⟩ := Option.isSome_iff_exists.mp hm
  have hat := atender_of_peticion flotante N s m.costo_viaje m.data p hp
  have hok : ∀ t r, atender flotante N s m.costo_viaje m.data = .ok (t, r) →
      proceso flotante N (some s) m = (some t, some r) := by
    intro t r h
    exact orDead_some _ s t m r (by rw [h]; rfl)
  cases p with
  | estado => exact .inr (.inr (.inr (.inr ⟨hp, hok _ _ hat⟩)))
  | viaje =>
    rcases solicitar_viaje_cases N s m.costo_viaje hN with ⟨i, hi, hfree, hsol⟩ | ⟨hall, hsol⟩
    · exact .inl ⟨i, hi, hfree, hp, hok _ _ (hat.trans hsol)⟩
    · exact .inr (.inl ⟨hall, hp, hok _ _ (hat.trans hsol)⟩)
  | viaje_terminado placas =>
    by_cases h : 0 ≤ placas ∧ placas < (N : Int)
    · obtain ⟨i, rfl⟩ := Int.eq_ofNat_of_zero_le h.1
      have hi : i < N := by omega
      exact .inr (.inr (.inl ⟨i, hi, hp, hok _ _ (hat.trans (terminarEntero_eq N i s hN hi))⟩))
    · exact .inr (.inr (.inr (.inl ⟨placas, h, hp, hok _ _ (hat.trans (terminarEntero_fuera N s placas h))⟩)))

end Handlers

/-- The reply to a granted `viaje` names the car and the fare. -/
theorem concesion_some (x : Registro) (costo i : Nat) (hp : peticion x.call.data = some .viaje)
    (hr : x.reply = some (respuestaViaje costo (some i))) : concesion x = some ((i : Int), (costo : Int)) := by
  rw [concesion, hp, hr, Option.bind_some, loads_respuestaViaje_some]
  rfl

theorem concesion_none (x : Registro) (costo : Nat) (hp : peticion x.call.data = some .viaje)
    (hr : x.reply = some (respuestaViaje costo none)) : concesion x = none := by
  rw [concesion, hp, hr, Option.bind_some, loads_respuestaViaje_none]
  rfl

/-- Only a `viaje` is granted anything. -/
theorem concesion_of_ne (x : Registro) (hp : peticion x.call.data ≠ some .viaje) : concesion x = none := by
  unfold concesion
  split
  next h _ => exact absurd h hp
  next => rfl

theorem movimiento_grant (x : Registro) (placas costo : Int) (h : concesion x = some (placas, costo)) :
    movimiento x = .grant placas := by
  rw [movimiento, h]

theorem movimiento_release (x : Registro) (placas : Int)
    (hp : peticion x.call.data = some (.viaje_terminado placas)) : movimiento x = .release placas := by
  rw [movimiento, concesion_of_ne x (by rw [hp]; simp), hp]

theorem movimiento_eq_release (x : Registro) (placas : Int) (h : movimiento x = .release placas) :
    peticion x.call.data = some (.viaje_terminado placas) := by
  unfold movimiento at h
  split at h
  next => cases h
  next hp =>
    cases h
    exact hp
  next => cases h

theorem movimiento_idle (x : Registro) (hc : concesion x = none)
    (hp : ∀ placas, peticion x.call.data ≠ some (.viaje_terminado placas)) : movimiento x = .idle := by
  unfold movimiento
  split
  next h => rw [hc] at h; cases h
  next h => exact absurd h (hp _)
  next => rfl

/-! ## One request against the history -/

/-- What the clauses `rechazo` and `fuera` say of one entry. -/
structure Entrada (N : Nat) (x : Registro) : Prop where
  rechazo : peticion x.call.data = some .viaje → ∃ t, x.before = some t ∧
    (concesion x = none ↔ ∀ b ∈ t.autos_disponibles, b = false) ∧
    (concesion x = none → x.after = some t)
  fuera : ∀ placas, peticion x.call.data = some (.viaje_terminado placas) →
    ¬ (0 ≤ placas ∧ placas < N) → x.after = x.before

theorem Entrada.de_viaje {N : Nat} {x : Registro} (t : Servidor)
    (hp : peticion x.call.data = some .viaje) (hb : x.before = some t)
    (hiff : concesion x = none ↔ ∀ b ∈ t.autos_disponibles, b = false)
    (hsame : concesion x = none → x.after = some t) : Entrada N x := by
  refine ⟨fun _ => ⟨t, hb, hiff, hsame⟩, fun placas hp' => ?_⟩
  rw [hp] at hp'
  cases hp'

/-- An entry of another request that leaves the state, or names a car in range. -/
theorem Entrada.de_otra {N : Nat} {x : Registro} (p : Peticion) (hp : peticion x.call.data = some p)
    (hv : p ≠ .viaje)
    (h : x.after = x.before ∨ ∃ i : Nat, i < N ∧ p = .viaje_terminado i) : Entrada N x := by
  refine ⟨fun hp' => ?_, fun placas hp' hout => ?_⟩
  · rw [hp] at hp'
    exact absurd (Option.some.inj hp') hv
  · rcases h with h | ⟨i, hi, rfl⟩
    · exact h
    · rw [hp] at hp'
      cases hp'
      omega

/-- A car is free exactly when the history does not have it on a trip, and the counters are those of
the grants. -/
structure Sigue (N : Nat) (s : Servidor) (log : List Registro) : Prop where
  autos : s.autos_disponibles.length = N
  libre : ∀ i : Nat, i < N → s.autos_disponibles[i]? = some (!busy movimiento log (i : Int))
  viajes : s.viajes_realizados = (log.filterMap concesion).length
  ganancia : (s.ganancia_total : Int) = ((log.filterMap concesion).map Prod.snd).sum
  minimo : 10 * s.viajes_realizados ≤ s.ganancia_total
  maximo : s.ganancia_total ≤ 100 * s.viajes_realizados
  propio : Proper movimiento log
  entradas : ∀ x ∈ log, Entrada N x

theorem sigue_servidor0 (N : Nat) : Sigue N (servidor0 N) [] where
  autos := by simp [servidor0]
  libre := by
    intro i hi
    simp [servidor0, hi]
  viajes := rfl
  ganancia := rfl
  minimo := by simp [servidor0]
  maximo := by simp [servidor0]
  propio := throughout_nil _
  entradas := by simp

theorem all_false_iff (N : Nat) (s : Servidor) (hN : s.autos_disponibles.length = N) :
    (∀ b ∈ s.autos_disponibles, b = false) ↔ ∀ i, i < N → s.autos_disponibles[i]? = some false := by
  constructor
  · intro h i hi
    rw [List.getElem?_eq_getElem (hN ▸ hi), h _ (List.getElem_mem _)]
  · intro h b hb
    obtain ⟨i, hi, rfl⟩ := List.getElem_of_mem hb
    have := h i (hN ▸ hi)
    rw [List.getElem?_eq_getElem hi] at this
    exact Option.some.inj this

section Step

variable {N : Nat} {s : Servidor} {log : List Registro}

/-- An entry that grants nothing. -/
theorem Sigue.sinConcesion (h : Sigue N s log) (autos : List Bool) (x : Registro)
    (hc : concesion x = none) (hautos : autos.length = N)
    (hlibre : ∀ i : Nat, i < N →
      autos[i]? = some (!((mark (i : Int) (movimiento x)).getD (busy movimiento log (i : Int)))))
    (hx : Entrada N x) :
    Sigue N { s with autos_disponibles := autos } (log ++ [x]) where
  autos := hautos
  libre := fun i hi => by rw [hlibre i hi, busy_concat]
  viajes := by simpa [hc] using h.viajes
  ganancia := by simpa [hc] using h.ganancia
  minimo := h.minimo
  maximo := h.maximo
  propio := by
    refine h.propio.concat x fun i hi => ?_
    -- a grant would show in `concesion`
    unfold movimiento at hi
    rw [hc] at hi
    split at hi
    next hsome => cases hsome
    next => cases hi
    next => cases hi
  entradas := List.forall_mem_append.mpr ⟨h.entradas, List.forall_mem_singleton.mpr hx⟩

/-- An entry that grants car `i`. -/
theorem Sigue.conceder (h : Sigue N s log) (i costo : Nat) (hi : i < N)
    (hfree : s.autos_disponibles[i]? = some true) (hcosto : 10 ≤ costo ∧ costo ≤ 100) (x : Registro)
    (hc : concesion x = some ((i : Int), (costo : Int))) (hx : Entrada N x) :
    Sigue N (conceder s costo i) (log ++ [x]) := by
  have hm := movimiento_grant x _ _ hc
  refine ⟨by simp [UberTcp.conceder, h.autos], fun j hj => ?_, ?_, ?_, ?_, ?_, ?_, ?_⟩
  · rw [busy_concat, hm]
    by_cases hji : j = i
    · subst hji
      simp [UberTcp.conceder, mark, h.autos, hj]
    · have hij : (i : Int) ≠ j := by omega
      simp [UberTcp.conceder, mark, hij, List.getElem?_set_ne (Ne.symm hji), h.libre j hj]
  · simp [UberTcp.conceder, hc, h.viajes]
  · simp [UberTcp.conceder, hc, h.ganancia]
  · have := h.minimo
    simp only [UberTcp.conceder]
    omega
  · have := h.maximo
    simp only [UberTcp.conceder]
    omega
  · refine h.propio.concat x fun j hj => ?_
    rw [hm] at hj
    cases hj
    have := h.libre i hi
    rw [hfree] at this
    simpa using (Option.some.inj this).symm
  · exact List.forall_mem_append.mpr ⟨h.entradas, List.forall_mem_singleton.mpr hx⟩

/-- One request is handled, and the history goes on. -/
theorem Sigue.proceso (flotante : Text → Nat → Bool) (h : Sigue N s log) (m : Mensaje)
    (hm : m.Valido) :
    ∃ t, (proceso flotante N (some s) m).1 = some t ∧
      Sigue N t (log ++ [entry (UberTcp.proceso flotante N) (some s) m]) := by
  obtain ⟨i, hi, hfree, hp, hres⟩ | ⟨hall, hp, hres⟩ | ⟨i, hi, hp, hres⟩ | ⟨placas, hout, hp, hres⟩ |
    ⟨hp, hres⟩ := proceso_cases flotante N s h.autos m hm.1
  · have hc := concesion_some (entry (UberTcp.proceso flotante N) (some s) m) m.costo_viaje i hp (by
      rw [entry_reply, hres])
    refine ⟨_, congrArg Prod.fst hres, h.conceder i m.costo_viaje hi hfree hm.2 _ hc
      (.de_viaje s hp rfl ?_ (by simp [hc]))⟩
    rw [hc, all_false_iff N s h.autos]
    refine iff_of_false (by simp) fun hno => ?_
    rw [hno i hi] at hfree
    cases hfree
  · have hc := concesion_none (entry (UberTcp.proceso flotante N) (some s) m) m.costo_viaje hp (by
      rw [entry_reply, hres])
    have hidle := movimiento_idle _ hc (by simp [hp])
    refine ⟨_, congrArg Prod.fst hres, h.sinConcesion s.autos_disponibles _ hc h.autos (fun i hi => ?_)
      (.de_viaje s hp rfl ?_ fun _ => by rw [entry_after, hres])⟩
    · rw [hidle]
      exact h.libre i hi
    · rw [all_false_iff N s h.autos]
      exact iff_of_true hc hall
  · have hc := concesion_of_ne (entry (UberTcp.proceso flotante N) (some s) m) (by simp [hp])
    have hrel := movimiento_release (entry (UberTcp.proceso flotante N) (some s) m) i hp
    refine ⟨_, congrArg Prod.fst hres, h.sinConcesion _ _ hc (by simp [h.autos]) (fun j hj => ?_)
      (.de_otra _ hp (by simp) (.inr ⟨i, hi, rfl⟩))⟩
    rw [hrel]
    by_cases hji : j = i
    · subst hji
      simp [mark, h.autos, hj]
    · have hij : (i : Int) ≠ j := by omega
      simp [mark, hij, List.getElem?_set_ne (Ne.symm hji), h.libre j hj]
  · have hc := concesion_of_ne (entry (UberTcp.proceso flotante N) (some s) m) (by simp [hp])
    have hrel := movimiento_release (entry (UberTcp.proceso flotante N) (some s) m) placas hp
    refine ⟨_, congrArg Prod.fst hres, h.sinConcesion s.autos_disponibles _ hc h.autos (fun j hj => ?_)
      (.de_otra _ hp (by simp) (.inl (by rw [entry_after, hres, entry_before])))⟩
    -- no car has these `placas`
    have hne : placas ≠ (j : Int) := by omega
    rw [hrel, h.libre j hj]
    simp [mark, hne]
  · have hc := concesion_of_ne (entry (UberTcp.proceso flotante N) (some s) m) (by simp [hp])
    have hidle := movimiento_idle _ hc (by simp [hp])
    refine ⟨_, congrArg Prod.fst hres, h.sinConcesion s.autos_disponibles _ hc h.autos (fun j hj => ?_)
      (.de_otra _ hp (by simp) (.inl (by rw [entry_after, hres, entry_before])))⟩
    rw [hidle]
    exact h.libre j hj

theorem Sigue.contrato (h : Sigue N s log) : Contrato N s log where
  autos := h.autos
  viajes := h.viajes
  ganancia := h.ganancia
  minimo := h.minimo
  maximo := h.maximo
  rechazo := fun x hx => (h.entradas x hx).rechazo
  alterna := by
    intro pre x mid y post placas costo costo' hlog hx hy
    obtain ⟨z, hz, hrel⟩ := h.propio.release_between hlog (movimiento_grant x _ _ hx)
      (movimiento_grant y _ _ hy)
    exact ⟨z, hz, movimiento_eq_release z placas hrel⟩
  fuera := fun x hx => (h.entradas x hx).fuera

end Step

/-! ## Top theorems -/

/-- **Any well-formed requests are answered, and the state agrees with their history.** -/
theorem contrato_cumplido (flotante : Text → Nat → Bool) (NUM_AUTOS : Nat) (ms : List Mensaje)
    (hms : ∀ m ∈ ms, (peticion m.data).isSome = true ∧ 10 ≤ m.costo_viaje ∧ m.costo_viaje ≤ 100) :
    ∃ s, final (proceso flotante NUM_AUTOS) (some (servidor0 NUM_AUTOS)) ms = some s ∧
      Contrato NUM_AUTOS s (serve (proceso flotante NUM_AUTOS) (some (servidor0 NUM_AUTOS)) ms) := by
  have hlog : ∀ x ∈ serve (proceso flotante NUM_AUTOS) (some (servidor0 NUM_AUTOS)) ms, x.call.Valido :=
    fun x hx => hms x.call (call_mem_of_mem_serve _ _ _ x hx)
  have hinv := history_invariant (proceso flotante NUM_AUTOS)
    (fun os log => (∀ x ∈ log, x.call.Valido) → ∃ s, os = some s ∧ Sigue NUM_AUTOS s log)
    (some (servidor0 NUM_AUTOS)) [] (fun _ => ⟨_, rfl, sigue_servidor0 NUM_AUTOS⟩)
    (fun os log m ih hval => by
      obtain ⟨s, rfl, hs⟩ := ih fun x hx => hval x (List.mem_append_left _ hx)
      exact hs.proceso flotante m (hval (entry (proceso flotante NUM_AUTOS) (some s) m) (by simp)))
    ms hlog
  obtain ⟨s, hs, hsigue⟩ := hinv
  exact ⟨s, hs, hsigue.contrato⟩

/-- Two cars: a `viaje` at 37, a `viaje_terminado` of car 5 that nobody has, and `estado`. -/
theorem contrato_cumplido_tres :
    ∃ s, s.viajes_realizados ≤ s.ganancia_total ∧ s.autos_disponibles.length = 2 ∧
      final (proceso (fun _ _ => false) 2) (some (servidor0 2))
        [⟨dumps [("tipo".toList, .str "viaje".toList)], 37⟩,
          ⟨dumps [("tipo".toList, .str "viaje_terminado".toList), ("placas".toList, .int 5)], 10⟩,
          ⟨dumps [("tipo".toList, .str "estado".toList)], 10⟩] = some s := by
  have hviaje : peticion (dumps [("tipo".toList, .str "viaje".toList)]) = some .viaje := by
    rw [peticion, loads_tipo _ rfl]; rfl
  have hestado : peticion (dumps [("tipo".toList, .str "estado".toList)]) = some .estado := by
    rw [peticion, loads_tipo _ rfl]; rfl
  have hfin : peticion (dumps [("tipo".toList, .str "viaje_terminado".toList),
      ("placas".toList, .int 5)]) = some (.viaje_terminado 5) := by
    rw [peticion, loads_viaje_terminado]; rfl
  obtain ⟨s, hs, hc⟩ := contrato_cumplido (fun _ _ => false) 2
    [⟨dumps [("tipo".toList, .str "viaje".toList)], 37⟩,
      ⟨dumps [("tipo".toList, .str "viaje_terminado".toList), ("placas".toList, .int 5)], 10⟩,
      ⟨dumps [("tipo".toList, .str "estado".toList)], 10⟩] (by
    intro m hm
    simp only [List.mem_cons, List.not_mem_nil, or_false] at hm
    rcases hm with rfl | rfl | rfl
    · exact ⟨by rw [hviaje]; rfl, by decide⟩
    · exact ⟨by rw [hfin]; rfl, by decide⟩
    · exact ⟨by rw [hestado]; rfl, by decide⟩)
  exact ⟨s, by have := hc.minimo; omega, hc.autos, hs⟩

end UberTcp
