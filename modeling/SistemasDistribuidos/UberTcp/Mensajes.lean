import SistemasDistribuidos.UberTcp.Servidor

/-!
# Any text against `Practica01/servidorTCPUber.py`

One turn of the receiving loop for whatever text arrives.  Nothing between
`iniciar_servidor` and the handlers catches an exception, so one that is raised ends the
service.  `sobrevive_iff` lists the texts that are handled as they should: JSON objects
with a known `tipo` and, for a `viaje_terminado`, `placas` that are an integer, a float out
of range, or a boolean that changes nothing (`True` and `False` index the list as 1 and 0).
-/

namespace UberTcp

open CText Json

/-! ## Algorithm -/

/-- One turn of the receiving loop: the state and the text sent, or nothing when the client is gone. -/
def turno (flotante : Text → Nat → Bool) (NUM_AUTOS : Nat) (s : Servidor) (costo_viaje : Nat)
    (data : Text) : Except PyError (Option (Servidor × Text)) :=
  if data = [] then .ok none
  else (atender flotante NUM_AUTOS s costo_viaje data).map some

/-! ## Specification -/

/-- The text is a JSON object with this `tipo`. -/
def TieneTipo (data : Text) (solicitud : List (Str × Value)) (tipo : Text) : Prop :=
  loads data = some (.dict solicitud) ∧
    lookup solicitud (str "tipo".toList) = some (.str (str tipo))

/-- A `viaje` request with this reply was granted. -/
def EsConcedido (costo_viaje : Nat) (data respuesta : Text) : Prop :=
  ∃ solicitud i, TieneTipo data solicitud "viaje".toList ∧
    respuesta = respuestaViaje costo_viaje (some i)

/-- A `viaje_terminado` whose `placas` is an integer in range. -/
def EsTerminado (NUM_AUTOS : Nat) (data : Text) : Prop :=
  ∃ solicitud placas, TieneTipo data solicitud "viaje_terminado".toList ∧
    lookup solicitud (str "placas".toList) = some (.int placas) ∧ 0 ≤ placas ∧ placas < NUM_AUTOS

/-- No exception, a reply that is not empty, and a state that only a granted `viaje` or a
`viaje_terminado` in range changes. -/
def Sobrevive (flotante : Text → Nat → Bool) (NUM_AUTOS : Nat) (s : Servidor) (costo_viaje : Nat)
    (data : Text) : Prop :=
  ∃ s' respuesta, turno flotante NUM_AUTOS s costo_viaje data = .ok (some (s', respuesta)) ∧
    respuesta ≠ [] ∧
    (s' = s ∨ EsConcedido costo_viaje data respuesta ∨ EsTerminado NUM_AUTOS data)

/-- `placas` that `terminar_viaje` handles as it should. -/
def PlacasBien (flotante : Text → Nat → Bool) (NUM_AUTOS : Nat) (s : Servidor) : Value → Prop
  | .int _ => True
  | .bool b => b.toNat < NUM_AUTOS → s.autos_disponibles[b.toNat]? = some true
  | .float literal => flotante literal NUM_AUTOS = false
  | _ => False

/-! ## Lemmas -/

theorem esStr_iff (v : Value) (t : Text) : esStr v t = true ↔ v = .str (str t) := by
  cases v <;> simp [esStr]

section Handlers

variable (flotante : Text → Nat → Bool) (N : Nat) (s : Servidor) (costo : Nat)

theorem obtener_estado_ne_nil : obtener_estado s ≠ [] := by
  simp [obtener_estado, dumps]

theorem respuestaViaje_ne_nil (i : Option Nat) : respuestaViaje costo i ≠ [] := by
  cases i <;> simp [respuestaViaje, dumps]

theorem viajeTerminado_ne_nil : viajeTerminado ≠ [] := by decide

theorem placasInvalidas_ne_nil : placasInvalidas ≠ [] := by decide

/-- `solicitar_viaje` gives away an available car, or answers that there is none. -/
theorem solicitar_viaje_cases (hN : s.autos_disponibles.length = N) :
    (∃ i, i < N ∧ s.autos_disponibles[i]? = some true ∧
      solicitar_viaje N s costo = .ok (conceder s costo i, respuestaViaje costo (some i))) ∨
    ((∀ i, i < N → s.autos_disponibles[i]? = some false) ∧
      solicitar_viaje N s costo = .ok (s, respuestaViaje costo none)) := by
  rcases asignar_cases s costo (List.range N) (by simp [hN]) with ⟨i, hi, hfree, hok⟩ | ⟨hall, hok⟩
  · exact .inl ⟨i, List.mem_range.mp hi, hfree, solicitar_viaje_eq N s _ costo _ hok⟩
  · exact .inr ⟨fun i hi => hall i (List.mem_range.mpr hi), solicitar_viaje_eq N s _ costo _ hok⟩

/-- `terminar_viaje` of an integer out of range. -/
theorem terminarEntero_fuera (placas : Int) (h : ¬ (0 ≤ placas ∧ placas < N)) :
    terminarEntero N s placas = .ok (s, placasInvalidas) := by
  rw [terminarEntero, if_neg h]

/-- Every integer is answered, and the state stays or the integer is in range. -/
theorem terminarEntero_cases (hN : s.autos_disponibles.length = N) (placas : Int) :
    ∃ s' respuesta, terminarEntero N s placas = .ok (s', respuesta) ∧ respuesta ≠ [] ∧
      (s' = s ∨ (0 ≤ placas ∧ placas < N)) := by
  by_cases h : 0 ≤ placas ∧ placas < N
  · obtain ⟨i, rfl⟩ := Int.eq_ofNat_of_zero_le h.1
    exact ⟨_, _, terminarEntero_eq N i s hN (by omega), viajeTerminado_ne_nil, .inr h⟩
  · exact ⟨s, _, terminarEntero_fuera N s placas h, placasInvalidas_ne_nil, .inl rfl⟩

/-- The chain of comparisons with `solicitud["tipo"]`. -/
def despacho (solicitud : List (Str × Value)) (tipo : Value) : Except PyError (Servidor × Text) :=
  if esStr tipo "estado".toList then .ok (s, obtener_estado s)
  else if esStr tipo "viaje".toList then solicitar_viaje N s costo
  else if esStr tipo "viaje_terminado".toList then
    terminar_viaje flotante N s ((lookup solicitud (str "placas".toList)).getD (.int (-1)))
  else .ok (s, [])

/-- A text that raises nothing before the comparisons is an object with a `tipo`. -/
theorem atender_eq_ok (data : Text) (r : Servidor × Text) :
    atender flotante N s costo data = .ok r ↔
      ∃ solicitud tipo, loads data = some (.dict solicitud) ∧
        lookup solicitud (str "tipo".toList) = some tipo ∧
        despacho flotante N s costo solicitud tipo = .ok r := by
  constructor
  · intro h
    unfold atender at h
    split at h
    next => cases h
    next solicitud hl =>
      split at h
      next => cases h
      next tipo ht => exact ⟨solicitud, tipo, hl, ht, h⟩
    next => cases h
  · rintro ⟨solicitud, tipo, hl, ht, h⟩
    unfold atender
    rw [hl]
    dsimp only
    rw [ht]
    exact h

theorem turno_eq_ok (data : Text) (r : Servidor × Text) :
    turno flotante N s costo data = .ok (some r) ↔ atender flotante N s costo data = .ok r := by
  unfold turno
  split
  next hnil =>
    subst hnil
    exact iff_of_false (by simp) (by simp [atender, show loads [] = none from rfl])
  next =>
    cases atender flotante N s costo data with
    | error err => simp [Except.map]
    | ok r' => simp [Except.map]

/-- One turn for an object with this `tipo`. -/
theorem turno_of_tipo (data : Text) (solicitud : List (Str × Value)) (tipo : Text)
    (h : TieneTipo data solicitud tipo) (r : Servidor × Text)
    (hr : despacho flotante N s costo solicitud (.str (str tipo)) = .ok r) :
    turno flotante N s costo data = .ok (some r) := by
  rw [turno_eq_ok, atender_eq_ok]
  exact ⟨solicitud, _, h.1, h.2, hr⟩

theorem despacho_estado (solicitud : List (Str × Value)) :
    despacho flotante N s costo solicitud (.str (str "estado".toList)) = .ok (s, obtener_estado s) := rfl

theorem despacho_viaje (solicitud : List (Str × Value)) :
    despacho flotante N s costo solicitud (.str (str "viaje".toList)) = solicitar_viaje N s costo := rfl

theorem despacho_viaje_terminado (solicitud : List (Str × Value)) :
    despacho flotante N s costo solicitud (.str (str "viaje_terminado".toList)) =
      terminar_viaje flotante N s ((lookup solicitud (str "placas".toList)).getD (.int (-1))) := rfl

/-- Any other `tipo` is answered with an empty text. -/
theorem despacho_cases (solicitud : List (Str × Value)) (tipo : Value) :
    tipo = .str (str "estado".toList) ∨ tipo = .str (str "viaje".toList) ∨
      tipo = .str (str "viaje_terminado".toList) ∨
      despacho flotante N s costo solicitud tipo = .ok (s, []) := by
  unfold despacho
  split
  next h => exact .inl ((esStr_iff _ _).mp h)
  next =>
    split
    next h => exact .inr (.inl ((esStr_iff _ _).mp h))
    next =>
      split
      next h => exact .inr (.inr (.inl ((esStr_iff _ _).mp h)))
      next => exact .inr (.inr (.inr rfl))

/-- A boolean is the index 1 or 0; freeing its car changes the state unless the car was free. -/
theorem terminar_viaje_bool (hN : s.autos_disponibles.length = N) (b : Bool) :
    (∃ s' respuesta, terminar_viaje flotante N s (.bool b) = .ok (s', respuesta) ∧
      respuesta ≠ [] ∧ s' = s) ↔ PlacasBien flotante N s (.bool b) := by
  have hb : terminar_viaje flotante N s (.bool b) = terminarEntero N s (b.toNat : Nat) := by
    cases b <;> rfl
  rw [hb, PlacasBien]
  by_cases hi : b.toNat < N
  · rw [terminarEntero_eq N b.toNat s hN hi]
    have hset : ({ s with autos_disponibles := s.autos_disponibles.set b.toNat true } : Servidor) = s ↔
        s.autos_disponibles[b.toNat]? = some true := by
      have hlt : b.toNat < s.autos_disponibles.length := hN ▸ hi
      constructor
      · intro h
        rw [← h]
        simp [hlt]
      · intro h
        rw [List.getElem?_eq_getElem hlt] at h
        have hself := List.set_getElem_self hlt
        rw [Option.some.inj h] at hself
        rw [hself]
    rw [← hset]
    constructor
    · rintro ⟨s', respuesta, hok, -, heq⟩ -
      obtain ⟨h, -⟩ := Prod.mk.inj (Except.ok.inj hok)
      exact h.trans heq
    · intro h
      exact ⟨_, _, rfl, viajeTerminado_ne_nil, h hi⟩
  · rw [terminarEntero_fuera N s _ (by omega)]
    exact iff_of_true ⟨s, _, rfl, placasInvalidas_ne_nil, rfl⟩ fun h => absurd h hi

theorem terminar_viaje_bien (hN : s.autos_disponibles.length = N) (v : Value) :
    (∃ s' respuesta, terminar_viaje flotante N s v = .ok (s', respuesta) ∧ respuesta ≠ [] ∧
      (s' = s ∨ ∃ placas, v = .int placas ∧ 0 ≤ placas ∧ placas < N)) ↔ PlacasBien flotante N s v := by
  cases v with
  | int placas =>
    obtain ⟨s', respuesta, hok, hne, hs⟩ := terminarEntero_cases N s hN placas
    exact iff_of_true ⟨s', respuesta, hok, hne, hs.imp_right fun h => ⟨placas, rfl, h⟩⟩ trivial
  | bool b => simpa using terminar_viaje_bool flotante N s hN b
  | float literal =>
    rw [terminar_viaje, PlacasBien]
    cases h : flotante literal N with
    | true => exact iff_of_false (by simp) (by simp)
    | false => exact iff_of_true ⟨s, _, rfl, placasInvalidas_ne_nil, .inl rfl⟩ rfl
  | null => exact iff_of_false (by simp [terminar_viaje]) id
  | str _ => exact iff_of_false (by simp [terminar_viaje]) id
  | list _ => exact iff_of_false (by simp [terminar_viaje]) id
  | dict _ => exact iff_of_false (by simp [terminar_viaje]) id

end Handlers

/-! ## Top theorems -/

/-- **The server survives a text exactly when it is an object with a known `tipo`** and, for a
`viaje_terminado`, `placas` that can be handled. -/
theorem sobrevive_iff (flotante : Text → Nat → Bool) (NUM_AUTOS : Nat) (s : Servidor)
    (hN : s.autos_disponibles.length = NUM_AUTOS) (costo_viaje : Nat) (data : Text) :
    Sobrevive flotante NUM_AUTOS s costo_viaje data ↔
      ∃ solicitud, TieneTipo data solicitud "estado".toList ∨ TieneTipo data solicitud "viaje".toList ∨
        TieneTipo data solicitud "viaje_terminado".toList ∧
          PlacasBien flotante NUM_AUTOS s ((lookup solicitud (str "placas".toList)).getD (.int (-1))) := by
  constructor
  · rintro ⟨s', respuesta, hok, hne, hs⟩
    rw [turno_eq_ok, atender_eq_ok] at hok
    obtain ⟨solicitud, tipo, hl, ht, hd⟩ := hok
    refine ⟨solicitud, ?_⟩
    rcases despacho_cases flotante NUM_AUTOS s costo_viaje solicitud tipo with rfl | rfl | rfl | hnada
    · exact .inl ⟨hl, ht⟩
    · exact .inr (.inl ⟨hl, ht⟩)
    · refine .inr (.inr ⟨⟨hl, ht⟩, (terminar_viaje_bien flotante NUM_AUTOS s hN _).mp
        ⟨s', respuesta, hd, hne, ?_⟩⟩)
      rcases hs with hs | ⟨solicitud', i, ⟨hl', ht'⟩, -⟩ | ⟨solicitud', placas, ⟨hl', -⟩, hp, hr⟩
      · exact .inl hs
      · -- a text with this `tipo` is not a `viaje`
        rw [hl] at hl'
        cases hl'
        rw [ht] at ht'
        exact absurd ht' (by simp [str])
      · rw [hl] at hl'
        cases hl'
        exact .inr ⟨placas, by rw [hp]; rfl, hr⟩
    · rw [hnada] at hd
      exact absurd (Prod.mk.inj (Except.ok.inj hd)).2.symm hne
  · rintro ⟨solicitud, ht | ht | ⟨ht, hp⟩⟩
    · exact ⟨s, obtener_estado s, turno_of_tipo flotante NUM_AUTOS s costo_viaje data solicitud _ ht _
        (despacho_estado flotante NUM_AUTOS s costo_viaje solicitud), obtener_estado_ne_nil s, .inl rfl⟩
    · have hturno := fun r hr => turno_of_tipo flotante NUM_AUTOS s costo_viaje data solicitud _ ht r
        ((despacho_viaje flotante NUM_AUTOS s costo_viaje solicitud).trans hr)
      rcases solicitar_viaje_cases NUM_AUTOS s costo_viaje hN with ⟨i, -, -, hok⟩ | ⟨-, hok⟩
      · exact ⟨conceder s costo_viaje i, _, hturno _ hok, respuestaViaje_ne_nil costo_viaje (some i),
          .inr (.inl ⟨solicitud, i, ht, rfl⟩)⟩
      · exact ⟨s, _, hturno _ hok, respuestaViaje_ne_nil costo_viaje none, .inl rfl⟩
    · obtain ⟨s', respuesta, hok, hne, hs⟩ := (terminar_viaje_bien flotante NUM_AUTOS s hN _).mpr hp
      refine ⟨s', respuesta, turno_of_tipo flotante NUM_AUTOS s costo_viaje data solicitud _ ht _
        ((despacho_viaje_terminado flotante NUM_AUTOS s costo_viaje solicitud).trans hok), hne, ?_⟩
      rcases hs with hs | ⟨placas, hv, h0, hlt⟩
      · exact .inl hs
      · refine .inr (.inr ⟨solicitud, placas, ht, ?_, h0, hlt⟩)
        -- the default `-1` is out of range
        cases hlook : lookup solicitud (str "placas".toList) with
        | none =>
          rw [hlook] at hv
          cases hv
          omega
        | some v =>
          rw [hlook] at hv
          exact congrArg some hv

/-- `{"tipo": "viaje"}` is handled with two cars. -/
theorem sobrevive_viaje : Sobrevive (fun _ _ => false) 2 (servidor0 2) 10
    (dumps [("tipo".toList, .str "viaje".toList)]) :=
  (sobrevive_iff (fun _ _ => false) 2 (servidor0 2) rfl 10 _).mpr
    ⟨_, .inr (.inl ⟨loads_tipo _ rfl, rfl⟩)⟩

/-- A text that is not JSON ends the service. -/
theorem texto_cualquiera : ¬ ∀ (flotante : Text → Nat → Bool) (NUM_AUTOS : Nat) (s : Servidor),
    s.autos_disponibles.length = NUM_AUTOS → ∀ (costo_viaje : Nat) (data : Text),
      Sobrevive flotante NUM_AUTOS s costo_viaje data := by
  intro h
  obtain ⟨s', respuesta, hok, -⟩ := h (fun _ _ => false) 2 (servidor0 2) rfl 10 "hola".toList
  have herr : turno (fun _ _ => false) 2 (servidor0 2) 10 "hola".toList = .error .jsonDecodeError := rfl
  rw [herr] at hok
  cases hok

end UberTcp
