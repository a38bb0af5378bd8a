import SistemasDistribuidos.Lib.Json

/-!
# `Practica01/servidorTCPUber.py`

The server keeps the list `autos_disponibles` and two counters, and answers each text it
receives: `json.loads`, a look at `solicitud["tipo"]`, and one of three handlers.  What
Python raises on the way is the error of the result (`PyError`).

`NUM_AUTOS` is a parameter, and so is the comparison `0 <= placas < NUM_AUTOS` for a
`placas` written as a float (`flotante`).  `random.randint(10, 100)` is an argument.
-/

namespace UberTcp

open CText Json

/-! ## Algorithm -/

inductive PyError where
  | jsonDecodeError
  | typeError
  | keyError
  | indexError
  deriving DecidableEq, Repr

structure Servidor where
  autos_disponibles : List Bool
  viajes_realizados : Nat
  ganancia_total : Nat
  deriving DecidableEq, Repr

def servidor0 (NUM_AUTOS : Nat) : Servidor :=
  { autos_disponibles := List.replicate NUM_AUTOS true, viajes_realizados := 0
    ganancia_total := 0 }

def obtener_estado (s : Servidor) : Text :=
  dumps [("viajes_realizados".toList, .int s.viajes_realizados),
    ("ganancia_total".toList, .int s.ganancia_total)]

/-- The body of the `if` in `solicitar_viaje`. -/
def conceder (s : Servidor) (costo_viaje i : Nat) : Servidor :=
  { autos_disponibles := s.autos_disponibles.set i false
    viajes_realizados := s.viajes_realizados + 1
    ganancia_total := s.ganancia_total + costo_viaje }

/-- The loop of `solicitar_viaje` over the indices left: the car it gives away, if any. -/
def asignar (s : Servidor) (costo_viaje : Nat) : List Nat → Except PyError (Servidor × Option Nat)
  | [] => .ok (s, none)
  | i :: is =>
    match s.autos_disponibles[i]? with
    | none => .error .indexError
    | some true => .ok (conceder s costo_viaje i, some i)
    | some false => asignar s costo_viaje is

/-- The text `solicitar_viaje` returns. -/
def respuestaViaje (costo_viaje : Nat) : Option Nat → Text
  | some i => dumps [("placas".toList, .int i), ("costo_viaje".toList, .int costo_viaje)]
  | none => dumps [("error".toList, .str "No hay conductores".toList)]

def solicitar_viaje (NUM_AUTOS : Nat) (s : Servidor) (costo_viaje : Nat) :
    Except PyError (Servidor × Text) := do
  let (s, i) ← asignar s costo_viaje (List.range NUM_AUTOS)
  return (s, respuestaViaje costo_viaje i)

/-- `autos_disponibles[i] = True`, where a negative index counts from the end. -/
def liberar (s : Servidor) (i : Int) : Except PyError Servidor :=
  let j := if i < 0 then i + s.autos_disponibles.length else i
  if 0 ≤ j ∧ j < s.autos_disponibles.length then
    .ok { s with autos_disponibles := s.autos_disponibles.set j.toNat true }
  else .error .indexError

def viajeTerminado : Text := "Viaje terminado".toList

def placasInvalidas : Text := "Placas inválidas".toList

def terminarEntero (NUM_AUTOS : Nat) (s : Servidor) (placas : Int) :
    Except PyError (Servidor × Text) :=
  if 0 ≤ placas ∧ placas < NUM_AUTOS then do
    let s ← liberar s placas
    return (s, viajeTerminado)
  else .ok (s, placasInvalidas)

/-- `terminar_viaje` of whatever value came as `placas`: a bool is an integer, a float in
range cannot be an index, and the rest cannot be compared with `0`. -/
def terminar_viaje (flotante : Text → Nat → Bool) (NUM_AUTOS : Nat) (s : Servidor) :
    Value → Except PyError (Servidor × Text)
  | .int placas => terminarEntero NUM_AUTOS s placas
  | .bool b => terminarEntero NUM_AUTOS s (if b then 1 else 0)
  | .float lit => if flotante lit NUM_AUTOS then .error .typeError else .ok (s, placasInvalidas)
  | _ => .error .typeError

/-- Whether a value equals the `str` of a text. -/
def esStr (v : Value) (t : Text) : Bool :=
  match v with
  | .str s => s = str t
  | _ => false

/-- The body of the receiving loop for one text, not empty (an empty one ends the loop): the
new state and the text sent back. -/
def atender (flotante : Text → Nat → Bool) (NUM_AUTOS : Nat) (s : Servidor) (costo_viaje : Nat)
    (data : Text) : Except PyError (Servidor × Text) :=
  match loads data with
  | none => .error .jsonDecodeError
  | some (.dict solicitud) =>
    match lookup solicitud (str "tipo".toList) with
    | none => .error .keyError
    | some tipo =>
      if esStr tipo "estado".toList then .ok (s, obtener_estado s)
      else if esStr tipo "viaje".toList then solicitar_viaje NUM_AUTOS s costo_viaje
      else if esStr tipo "viaje_terminado".toList then
        let placas := (lookup solicitud (str "placas".toList)).getD (.int (-1))
        terminar_viaje flotante NUM_AUTOS s placas
      else .ok (s, [])
  | some _ => .error .typeError

/-! ## Lemmas -/

/-- The loop gives away an available car, or finds all of them taken. -/
theorem asignar_cases (s : Servidor) (costo : Nat) (is : List Nat)
    (h : ∀ i ∈ is, i < s.autos_disponibles.length) :
    (∃ i ∈ is, s.autos_disponibles[i]? = some true ∧
      asignar s costo is = .ok (conceder s costo i, some i)) ∨
    ((∀ i ∈ is, s.autos_disponibles[i]? = some false) ∧ asignar s costo is = .ok (s, none)) := by
  induction is with
  | nil => exact .inr ⟨by simp, rfl⟩
  | cons i is ih =>
    have hi : i < s.autos_disponibles.length := h i List.mem_cons_self
    have his := ih fun j hj => h j (List.mem_cons_of_mem i hj)
    cases hb : s.autos_disponibles[i] with
    | true =>
      have hget : s.autos_disponibles[i]? = some true := by rw [List.getElem?_eq_getElem hi, hb]
      exact .inl ⟨i, List.mem_cons_self, hget, by rw [asignar, hget]⟩
    | false =>
      have hget : s.autos_disponibles[i]? = some false := by rw [List.getElem?_eq_getElem hi, hb]
      have hnext : asignar s costo (i :: is) = asignar s costo is := by rw [asignar, hget]
      rw [hnext]
      rcases his with ⟨j, hj, hfree, hok⟩ | ⟨hall, hok⟩
      · exact .inl ⟨j, List.mem_cons_of_mem i hj, hfree, hok⟩
      · refine .inr ⟨fun j hj => ?_, hok⟩
        rcases List.mem_cons.mp hj with rfl | hj
        · exact hget
        · exact hall j hj

theorem solicitar_viaje_eq (N : Nat) (s t : Servidor) (costo : Nat) (i : Option Nat)
    (h : asignar s costo (List.range N) = .ok (t, i)) :
    solicitar_viaje N s costo = .ok (t, respuestaViaje costo i) := by
  rw [solicitar_viaje, h]
  rfl

/-- `terminar_viaje` of an index within the list. -/
theorem terminarEntero_eq (N i : Nat) (s : Servidor) (hN : s.autos_disponibles.length = N)
    (hi : i < N) :
    terminarEntero N s i = .ok ({ s with autos_disponibles := s.autos_disponibles.set i true },
      viajeTerminado) := by
  have h0 : ¬ (i : Int) < 0 := by omega
  have hr : 0 ≤ (i : Int) ∧ (i : Int) < N := by omega
  rw [terminarEntero, if_pos hr, liberar, if_neg h0, hN, if_pos hr]
  rfl

/-! ## Requests -/

variable (flotante : Text → Nat → Bool) (N : Nat) (s : Servidor) (costo : Nat)

/-- A request without `placas`, as `json.loads` reads it. -/
theorem loads_tipo (tipo : Text) (h : tipo.all isPlain = true) :
    loads (dumps [("tipo".toList, .str tipo)]) = some (.dict [(str "tipo".toList, .str (str tipo))]) := by
  refine loads_dumps _ _ ?_
  intro kv hkv
  rw [List.mem_singleton.mp hkv]
  exact ⟨plain_of_all _ rfl, plain_of_all _ h⟩

theorem atender_estado :
    atender flotante N s costo (dumps [("tipo".toList, .str "estado".toList)])
      = .ok (s, obtener_estado s) := by
  rw [atender, loads_tipo _ rfl]
  rfl

theorem atender_viaje :
    atender flotante N s costo (dumps [("tipo".toList, .str "viaje".toList)])
      = solicitar_viaje N s costo := by
  rw [atender, loads_tipo _ rfl]
  rfl

/-- What `json.loads` makes of a `viaje_terminado` with these `placas`. -/
def terminadoDict (placas : Int) : Value :=
  .dict [(str "tipo".toList, .str (str "viaje_terminado".toList)),
    (str "placas".toList, .int placas)]

theorem loads_viaje_terminado (placas : Int) :
    loads (dumps [("tipo".toList, .str "viaje_terminado".toList), ("placas".toList, .int placas)])
      = some (terminadoDict placas) := by
  refine loads_dumps _ _ ?_
  intro kv hkv
  rcases List.mem_cons.mp hkv with rfl | hkv
  · exact ⟨plain_of_all _ rfl, plain_of_all _ rfl⟩
  · rw [List.mem_singleton.mp hkv]
    exact ⟨plain_of_all _ rfl, trivial⟩

theorem atender_viaje_terminado (placas : Int) :
    atender flotante N s costo
        (dumps [("tipo".toList, .str "viaje_terminado".toList), ("placas".toList, .int placas)])
      = terminarEntero N s placas := by
  rw [atender, loads_viaje_terminado]
  rfl

end UberTcp
