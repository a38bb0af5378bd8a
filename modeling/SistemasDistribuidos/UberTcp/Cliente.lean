import SistemasDistribuidos.UberTcp.Servidor

/-!
# `Practica01/clienteTCPUber.c`

The client writes its requests with `snprintf`, finds `placas` in a reply with `strstr`
and `atoi`, and knows a refusal by `strcmp`.  A session is the run of `main`: the menu,
one request, and for a granted trip a second connection to end it.

What the client takes from a granting reply is the index the server wrote
(`recepcion_datos_concedido`), and its requests are texts that `json.dumps` writes
(`peticionViaje_eq`, `peticionTerminado_eq`).  In the string literals `\x7b` and `\x7d`
are the braces.
-/

namespace UberTcp

open CText CString Scanf Json

/-! ## Algorithm -/

/-- The globals of the client; `datos_recibidos` up to its NUL. -/
structure Memoria where
  datos_recibidos : Text
  placas : Int
  deriving DecidableEq, Repr

def memoria0 : Memoria := { datos_recibidos := [], placas := 0 }

def clavePlacas : Text := "\"placas\":".toList

/-- `none` when `atoi` is given a number that does not fit. -/
def recepcion_datos (m : Memoria) (llega : Text) : Option Memoria :=
  let datos := cstr (llega.take 1023)
  match strstr datos clavePlacas with
  | none => some { m with datos_recibidos := datos }
  | some placas_pos =>
    (atoi (placas_pos.drop clavePlacas.length)).map fun placas =>
      { datos_recibidos := datos, placas := placas }

def peticionViaje : Text := snprintf 255 "\x7b\"tipo\": \"viaje\"\x7d".toList

def peticionEstado : Text := snprintf 255 "\x7b\"tipo\": \"estado\"\x7d".toList

def peticionTerminado (placas : Int) : Text :=
  snprintf 255 ("\x7b\"tipo\": \"viaje_terminado\", \"placas\": ".toList ++ decimalInt placas ++
    "\x7d".toList)

def sinConductores : Text := "\x7b\"error\": \"No hay conductores\"\x7d".toList

/-- Where `main` is.  `rechazado` and `salio` are its two ways to end. -/
inductive Fase where
  | menu
  | esperaViaje
  | viajando
  | esperaFin
  | esperaEstado
  | rechazado
  | salio
  | indefinido
  deriving DecidableEq, Repr

/-- One turn of the menu: the new phase and what is sent. -/
def elegir (opcion : Int) : Fase × Option Text :=
  if opcion = 1 then (.esperaViaje, some peticionViaje)
  else if opcion = 2 then (.esperaEstado, some peticionEstado)
  else if opcion = 3 then (.salio, none)
  else (.menu, none)

/-- What `main` does with a reply. -/
def recibir (fase : Fase) (m : Memoria) (llega : Text) : Fase × Memoria :=
  match recepcion_datos m llega with
  | none => (.indefinido, m)
  | some m =>
    match fase with
    | .esperaViaje => if m.datos_recibidos = sinConductores then (.rechazado, m) else (.viajando, m)
    | .esperaFin | .esperaEstado => (.salio, m)
    | fase => (fase, m)

/-! ## Requests -/

theorem peticionViaje_eq : peticionViaje = dumps [("tipo".toList, .str "viaje".toList)] := rfl

theorem peticionEstado_eq : peticionEstado = dumps [("tipo".toList, .str "estado".toList)] := rfl

theorem peticionTerminado_eq (i : Nat) (hi : i < 2 ^ 31) :
    peticionTerminado i = dumps [("tipo".toList, .str "viaje_terminado".toList),
      ("placas".toList, .int i)] := by
  have hlen : (decimal i).length ≤ 10 := (decimal_length_le_iff 10 i (by decide)).mpr (by omega)
  rw [peticionTerminado, snprintf_of_lt]
  · rfl
  · rw [decimalInt_natCast]
    simp
    omega

/-! ## Replies -/

theorem notMem_cstr_take (c : Char) (k : Nat) (s : Text) (h : c ∉ s) : c ∉ cstr (s.take k) :=
  fun hc => h (List.mem_of_mem_take ((List.takeWhile_prefix _).subset hc))

/-- A reply without a `p` leaves `placas` as it was. -/
theorem recepcion_datos_sin_placas (m : Memoria) (llega : Text) (h : 'p' ∉ llega) :
    recepcion_datos m llega = some { m with datos_recibidos := cstr (llega.take 1023) } := by
  have hno : strstr (cstr (llega.take 1023)) clavePlacas = none :=
    strstr_of_notMem _ _ 'p' (by decide) (notMem_cstr_take 'p' 1023 llega h)
  rw [recepcion_datos, hno]

/-- What follows the index in a granting reply. -/
def trasPlacas (costo : Nat) : Text :=
  ", \"costo_viaje\": ".toList ++ decimal costo ++ "\x7d".toList

theorem clavePlacas_eq : clavePlacas = "\"placas\":".toList := rfl

theorem trasPlacas_eq (costo : Nat) :
    trasPlacas costo = ", \"costo_viaje\": ".toList ++ decimal costo ++ "\x7d".toList := rfl

theorem sinConductores_eq : sinConductores = "\x7b\"error\": \"No hay conductores\"\x7d".toList := rfl

theorem respuestaViaje_some (costo i : Nat) :
    respuestaViaje costo (some i)
      = '{' :: (clavePlacas ++ ([' '] ++ decimal i ++ trasPlacas costo)) := by
  simp only [respuestaViaje, dumps, dumpsPairs, dumpsPair, dumpsField, decimalInt_natCast,
    dumpsStr_plain _ (plain_of_all "placas".toList rfl),
    dumpsStr_plain _ (plain_of_all "costo_viaje".toList rfl)]
  simp [clavePlacas_eq, trasPlacas_eq]

theorem nul_notMem_respuestaViaje (costo i : Nat) : nul ∉ respuestaViaje costo (some i) := by
  have h1 := notMem_decimal i nul rfl
  have h2 := notMem_decimal costo nul rfl
  rw [nul] at *
  rw [respuestaViaje_some]
  simp [clavePlacas_eq, trasPlacas_eq, h1, h2]

theorem length_respuestaViaje (costo i : Nat) (hc : costo ≤ 100) (hi : i < 2 ^ 31) :
    (respuestaViaje costo (some i)).length ≤ 1023 := by
  have h1 : (decimal i).length ≤ 10 := (decimal_length_le_iff 10 i (by decide)).mpr (by omega)
  have h2 : (decimal costo).length ≤ 3 := (decimal_length_le_iff 3 costo (by decide)).mpr (by omega)
  rw [respuestaViaje_some]
  simp [clavePlacas_eq, trasPlacas_eq]
  omega

theorem recepcion_datos_concedido (m : Memoria) (costo i : Nat) (hc : costo ≤ 100)
    (hi : i < 2 ^ 31) :
    recepcion_datos m (respuestaViaje costo (some i))
      = some { datos_recibidos := respuestaViaje costo (some i), placas := i } := by
  have hdatos : cstr ((respuestaViaje costo (some i)).take 1023)
      = respuestaViaje costo (some i) := by
    rw [List.take_of_length_le (length_respuestaViaje costo i hc hi)]
    have := cstr_append _ [] (nul_notMem_respuestaViaje costo i)
    simpa [cstr] using this
  have hpos : strstr (respuestaViaje costo (some i)) clavePlacas
      = some (clavePlacas ++ ([' '] ++ decimal i ++ trasPlacas costo)) := by
    rw [respuestaViaje_some, strstr, if_neg (by simp [clavePlacas_eq]), strstr_prefix]
  have hatoi : atoi ([' '] ++ decimal i ++ trasPlacas costo) = some (i : Int) :=
    atoi_decimal [' '] _ i (by simp [isspace]) (by simp [trasPlacas_eq, isdigit]) hi
  simp only [recepcion_datos, hdatos, hpos, List.drop_left, hatoi, Option.map_some]

theorem respuestaViaje_none (costo : Nat) : respuestaViaje costo none = sinConductores := rfl

theorem respuestaViaje_ne (costo i : Nat) : respuestaViaje costo (some i) ≠ sinConductores := by
  rw [respuestaViaje_some]
  simp [sinConductores_eq, clavePlacas_eq]

theorem recepcion_datos_rechazado (m : Memoria) (costo : Nat) :
    recepcion_datos m (respuestaViaje costo none)
      = some { m with datos_recibidos := sinConductores } := by
  rw [respuestaViaje_none, recepcion_datos_sin_placas m _ (by decide)]
  rfl

theorem p_notMem_obtener_estado (s : Servidor) : 'p' ∉ obtener_estado s := by
  have h1 := notMem_decimal s.viajes_realizados 'p' rfl
  have h2 := notMem_decimal s.ganancia_total 'p' rfl
  simp only [obtener_estado, dumps, dumpsPairs, dumpsPair, dumpsField, decimalInt_natCast,
    dumpsStr_plain _ (plain_of_all "viajes_realizados".toList rfl),
    dumpsStr_plain _ (plain_of_all "ganancia_total".toList rfl)]
  simp [h1, h2]

/-! ## Sessions -/

/-- A granted client travels with the index the server gave it. -/
theorem recibir_concedido (m : Memoria) (costo i : Nat) (hc : costo ≤ 100) (hi : i < 2 ^ 31) :
    recibir .esperaViaje m (respuestaViaje costo (some i))
      = (.viajando, { datos_recibidos := respuestaViaje costo (some i), placas := i }) := by
  simp only [recibir, recepcion_datos_concedido m costo i hc hi, if_neg (respuestaViaje_ne costo i)]

/-- A refused client recognises the refusal. -/
theorem recibir_rechazado (m : Memoria) (costo : Nat) :
    recibir .esperaViaje m (respuestaViaje costo none)
      = (.rechazado, { m with datos_recibidos := sinConductores }) := by
  simp only [recibir, recepcion_datos_rechazado, if_true]

theorem recibir_ultima (fase : Fase) (m : Memoria) (llega : Text)
    (hf : fase = .esperaFin ∨ fase = .esperaEstado) (h : 'p' ∉ llega) :
    (recibir fase m llega).1 = .salio := by
  rw [recibir, recepcion_datos_sin_placas m llega h]
  rcases hf with rfl | rfl <;> rfl

end UberTcp
