import Mathlib.Data.Nat.Sqrt
import Mathlib.Logic.Equiv.Defs
import SistemasDistribuidos.Lib.CText
import SistemasDistribuidos.Lib.Indices

/-!
# The RPC server of `Practica02_2/UBER_Servidor.c`

`NUM_AUTOS` cars in a global array, filled by the first `SolicitarViaje` call.  Until
then `placa` is a NULL pointer, and the `strcmp` of `TerminarViaje` reads through it:
`terminarViaje` is `none` there.  `inicializarAutos` formats each plate into `char plate[7]`
and is `none` when one does not fit with its NUL; when they all fit is `placasUtiles_iff`.

`SolicitarViaje` answers with a static record.  Its search keeps a running minimum
that starts at `INFINITY`, but leaves the loop at the first available car; when no
car is available only the field `disponible` of the record is written.

The doubles of the source are read exactly: `calcularDistancia` through the integer
squared distance, `(int)distancia` as its integer square root.  The `int` counters
`viajesRealizados` and `ganancia_total` are read without wrap-around.

C leaves open in which order the four `rand()` among the arguments of one `sprintf` are
called; the order is part of `Entorno`.
-/

namespace UberRpc

open CText

def NUM_AUTOS : Nat := 8

/-- The arguments of the `sprintf` of a plate that call `rand()`. -/
def sorteos : Nat := 4

instance : NeZero sorteos := ⟨by decide⟩

def UBER_PLANET : Nat := 1
def UBER_BLACK : Nat := 3

def uberPlanet : Int := 10
def uberXL : Int := 15
def uberBlack : Int := 25

/-- What the server takes from outside: the successive values of `rand()`, the order in which the
compiler calls the four `rand()` of `sprintf`, and what the caller of `calcularTarifa` reads when no
case of its `switch` returns. -/
structure Entorno where
  rand : Nat → Nat
  orden : Equiv.Perm (Fin sorteos)
  sinRetorno : Int

structure Posicion where
  x : Int
  y : Int
deriving DecidableEq, Repr

/-- `placa` is a pointer; `none` is NULL. -/
structure InfoAuto where
  disponible : Int
  posicion : Posicion
  tipoUber : Nat
  tarifa : Int
  placa : Option Text
deriving DecidableEq, Repr

structure InfoServicio where
  numViajes : Nat
  numAutosLibres : Nat
  gananciaTotal : Int
deriving DecidableEq, Repr

structure ViajeInfo where
  posicion : Posicion
  costoViaje : Int
  placa : Text
deriving DecidableEq, Repr

/-- The globals of the server and the static record of `SolicitarViaje`. -/
structure Servidor where
  autos : Fin NUM_AUTOS → InfoAuto
  viajesRealizados : Nat
  gananciaTotal : Int
  isFirstTime : Bool
  autoDisponible : InfoAuto

def infoAuto0 : InfoAuto := ⟨0, ⟨0, 0⟩, 0, 0, none⟩

def servidor0 : Servidor where
  autos := fun _ => infoAuto0
  viajesRealizados := 0
  gananciaTotal := 0
  isFirstTime := true
  autoDisponible := infoAuto0

/-! ## Algorithm -/

def posicionesAleatorias (r : Nat) : Int := (0 + r % 51 : Nat)

/-- The `rand()` in argument `k` of the `sprintf` for car `i`; each loop body draws seven values, the
last four of them here. -/
def argumento (e : Entorno) (i : Fin NUM_AUTOS) (k : Fin sorteos) : Nat := e.rand (7 * i + 3 + e.orden k)

/-- `"%d%d%c%c%c"` of `i` and the four arguments. -/
def placaSorteada (e : Entorno) (i : Fin NUM_AUTOS) : Text :=
  decimal i ++ decimal (argumento e i 0 % 1000) ++
    [letter (argumento e i 1), letter (argumento e i 2), letter (argumento e i 3)]

/-- Each plate fits with its NUL in `char plate[7]`. -/
def CabenPlacas (e : Entorno) : Prop := ∀ i, (placaSorteada e i).length + 1 ≤ 7

instance (e : Entorno) : Decidable (CabenPlacas e) :=
  inferInstanceAs (Decidable (∀ i, (placaSorteada e i).length + 1 ≤ 7))

/-- The fleet with its plates as `sprintf` formats them. -/
def flotaSorteada (e : Entorno) : Fin NUM_AUTOS → InfoAuto := fun i =>
  { disponible := 1
    posicion := ⟨posicionesAleatorias (e.rand (7 * i)), posicionesAleatorias (e.rand (7 * i + 1))⟩
    tipoUber := UBER_PLANET + e.rand (7 * i + 2) % UBER_BLACK
    tarifa := 0
    placa := some (placaSorteada e i) }

/-- `none` when `sprintf` writes past the end of `plate`. -/
def inicializarAutos (e : Entorno) : Option (Fin NUM_AUTOS → InfoAuto) :=
  if CabenPlacas e then some (flotaSorteada e) else none

/-- `if ( isFirstTime == true ) ...` -/
def asegurarAutos (e : Entorno) (s : Servidor) : Option Servidor :=
  if s.isFirstTime then
    (inicializarAutos e).map fun autos => { s with autos := autos, isFirstTime := false }
  else some s

/-- The square of `calcularDistancia`. -/
def distancia2 (origen destino : Posicion) : Int :=
  (destino.x - origen.x) ^ 2 + (destino.y - origen.y) ^ 2

def calcularTarifa (e : Entorno) (tipoUber : Nat) (kilometro : Int) : Int :=
  match tipoUber with
  | 1 => uberPlanet * kilometro
  | 2 => uberXL * kilometro
  | 3 => uberBlack * kilometro
  | _ => e.sinRetorno

/-- The locals of the search; `distanciaMinima = none` is `INFINITY`. -/
structure Busqueda where
  available : Fin NUM_AUTOS
  isAvailable : Bool
  distanciaMinima : Option Int

/-- `distancia < distanciaMinima` -/
def menor (d : Int) : Option Int → Bool
  | none => true
  | some m => d < m

/-- The search loop over the cars `is` still to be looked at. -/
def buscarAuto (autos : Fin NUM_AUTOS → InfoAuto) (p : Posicion) :
    List (Fin NUM_AUTOS) → Busqueda → Busqueda
  | [], b => b
  | i :: is, b =>
    if (autos i).disponible = 1 then
      if menor (distancia2 (autos i).posicion p) b.distanciaMinima then
        -- break: the assignment after the `if` is skipped
        ⟨i, true, some (distancia2 (autos i).posicion p)⟩
      else buscarAuto autos p is { b with isAvailable := false }
    else buscarAuto autos p is { b with isAvailable := false }

def busqueda (autos : Fin NUM_AUTOS → InfoAuto) (p : Posicion) : Busqueda :=
  buscarAuto autos p (List.finRange NUM_AUTOS) ⟨⟨0, by decide⟩, false, none⟩

/-- The record of car `a` with the fare quoted to a passenger at `p`. -/
def cotizar (e : Entorno) (a : InfoAuto) (p : Posicion) : InfoAuto :=
  { a with tarifa := calcularTarifa e a.tipoUber (Nat.sqrt (distancia2 a.posicion p).toNat) }

/-- `SolicitarViaje` behind the initialisation. -/
def asignar (e : Entorno) (s : Servidor) (posicionPasajero : Posicion) : Servidor × InfoAuto :=
  let b := busqueda s.autos posicionPasajero
  if b.isAvailable then
    let a := cotizar e (s.autos b.available) posicionPasajero
    ({ s with
        autos := Function.update s.autos b.available { a with disponible := 0 }
        autoDisponible := a
        viajesRealizados := s.viajesRealizados + 1 }, a)
  else
    let a := { s.autoDisponible with disponible := 0 }
    ({ s with autoDisponible := a }, a)

/-- `none` when the initialisation writes past the end of `plate`. -/
def solicitarViaje (e : Entorno) (s : Servidor) (posicionPasajero : Posicion) :
    Option (Servidor × InfoAuto) :=
  (asegurarAutos e s).map fun s => asignar e s posicionPasajero

/-- The search of `terminarViaje` over the cars `is`: `none` if it compares a NULL plate, otherwise
the first car with that plate. -/
def buscarPlaca (autos : Fin NUM_AUTOS → InfoAuto) (placa : Text) :
    List (Fin NUM_AUTOS) → Option (Option (Fin NUM_AUTOS))
  | [] => some none
  | i :: is =>
    match (autos i).placa with
    | none => none
    | some t => if t = placa then some (some i) else buscarPlaca autos placa is

def liberar (autos : Fin NUM_AUTOS → InfoAuto) (i : Fin NUM_AUTOS) (p : Posicion) :
    Fin NUM_AUTOS → InfoAuto :=
  Function.update autos i { autos i with disponible := 1, posicion := p }

/-- The loop body for the car that was found. -/
def cerrarViaje (s : Servidor) (i : Fin NUM_AUTOS) (elPasajero : ViajeInfo) : Servidor :=
  { s with
    autos := liberar s.autos i elPasajero.posicion
    gananciaTotal := s.gananciaTotal + elPasajero.costoViaje }

def terminarViaje (s : Servidor) (elPasajero : ViajeInfo) : Option Servidor :=
  match buscarPlaca s.autos elPasajero.placa (List.finRange NUM_AUTOS) with
  | none => none
  | some none => some s
  | some (some i) => some (cerrarViaje s i elPasajero)

def estadoServicio (s : Servidor) : InfoServicio where
  numViajes := s.viajesRealizados
  gananciaTotal := s.gananciaTotal
  numAutosLibres := (List.finRange NUM_AUTOS).countP fun i => (s.autos i).disponible = 1

/-! ## Lemmas -/

/-- The server with its fleet, every plate read in full. -/
def conFlota (e : Entorno) (s : Servidor) : Servidor :=
  if s.isFirstTime then { s with autos := flotaSorteada e, isFirstTime := false } else s

@[simp] theorem conFlota_isFirstTime (e : Entorno) (s : Servidor) :
    (conFlota e s).isFirstTime = false := by
  unfold conFlota
  split
  · rfl
  · next h => simpa using h

theorem conFlota_of_not_first (e : Entorno) (s : Servidor) (h : s.isFirstTime = false) :
    conFlota e s = s := by
  simp [conFlota, h]

@[simp] theorem conFlota_viajesRealizados (e : Entorno) (s : Servidor) :
    (conFlota e s).viajesRealizados = s.viajesRealizados := by
  unfold conFlota
  split <;> rfl

@[simp] theorem conFlota_gananciaTotal (e : Entorno) (s : Servidor) :
    (conFlota e s).gananciaTotal = s.gananciaTotal := by
  unfold conFlota
  split <;> rfl

/-- The initialisation succeeds when the plates fit, and later there is none to make. -/
theorem asegurarAutos_eq_some (e : Entorno) (s t : Servidor) :
    asegurarAutos e s = some t ↔ (s.isFirstTime = true → CabenPlacas e) ∧ conFlota e s = t := by
  unfold asegurarAutos inicializarAutos conFlota
  by_cases hs : s.isFirstTime = true
  · by_cases hc : CabenPlacas e <;> simp [hs, hc]
  · simp [hs]

theorem asegurarAutos_of_not_first (e : Entorno) (s : Servidor) (h : s.isFirstTime = false) :
    asegurarAutos e s = some s := by
  simp [asegurarAutos, h]

theorem solicitarViaje_of_not_first (e : Entorno) (s : Servidor) (p : Posicion)
    (h : s.isFirstTime = false) : solicitarViaje e s p = some (asignar e s p) := by
  simp [solicitarViaje, asegurarAutos_of_not_first e s h]

/-- `SolicitarViaje` with every plate read in full. -/
def solicitarEntero (e : Entorno) (s : Servidor) (p : Posicion) : Servidor × InfoAuto :=
  asignar e (conFlota e s) p

/-- It is what `SolicitarViaje` does when the plates fit. -/
theorem solicitarViaje_of_caben (e : Entorno) (s : Servidor) (p : Posicion)
    (h : s.isFirstTime = true → CabenPlacas e) :
    solicitarViaje e s p = some (solicitarEntero e s p) := by
  rw [solicitarViaje, (asegurarAutos_eq_some e s _).mpr ⟨h, rfl⟩, Option.map_some, solicitarEntero]

theorem solicitarViaje_eq_none (e : Entorno) (s : Servidor) (p : Posicion)
    (hs : s.isFirstTime = true) (h : ¬ CabenPlacas e) : solicitarViaje e s p = none := by
  simp [solicitarViaje, asegurarAutos, inicializarAutos, hs, h]

/-- The first available car. -/
def primerAuto (autos : Fin NUM_AUTOS → InfoAuto) (is : List (Fin NUM_AUTOS)) :
    Option (Fin NUM_AUTOS) :=
  is.find? fun i => (autos i).disponible = 1

theorem primerAuto_disponible (autos : Fin NUM_AUTOS → InfoAuto) (is : List (Fin NUM_AUTOS))
    (i : Fin NUM_AUTOS) (h : primerAuto autos is = some i) : (autos i).disponible = 1 := by
  have := List.find?_some h
  exact of_decide_eq_true this

/-- The search ends on the first available car: nothing has been found before it, so the minimum is
still `INFINITY` there. -/
theorem buscarAuto_eq (autos : Fin NUM_AUTOS → InfoAuto) (p : Posicion)
    (is : List (Fin NUM_AUTOS)) (c : Fin NUM_AUTOS) :
    buscarAuto autos p is ⟨c, false, none⟩ =
      match primerAuto autos is with
      | some i => ⟨i, true, some (distancia2 (autos i).posicion p)⟩
      | none => ⟨c, false, none⟩ := by
  induction is with
  | nil => rfl
  | cons i is ih =>
    rw [buscarAuto, primerAuto, List.find?_cons]
    by_cases hi : (autos i).disponible = 1
    · rw [if_pos hi, if_pos (show menor _ none = true from rfl), decide_eq_true hi]
    · rw [if_neg hi, decide_eq_false hi]
      exact ih

theorem busqueda_some (autos : Fin NUM_AUTOS → InfoAuto) (p : Posicion) (i : Fin NUM_AUTOS)
    (h : primerAuto autos (List.finRange NUM_AUTOS) = some i) :
    busqueda autos p = ⟨i, true, some (distancia2 (autos i).posicion p)⟩ := by
  rw [busqueda, buscarAuto_eq, h]

theorem busqueda_none (autos : Fin NUM_AUTOS → InfoAuto) (p : Posicion)
    (h : primerAuto autos (List.finRange NUM_AUTOS) = none) :
    busqueda autos p = ⟨⟨0, by decide⟩, false, none⟩ := by
  rw [busqueda, buscarAuto_eq, h]

/-- A car that is handed out was available. -/
theorem busqueda_disponible (autos : Fin NUM_AUTOS → InfoAuto) (p : Posicion)
    (h : (busqueda autos p).isAvailable = true) :
    (autos (busqueda autos p).available).disponible = 1 := by
  cases hf : primerAuto autos (List.finRange NUM_AUTOS) with
  | none => rw [busqueda_none autos p hf] at h; cases h
  | some i =>
    rw [busqueda_some autos p i hf]
    exact primerAuto_disponible autos _ i hf

theorem asignar_concede (e : Entorno) (s : Servidor) (p : Posicion)
    (h : (busqueda s.autos p).isAvailable = true) :
    let i := (busqueda s.autos p).available
    let a := cotizar e (s.autos i) p
    asignar e s p =
      ({ s with
          autos := Function.update s.autos i { a with disponible := 0 }
          autoDisponible := a
          viajesRealizados := s.viajesRealizados + 1 }, a) := by
  simp [asignar, h]

theorem asignar_rechaza (e : Entorno) (s : Servidor) (p : Posicion)
    (h : (busqueda s.autos p).isAvailable = false) :
    let a := { s.autoDisponible with disponible := 0 }
    asignar e s p = ({ s with autoDisponible := a }, a) := by
  simp [asignar, h]

/-- With all plates set, the search over `is` finds the first match. -/
theorem buscarPlaca_eq_find (autos : Fin NUM_AUTOS → InfoAuto) (f : Fin NUM_AUTOS → Text)
    (hf : ∀ i, (autos i).placa = some (f i)) (placa : Text) (is : List (Fin NUM_AUTOS)) :
    buscarPlaca autos placa is = some (is.find? fun i => f i = placa) := by
  induction is with
  | nil => rfl
  | cons i is ih =>
    unfold buscarPlaca
    rw [hf i, List.find?_cons]
    by_cases h : f i = placa
    · simp [h]
    · simp only [h, decide_false]
      exact ih

/-- The first character of a plate is the index of its car. -/
theorem placaSorteada_inj (e : Entorno) (i j : Fin NUM_AUTOS)
    (h : placaSorteada e i = placaSorteada e j) : i = j := by
  have hi : i.val < 10 := Nat.lt_of_lt_of_le i.isLt (by decide)
  have hj : j.val < 10 := Nat.lt_of_lt_of_le j.isLt (by decide)
  unfold placaSorteada at h
  rw [decimal_of_lt _ hi, decimal_of_lt _ hj] at h
  simp only [List.cons_append, List.cons.injEq] at h
  exact Fin.ext (digitChar_inj _ hi _ hj h.1)

/-- The car of a plate. -/
def autoDe (e : Entorno) (placa : Text) : Option (Fin NUM_AUTOS) :=
  (List.finRange NUM_AUTOS).find? fun i => placaSorteada e i = placa

theorem autoDe_placaSorteada (e : Entorno) (i : Fin NUM_AUTOS) :
    autoDe e (placaSorteada e i) = some i := by
  cases hf : autoDe e (placaSorteada e i) with
  | none =>
    have := List.find?_eq_none.mp hf i (List.mem_finRange i)
    simp at this
  | some j =>
    have hj := List.find?_some hf
    rw [placaSorteada_inj e j i (of_decide_eq_true hj)]

theorem autoDe_eq_some (e : Entorno) (placa : Text) (i : Fin NUM_AUTOS)
    (h : autoDe e placa = some i) : placaSorteada e i = placa := by
  have := List.find?_some h
  exact of_decide_eq_true this

/-- With the plates drawn, the search for the plate of car `i` finds it. -/
theorem buscarPlaca_placaSorteada (e : Entorno) (autos : Fin NUM_AUTOS → InfoAuto)
    (h : ∀ i, (autos i).placa = some (placaSorteada e i)) (i : Fin NUM_AUTOS) :
    buscarPlaca autos (placaSorteada e i) (List.finRange NUM_AUTOS) = some (some i) := by
  rw [buscarPlaca_eq_find autos (placaSorteada e) h]
  exact congrArg some (autoDe_placaSorteada e i)

/-! ## Plates -/

/-- The plates differ, `xdr_string` sends them (`string placa<7>`), and with their NUL they fit in
`char plate[7]`. -/
structure PlacasUtiles (e : Entorno) : Prop where
  distintas : Function.Injective (placaSorteada e)
  enviables : ∀ i, (placaSorteada e i).length ≤ 7
  caben : ∀ i, (placaSorteada e i).length + 1 ≤ 7

/-- One digit for the index and three letters around the number drawn. -/
theorem placaSorteada_length_eq (e : Entorno) (i : Fin NUM_AUTOS) :
    (placaSorteada e i).length = (decimal (argumento e i 0 % 1000)).length + 4 := by
  have hi : i.val < 10 := Nat.lt_of_lt_of_le i.isLt (by decide)
  simp only [placaSorteada, decimal_of_lt _ hi, List.length_append, List.length_cons, List.length_nil]
  omega

theorem placaSorteada_length (e : Entorno) (i : Fin NUM_AUTOS) : (placaSorteada e i).length ≤ 7 := by
  have hn : (decimal (argumento e i 0 % 1000)).length ≤ 3 :=
    (decimal_length_le_iff 3 _ (by decide)).mpr (Nat.mod_lt _ (by decide))
  rw [placaSorteada_length_eq]
  omega

/-- The plates fit when every number drawn has at most two digits. -/
theorem cabenPlacas_iff (e : Entorno) :
    CabenPlacas e ↔ ∀ i : Fin NUM_AUTOS, argumento e i 0 % 1000 < 100 := by
  refine forall_congr' fun i => ?_
  have hn := decimal_length_le_iff 2 (argumento e i 0 % 1000) (by decide)
  rw [placaSorteada_length_eq]
  omega

/-- **The plates are usable exactly when every number drawn has at most two digits**: with three, the
NUL is the eighth byte. -/
theorem placasUtiles_iff (e : Entorno) :
    PlacasUtiles e ↔ ∀ i : Fin NUM_AUTOS, argumento e i 0 % 1000 < 100 := by
  rw [← cabenPlacas_iff]
  exact ⟨fun h => h.caben, fun h => ⟨placaSorteada_inj e, placaSorteada_length e, h⟩⟩

/-- `rand()` always returns 100, so the first plate is `0100WWW`. -/
theorem plate_corto : ¬ ∀ e : Entorno, PlacasUtiles e := by
  intro h
  have hcabe := (h ⟨fun _ => 100, .refl _, 0⟩).caben ⟨0, by decide⟩
  exact absurd hcabe (by decide)

end UberRpc
