import Mathlib.Data.Int.ConditionallyCompleteOrder
import Mathlib.Data.Nat.Sqrt
import Mathlib.Logic.Equiv.Defs
import SistemasDistribuidos.Lib.CText
import SistemasDistribuidos.Lib.Indices

/-!
# The RPC server of `Practica02/estructura_server.c`

`N` vehicles in a global array, filled by `inicializar_vehiculos` the first time
`solicitarViaje` or `estadoServicio` runs (`terminarViaje` does not initialise).

* `solicitarViaje` compacts the indices of the available vehicles, keeps the
  strictly nearest of them and marks it unavailable; with no vehicle available it
  returns NULL.
* `terminarViaje` looks for the first vehicle whose `placa` is the caller's and
  makes it available at the final position; if there is none it returns NULL.
* `estadoServicio` reports the two counters and counts the available vehicles.

The doubles of the source are read exactly: distances are compared through the
integer squared distance, and `(int)(sqrt(d2) * costo)` is the integer part of the
exact product.  The `int` counters `ganancias` and `viajes` are read without
wrap-around.

C leaves open in which order the four `rand()` among the arguments of one `sprintf` are
called; the order is part of `Entorno`.
-/

namespace Estructura

open CText

def N : Nat := 5

/-- The arguments of the `sprintf` of a plate that call `rand()`. -/
def sorteos : Nat := 4

instance : NeZero sorteos := ⟨by decide⟩

/-- What the server takes from outside: the successive values of `rand()`, the order in which the
compiler calls the four `rand()` of `sprintf`, and what `malloc` leaves in the field `tarifa`. -/
structure Entorno where
  rand : Nat → Nat
  orden : Equiv.Perm (Fin sorteos)
  malloc : Int

structure Vehiculo where
  disponible : Bool
  placa : Text
  tipo : Text
  posicionX : Int
  posicionY : Int
deriving DecidableEq, Repr

structure PosicionPasajero where
  posX : Int
  posY : Int
deriving DecidableEq, Repr

structure PosicionFinal where
  posX : Int
  posY : Int
deriving DecidableEq, Repr

structure InfoAuto where
  posX : Int
  posY : Int
  tipo : Text
  tarifa : Int
  placa : Text
deriving DecidableEq, Repr

structure InfoServicio where
  ganancias : Int
  viajes : Nat
  vehiculosDisponibles : Nat
deriving DecidableEq, Repr

structure TerminarViajeArgs where
  posicionFinal : PosicionFinal
  costoViaje : Int
  placa : Text
deriving DecidableEq, Repr

/-- The globals of the server. -/
structure Servidor where
  vehiculos : Fin N → Vehiculo
  ganancias : Int
  viajes : Nat
  vehiculosInicializados : Bool

/-- Globals start zero-filled. -/
def servidor0 : Servidor where
  vehiculos := fun _ => ⟨false, [], [], 0, 0⟩
  ganancias := 0
  viajes := 0
  vehiculosInicializados := false

/-! ## Algorithm -/

def tipos : List Text := ["UberPlanet".toList, "UberXL".toList, "UberBlack".toList]

/-- The `rand()` in argument `k` of the `sprintf` for vehicle `i`; each loop body draws seven values,
the first four of them here. -/
def argumento (e : Entorno) (i : Fin N) (k : Fin sorteos) : Nat := e.rand (7 * i + e.orden k)

/-- `"%03d%c%c%c"` of the four arguments. -/
def placaSorteada (e : Entorno) (i : Fin N) : Text :=
  decimalPad 3 (argumento e i 0 % 1000) ++
    [letter (argumento e i 1), letter (argumento e i 2), letter (argumento e i 3)]

/-- The four values from which the plate of vehicle `i` is formatted. -/
def sorteoPlaca (e : Entorno) (i : Fin N) : Nat × Nat × Nat × Nat :=
  (argumento e i 0 % 1000, argumento e i 1 % 26, argumento e i 2 % 26, argumento e i 3 % 26)

def inicializarVehiculos (e : Entorno) : Fin N → Vehiculo := fun i =>
  { disponible := true
    placa := placaSorteada e i
    tipo := tipos.get ⟨e.rand (7 * i + 4) % 3, Nat.mod_lt _ (by decide)⟩
    posicionX := (e.rand (7 * i + 5) % 100 : Nat)
    posicionY := (e.rand (7 * i + 6) % 100 : Nat) }

/-- `if (!vehiculos_inicializados) ...`, the first lines of two of the handlers. -/
def asegurarVehiculos (e : Entorno) (s : Servidor) : Servidor :=
  if s.vehiculosInicializados then s
  else { s with vehiculos := inicializarVehiculos e, vehiculosInicializados := true }

/-- The array `vehiculos_disponibles_indices`. -/
def disponiblesIndices (v : Fin N → Vehiculo) : List (Fin N) :=
  (List.finRange N).filter fun i => (v i).disponible

def distancia2 (v : Vehiculo) (p : PosicionPasajero) : Int :=
  (v.posicionX - p.posX) ^ 2 + (v.posicionY - p.posY) ^ 2

/-- One turn of the second loop on `(vehiculo_mas_cercano, distancia_minima)`; `none` is `DBL_MAX`. -/
def acercar (v : Fin N → Vehiculo) (p : PosicionPasajero) (c : Fin N × Option Int) (i : Fin N) :
    Fin N × Option Int :=
  match c.2 with
  | none => (i, some (distancia2 (v i) p))
  | some m => if distancia2 (v i) p < m then (i, some (distancia2 (v i) p)) else c

def vehiculoMasCercano (v : Fin N → Vehiculo) (p : PosicionPasajero) (is : List (Fin N)) : Fin N :=
  (is.foldl (acercar v p) (⟨0, by decide⟩, none)).1

/-- The vehicle the two loops settle on, `none` when `vehiculos_disponibles == 0`. -/
def vehiculoElegido (v : Fin N → Vehiculo) (p : PosicionPasajero) : Option (Fin N) :=
  if (disponiblesIndices v).length = 0 then none
  else some (vehiculoMasCercano v p (disponiblesIndices v))

/-- The chain of `strcmp` on `tipo`; without a match `tarifa` stays as `malloc` left it. -/
def tarifaDe (e : Entorno) (tipo : Text) : Int :=
  if tipo = "UberPlanet".toList then 10
  else if tipo = "UberXL".toList then 15
  else if tipo = "UberBlack".toList then 25
  else e.malloc

def infoAuto (e : Entorno) (v : Vehiculo) : InfoAuto where
  posX := v.posicionX
  posY := v.posicionY
  tipo := v.tipo
  tarifa := tarifaDe e v.tipo
  placa := v.placa

def ocupar (v : Fin N → Vehiculo) (i : Fin N) : Fin N → Vehiculo :=
  Function.update v i { v i with disponible := false }

def solicitarViaje (e : Entorno) (s : Servidor) (arg1 : PosicionPasajero) :
    Servidor × Option InfoAuto :=
  let s := asegurarVehiculos e s
  match vehiculoElegido s.vehiculos arg1 with
  | none => (s, none)
  | some c => ({ s with vehiculos := ocupar s.vehiculos c }, some (infoAuto e (s.vehiculos c)))

/-- `(int)(sqrt(dx * dx + dy * dy) * costo)`, rounding towards zero. -/
def costoDelViaje (dx dy costo : Int) : Int :=
  costo.sign * Nat.sqrt ((dx ^ 2 + dy ^ 2) * costo ^ 2).toNat

/-- The search of `terminarViaje`: the first vehicle with that plate. -/
def buscarPlaca (v : Fin N → Vehiculo) (placa : Text) : Option (Fin N) :=
  (List.finRange N).find? fun i => (v i).placa = placa

def liberar (v : Fin N → Vehiculo) (i : Fin N) (p : PosicionFinal) : Fin N → Vehiculo :=
  Function.update v i { v i with disponible := true, posicionX := p.posX, posicionY := p.posY }

/-- The Boolean is whether the handler returns `&result` rather than NULL. -/
def terminarViaje (s : Servidor) (arg1 : TerminarViajeArgs) : Servidor × Bool :=
  match buscarPlaca s.vehiculos arg1.placa with
  | none => (s, false)
  | some i =>
    ({ s with
        vehiculos := liberar s.vehiculos i arg1.posicionFinal
        ganancias := s.ganancias + costoDelViaje (arg1.posicionFinal.posX - (s.vehiculos i).posicionX)
          (arg1.posicionFinal.posY - (s.vehiculos i).posicionY) arg1.costoViaje
        viajes := s.viajes + 1 }, true)

def estadoServicio (e : Entorno) (s : Servidor) : Servidor × InfoServicio :=
  let s := asegurarVehiculos e s
  (s, { ganancias := s.ganancias
        viajes := s.viajes
        vehiculosDisponibles := (List.finRange N).countP fun i => (s.vehiculos i).disponible })

/-! ## Lemmas -/

section Fleet

variable (v : Fin N → Vehiculo)

@[simp] theorem ocupar_self (i : Fin N) : ocupar v i i = { v i with disponible := false } := by
  simp [ocupar]

theorem ocupar_of_ne (i j : Fin N) (h : j ≠ i) : ocupar v i j = v j := by
  simp [ocupar, h]

@[simp] theorem ocupar_placa (i j : Fin N) : (ocupar v i j).placa = (v j).placa := by
  by_cases h : j = i
  · subst h; simp
  · rw [ocupar_of_ne v i j h]

@[simp] theorem liberar_self (i : Fin N) (p : PosicionFinal) :
    liberar v i p i = { v i with disponible := true, posicionX := p.posX, posicionY := p.posY } := by
  simp [liberar]

theorem liberar_of_ne (i j : Fin N) (p : PosicionFinal) (h : j ≠ i) : liberar v i p j = v j := by
  simp [liberar, h]

@[simp] theorem liberar_placa (i j : Fin N) (p : PosicionFinal) :
    (liberar v i p j).placa = (v j).placa := by
  by_cases h : j = i
  · subst h; simp
  · rw [liberar_of_ne v i j p h]

theorem mem_disponiblesIndices (i : Fin N) :
    i ∈ disponiblesIndices v ↔ (v i).disponible = true := by
  simp [disponiblesIndices]

/-- The second loop keeps the first nearest vehicle of the compacted list and its distance. -/
theorem acercar_foldl (p : PosicionPasajero) (is : List (Fin N)) (c : Fin N) :
    is.foldl (acercar v p) (c, none) =
      ((is.argmin fun i => distancia2 (v i) p).getD c,
        (is.argmin fun i => distancia2 (v i) p).map fun i => distancia2 (v i) p) := by
  induction is using List.reverseRecOn with
  | nil => rfl
  | append_singleton is i ih =>
    rw [List.foldl_append, ih, List.argmin_concat, List.foldl_cons, List.foldl_nil, acercar]
    cases is.argmin fun i => distancia2 (v i) p with
    | none => rfl
    | some c =>
      simp only [Option.map_some, Option.getD_some]
      split <;> rfl

/-- What the two loops settle on: vehicle 0, the initial candidate, is never left over. -/
theorem vehiculoElegido_eq (p : PosicionPasajero) :
    vehiculoElegido v p = (disponiblesIndices v).argmin fun i => distancia2 (v i) p := by
  unfold vehiculoElegido vehiculoMasCercano
  split
  · next hl => rw [List.eq_nil_of_length_eq_zero hl]; rfl
  · next hl =>
    cases hc : (disponiblesIndices v).argmin fun i => distancia2 (v i) p with
    | none => exact absurd (by rw [List.argmin_eq_none.mp hc]; rfl) hl
    | some c => rw [acercar_foldl, hc]; rfl

/-- A vehicle that is handed out was available. -/
theorem vehiculoElegido_disponible (p : PosicionPasajero) (i : Fin N)
    (h : vehiculoElegido v p = some i) : (v i).disponible = true := by
  rw [vehiculoElegido_eq] at h
  exact (mem_disponiblesIndices v i).mp (List.argmin_mem h)

theorem vehiculoElegido_eq_none (p : PosicionPasajero) :
    vehiculoElegido v p = none ↔ ∀ i, (v i).disponible = false := by
  rw [vehiculoElegido_eq, List.argmin_eq_none, List.eq_nil_iff_forall_not_mem]
  simp [mem_disponiblesIndices]

/-- The search stops at the least index with that plate. -/
theorem buscarPlaca_eq_some_iff (placa : Text) (i : Fin N) :
    buscarPlaca v placa = some i ↔ (v i).placa = placa ∧ ∀ j, j < i → (v j).placa ≠ placa := by
  rw [buscarPlaca, Indices.find?_eq_some]
  simp

theorem buscarPlaca_eq_none (placa : Text) :
    buscarPlaca v placa = none ↔ ∀ i, (v i).placa ≠ placa := by
  rw [buscarPlaca, Indices.find?_eq_none]
  simp

theorem buscarPlaca_eq_some (placa : Text) (i : Fin N) (h : buscarPlaca v placa = some i) :
    (v i).placa = placa :=
  ((buscarPlaca_eq_some_iff v placa i).mp h).1

theorem buscarPlaca_le (placa : Text) (i j : Fin N) (h : buscarPlaca v placa = some i)
    (hj : (v j).placa = placa) : i ≤ j := by
  by_contra hlt
  exact ((buscarPlaca_eq_some_iff v placa i).mp h).2 j (not_le.mp hlt) hj

theorem buscarPlaca_isSome (placa : Text) (j : Fin N) (hj : (v j).placa = placa) :
    ∃ i, buscarPlaca v placa = some i := by
  rw [← Option.ne_none_iff_exists', ne_eq, buscarPlaca_eq_none]
  exact fun h => h j hj

end Fleet

/-- Three padded digits and three letters: the plate determines its draws. -/
theorem placaSorteada_inj (e : Entorno) (i j : Fin N) :
    placaSorteada e i = placaSorteada e j ↔ sorteoPlaca e i = sorteoPlaca e j := by
  have hi : argumento e i 0 % 1000 < 1000 := Nat.mod_lt _ (by decide)
  have hj : argumento e j 0 % 1000 < 1000 := Nat.mod_lt _ (by decide)
  unfold placaSorteada sorteoPlaca
  constructor
  · intro h
    obtain ⟨h1, h2⟩ := List.append_inj h
      (by rw [decimalPad_three_length _ hi, decimalPad_three_length _ hj])
    simp only [List.cons.injEq, and_true, letter_inj] at h2
    rw [decimalPad_three_inj _ _ hi hj h1, h2.1, h2.2.1, h2.2.2]
  · intro h
    simp only [Prod.mk.injEq, ← letter_inj] at h
    rw [h.1, h.2.1, h.2.2.1, h.2.2.2]

theorem asegurarVehiculos_inicializados (e : Entorno) (s : Servidor) :
    (asegurarVehiculos e s).vehiculosInicializados = true := by
  unfold asegurarVehiculos
  split
  · assumption
  · rfl

theorem asegurarVehiculos_of_inicializados (e : Entorno) (s : Servidor)
    (h : s.vehiculosInicializados = true) : asegurarVehiculos e s = s := by
  simp [asegurarVehiculos, h]

/-! ## Handlers -/

theorem solicitarViaje_none (e : Entorno) (s : Servidor) (p : PosicionPasajero)
    (h : vehiculoElegido (asegurarVehiculos e s).vehiculos p = none) :
    solicitarViaje e s p = (asegurarVehiculos e s, none) := by
  simp [solicitarViaje, h]

theorem solicitarViaje_some (e : Entorno) (s : Servidor) (p : PosicionPasajero) (i : Fin N)
    (h : vehiculoElegido (asegurarVehiculos e s).vehiculos p = some i) :
    solicitarViaje e s p =
      ({ asegurarVehiculos e s with vehiculos := ocupar (asegurarVehiculos e s).vehiculos i },
        some (infoAuto e ((asegurarVehiculos e s).vehiculos i))) := by
  simp [solicitarViaje, h]

theorem solicitarViaje_inicializados (e : Entorno) (s : Servidor) (p : PosicionPasajero) :
    (solicitarViaje e s p).1.vehiculosInicializados = true := by
  have h := asegurarVehiculos_inicializados e s
  simp only [solicitarViaje]
  split <;> exact h

theorem solicitarViaje_placa (e : Entorno) (s : Servidor) (p : PosicionPasajero) (i : Fin N) :
    ((solicitarViaje e s p).1.vehiculos i).placa = ((asegurarVehiculos e s).vehiculos i).placa := by
  cases h : vehiculoElegido (asegurarVehiculos e s).vehiculos p with
  | none => rw [solicitarViaje_none e s p h]
  | some c => rw [solicitarViaje_some e s p c h]; exact ocupar_placa _ _ _

theorem terminarViaje_inicializados (s : Servidor) (a : TerminarViajeArgs) :
    (terminarViaje s a).1.vehiculosInicializados = s.vehiculosInicializados := by
  unfold terminarViaje
  split <;> rfl

theorem terminarViaje_placa (s : Servidor) (a : TerminarViajeArgs) (i : Fin N) :
    ((terminarViaje s a).1.vehiculos i).placa = (s.vehiculos i).placa := by
  unfold terminarViaje
  split
  · rfl
  · exact liberar_placa _ _ _ _

theorem terminarViaje_vehiculos (s : Servidor) (a : TerminarViajeArgs) (i : Fin N)
    (h : buscarPlaca s.vehiculos a.placa = some i) :
    (terminarViaje s a).1.vehiculos = liberar s.vehiculos i a.posicionFinal := by
  simp [terminarViaje, h]

end Estructura
