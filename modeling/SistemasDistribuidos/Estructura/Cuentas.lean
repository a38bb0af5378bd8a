import Mathlib.Data.Fintype.Card
import SistemasDistribuidos.Estructura.Bitacora

/-!
# Trips granted and trips ended in `Practica02/estructura_server.c`

`viajes` and `ganancias` grow in `terminarViaje`, which looks for the plate and not at
whether the vehicle is on a trip.  The service is registered over UDP too, so the same
`terminarViaje` may arrive twice; and before the first `solicitarViaje` or
`estadoServicio` the plates are empty strings, which an empty argument matches.  From the
start of the process, over any calls:

    CuentasEnOrden e cs  ↔  every terminarViaje finds no vehicle, or one on a trip   (cuentas_iff)

Under the right-hand side trips ended and vehicles on a trip add up to trips granted
(`Saldo`).
-/

namespace Estructura

open CText Serve

/-! ## Specification -/

/-- A `solicitarViaje` that returned a vehicle. -/
def concedio (x : Registro) : Bool :=
  match x.reply with
  | .auto (some _) => true
  | _ => false

/-- In no state reached do trips ended outnumber trips granted, and the counters change only when a
`terminarViaje` ends the trip of an unavailable vehicle. -/
structure CuentasEnOrden (e : Entorno) (calls : List Llamada) : Prop where
  viajes : ∀ pre, pre <+: calls →
    (final (atender e) servidor0 pre).viajes ≤ (serve (atender e) servidor0 pre).countP concedio
  enCurso : ∀ x ∈ serve (atender e) servidor0 calls,
    (x.after.viajes ≠ x.before.viajes ∨ x.after.ganancias ≠ x.before.ganancias) →
      ∃ a i, x.call = .terminarViaje a ∧ buscarPlaca x.before.vehiculos a.placa = some i ∧
        (x.before.vehiculos i).disponible = false

/-- The vehicle that `a` finds in `s`, if any, is one of an initialised fleet and on a trip. -/
def EnViaje (s : Servidor) (a : TerminarViajeArgs) : Prop :=
  ∀ i, buscarPlaca s.vehiculos a.placa = some i →
    s.vehiculosInicializados = true ∧ (s.vehiculos i).disponible = false

/-- The entry is not a `terminarViaje`, or one that meets `EnViaje`. -/
def Oportuna (x : Registro) : Prop := ∀ a, x.call = .terminarViaje a → EnViaje x.before a

/-! ## Lemmas -/

def ocupados (v : Fin N → Vehiculo) : Finset (Fin N) :=
  Finset.univ.filter fun i => (v i).disponible = false

theorem ocupados_ocupar (v : Fin N → Vehiculo) (i : Fin N) :
    ocupados (ocupar v i) = insert i (ocupados v) := by
  ext j
  by_cases hj : j = i
  · subst hj; simp [ocupados]
  · simp [ocupados, ocupar_of_ne _ _ _ hj, hj]

theorem ocupados_liberar (v : Fin N → Vehiculo) (i : Fin N) (p : PosicionFinal) :
    ocupados (liberar v i p) = (ocupados v).erase i := by
  ext j
  by_cases hj : j = i
  · subst hj; simp [ocupados]
  · simp [ocupados, liberar_of_ne _ _ _ _ hj, hj]

/-- Two of the handlers only see an initialised fleet. -/
theorem atender_asegurar (e : Entorno) (s : Servidor) (c : Llamada)
    (hc : ∀ a, c ≠ .terminarViaje a) : atender e s c = atender e (asegurarVehiculos e s) c := by
  have hs := asegurarVehiculos_of_inicializados e _ (asegurarVehiculos_inicializados e s)
  cases c with
  | solicitarViaje p => simp [atender, solicitarViaje, hs]
  | terminarViaje a => exact absurd rfl (hc a)
  | estadoServicio => simp [atender, estadoServicio, hs]

@[simp] theorem asegurarVehiculos_viajes (e : Entorno) (s : Servidor) :
    (asegurarVehiculos e s).viajes = s.viajes := by
  unfold asegurarVehiculos
  split <;> rfl

@[simp] theorem asegurarVehiculos_ganancias (e : Entorno) (s : Servidor) :
    (asegurarVehiculos e s).ganancias = s.ganancias := by
  unfold asegurarVehiculos
  split <;> rfl

/-- The counters change in `terminarViaje` only. -/
theorem atender_contadores (e : Entorno) (s : Servidor) (c : Llamada)
    (hc : ∀ a, c ≠ .terminarViaje a) :
    (atender e s c).1.viajes = s.viajes ∧ (atender e s c).1.ganancias = s.ganancias := by
  cases c with
  | solicitarViaje p =>
    simp only [atender, solicitarViaje]
    split <;> exact ⟨asegurarVehiculos_viajes e s, asegurarVehiculos_ganancias e s⟩
  | terminarViaje a => exact absurd rfl (hc a)
  | estadoServicio => exact ⟨asegurarVehiculos_viajes e s, asegurarVehiculos_ganancias e s⟩

theorem terminarViaje_of_none (s : Servidor) (a : TerminarViajeArgs)
    (h : buscarPlaca s.vehiculos a.placa = none) : terminarViaje s a = (s, false) := by
  simp [terminarViaje, h]

/-- Before the fleet is initialised nothing has been granted. -/
theorem sin_iniciar (e : Entorno) (calls : List Llamada)
    (h : (final (atender e) servidor0 calls).vehiculosInicializados = false) :
    (serve (atender e) servidor0 calls).countP concedio = 0 := by
  refine history_invariant (atender e)
    (fun s log => s.vehiculosInicializados = false → log.countP concedio = 0) servidor0 []
    (by simp) (fun s log c ih hini => ?_) calls h
  cases c with
  | solicitarViaje p =>
    rw [show (atender e s (.solicitarViaje p)).1 = (solicitarViaje e s p).1 from rfl,
      solicitarViaje_inicializados] at hini
    cases hini
  | terminarViaje a =>
    have hs := ih ((terminarViaje_inicializados s a).symm.trans hini)
    simp [List.countP_append, hs, concedio, atender]
  | estadoServicio =>
    rw [show (atender e s .estadoServicio).1 = asegurarVehiculos e s from rfl,
      asegurarVehiculos_inicializados] at hini
    cases hini

/-! ## Balance -/

/-- Trips ended and vehicles on a trip make up the trips granted. -/
structure Saldo (s : Servidor) (log : List Registro) : Prop where
  antes : s.vehiculosInicializados = false → s.viajes = 0 ∧ log.countP concedio = 0
  despues : s.vehiculosInicializados = true →
    s.viajes + (ocupados s.vehiculos).card = log.countP concedio

theorem saldo_servidor0 : Saldo servidor0 [] := ⟨fun _ => ⟨rfl, rfl⟩, fun h => by cases h⟩

theorem Saldo.asegurar {s : Servidor} {log : List Registro} (h : Saldo s log) (e : Entorno) :
    Saldo (asegurarVehiculos e s) log := by
  cases hs : s.vehiculosInicializados with
  | true =>
    rw [asegurarVehiculos_of_inicializados e s hs]
    exact h
  | false =>
    refine ⟨fun hno => ?_, fun _ => ?_⟩
    · rw [asegurarVehiculos_inicializados] at hno
      cases hno
    · have hlibre : ocupados (inicializarVehiculos e) = ∅ := by simp [ocupados, inicializarVehiculos]
      obtain ⟨h1, h2⟩ := h.antes hs
      simp [asegurarVehiculos, hs, h1, h2, hlibre]

/-- One call on an initialised fleet. -/
theorem Saldo.atender {s : Servidor} {log : List Registro} (h : Saldo s log) (e : Entorno)
    (c : Llamada) (hini : s.vehiculosInicializados = true) (x : Registro)
    (hx : x.reply = (atender e s c).2) (hop : ∀ a, c = .terminarViaje a → EnViaje s a) :
    Saldo (atender e s c).1 (log ++ [x]) := by
  refine ⟨fun hno => ?_, fun _ => ?_⟩
  · rw [atender_inicializados e s c hini] at hno
    cases hno
  have hs := h.despues hini
  rw [List.countP_append, ← hs]
  obtain ⟨p, rfl, -, -, ha⟩ | ⟨p, j, rfl, hv, -, ha⟩ | ⟨a, rfl, -, -, ha⟩ | ⟨a, j, rfl, hb, -, ha⟩ |
    ⟨rfl, -, ha⟩ := atender_cases e s c hini
  · simp [concedio, hx, ha]
  · have hj : j ∉ ocupados s.vehiculos := by
      simp [ocupados, vehiculoElegido_disponible _ p j hv]
    have hcard : (ocupados (Estructura.atender e s (.solicitarViaje p)).1.vehiculos).card =
        (ocupados s.vehiculos).card + 1 := by
      rw [ha, ← Finset.card_insert_of_notMem hj, ← ocupados_ocupar]
    have hviajes : (Estructura.atender e s (.solicitarViaje p)).1.viajes = s.viajes := by rw [ha]
    have hx1 : [x].countP concedio = 1 := by simp [concedio, hx, ha]
    omega
  · simp [concedio, hx, ha]
  · have hj : j ∈ ocupados s.vehiculos := by
      simp [ocupados, (hop a rfl j hb).2]
    have hcard : (ocupados (Estructura.atender e s (.terminarViaje a)).1.vehiculos).card + 1 =
        (ocupados s.vehiculos).card := by
      rw [← Finset.card_erase_add_one hj, ← ocupados_liberar s.vehiculos j a.posicionFinal,
        ← terminarViaje_vehiculos s a j hb]
      rfl
    have hviajes : (Estructura.atender e s (.terminarViaje a)).1.viajes = s.viajes + 1 := by
      rw [ha, terminarViaje_viajes, hb]
      rfl
    have hx0 : [x].countP concedio = 0 := by simp [concedio, hx, ha]
    omega
  · simp [concedio, hx, ha]

/-- A run whose `terminarViaje` calls all come in time keeps the balance. -/
theorem saldo_final (e : Entorno) (calls : List Llamada)
    (h : ∀ x ∈ serve (atender e) servidor0 calls, Oportuna x) :
    Saldo (final (atender e) servidor0 calls) (serve (atender e) servidor0 calls) := by
  refine history_invariant (atender e) (fun s log => (∀ x ∈ log, Oportuna x) → Saldo s log) servidor0
    [] (fun _ => saldo_servidor0) (fun s log c ih hlog => ?_) calls h
  have hs := ih fun x hx => hlog x (List.mem_append_left _ hx)
  have hop : Oportuna (entry (atender e) s c) := hlog _ (by simp)
  by_cases hc : ∃ a, c = .terminarViaje a
  · obtain ⟨a, rfl⟩ := hc
    cases hini : s.vehiculosInicializados with
    | true => exact hs.atender e _ hini _ rfl hop
    | false =>
      -- nothing has that plate yet
      have hb : buscarPlaca s.vehiculos a.placa = none := by
        cases hb : buscarPlaca s.vehiculos a.placa with
        | none => rfl
        | some i =>
          have := (hop a rfl i hb).1
          rw [entry_before, hini] at this
          cases this
      have ha : atender e s (.terminarViaje a) = (s, .fin false) := by
        simp [atender, terminarViaje_of_none s a hb]
      rw [ha]
      refine ⟨fun _ => ?_, fun hno => by rw [hini] at hno; cases hno⟩
      simp [(hs.antes hini), concedio, ha]
  · push Not at hc
    rw [atender_asegurar e s c hc]
    exact (hs.asegurar e).atender e c (asegurarVehiculos_inicializados e s) _
      (by rw [entry_reply, atender_asegurar e s c hc]) fun a ha => absurd ha (hc a)

/-! ## Top theorems -/

/-- **Trips ended never outnumber trips granted exactly when every `terminarViaje` comes in time.** -/
theorem cuentas_iff (e : Entorno) (calls : List Llamada) :
    CuentasEnOrden e calls ↔
      ∀ x ∈ serve (atender e) servidor0 calls, ∀ a, x.call = .terminarViaje a → EnViaje x.before a := by
  constructor
  · intro h x hx a ha i hi
    obtain ⟨pre, c, post, rfl, rfl⟩ := (mem_serve _ _ _ _).mp hx
    obtain rfl : c = .terminarViaje a := ha
    rw [entry_before] at hi ⊢
    have hviajes := terminarViaje_viajes (final (atender e) servidor0 pre) a
    rw [hi, Option.isSome_some, if_pos rfl] at hviajes
    have hcambia : (atender e (final (atender e) servidor0 pre) (.terminarViaje a)).1.viajes =
        (final (atender e) servidor0 pre).viajes + 1 := hviajes
    constructor
    · cases hini : (final (atender e) servidor0 pre).vehiculosInicializados with
      | true => rfl
      | false =>
        -- a trip has ended and none was granted
        have hle := h.viajes (pre ++ [.terminarViaje a]) ⟨post, by simp⟩
        have h0 := sin_iniciar e pre hini
        rw [final_append, serve_append, List.countP_append, h0] at hle
        have hnuevo : [entry (atender e) (final (atender e) servidor0 pre) (.terminarViaje a)].countP
            concedio = 0 := by simp [concedio, atender]
        have hle' : (atender e (final (atender e) servidor0 pre) (.terminarViaje a)).1.viajes ≤
            0 + [entry (atender e) (final (atender e) servidor0 pre) (.terminarViaje a)].countP
              concedio := hle
        omega
    · obtain ⟨a', j, ha', hj, hocupado⟩ := h.enCurso _ hx (.inl (by
        rw [entry_after, entry_before, hcambia]; omega))
      obtain rfl : a = a' := by simpa using ha'
      rw [entry_before, hi] at hj
      rw [Option.some.inj hj]
      exact hocupado
  · intro h
    refine ⟨?_, ?_⟩
    · rintro pre ⟨post, rfl⟩
      have hs := saldo_final e pre fun x hx => h x (by
        rw [serve_append]; exact List.mem_append_left _ hx)
      cases hini : (final (atender e) servidor0 pre).vehiculosInicializados with
      | true => have := hs.despues hini; omega
      | false => have := hs.antes hini; omega
    · intro x hx hcambia
      obtain ⟨pre, c, post, rfl, rfl⟩ := (mem_serve _ _ _ _).mp hx
      simp only [entry_after, entry_before, entry_call] at hcambia ⊢
      by_cases hc : ∃ a, c = .terminarViaje a
      · obtain ⟨a, rfl⟩ := hc
        cases hb : buscarPlaca (final (atender e) servidor0 pre).vehiculos a.placa with
        | none => simp [atender, terminarViaje_of_none _ a hb] at hcambia
        | some i => exact ⟨a, i, rfl, hb, (h _ hx a rfl i hb).2⟩
      · push Not at hc
        obtain ⟨h1, h2⟩ := atender_contadores e (final (atender e) servidor0 pre) c hc
        rcases hcambia with hcambia | hcambia
        · exact absurd h1 hcambia
        · exact absurd h2 hcambia

/-- Every draw is zero, and the fleet has the plate `000AAA`: one trip is granted, and its
`terminarViaje` is delivered twice. -/
theorem terminado_dos_veces : ¬ ∀ (e : Entorno) (calls : List Llamada), CuentasEnOrden e calls := by
  intro h
  let a : TerminarViajeArgs := ⟨⟨3, 4⟩, 10, "000AAA".toList⟩
  have hle := (h ⟨fun _ => 0, .refl _, 0⟩
    [.solicitarViaje ⟨0, 0⟩, .terminarViaje a, .terminarViaje a]).viajes _ (List.prefix_refl _)
  revert hle
  decide

end Estructura
