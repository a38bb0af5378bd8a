import SistemasDistribuidos.Estructura.Bitacora

/-!
# The nearest vehicle in `Practica02/estructura_server.c`

The first loop of `solicitarViaje` compacts the indices of the available vehicles, in
increasing order; the second keeps a strict running minimum over them.  Together they find
the nearest available vehicle, and among the nearest the one of least index
(`vehiculoElegido_eq_some`).
-/

namespace Estructura

open CText

/-! ## Lemmas -/

/-- The vehicle chosen is available, nearest, and of least index among the nearest. -/
theorem vehiculoElegido_eq_some (v : Fin N → Vehiculo) (p : PosicionPasajero) (i : Fin N)
    (h : vehiculoElegido v p = some i) :
    (v i).disponible = true ∧
    (∀ j, (v j).disponible = true → distancia2 (v i) p ≤ distancia2 (v j) p) ∧
    ∀ j, (v j).disponible = true → distancia2 (v j) p = distancia2 (v i) p → i ≤ j := by
  rw [vehiculoElegido_eq] at h
  exact Indices.argmin_filter (fun j => (v j).disponible) (fun j => distancia2 (v j) p) i h

/-! ## Top theorems -/

/-- **`solicitarViaje` chooses the nearest vehicle.**  With none available it returns NULL and changes
nothing, and only then.  Otherwise it hands out the first nearest available vehicle, with its data
and the fare of its type, and marks it; nothing else changes. -/
theorem solicitarViaje_masCercano (e : Entorno) (s : Servidor) (p : PosicionPasajero)
    (hini : s.vehiculosInicializados = true) (htipo : ∀ i, (s.vehiculos i).tipo ∈ tipos) :
    (solicitarViaje e s p = (s, none) ↔ ∀ i, (s.vehiculos i).disponible = false) ∧
    ((∃ i, (s.vehiculos i).disponible = true) → ∃ i tarifa,
      (s.vehiculos i).disponible = true ∧
      (∀ j, (s.vehiculos j).disponible = true →
        ((s.vehiculos i).posicionX - p.posX) ^ 2 + ((s.vehiculos i).posicionY - p.posY) ^ 2 ≤
          ((s.vehiculos j).posicionX - p.posX) ^ 2 + ((s.vehiculos j).posicionY - p.posY) ^ 2) ∧
      (∀ j, (s.vehiculos j).disponible = true →
        ((s.vehiculos j).posicionX - p.posX) ^ 2 + ((s.vehiculos j).posicionY - p.posY) ^ 2 =
          ((s.vehiculos i).posicionX - p.posX) ^ 2 + ((s.vehiculos i).posicionY - p.posY) ^ 2 → i ≤ j) ∧
      ((s.vehiculos i).tipo, tarifa) ∈ tarifas ∧
      solicitarViaje e s p =
        ({ s with vehiculos := Function.update s.vehiculos i { s.vehiculos i with disponible := false } },
          some ⟨(s.vehiculos i).posicionX, (s.vehiculos i).posicionY, (s.vehiculos i).tipo, tarifa,
            (s.vehiculos i).placa⟩)) := by
  have hs := asegurarVehiculos_of_inicializados e s hini
  have hnone := vehiculoElegido_eq_none s.vehiculos p
  cases hv : vehiculoElegido s.vehiculos p with
  | none =>
    have hres := solicitarViaje_none e s p (by rw [hs]; exact hv)
    rw [hs] at hres
    refine ⟨iff_of_true hres (hnone.mp hv), ?_⟩
    rintro ⟨i, hi⟩
    rw [hnone.mp hv i] at hi
    cases hi
  | some i =>
    have hres := solicitarViaje_some e s p i (by rw [hs]; exact hv)
    rw [hs] at hres
    obtain ⟨hdisp, hmin, hleast⟩ := vehiculoElegido_eq_some s.vehiculos p i hv
    refine ⟨iff_of_false (by simp [hres]) fun hno => ?_, fun _ => ⟨i, _, hdisp, hmin, hleast,
      tarifaDe_mem e _ (htipo i), hres⟩⟩
    rw [hno i] at hdisp
    cases hdisp

/-- A fleet as drawn has types with a fare. -/
theorem Flota.tipo_mem {e : Entorno} {s : Servidor} (h : Flota e s) (i : Fin N) :
    (s.vehiculos i).tipo ∈ tipos := by
  rw [h.tipo i]
  exact inicializarVehiculos_tipo e i

/-- The draws `37 * n` put the vehicles at (85, 22), (44, 81), (3, 40), (62, 99) and (21, 58). -/
def entornoDisperso : Entorno := ⟨fun n => 37 * n, .refl _, 0⟩

/-- A first passenger at (20, 50) is given vehicle 4 and the next one vehicle 2, the nearest that is
left. -/
theorem solicitarViaje_masCercano_dos :
    ∃ s tarifa, s = (solicitarViaje entornoDisperso (inicial entornoDisperso) ⟨20, 50⟩).1 ∧
      (s.vehiculos ⟨4, by decide⟩).disponible = false ∧
      (solicitarViaje entornoDisperso s ⟨20, 50⟩).2 =
        some ⟨3, 40, "UberPlanet".toList, tarifa, "518JUF".toList⟩ ∧
      ("UberPlanet".toList, tarifa) ∈ tarifas := by
  let s := (solicitarViaje entornoDisperso (inicial entornoDisperso) ⟨20, 50⟩).1
  let dos : Fin N := ⟨2, by decide⟩
  have hf : Flota entornoDisperso s := (flota_inicial entornoDisperso).atender (.solicitarViaje ⟨20, 50⟩)
  obtain ⟨i, tarifa, hdisp, hmin, -, ht, hres⟩ := (solicitarViaje_masCercano entornoDisperso s ⟨20, 50⟩
    hf.inicializados hf.tipo_mem).2 ⟨dos, rfl⟩
  have hdos : ∀ i : Fin N, (s.vehiculos i).disponible = true →
      ((s.vehiculos i).posicionX - 20) ^ 2 + ((s.vehiculos i).posicionY - 50) ^ 2 ≤
        ((s.vehiculos dos).posicionX - 20) ^ 2 + ((s.vehiculos dos).posicionY - 50) ^ 2 → i = dos := by
    decide
  obtain rfl := hdos i hdisp (hmin dos rfl)
  obtain ⟨hx, hy, htipo, hplaca⟩ : (s.vehiculos dos).posicionX = 3 ∧ (s.vehiculos dos).posicionY = 40 ∧
      (s.vehiculos dos).tipo = "UberPlanet".toList ∧ (s.vehiculos dos).placa = "518JUF".toList := by
    decide
  rw [htipo] at ht
  rw [hx, hy, htipo, hplaca] at hres
  exact ⟨s, tarifa, rfl, rfl, congrArg Prod.snd hres, ht⟩

end Estructura
