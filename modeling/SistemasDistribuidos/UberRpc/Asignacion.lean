import SistemasDistribuidos.UberRpc.Llamadas

/-!
# The car `SolicitarViaje` assigns in `Practica02_2/UBER_Servidor.c`

* `solicitarViaje_correcto`: it grants exactly when a car is available, quotes the fare
  of that car's type for the whole kilometres to the passenger, changes nothing but what
  the grant is about, and always replies with a plate that `xdr_InfoAuto` can encode.
* The loop that looks for the nearest car leaves at the first available one, whose
  distance is always below `INFINITY`.  So the car assigned is a nearest one exactly when
  the available car of least index is (`masCercano_iff`).
-/

namespace UberRpc

open CText Serve

/-! ## Specification -/

/-- The fare per kilometre of each type. -/
def tarifas : List (Nat × Int) := [(1, 10), (2, 15), (3, 25)]

/-- Reached by calls of which the first is `SolicitarViaje`. -/
def Servida (e : Entorno) (s : Servidor) : Prop :=
  ∃ p calls, final (proceso e) (some servidor0) (.solicitarViaje p :: calls) = some s

/-- If some car of the fleet found by the search is available, the one returned is, and no available
car is nearer. -/
def MasCercano (e : Entorno) (s : Servidor) (p : Posicion) : Prop :=
  ∀ t, asegurarAutos e s = some t → (∃ i, (t.autos i).disponible = 1) →
    ∃ u info i, solicitarViaje e s p = some (u, info) ∧ info.placa = (t.autos i).placa ∧
      (t.autos i).disponible = 1 ∧
      ∀ j, (t.autos j).disponible = 1 →
        (p.x - (t.autos i).posicion.x) ^ 2 + (p.y - (t.autos i).posicion.y) ^ 2 ≤
          (p.x - (t.autos j).posicion.x) ^ 2 + (p.y - (t.autos j).posicion.y) ^ 2

/-! ## Lemmas -/

theorem Servida.flota {e : Entorno} {s : Servidor} (h : Servida e s) : Flota e s := by
  obtain ⟨p, calls, hf⟩ := h
  have hc := caben_of_final e p calls (by simp [hf])
  obtain ⟨t, ht, hflota, -⟩ := (sigue_final e hc p calls).vivo
  rw [hf] at ht
  rw [Option.some.inj ht]
  exact hflota

/-- While the process lives, the fleet its search finds is as `Flota` says. -/
theorem Alcanza.flota {e : Entorno} {s t : Servidor} (h : Alcanza e s)
    (ht : asegurarAutos e s = some t) : Flota e t := by
  obtain ⟨calls, hf⟩ := h
  have hinv : ∀ t, final (proceso e) (some servidor0) calls = some t → t = servidor0 ∨ Flota e t := by
    refine final_invariant (proceso e) (fun os => ∀ t, os = some t → t = servidor0 ∨ Flota e t)
      (some servidor0) (fun t ht => .inl (Option.some.inj ht).symm) (fun os c ih t ht => ?_) calls
    cases os with
    | none => cases ht
    | some s =>
      rcases ih s rfl with rfl | hs
      · cases c with
        | solicitarViaje p =>
          have hc := caben_of_final e p [] (by rw [final, ht, final]; simp)
          obtain ⟨u, hu, hflota, -⟩ := (sigue_primera e hc p).vivo
          rw [hu] at ht
          exact .inr (Option.some.inj ht ▸ hflota)
        | terminarViaje v => cases ht
        | estadoServicio => exact .inl (Option.some.inj ht).symm
      · obtain ⟨u, hu, hflota, -⟩ := hs.proceso c
        rw [hu] at ht
        exact .inr (Option.some.inj ht ▸ hflota)
  obtain ⟨-, rfl⟩ := (asegurarAutos_eq_some e s t).mp ht
  rcases hinv s hf with rfl | hs
  · exact flota_conFlota e
  · rwa [conFlota_of_not_first e s hs.primera]

theorem distancia2_nonneg (origen destino : Posicion) : 0 ≤ distancia2 origen destino := by
  unfold distancia2
  positivity

/-- The quote: the fare of the type times the whole kilometres. -/
theorem cotizar_spec (e : Entorno) (a : InfoAuto) (p : Posicion)
    (h : a.tipoUber = 1 ∨ a.tipoUber = 2 ∨ a.tipoUber = 3) :
    ∃ (tarifa : Int) (km : Nat), (a.tipoUber, tarifa) ∈ tarifas ∧
      (km : Int) ^ 2 ≤ distancia2 a.posicion p ∧ distancia2 a.posicion p < ((km : Int) + 1) ^ 2 ∧
      cotizar e a p = { a with tarifa := tarifa * km } := by
  have hcast := Int.toNat_of_nonneg (distancia2_nonneg a.posicion p)
  have hle : ((Nat.sqrt (distancia2 a.posicion p).toNat : Nat) : Int) ^ 2 ≤ distancia2 a.posicion p := by
    rw [← hcast]
    exact_mod_cast Nat.sqrt_le' _
  have hlt : distancia2 a.posicion p < ((Nat.sqrt (distancia2 a.posicion p).toNat : Nat) + 1 : Int) ^ 2 := by
    conv_lhs => rw [← hcast]
    exact_mod_cast Nat.lt_succ_sqrt' _
  rcases h with h | h | h
  · exact ⟨10, _, by simp [tarifas, h], hle, hlt, by simp only [cotizar, h]; rfl⟩
  · exact ⟨15, _, by simp [tarifas, h], hle, hlt, by simp only [cotizar, h]; rfl⟩
  · exact ⟨25, _, by simp [tarifas, h], hle, hlt, by simp only [cotizar, h]; rfl⟩

/-! ## Top theorems -/

/-- **`SolicitarViaje` grants or refuses correctly.**  It grants exactly when some car is available, and
then one such car, at the fare of its type for each whole kilometre; a refusal changes no car and no
counter.  In both cases the reply has a plate, of a length `xdr_InfoAuto` accepts. -/
theorem solicitarViaje_correcto (e : Entorno) (s : Servidor) (h : Servida e s) (p : Posicion) :
    ∃ t info, solicitarViaje e s p = some (t, info) ∧
    (info.disponible = 1 ↔ ∃ i, (s.autos i).disponible = 1) ∧
    ((∃ i, (s.autos i).disponible = 1) → ∃ (i : Fin NUM_AUTOS) (tarifa : Int) (km : Nat),
      (s.autos i).disponible = 1 ∧ ((s.autos i).tipoUber, tarifa) ∈ tarifas ∧
      (km : Int) ^ 2 ≤ (p.x - (s.autos i).posicion.x) ^ 2 + (p.y - (s.autos i).posicion.y) ^ 2 ∧
      (p.x - (s.autos i).posicion.x) ^ 2 + (p.y - (s.autos i).posicion.y) ^ 2 < ((km : Int) + 1) ^ 2 ∧
      info = { s.autos i with tarifa := tarifa * km } ∧
      t.autos = Function.update s.autos i { s.autos i with disponible := 0, tarifa := tarifa * km } ∧
      t.viajesRealizados = s.viajesRealizados + 1 ∧ t.gananciaTotal = s.gananciaTotal) ∧
    ((∀ i, (s.autos i).disponible ≠ 1) → t.autos = s.autos ∧
      t.viajesRealizados = s.viajesRealizados ∧ t.gananciaTotal = s.gananciaTotal) ∧
    (∀ i, (s.autos i).tipoUber = 1 ∨ (s.autos i).tipoUber = 2 ∨ (s.autos i).tipoUber = 3) ∧
    ∃ placa, info.placa = some placa ∧ placa.length ≤ 7 := by
  have hs := h.flota
  have htipo := fun i => (hs.autos i).tipo
  rcases hs.solicitarViaje p with ⟨hno, hres⟩ | ⟨i, hi, hres⟩
  · have hex : ¬ ∃ i, (s.autos i).disponible = 1 := by
      rintro ⟨i, hi⟩
      exact hno i hi
    -- the whole fleet is taken, so the static record has a plate
    obtain ⟨j, hj⟩ := hs.registro ⟨⟨0, by decide⟩, hno _⟩
    exact ⟨_, _, hres, iff_of_false (by simp) hex, fun h => absurd h hex, fun _ => ⟨rfl, rfl, rfl⟩,
      htipo, placaSorteada e j, hj, placaSorteada_length e j⟩
  · have hdisp := primerAuto_disponible s.autos _ i hi
    obtain ⟨tarifa, km, ht, hle, hlt, hcot⟩ := cotizar_spec e (s.autos i) p (htipo i)
    rw [hcot] at hres
    exact ⟨_, _, hres, iff_of_true hdisp ⟨i, hdisp⟩,
      fun _ => ⟨i, tarifa, km, hdisp, ht, hle, hlt, rfl, rfl, rfl, rfl⟩,
      fun hno => absurd hdisp (hno i), htipo, placaSorteada e i, (hs.autos i).placa,
      placaSorteada_length e i⟩

/-- The draws `0, 1, 2, ...` put car `i` at (7 * i, 7 * i + 1). -/
def entornoDisperso : Entorno := ⟨fun n => n, .refl _, 0⟩

/-- With car 0 taken, a passenger at (20, 30) is quoted 25 whole kilometres to car 1 at (7, 8), at 10
each; with all eight taken, the refusal has a plate. -/
theorem solicitarViaje_correcto_nueve :
    (∃ s t info, Servida entornoDisperso s ∧ (s.autos ⟨0, by decide⟩).disponible = 0 ∧
      solicitarViaje entornoDisperso s ⟨20, 30⟩ = some (t, info) ∧ info.posicion = ⟨7, 8⟩ ∧
      info.tarifa = 250 ∧ t.viajesRealizados = s.viajesRealizados + 1) ∧
    ∃ s t info, Servida entornoDisperso s ∧ solicitarViaje entornoDisperso s ⟨20, 30⟩ = some (t, info) ∧
      info.disponible ≠ 1 ∧ ∃ placa, info.placa = some placa ∧ placa.length ≤ 7 := by
  constructor
  · obtain ⟨s, hs, h0, h1, t, info, hres, hpos, htipo⟩ : ∃ s,
        final (proceso entornoDisperso) (some servidor0) [.solicitarViaje ⟨0, 0⟩] = some s ∧
        (s.autos ⟨0, by decide⟩).disponible = 0 ∧ (s.autos ⟨1, by decide⟩).disponible = 1 ∧
        ∃ t info, solicitarViaje entornoDisperso s ⟨20, 30⟩ = some (t, info) ∧
          info.posicion = ⟨7, 8⟩ ∧ info.tipoUber = 1 :=
      ⟨_, rfl, rfl, rfl, _, _, rfl, by decide, by decide⟩
    have hserv : Servida entornoDisperso s := ⟨_, _, hs⟩
    obtain ⟨t', info', hres', -, hconcede, -⟩ :=
      solicitarViaje_correcto entornoDisperso s hserv ⟨20, 30⟩
    obtain ⟨rfl, rfl⟩ : t' = t ∧ info' = info := by simpa [hres] using hres'.symm
    obtain ⟨i, tarifa, km, -, ht, hle, hlt, hinfo, -, hviajes, -⟩ := hconcede ⟨_, h1⟩
    have hi : (s.autos i).posicion = ⟨7, 8⟩ := by simpa [hinfo] using hpos
    have hti : (s.autos i).tipoUber = 1 := by simpa [hinfo] using htipo
    rw [hi] at hle hlt
    obtain rfl : km = 25 := by
      have h1 : (km : Int) < 26 := by nlinarith
      have h2 : 24 < (km : Int) := by nlinarith
      omega
    obtain rfl : tarifa = 10 := by simpa [hti, tarifas] using ht
    exact ⟨s, t', info', hserv, h0, hres, hpos, by rw [hinfo]; rfl, hviajes⟩
  · obtain ⟨s, hs, hllena⟩ : ∃ s, final (proceso entornoDisperso) (some servidor0)
        (List.replicate 8 (.solicitarViaje ⟨0, 0⟩)) = some s ∧ ∀ i, (s.autos i).disponible ≠ 1 :=
      ⟨_, rfl, by decide⟩
    have hserv : Servida entornoDisperso s := ⟨_, _, hs⟩
    obtain ⟨t, info, hres, hdisp, -, -, -, hplaca⟩ :=
      solicitarViaje_correcto entornoDisperso s hserv ⟨20, 30⟩
    exact ⟨s, t, info, hserv, hres, fun hd => (hdisp.mp hd).elim hllena, hplaca⟩

/-- **The car assigned is a nearest one exactly when the available car of least index is.** -/
theorem masCercano_iff (e : Entorno) (s : Servidor) (h : Alcanza e s) (p : Posicion) :
    MasCercano e s p ↔ ∀ t, asegurarAutos e s = some t →
      ∀ i j, (∀ k, k < i → (t.autos k).disponible ≠ 1) →
        (t.autos i).disponible = 1 → (t.autos j).disponible = 1 →
          (p.x - (t.autos i).posicion.x) ^ 2 + (p.y - (t.autos i).posicion.y) ^ 2 ≤
            (p.x - (t.autos j).posicion.x) ^ 2 + (p.y - (t.autos j).posicion.y) ^ 2 := by
  refine forall₂_congr fun t ht => ?_
  have hflota := h.flota ht
  have hsame : solicitarViaje e s p = solicitarViaje e t p := by
    rw [solicitarViaje, ht, Option.map_some, solicitarViaje_of_not_first e t p hflota.primera]
  rw [hsame]
  rcases hflota.solicitarViaje p with ⟨hno, -⟩ | ⟨c, hc, hres⟩
  · refine iff_of_true ?_ fun i _ _ hi => absurd hi (hno i)
    rintro ⟨i, hi⟩
    exact absurd hi (hno i)
  · obtain ⟨hdisp, hfirst⟩ := (Indices.find?_eq_some _ _).mp hc
    simp only [decide_eq_true_eq, decide_eq_false_iff_not] at hdisp hfirst
    constructor
    · intro hnear i j hbefore hi hj
      -- both `i` and the car returned are the first available one
      obtain rfl : i = c := by
        rcases lt_trichotomy i c with hlt | heq | hlt
        · exact absurd hi (hfirst i hlt)
        · exact heq
        · exact absurd hdisp (hbefore c hlt)
      obtain ⟨u, info, k, hk, hplaca, -, hmin⟩ := hnear ⟨i, hi⟩
      obtain ⟨-, rfl⟩ := Prod.mk.inj (Option.some.inj (hres.symm.trans hk))
      have hplaca' : (t.autos i).placa = (t.autos k).placa := hplaca
      rw [(hflota.autos i).placa, (hflota.autos k).placa] at hplaca'
      obtain rfl := placaSorteada_inj e i k (Option.some.inj hplaca')
      exact hmin j hj
    · intro hcond _
      exact ⟨_, _, c, hres, rfl, hdisp, fun j hj => hcond c j hfirst hdisp hj⟩

/-- With car 0 taken, a passenger at (0, 0) is given the nearest car that is left, and one at (49, 50)
is not. -/
theorem masCercano_iff_segundo :
    ∃ s, Alcanza entornoDisperso s ∧ (s.autos ⟨0, by decide⟩).disponible = 0 ∧
      MasCercano entornoDisperso s ⟨0, 0⟩ ∧ ¬ MasCercano entornoDisperso s ⟨49, 50⟩ := by
  obtain ⟨s, hs, h0, hini, hcerca, hlejos⟩ : ∃ s, final (proceso entornoDisperso) (some servidor0)
      [.solicitarViaje ⟨0, 0⟩] = some s ∧ (s.autos ⟨0, by decide⟩).disponible = 0 ∧
      asegurarAutos entornoDisperso s = some s ∧
      (∀ i j, (∀ k, k < i → (s.autos k).disponible ≠ 1) →
        (s.autos i).disponible = 1 → (s.autos j).disponible = 1 →
          (0 - (s.autos i).posicion.x) ^ 2 + (0 - (s.autos i).posicion.y) ^ 2 ≤
            (0 - (s.autos j).posicion.x) ^ 2 + (0 - (s.autos j).posicion.y) ^ 2) ∧
      ¬ ∀ i j, (∀ k, k < i → (s.autos k).disponible ≠ 1) →
        (s.autos i).disponible = 1 → (s.autos j).disponible = 1 →
          (49 - (s.autos i).posicion.x) ^ 2 + (50 - (s.autos i).posicion.y) ^ 2 ≤
            (49 - (s.autos j).posicion.x) ^ 2 + (50 - (s.autos j).posicion.y) ^ 2 :=
    ⟨_, rfl, rfl, rfl, by decide, by decide⟩
  have hal : Alcanza entornoDisperso s := ⟨_, hs⟩
  refine ⟨s, hal, h0, (masCercano_iff entornoDisperso s hal ⟨0, 0⟩).mpr fun t ht => ?_, fun hnear => ?_⟩
  · obtain rfl := Option.some.inj (hini.symm.trans ht)
    exact hcerca
  · exact hlejos ((masCercano_iff entornoDisperso s hal ⟨49, 50⟩).mp hnear s hini)

/-- Car 0 draws the position (50, 0) and the other seven (0, 0); a passenger at (0, 0) is given car 0. -/
theorem primero_y_no_cercano :
    ¬ ∀ (e : Entorno) (s : Servidor), Alcanza e s → ∀ p, MasCercano e s p := by
  intro h
  let e : Entorno := ⟨fun n => if n = 0 then 50 else 0, .refl _, 0⟩
  obtain ⟨u, info, i, hres, hplaca, -, hmin⟩ := h e servidor0 ⟨[], rfl⟩ ⟨0, 0⟩ (conFlota e servidor0)
    ((asegurarAutos_eq_some e _ _).mpr ⟨fun _ => by decide, rfl⟩) ⟨⟨0, by decide⟩, rfl⟩
  have hle := hmin ⟨1, by decide⟩ rfl
  obtain rfl : info = (solicitarEntero e servidor0 ⟨0, 0⟩).2 := by
    rw [solicitarViaje_of_caben e servidor0 _ fun _ => by decide] at hres
    rw [Option.some.inj hres]
  obtain rfl : i = ⟨0, by decide⟩ := placaSorteada_inj e _ _ (Option.some.inj hplaca).symm
  revert hle
  decide

end UberRpc
