import SistemasDistribuidos.Lib.CString
import SistemasDistribuidos.Lib.Ledger
import SistemasDistribuidos.Lib.Serve
import SistemasDistribuidos.UberRpc.Servidor

/-!
# Any calls to the server of `Practica02_2/UBER_Servidor.c`

Calls in any order from the start of the process.  Only `SolicitarViaje` fills the fleet;
`TerminarViaje` before it reads through a NULL plate, which kills the process, and
`EstadoServicio` before it counts a fleet of zeros.  The fleet can only be filled when the
plates fit in their buffer.

    Segura e cs  ↔  cs is empty, or starts with SolicitarViaje and the plates fit    (segura_iff)

From the first `SolicitarViaje` on, every call keeps `Flota`.  Its last clause is about
the static record of `SolicitarViaje`: once a car is taken the record holds a plate, so a
refusal, which writes only `disponible`, still replies with one (`solicitarViaje_correcto`).
-/

namespace UberRpc

open CText Ledger Serve

/-! ## Algorithm -/

inductive Llamada where
  | solicitarViaje (posicionPasajero : Posicion)
  | terminarViaje (elPasajero : ViajeInfo)
  | estadoServicio
deriving DecidableEq, Repr

inductive Respuesta where
  | auto (info : InfoAuto)
  | fin
  | servicio (info : InfoServicio)
deriving DecidableEq, Repr

/-- `none` when a NULL plate is compared, and when a plate is written past the end of its buffer. -/
def atender (e : Entorno) (s : Servidor) : Llamada → Option (Servidor × Respuesta)
  | .solicitarViaje p => (solicitarViaje e s p).map fun r => (r.1, .auto r.2)
  | .terminarViaje v => (terminarViaje s v).map fun t => (t, .fin)
  | .estadoServicio => some (s, .servicio (estadoServicio s))

/-- The process, `none` once it has died. -/
def proceso (e : Entorno) : Option Servidor → Llamada → Option Servidor × Option Respuesta :=
  orDead (atender e)

abbrev Registro := Serve.Entry (Option Servidor) Llamada (Option Respuesta)

/-- Some calls lead from the start of the process to `s`. -/
def Alcanza (e : Entorno) (s : Servidor) : Prop :=
  Reaches (proceso e) (some servidor0) (some s)

/-! ## Event log -/

/-- `.grant i`: the reply is car `i`, available.  `.release i`: a `TerminarViaje` with the plate of
car `i` was handled. -/
def movimiento (e : Entorno) (x : Registro) : Move (Fin NUM_AUTOS) :=
  match x.call, x.reply with
  | .solicitarViaje _, some (.auto info) =>
    if info.disponible = 1 then
      match info.placa.bind (autoDe e) with
      | some i => .grant i
      | none => .idle
    else .idle
  | .terminarViaje v, some _ =>
    match autoDe e v.placa with
    | some i => .release i
    | none => .idle
  | _, _ => .idle

/-- Cars unavailable because of a grant. -/
def concedidos (e : Entorno) (log : List Registro) : Nat :=
  (List.finRange NUM_AUTOS).countP fun i => busy (movimiento e) log i

/-- A `TerminarViaje` with a plate of no car changes nothing. -/
def Ajena (x : Registro) : Prop :=
  ∀ s v, x.before = some s → x.call = .terminarViaje v →
    (∀ i, (s.autos i).placa ≠ some v.placa) → x.after = some s

/-- `EstadoServicio` reports as free the cars that are not granted. -/
def Libres (e : Entorno) (pre : List Registro) (x : Registro) : Prop :=
  x.call = .estadoServicio → ∃ info,
    x.reply = some (.servicio info) ∧ info.numAutosLibres = NUM_AUTOS - concedidos e pre

/-- No NULL plate is compared and no plate overruns its buffer, a plate of no car changes nothing, and
the report of free cars is the whole fleet less the cars granted and not given back. -/
structure Segura (e : Entorno) (calls : List Llamada) : Prop where
  viva : final (proceso e) (some servidor0) calls ≠ none
  ajena : ∀ x ∈ serve (proceso e) (some servidor0) calls, Ajena x
  libres : Throughout (Libres e) (serve (proceso e) (some servidor0) calls)

/-! ## The fleet -/

/-- What car `i` always is. -/
structure EsAuto (e : Entorno) (i : Fin NUM_AUTOS) (a : InfoAuto) : Prop where
  placa : a.placa = some (placaSorteada e i)
  tipo : a.tipoUber = 1 ∨ a.tipoUber = 2 ∨ a.tipoUber = 3
  disponible : a.disponible = 0 ∨ a.disponible = 1

/-- The fleet from the first `SolicitarViaje` on. -/
structure Flota (e : Entorno) (s : Servidor) : Prop where
  primera : s.isFirstTime = false
  autos : ∀ i, EsAuto e i (s.autos i)
  /-- Once a car is taken the static record holds the plate of a car. -/
  registro : (∃ i, (s.autos i).disponible ≠ 1) →
    ∃ j, s.autoDisponible.placa = some (placaSorteada e j)

theorem esAuto_inicial (e : Entorno) (i : Fin NUM_AUTOS) : EsAuto e i (flotaSorteada e i) where
  placa := rfl
  tipo := by
    have h : ∀ r < 3, UBER_PLANET + r = 1 ∨ UBER_PLANET + r = 2 ∨ UBER_PLANET + r = 3 := by decide
    exact h (e.rand (7 * i + 2) % UBER_BLACK) (Nat.mod_lt _ (by decide))
  disponible := .inr rfl

theorem flota_conFlota (e : Entorno) : Flota e (conFlota e servidor0) where
  primera := conFlota_isFirstTime e servidor0
  autos := esAuto_inicial e
  registro := by
    rintro ⟨i, hi⟩
    exact absurd rfl hi

/-- Replacing one car by another state of it. -/
theorem Flota.update {e : Entorno} {s : Servidor} (h : Flota e s) (i : Fin NUM_AUTOS) (a : InfoAuto)
    (ha : EsAuto e i a) (j : Fin NUM_AUTOS) : EsAuto e j (Function.update s.autos i a j) :=
  (Function.forall_update_iff s.autos (EsAuto e)).mpr ⟨ha, fun j _ => h.autos j⟩ j

/-- What `SolicitarViaje` does to a fleet. -/
theorem Flota.solicitarViaje {e : Entorno} {s : Servidor} (h : Flota e s) (p : Posicion) :
    ((∀ i, (s.autos i).disponible ≠ 1) ∧
      UberRpc.solicitarViaje e s p =
        some ({ s with autoDisponible := { s.autoDisponible with disponible := 0 } },
          { s.autoDisponible with disponible := 0 })) ∨
    ∃ i, primerAuto s.autos (List.finRange NUM_AUTOS) = some i ∧
      UberRpc.solicitarViaje e s p =
        some ({ s with
            autos := Function.update s.autos i { cotizar e (s.autos i) p with disponible := 0 }
            autoDisponible := cotizar e (s.autos i) p
            viajesRealizados := s.viajesRealizados + 1 },
          cotizar e (s.autos i) p) := by
  rw [solicitarViaje_of_not_first e s p h.primera]
  cases hf : primerAuto s.autos (List.finRange NUM_AUTOS) with
  | none =>
    refine .inl ⟨fun i => ?_, by simp [asignar, busqueda_none _ p hf]⟩
    simpa using (Indices.find?_eq_none _).mp hf i
  | some i => exact .inr ⟨i, rfl, by simp [asignar, busqueda_some _ p i hf]⟩

/-- Everything one call can do from the first `SolicitarViaje` on. -/
theorem Flota.cases {e : Entorno} {s : Servidor} (h : Flota e s) (c : Llamada) :
    (∃ p, c = .solicitarViaje p ∧ (∀ i, (s.autos i).disponible ≠ 1) ∧
      movimiento e (entry (proceso e) (some s) c) = .idle ∧
      proceso e (some s) c =
        (some { s with autoDisponible := { s.autoDisponible with disponible := 0 } },
          some (.auto { s.autoDisponible with disponible := 0 }))) ∨
    (∃ p i, c = .solicitarViaje p ∧ (s.autos i).disponible = 1 ∧
      movimiento e (entry (proceso e) (some s) c) = .grant i ∧
      proceso e (some s) c =
        (some { s with
            autos := Function.update s.autos i { cotizar e (s.autos i) p with disponible := 0 }
            autoDisponible := cotizar e (s.autos i) p
            viajesRealizados := s.viajesRealizados + 1 },
          some (.auto (cotizar e (s.autos i) p)))) ∨
    (∃ v, c = .terminarViaje v ∧ autoDe e v.placa = none ∧
      movimiento e (entry (proceso e) (some s) c) = .idle ∧
      proceso e (some s) c = (some s, some .fin)) ∨
    (∃ v i, c = .terminarViaje v ∧ autoDe e v.placa = some i ∧
      movimiento e (entry (proceso e) (some s) c) = .release i ∧
      proceso e (some s) c = (some (cerrarViaje s i v), some .fin)) ∨
    (c = .estadoServicio ∧ movimiento e (entry (proceso e) (some s) c) = .idle ∧
      proceso e (some s) c = (some s, some (.servicio (estadoServicio s)))) := by
  cases c with
  | solicitarViaje p =>
    rcases h.solicitarViaje p with ⟨hno, hres⟩ | ⟨i, hi, hres⟩
    · have hp := orDead_some (atender e) s _ (.solicitarViaje p) _ (by rw [atender, hres, Option.map_some])
      exact .inl ⟨p, rfl, hno, by simp [movimiento, proceso, hp], hp⟩
    · have hdisp := primerAuto_disponible s.autos _ i hi
      have hp := orDead_some (atender e) s _ (.solicitarViaje p) _ (by rw [atender, hres, Option.map_some])
      refine .inr (.inl ⟨p, i, rfl, hdisp, ?_, hp⟩)
      simp [movimiento, proceso, hp, cotizar, hdisp, (h.autos i).placa, autoDe_placaSorteada]
  | terminarViaje v =>
    have hb := buscarPlaca_eq_find s.autos (placaSorteada e) (fun i => (h.autos i).placa) v.placa
      (List.finRange NUM_AUTOS)
    rw [show List.find? _ _ = autoDe e v.placa from rfl] at hb
    cases ha : autoDe e v.placa with
    | none =>
      have hp := orDead_some (atender e) s s (.terminarViaje v) .fin (by
        simp [atender, terminarViaje, hb, ha])
      exact .inr (.inr (.inl ⟨v, rfl, ha, by simp [movimiento, proceso, hp, ha], hp⟩))
    | some i =>
      have hp := orDead_some (atender e) s (cerrarViaje s i v) (.terminarViaje v) .fin (by
        simp [atender, terminarViaje, hb, ha])
      exact .inr (.inr (.inr (.inl ⟨v, i, rfl, ha, by simp [movimiento, proceso, hp, ha], hp⟩)))
  | estadoServicio => exact .inr (.inr (.inr (.inr ⟨rfl, rfl, rfl⟩)))

/-- A call leaves a fleet behind, and the process alive. -/
theorem Flota.proceso {e : Entorno} {s : Servidor} (h : Flota e s) (c : Llamada) :
    ∃ t, (proceso e (some s) c).1 = some t ∧ Flota e t ∧
      ∀ i, decide ((t.autos i).disponible = 1) =
        !((mark i (movimiento e (entry (UberRpc.proceso e) (some s) c))).getD
          (!decide ((s.autos i).disponible = 1))) := by
  obtain ⟨p, rfl, hno, hm, hp⟩ | ⟨p, i, rfl, hi, hm, hp⟩ | ⟨v, rfl, -, hm, hp⟩ |
    ⟨v, i, rfl, -, hm, hp⟩ | ⟨rfl, hm, hp⟩ := h.cases c
  · exact ⟨_, congrArg Prod.fst hp, ⟨h.primera, h.autos, h.registro⟩, by simp [hm, mark]⟩
  · have ha := h.autos i
    refine ⟨_, congrArg Prod.fst hp, ⟨h.primera, h.update i _ ⟨ha.placa, ha.tipo, .inl rfl⟩,
      fun _ => ⟨i, ha.placa⟩⟩, fun j => ?_⟩
    by_cases hj : j = i
    · subst hj; simp [hm, mark]
    · simp [Function.update_of_ne hj, hm, mark, Ne.symm hj]
  · exact ⟨s, congrArg Prod.fst hp, h, by simp [hm, mark]⟩
  · have ha := h.autos i
    refine ⟨_, congrArg Prod.fst hp, ⟨h.primera, h.update i _ ⟨ha.placa, ha.tipo, .inr rfl⟩,
      ?_⟩, fun j => ?_⟩
    · -- a car still taken was taken before
      rintro ⟨j, hj⟩
      refine h.registro ⟨j, fun hd => hj ?_⟩
      by_cases hji : j = i
      · subst hji; simp [cerrarViaje, liberar]
      · simp [cerrarViaje, liberar, Function.update_of_ne hji, hd]
    · by_cases hj : j = i
      · subst hj; simp [cerrarViaje, liberar, hm, mark]
      · simp [cerrarViaje, liberar, Function.update_of_ne hj, hm, mark, Ne.symm hj]
  · exact ⟨s, congrArg Prod.fst hp, h, by simp [hm, mark]⟩

/-! ## The log -/

/-- The process is alive, its flags are what the log says, and so were its answers. -/
structure Sigue (e : Entorno) (os : Option Servidor) (log : List Registro) : Prop where
  vivo : ∃ s, os = some s ∧ Flota e s ∧
    ∀ i, decide ((s.autos i).disponible = 1) = !busy (movimiento e) log i
  ajena : ∀ x ∈ log, Ajena x
  libres : Throughout (Libres e) log

@[simp] theorem concedidos_nil (e : Entorno) : concedidos e [] = 0 := by
  simp [concedidos]

theorem numAutosLibres_eq (e : Entorno) (s : Servidor) (log : List Registro)
    (h : ∀ i, decide ((s.autos i).disponible = 1) = !busy (movimiento e) log i) :
    (estadoServicio s).numAutosLibres = NUM_AUTOS - concedidos e log := by
  have hlen := List.length_eq_countP_add_countP (fun i => busy (movimiento e) log i)
    (l := List.finRange NUM_AUTOS)
  rw [List.length_finRange] at hlen
  have hlibres : (estadoServicio s).numAutosLibres =
      (List.finRange NUM_AUTOS).countP fun i => ¬ busy (movimiento e) log i := by
    refine List.countP_congr fun i _ => ?_
    rw [h i]
    simp
  rw [hlibres, concedidos]
  omega

theorem Flota.ajena {e : Entorno} {s : Servidor} (h : Flota e s) (c : Llamada) :
    Ajena (entry (UberRpc.proceso e) (some s) c) := by
  intro s' v hs' hv hno
  obtain rfl : s = s' := Option.some.inj hs'
  obtain rfl : c = .terminarViaje v := hv
  obtain ⟨p, hc, -⟩ | ⟨p, i, hc, -⟩ | ⟨v', hc, -, -, hp⟩ | ⟨v', i, hc, hi, -⟩ | ⟨hc, -⟩ :=
    h.cases (.terminarViaje v)
  · cases hc
  · cases hc
  · rw [entry_after, hp]
  · cases hc
    refine absurd ?_ (hno i)
    rw [(h.autos i).placa, autoDe_eq_some e v.placa i hi]
  · cases hc

theorem Sigue.proceso {e : Entorno} {os : Option Servidor} {log : List Registro} (h : Sigue e os log)
    (c : Llamada) :
    Sigue e (proceso e os c).1 (log ++ [entry (UberRpc.proceso e) os c]) := by
  obtain ⟨s, rfl, hs, hflags⟩ := h.vivo
  obtain ⟨t, ht, hflota, hmark⟩ := hs.proceso c
  refine ⟨⟨t, ht, hflota, fun i => ?_⟩, ?_, h.libres.concat _ ?_⟩
  · rw [hmark i, busy_concat, hflags i, Bool.not_not]
  · exact List.forall_mem_append.mpr ⟨h.ajena, List.forall_mem_singleton.mpr (hs.ajena c)⟩
  · rintro rfl
    exact ⟨estadoServicio s, rfl, numAutosLibres_eq e s log hflags⟩

/-- `SolicitarViaje` fills the fleet before anything else. -/
theorem proceso_primera (e : Entorno) (hc : CabenPlacas e) (s : Servidor) (p : Posicion) :
    proceso e (some s) (.solicitarViaje p) = proceso e (some (conFlota e s)) (.solicitarViaje p) := by
  have h := solicitarViaje_of_not_first e (conFlota e s) p (conFlota_isFirstTime e s)
  rw [← solicitarEntero, ← solicitarViaje_of_caben e s p fun _ => hc] at h
  simp only [proceso, orDead, atender, Option.bind_some, h]

/-- Without room for the plates the first `SolicitarViaje` is the last call. -/
theorem proceso_desborde (e : Entorno) (hc : ¬ CabenPlacas e) (p : Posicion) :
    proceso e (some servidor0) (.solicitarViaje p) = (none, none) := by
  simp [proceso, orDead, atender, solicitarViaje_eq_none e servidor0 p rfl hc]

/-- The first `SolicitarViaje` of the process. -/
theorem sigue_primera (e : Entorno) (hc : CabenPlacas e) (p : Posicion) :
    Sigue e (proceso e (some servidor0) (.solicitarViaje p)).1
      [entry (proceso e) (some servidor0) (.solicitarViaje p)] := by
  have hp := proceso_primera e hc servidor0 p
  obtain ⟨t, ht, hflota, hmark⟩ := (flota_conFlota e).proceso (.solicitarViaje p)
  have hm : movimiento e (entry (proceso e) (some servidor0) (.solicitarViaje p)) =
      movimiento e (entry (proceso e) (some (conFlota e servidor0)) (.solicitarViaje p)) := by
    simp only [movimiento, entry_call, entry_reply, hp]
  refine ⟨⟨t, by rw [hp, ht], hflota, fun i => ?_⟩, fun x hx => ?_, ?_⟩
  · rw [hmark i, ← List.nil_append [_], busy_concat, hm]
    rfl
  · rw [List.mem_singleton.mp hx]
    intro s v _ hv
    cases hv
  · exact (throughout_nil _).concat _ (by rintro ⟨⟩)

theorem sigue_final (e : Entorno) (hc : CabenPlacas e) (p : Posicion) (calls : List Llamada) :
    Sigue e (final (proceso e) (some servidor0) (.solicitarViaje p :: calls))
      (serve (proceso e) (some servidor0) (.solicitarViaje p :: calls)) :=
  history_invariant (proceso e) (Sigue e) _ _ (sigue_primera e hc p) (fun _ _ c h => h.proceso c) calls

/-- A process that lives after its first `SolicitarViaje` had room for the plates. -/
theorem caben_of_final (e : Entorno) (p : Posicion) (calls : List Llamada)
    (h : final (proceso e) (some servidor0) (.solicitarViaje p :: calls) ≠ none) : CabenPlacas e := by
  by_contra hc
  rw [final, proceso_desborde e hc p] at h
  exact h (final_orDead_none (atender e) calls)

/-! ## Top theorems -/

/-- **Any calls are safe exactly when the first of them is `SolicitarViaje` and every number it formats
into a plate has at most two digits.** -/
theorem segura_iff (e : Entorno) (calls : List Llamada) :
    Segura e calls ↔ ∀ c ∈ calls.head?,
      (∃ p, c = .solicitarViaje p) ∧ ∀ i : Fin NUM_AUTOS, argumento e i 0 % 1000 < 100 := by
  rw [← cabenPlacas_iff]
  cases calls with
  | nil => exact iff_of_true ⟨by simp [final], by simp [serve], throughout_nil _⟩ (by simp)
  | cons c calls =>
    rw [List.head?_cons]
    simp only [Option.mem_some_iff, forall_eq']
    constructor
    · intro h
      cases c with
      | solicitarViaje p => exact ⟨⟨p, rfl⟩, caben_of_final e p calls h.viva⟩
      | terminarViaje v => exact absurd (final_orDead_none (atender e) calls) h.viva
      | estadoServicio =>
        -- a fleet of zeros has no free car
        obtain ⟨info, hr, hn⟩ := h.libres [] _ _ rfl rfl
        obtain rfl : estadoServicio servidor0 = info :=
          Respuesta.servicio.inj (Option.some.inj hr)
        rw [concedidos_nil] at hn
        exact absurd hn (by decide)
    · rintro ⟨⟨p, rfl⟩, hc⟩
      have h := sigue_final e hc p calls
      obtain ⟨s, hs, -⟩ := h.vivo
      exact ⟨by rw [hs]; simp, h.ajena, h.libres⟩

/-- The administrator's poll comes first: eight cars, none granted, and none reported as free. -/
theorem consulta_primero : ¬ ∀ (e : Entorno) (calls : List Llamada), Segura e calls := by
  intro h
  obtain ⟨info, hr, hn⟩ := (h ⟨fun _ => 0, .refl _, 0⟩ [.estadoServicio]).libres [] _ _ rfl rfl
  obtain rfl : estadoServicio servidor0 = info := Respuesta.servicio.inj (Option.some.inj hr)
  revert hn
  decide

end UberRpc
