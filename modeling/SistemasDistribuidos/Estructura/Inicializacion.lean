import SistemasDistribuidos.Estructura.Cuentas

/-!
# When the fleet of `Practica02/estructura_server.c` is initialised

`solicitarViaje` and `estadoServicio` initialise the fleet on demand, `terminarViaje` does
not: until one of the other two has run, it compares the caller's plate (the C string in
the 15 characters of the argument) with five empty strings.  Against a server with the same
draws that initialises before its first call:

    Inadvertida e cs  ↔  some call initialises, and the terminarViaje calls before the first
                         that does carry neither an empty plate nor a drawn one
                                                                  (inadvertida_iff)
-/

namespace Estructura

open CText Serve

/-! ## Specification -/

/-- The replies and the final globals are those of the server initialised beforehand. -/
structure Inadvertida (e : Entorno) (calls : List Llamada) : Prop where
  respuestas : replies (atender e) servidor0 calls = replies (atender e) (inicial e) calls
  vehiculos : (final (atender e) servidor0 calls).vehiculos =
    (final (atender e) (inicial e) calls).vehiculos
  ganancias : (final (atender e) servidor0 calls).ganancias =
    (final (atender e) (inicial e) calls).ganancias
  viajes : (final (atender e) servidor0 calls).viajes =
    (final (atender e) (inicial e) calls).viajes

/-- The arguments of the `terminarViaje` calls that come before any other call. -/
def previas : List Llamada → List TerminarViajeArgs
  | .terminarViaje a :: calls => a :: previas calls
  | _ => []

/-- Neither the empty plate nor that of a vehicle. -/
def Ajena (e : Entorno) (a : TerminarViajeArgs) : Prop :=
  a.placa ≠ [] ∧ ∀ i, placaSorteada e i ≠ a.placa

/-! ## Lemmas -/

theorem placaSorteada_ne_nil (e : Entorno) (i : Fin N) : placaSorteada e i ≠ [] := by
  simp [placaSorteada]

/-- Before initialisation only the empty plate is found. -/
theorem buscarPlaca_servidor0 (placa : Text) :
    buscarPlaca servidor0.vehiculos placa = if placa = [] then some ⟨0, by decide⟩ else none := by
  by_cases h : placa = []
  · rw [if_pos h, h]
    rfl
  · rw [if_neg h, buscarPlaca_eq_none]
    exact fun _ => Ne.symm h

theorem buscarPlaca_inicial (e : Entorno) (placa : Text) :
    buscarPlaca (inicial e).vehiculos placa = none ↔ ∀ i, placaSorteada e i ≠ placa :=
  buscarPlaca_eq_none _ placa

theorem terminarViaje_snd (s : Servidor) (a : TerminarViajeArgs) :
    (terminarViaje s a).2 = (buscarPlaca s.vehiculos a.placa).isSome := by
  unfold terminarViaje
  split
  · next h => rw [h]; rfl
  · next i h => rw [h]; rfl

/-- The first reply tells the two servers apart, unless the plate is nobody's. -/
theorem terminarViaje_igual_iff (e : Entorno) (a : TerminarViajeArgs) :
    (terminarViaje servidor0 a).2 = (terminarViaje (inicial e) a).2 ↔ Ajena e a := by
  rw [terminarViaje_snd, terminarViaje_snd, buscarPlaca_servidor0]
  by_cases hnil : a.placa = []
  · have hnone := (buscarPlaca_inicial e a.placa).mpr fun i => hnil ▸ placaSorteada_ne_nil e i
    rw [if_pos hnil, hnone]
    simp [Ajena, hnil]
  · rw [if_neg hnil, Option.isSome_none, eq_comm, Option.isSome_eq_false_iff, Option.isNone_iff_eq_none,
      buscarPlaca_inicial]
    exact (and_iff_right hnil).symm

/-- A call that initialises makes the two servers one. -/
theorem inadvertida_inicia (e : Entorno) (c : Llamada) (calls : List Llamada)
    (hc : ∀ a, c ≠ .terminarViaje a) : Inadvertida e (c :: calls) := by
  have h : atender e servidor0 c = atender e (inicial e) c := atender_asegurar e servidor0 c hc
  have hf : final (atender e) servidor0 (c :: calls) = final (atender e) (inicial e) (c :: calls) := by
    simp only [final, h]
  refine ⟨?_, by rw [hf], by rw [hf], by rw [hf]⟩
  simp [replies, serve, h]

/-- A `terminarViaje` before initialisation goes unnoticed exactly when its plate is nobody's and
the rest goes unnoticed. -/
theorem inadvertida_termina (e : Entorno) (a : TerminarViajeArgs) (calls : List Llamada) :
    Inadvertida e (.terminarViaje a :: calls) ↔ Ajena e a ∧ Inadvertida e calls := by
  by_cases ha : Ajena e a
  · -- neither server has that plate, so neither changes
    have h0 : atender e servidor0 (.terminarViaje a) = (servidor0, .fin false) := by
      rw [atender, terminarViaje_of_none servidor0 a (by rw [buscarPlaca_servidor0, if_neg ha.1])]
    have h1 : atender e (inicial e) (.terminarViaje a) = (inicial e, .fin false) := by
      rw [atender, terminarViaje_of_none _ a ((buscarPlaca_inicial e a.placa).mpr ha.2)]
    rw [and_iff_right ha]
    constructor
    · rintro ⟨h2, h3, h4, h5⟩
      simp only [replies, serve, final, List.map_cons, entry_reply, h0, h1, List.cons.injEq,
        true_and] at h2 h3 h4 h5
      exact ⟨h2, h3, h4, h5⟩
    · rintro ⟨h2, h3, h4, h5⟩
      refine ⟨?_, ?_, ?_, ?_⟩
      · simp only [replies, serve, List.map_cons, entry_reply, h0, h1]
        exact congrArg _ h2
      · simpa only [final, h0, h1] using h3
      · simpa only [final, h0, h1] using h4
      · simpa only [final, h0, h1] using h5
  · refine iff_of_false (fun h => ha ?_) fun h => ha h.1
    have hr := h.respuestas
    simp only [replies, serve, List.map_cons, entry_reply, atender, List.cons.injEq,
      Respuesta.fin.injEq] at hr
    exact (terminarViaje_igual_iff e a).mp hr.1

/-! ## Top theorems -/

/-- **Lazy initialisation goes unnoticed exactly when some call initialises, and the `terminarViaje`
calls before it carry nobody's plate.** -/
theorem inadvertida_iff (e : Entorno) (calls : List Llamada) :
    Inadvertida e calls ↔
      (∃ c ∈ calls, ∀ a, c ≠ .terminarViaje a) ∧
      ∀ a ∈ previas calls, a.placa ≠ [] ∧ ∀ i, placaSorteada e i ≠ a.placa := by
  induction calls with
  | nil =>
    refine iff_of_false (fun h => ?_) (by simp)
    -- without any call the fleet is still zero-filled
    have hv := congrFun h.vehiculos ⟨0, by decide⟩
    cases congrArg Vehiculo.disponible hv
  | cons c calls ih =>
    cases c with
    | terminarViaje a =>
      rw [inadvertida_termina, ih]
      simp only [previas, List.mem_cons, exists_eq_or_imp, forall_eq_or_imp, ne_eq, Ajena,
        Llamada.terminarViaje.injEq, forall_eq', false_or]
      exact and_left_comm
    | solicitarViaje p =>
      exact iff_of_true (inadvertida_inicia e _ calls (by simp)) ⟨⟨_, .head _, by simp⟩, by simp [previas]⟩
    | estadoServicio =>
      exact iff_of_true (inadvertida_inicia e _ calls (by simp)) ⟨⟨_, .head _, by simp⟩, by simp [previas]⟩

/-- A `terminarViaje` with an empty plate comes first: it finds the zero-filled vehicle 0 and counts
as a trip, of which `estadoServicio` then reports one. -/
theorem placa_vacia : ¬ ∀ (e : Entorno) (calls : List Llamada), Inadvertida e calls := by
  intro h
  have hv := (h ⟨fun _ => 0, .refl _, 0⟩ [.terminarViaje ⟨⟨3, 4⟩, 10, []⟩, .estadoServicio]).viajes
  revert hv
  decide

end Estructura
