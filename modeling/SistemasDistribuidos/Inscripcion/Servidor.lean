import SistemasDistribuidos.Inscripcion.Cliente

/-!
# The enrolment server `Practica01/servidorTCPDecodificar.c`

(`servidorPrueba.c` has the same accept loop.)  Each turn of the loop reads the bytes
of one request over the beginning of the array `request`, which keeps what earlier
requests left behind them, and decodes the C string at `request` with
`sscanf("%[^#]#%[^#]#%s")`.  `read` does not write a NUL, so that C string may go on
into old bytes, and past the array into the memory `pila` behind it.

The locals `name`, `claveUEA` and `grupo` are not initialised: a field that `sscanf`
does not store keeps what the local happened to hold (`basura`).  The record is then
copied to `alumnos[numSolictudes]`.  Two things end in undefined behaviour, a text that
is longer than its array and an index outside `alumnos`; there `atender` is a `Fallo`.

    sscanf returns the triple of the client  ↔  its separators are unambiguous  (sscanf_request_iff)
    after n requests the registry holds them in order  ↔  n ≤ 10 and all fit    (registro_iff)
-/

namespace Inscripcion

open CText Scanf

def ETHSIZE : Nat := 400
def cupoGrupo : Nat := 30
def MAX_ALUMNOS : Nat := 10

structure Alumno where
  nombre : Text
  claveUEA : Text
  grupo : Text
deriving DecidableEq, Repr

/-- The array `request`. -/
structure Bufer where
  bytes : Text
  tam : bytes.length = ETHSIZE

structure Servidor where
  request : Bufer
  pila : Text
  alumnos : Fin MAX_ALUMNOS → Alumno
  numSolictudes : Nat

/-- One turn of the loop: the bytes `read` returns, and what the three locals hold before `sscanf`. -/
structure Peticion where
  datos : Text
  tam : datos.length ≤ ETHSIZE
  basura : Alumno

inductive Fallo where
  | desborda
  | fueraDeAlumnos
deriving DecidableEq, Repr

/-! ## Algorithm -/

/-- `read(newSocket_fd, request, ETHSIZE)` -/
def Bufer.leer (b : Bufer) (p : Peticion) : Bufer where
  bytes := p.datos ++ b.bytes.drop p.datos.length
  tam := by
    have h1 := p.tam
    have h2 := b.tam
    rw [List.length_append, List.length_drop]
    omega

/-- `"%[^#]#%[^#]#%s"` -/
def formato : List Directive := [.upTo '#', .lit '#', .upTo '#', .lit '#', .word]

/-- The locals after `sscanf` has stored the texts `ts`. -/
def asignar (basura : Alumno) : List Text → Alumno
  | [] => basura
  | [name] => { basura with nombre := name }
  | [name, claveUEA] => { basura with nombre := name, claveUEA := claveUEA }
  | name :: claveUEA :: grupo :: _ => ⟨name, claveUEA, grupo⟩

def decodificar (b : Bufer) (pila : Text) (basura : Alumno) : Alumno :=
  asignar basura (sscanf formato (cstr (b.bytes ++ pila)))

/-- The three texts fit in `char[100]`, `char[8]` and `char[6]` with their NUL. -/
def Alumno.cabe (a : Alumno) : Prop :=
  a.nombre.length < 100 ∧ a.claveUEA.length < 8 ∧ a.grupo.length < 6

instance (a : Alumno) : Decidable a.cabe := by
  unfold Alumno.cabe
  infer_instance

/-- The record written by one turn of the loop. -/
def guardar (s : Servidor) (p : Peticion) : Except Fallo Alumno :=
  let a := decodificar (s.request.leer p) s.pila p.basura
  if ¬ a.cabe then .error .desborda
  else if s.numSolictudes < MAX_ALUMNOS then .ok a
  else .error .fueraDeAlumnos

/-- The state after the record `a` has been stored. -/
def anotar (s : Servidor) (p : Peticion) (a : Alumno) : Servidor :=
  { s with
    request := s.request.leer p
    alumnos := fun i => if i.val = s.numSolictudes then a else s.alumnos i
    numSolictudes := s.numSolictudes + 1 }

/-- `"Cupo total: %d, Solicitud recibida: %d"` -/
def respuesta (numSolictudes : Nat) : Text :=
  "Cupo total: ".toList ++ decimal cupoGrupo ++ ", Solicitud recibida: ".toList ++ decimal numSolictudes

/-- One turn of the accept loop, with the reply sent to the client. -/
def atender (s : Servidor) (p : Peticion) : Except Fallo (Servidor × Text) :=
  match guardar s p with
  | .error f => .error f
  | .ok a => .ok (anotar s p a, respuesta (s.numSolictudes + 1))

/-- The accept loop over the requests that arrive. -/
def bucle : Servidor → List Peticion → Except Fallo Servidor
  | s, [] => .ok s
  | s, p :: ps =>
    match atender s p with
    | .error f => .error f
    | .ok (s', _) => bucle s' ps

/-- Before the loop: `request` and `alumnos` are not initialised. -/
def servidor0 (request : Bufer) (pila : Text) (alumnos : Fin MAX_ALUMNOS → Alumno) : Servidor :=
  ⟨request, pila, alumnos, 0⟩

/-! ## Decoding what the client encodes -/

theorem Solicitud.nul_notMem_request (p : Solicitud) : nul ∉ p.request := by
  intro h
  simp only [Solicitud.request, List.mem_append, List.mem_cons] at h
  rcases h with h | h | h | h | h
  · exact (p.name_chars _ h).2 rfl
  · exact absurd h (by decide)
  · exact (p.claveUEA_chars _ h).2 rfl
  · exact absurd h (by decide)
  · exact (p.grupo_chars _ h).2 rfl

theorem Solicitud.grupo_ne_nil (p : Solicitud) : p.grupo ≠ [] :=
  List.length_pos_iff.mp p.grupo_length.1

theorem Solicitud.claveUEA_ne_nil (p : Solicitud) : p.claveUEA ≠ [] :=
  List.length_pos_iff.mp p.claveUEA_length.1

/-- The scan of `name#claveUEA#grupo` when the name has no separator. -/
theorem sscanf_name (p : Solicitud) (hn : '#' ∉ p.name) :
    sscanf formato p.request =
      if p.name = [] then [] else p.name ::
        sscanf [.upTo '#', .lit '#', .word] (p.claveUEA ++ '#' :: p.grupo) :=
  sscanf_upTo_lit '#' _ p.name _ hn

theorem sscanf_clave (p : Solicitud) (hc : '#' ∉ p.claveUEA) :
    sscanf [.upTo '#', .lit '#', .word] (p.claveUEA ++ '#' :: p.grupo) = [p.claveUEA, p.grupo] := by
  have hword := sscanf_word_append p.grupo [] (fun c h => (p.grupo_chars c h).1) p.grupo_ne_nil
  simp only [List.append_nil, List.takeWhile_nil] at hword
  rw [sscanf_upTo_lit '#' _ p.claveUEA _ hc, if_neg p.claveUEA_ne_nil, hword]

/-- The text stored for `a ++ '#' :: rest` is not `a ++ '#' :: b`: it ends at the separator. -/
theorem head_sscanf_ne (ds : List Directive) (a b rest : Text) (ts : List Text) (ha : '#' ∉ a) :
    sscanf (.upTo '#' :: .lit '#' :: ds) (a ++ '#' :: rest) ≠ (a ++ '#' :: b) :: ts := by
  rw [sscanf_upTo_lit '#' ds a rest ha]
  split
  · intro h
    cases h
  · intro h
    have hlen := congrArg List.length (List.cons.inj h).1
    simp at hlen

/-- **Round trip.**  With a NUL after the message, the server recovers the triple of the client
exactly when the name is not empty and neither the name nor the key contains the separator. -/
theorem sscanf_request_iff (p : Solicitud) (resto : Text) :
    sscanf formato (cstr (p.request ++ nul :: resto)) = [p.name, p.claveUEA, p.grupo] ↔
      p.name ≠ [] ∧ '#' ∉ p.name ∧ '#' ∉ p.claveUEA := by
  rw [cstr_append_nul _ _ p.nul_notMem_request]
  constructor
  · intro h
    have hn : '#' ∉ p.name := by
      intro hmem
      obtain ⟨a, b, hab, ha⟩ := List.eq_append_cons_of_mem hmem
      refine head_sscanf_ne [.upTo '#', .lit '#', .word] a b
        (b ++ '#' :: (p.claveUEA ++ '#' :: p.grupo)) [p.claveUEA, p.grupo] ha ?_
      rw [← hab, ← h]
      simp [formato, Solicitud.request, hab]
    rw [sscanf_name p hn] at h
    split at h
    · cases h
    · next hne =>
      refine ⟨hne, hn, fun hmem => ?_⟩
      obtain ⟨a, b, hab, ha⟩ := List.eq_append_cons_of_mem hmem
      refine head_sscanf_ne [.word] a b (b ++ '#' :: p.grupo) [p.grupo] ha ?_
      rw [← hab, ← (List.cons.inj h).2]
      simp [hab]
  · rintro ⟨hne, hn, hc⟩
    rw [sscanf_name p hn, if_neg hne, sscanf_clave p hc]

/-! ## The registry -/

/-- The records of the requests `ps`, decoded one after the other from the buffer `b`. -/
def decodificadas (pila : Text) : Bufer → List Peticion → List Alumno
  | _, [] => []
  | b, p :: ps => decodificar (b.leer p) pila p.basura :: decodificadas pila (b.leer p) ps

theorem decodificadas_length (pila : Text) (b : Bufer) (ps : List Peticion) :
    (decodificadas pila b ps).length = ps.length := by
  induction ps generalizing b with
  | nil => rfl
  | cons p ps ih => simp [decodificadas, ih]

/-- `numSolictudes` counts the requests and `alumnos` starts with their records, in order. -/
def Registro (s : Servidor) (as : List Alumno) : Prop :=
  s.numSolictudes = as.length ∧
    ∀ k a, as[k]? = some a → ∃ hk : k < MAX_ALUMNOS, s.alumnos ⟨k, hk⟩ = a

/-- Everything one turn of the loop can do. -/
theorem guardar_eq_ok (s : Servidor) (p : Peticion) (a : Alumno) :
    guardar s p = .ok a ↔
      a = decodificar (s.request.leer p) s.pila p.basura ∧ a.cabe ∧ s.numSolictudes < MAX_ALUMNOS := by
  simp only [guardar]
  constructor
  · intro h
    split at h
    · cases h
    · next hc =>
      split at h
      · next hn =>
        cases h
        exact ⟨rfl, not_not.mp hc, hn⟩
      · cases h
  · rintro ⟨rfl, hc, hn⟩
    rw [if_neg (not_not.mpr hc), if_pos hn]

theorem atender_eq_ok (s t : Servidor) (p : Peticion) (r : Text) :
    atender s p = .ok (t, r) ↔
      ∃ a, guardar s p = .ok a ∧ t = anotar s p a ∧ r = respuesta (s.numSolictudes + 1) := by
  simp only [atender]
  cases guardar s p with
  | error f => simp
  | ok a => simp [eq_comm]

theorem bucle_cons_eq_ok (s t : Servidor) (p : Peticion) (ps : List Peticion) :
    bucle s (p :: ps) = .ok t ↔ ∃ a, guardar s p = .ok a ∧ bucle (anotar s p a) ps = .ok t := by
  simp only [bucle, atender]
  cases guardar s p with
  | error f => simp
  | ok a => simp

theorem bucle_numSolictudes (ps : List Peticion) (s t : Servidor) (h : bucle s ps = .ok t) :
    t.numSolictudes = s.numSolictudes + ps.length := by
  induction ps generalizing s with
  | nil =>
    cases h
    rfl
  | cons p ps ih =>
    obtain ⟨a, -, h⟩ := (bucle_cons_eq_ok s t p ps).mp h
    rw [ih _ h]
    simp only [anotar, List.length_cons]
    omega

theorem bucle_concat_eq_ok (ps : List Peticion) (s u : Servidor) (p : Peticion) :
    bucle s (ps ++ [p]) = .ok u ↔
      ∃ t a, bucle s ps = .ok t ∧ guardar t p = .ok a ∧ u = anotar t p a := by
  induction ps generalizing s with
  | nil =>
    rw [List.nil_append, bucle_cons_eq_ok]
    simp only [bucle, Except.ok.injEq]
    constructor
    · rintro ⟨a, ha, rfl⟩
      exact ⟨s, a, rfl, ha, rfl⟩
    · rintro ⟨_, a, rfl, ha, rfl⟩
      exact ⟨a, ha, rfl⟩
  | cons q ps ih =>
    rw [List.cons_append, bucle_cons_eq_ok]
    constructor
    · rintro ⟨b, hb, h⟩
      obtain ⟨t, a, ht, ha, hu⟩ := (ih _).mp h
      exact ⟨t, a, (bucle_cons_eq_ok s t q ps).mpr ⟨b, hb, ht⟩, ha, hu⟩
    · rintro ⟨t, a, ht, ha, hu⟩
      obtain ⟨b, hb, ht⟩ := (bucle_cons_eq_ok s t q ps).mp ht
      exact ⟨b, hb, (ih _).mpr ⟨t, a, ht, ha, hu⟩⟩

/-- Storing one more record keeps the earlier ones. -/
theorem Registro.anotar {s : Servidor} {as : List Alumno} (h : Registro s as) (p : Peticion)
    (a : Alumno) (hn : s.numSolictudes < MAX_ALUMNOS) : Registro (anotar s p a) (as ++ [a]) := by
  obtain ⟨hcount, hrec⟩ := h
  refine ⟨by simp [Inscripcion.anotar, hcount], fun k b hk => ?_⟩
  rcases Nat.lt_trichotomy k as.length with hlt | heq | hgt
  · rw [List.getElem?_append_left hlt] at hk
    obtain ⟨hk', hb⟩ := hrec k b hk
    refine ⟨hk', ?_⟩
    simp only [Inscripcion.anotar]
    rw [if_neg (by omega), hb]
  · subst heq
    simp only [List.getElem?_concat_length, Option.some.injEq] at hk
    exact ⟨by omega, by simp [Inscripcion.anotar, hcount, hk]⟩
  · rw [List.getElem?_eq_none (by simp; omega)] at hk
    cases hk

/-- The loop from a state that holds the records `as`: it goes through exactly when there is room and
every record fits, and then holds the new records behind the old ones. -/
theorem bucle_registro (ps : List Peticion) (s : Servidor) (as : List Alumno) (h : Registro s as) :
    (∃ t, bucle s ps = .ok t ∧ Registro t (as ++ decodificadas s.pila s.request ps)) ↔
      (ps = [] ∨ as.length + ps.length ≤ MAX_ALUMNOS) ∧
        ∀ a ∈ decodificadas s.pila s.request ps, a.cabe := by
  induction ps generalizing s as with
  | nil =>
    simp only [bucle, decodificadas, List.append_nil, true_or, List.not_mem_nil, false_imp_iff,
      implies_true, and_true, iff_true]
    exact ⟨s, rfl, h⟩
  | cons p ps ih =>
    simp only [decodificadas, List.mem_cons, forall_eq_or_imp, List.length_cons]
    constructor
    · rintro ⟨t, ht, hreg⟩
      obtain ⟨a, ha, ht⟩ := (bucle_cons_eq_ok s t p ps).mp ht
      obtain ⟨rfl, hcabe, hn⟩ := (guardar_eq_ok s p a).mp ha
      obtain ⟨h1, h2⟩ := (ih (anotar s p _) _ (h.anotar p _ hn)).mp
        ⟨t, ht, by simpa [anotar] using hreg⟩
      refine ⟨Or.inr ?_, hcabe, h2⟩
      have hc := h.1
      rcases h1 with rfl | h1
      · simp; omega
      · simp at h1; omega
    · rintro ⟨hlen, hcabe, hrest⟩
      have hc := h.1
      have hroom : as.length + (ps.length + 1) ≤ MAX_ALUMNOS := by
        rcases hlen with hlen | hlen
        · cases hlen
        · exact hlen
      have ha := (guardar_eq_ok s p _).mpr ⟨rfl, hcabe, by omega⟩
      obtain ⟨t, ht, hreg⟩ := (ih (anotar s p _) _ (h.anotar p _ (by omega))).mpr
        ⟨Or.inr (by simp; omega), hrest⟩
      exact ⟨t, (bucle_cons_eq_ok s t p ps).mpr ⟨_, ha, ht⟩, by simpa [anotar] using hreg⟩

/-- **The registry.**  After the requests `ps` the server has counted them, has written only inside
`alumnos` and holds their records in order of arrival, exactly when there are at most ten of them
and each decodes to texts that fit. -/
theorem registro_iff (request : Bufer) (pila : Text) (alumnos : Fin MAX_ALUMNOS → Alumno)
    (ps : List Peticion) :
    (∃ s, bucle (servidor0 request pila alumnos) ps = .ok s ∧ s.numSolictudes = ps.length ∧
      Registro s (decodificadas pila request ps)) ↔
      ps.length ≤ 10 ∧ ∀ a ∈ decodificadas pila request ps, a.cabe := by
  have h0 : Registro (servidor0 request pila alumnos) [] := ⟨rfl, fun k a h => by simp at h⟩
  have h := bucle_registro ps (servidor0 request pila alumnos) [] h0
  simp only [List.nil_append, List.length_nil, Nat.zero_add, servidor0] at h
  rw [show (10 : Nat) = MAX_ALUMNOS from rfl]
  constructor
  · rintro ⟨s, hs, -, hreg⟩
    obtain ⟨hlen, hcabe⟩ := h.mp ⟨s, hs, hreg⟩
    refine ⟨?_, hcabe⟩
    rcases hlen with rfl | hlen
    · exact Nat.zero_le _
    · exact hlen
  · rintro ⟨hlen, hcabe⟩
    obtain ⟨s, hs, hreg⟩ := h.mpr ⟨.inr hlen, hcabe⟩
    exact ⟨s, hs, hreg.1.trans (decodificadas_length pila request ps), hreg⟩

/-- An array of NULs. -/
def buferCero : Bufer := ⟨List.replicate ETHSIZE nul, List.length_replicate⟩

def alumno0 : Alumno := ⟨[], [], []⟩

def peticionAna : Peticion := ⟨"Ana#1#A".toList, by decide, alumno0⟩

/-- The eleventh request is written to `alumnos[10]`. -/
theorem once_peticiones :
    ¬ ∀ (request : Bufer) (pila : Text) (alumnos : Fin MAX_ALUMNOS → Alumno) (ps : List Peticion),
      ∃ s, bucle (servidor0 request pila alumnos) ps = .ok s ∧ s.numSolictudes = ps.length ∧
        Registro s (decodificadas pila request ps) := by
  intro h
  obtain ⟨s, hs, -⟩ := h buferCero [] (fun _ => alumno0) (List.replicate 11 peticionAna)
  have hfuera : bucle (servidor0 buferCero [] fun _ => alumno0) (List.replicate 11 peticionAna) =
      .error .fueraDeAlumnos := rfl
  rw [hfuera] at hs
  cases hs

end Inscripcion
