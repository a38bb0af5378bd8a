import SistemasDistribuidos.Inscripcion.Servidor

/-!
# What earlier requests do to a later one

Two runs of the enrolment server receive different requests and then the same message
of a client.  `guardar_igual_iff` says exactly when both store the same record for it.

`read` leaves the bytes of older requests behind the message, and `%s` goes on reading
them: unless the third field ends at a blank inside the message, what is stored as
`grupo` is its last word followed by `cola`, the old bytes up to the next blank or NUL.
-/

namespace Inscripcion

open CText Scanf

/-! ## The message -/

/-- The message up to its first separator. -/
def pieza1 (m : Text) : Text := m.takeWhile (· ≠ '#')

/-- The message between its first two separators. -/
def pieza2 (m : Text) : Text := ((m.dropWhile (· ≠ '#')).drop 1).takeWhile (· ≠ '#')

/-- The message behind its second separator and the blanks that follow it. -/
def pieza3 (m : Text) : Text :=
  ((((m.dropWhile (· ≠ '#')).drop 1).dropWhile (· ≠ '#')).drop 1).dropWhile isspace

/-- The first word of the third piece. -/
def palabra (m : Text) : Text := (pieza3 m).takeWhile fun c => !isspace c

/-- The bytes of `request` behind the message that `%s` goes on to read: none if a blank inside the
message has ended it. -/
def cola (s : Servidor) (m : Text) : Text :=
  if (pieza3 m).any isspace then []
  else ((s.request.bytes ++ s.pila).drop m.length).takeWhile fun c => c ≠ nul && !isspace c

/-- The request of a client, with what the locals of the server hold. -/
def Solicitud.peticion (p : Solicitud) (basura : Alumno) : Peticion where
  datos := p.request
  tam := by
    have h1 := p.name_length
    have h2 := p.claveUEA_length.2
    have h3 := p.grupo_length.2
    simp only [Solicitud.request, List.length_append, List.length_cons, ETHSIZE]
    omega
  basura := basura

/-- Fewer than ten requests so far; the pieces of the message that are stored fit; what is read
behind the message is the same in both states; and where the message stores no text, so is what the
locals hold. -/
def Independiente (s t : Servidor) (p : Solicitud) (basura basura' : Alumno) : Prop :=
  s.numSolictudes < MAX_ALUMNOS ∧ t.numSolictudes < MAX_ALUMNOS ∧
  if pieza1 p.request = [] then basura = basura' ∧ basura.cabe
  else if pieza2 p.request = [] then
    basura.claveUEA = basura'.claveUEA ∧ basura.grupo = basura'.grupo ∧
      (pieza1 p.request).length < 100 ∧ basura.claveUEA.length < 8 ∧ basura.grupo.length < 6
  else
    cola s p.request = cola t p.request ∧ (pieza1 p.request).length < 100 ∧
      (pieza2 p.request).length < 8 ∧ (palabra p.request ++ cola s p.request).length < 6

/-- After the history `h` and then the request `p`, the record of `p` in `alumnos` is `a`. -/
def Guarda (s₀ : Servidor) (h : List Peticion) (p : Peticion) (a : Alumno) : Prop :=
  ∃ s, bucle s₀ (h ++ [p]) = .ok s ∧ ∃ hk : h.length < MAX_ALUMNOS, s.alumnos ⟨h.length, hk⟩ = a

/-! ## Lemmas -/

theorem split_first (a b : Text) :
    ∃ f y, a ++ '#' :: b = f ++ '#' :: (y ++ b) ∧ '#' ∉ f := by
  by_cases h : '#' ∈ a
  · obtain ⟨f, y, rfl, hf⟩ := List.eq_append_cons_of_mem h
    exact ⟨f, y ++ ['#'], by simp, hf⟩
  · exact ⟨a, [], rfl, h⟩

/-- A message cut at its first two separators; the rest ends with the group. -/
theorem Solicitud.request_split (p : Solicitud) :
    ∃ f₁ f₂ y, p.request = f₁ ++ '#' :: (f₂ ++ '#' :: (y ++ p.grupo)) ∧ '#' ∉ f₁ ∧ '#' ∉ f₂ := by
  obtain ⟨f₁, y₁, h₁, hf₁⟩ := split_first p.name (p.claveUEA ++ '#' :: p.grupo)
  obtain ⟨f₂, y₂, h₂, hf₂⟩ := split_first (y₁ ++ p.claveUEA) p.grupo
  refine ⟨f₁, f₂, y₂, ?_, hf₁, hf₂⟩
  rw [Solicitud.request, h₁, ← h₂]
  simp

/-- The third piece starts with a character that is not blank. -/
theorem dropWhile_isspace_ne_nil (p : Solicitud) (y : Text) :
    (y ++ p.grupo).dropWhile isspace ≠ [] := by
  intro h
  rw [List.dropWhile_eq_nil_iff] at h
  obtain ⟨c, hc⟩ := List.exists_mem_of_ne_nil _ p.grupo_ne_nil
  have := h c (List.mem_append_right _ hc)
  rw [(p.grupo_chars c hc).1] at this
  cases this

/-- What `%s` stores when the text `r` of the message is followed by `t`. -/
theorem sscanf_word_cola (r t : Text) (hr : r.dropWhile isspace ≠ []) :
    sscanf [.word] (r ++ t) =
      [(r.dropWhile isspace).takeWhile (fun c => !isspace c) ++
        if (r.dropWhile isspace).any isspace then [] else t.takeWhile fun c => !isspace c] := by
  have hdrop : (r ++ t).dropWhile isspace = r.dropWhile isspace ++ t := by
    rw [List.dropWhile_append, if_neg (by simpa using hr)]
  -- the first character is not blank, so the run is not empty
  have hne : (r.dropWhile isspace).takeWhile (fun c => !isspace c) ≠ [] := by
    cases hw : r.dropWhile isspace with
    | nil => exact absurd hw hr
    | cons x xs =>
      have hx : isspace x = false := by
        have := List.head_dropWhile_not isspace hr
        simpa [hw] using this
      simp [hx]
  rw [sscanf_word, hdrop, List.takeWhile_append]
  by_cases hany : (r.dropWhile isspace).any isspace = true
  · -- a blank inside `r` ends the run there
    have hlen : ((r.dropWhile isspace).takeWhile fun c => !isspace c).length ≠
        (r.dropWhile isspace).length := by
      intro hlen
      obtain ⟨c, hc, hsp⟩ := List.any_eq_true.mp hany
      have hself := (List.takeWhile_prefix fun c => !isspace c).eq_of_length hlen
      have := List.takeWhile_eq_self_iff.mp hself c hc
      simp [hsp] at this
    rw [if_neg hlen, if_neg hne, if_pos hany, List.append_nil]
  · have hall : ∀ x ∈ r.dropWhile isspace, (!isspace x) = true := fun x hx => by
      rw [Bool.not_eq_true, List.any_eq_false] at hany
      simpa using hany x hx
    have hself := List.takeWhile_eq_self_iff.mpr hall
    rw [if_pos (congrArg List.length hself), hself, if_neg hany,
      if_neg fun h => hr (List.append_eq_nil_iff.mp h).1]

/-- What the server decodes from a message of a client. -/
theorem decodificar_peticion (s : Servidor) (p : Solicitud) (basura : Alumno) :
    decodificar (s.request.leer (p.peticion basura)) s.pila basura =
      if pieza1 p.request = [] then basura
      else if pieza2 p.request = [] then { basura with nombre := pieza1 p.request }
      else ⟨pieza1 p.request, pieza2 p.request, palabra p.request ++ cola s p.request⟩ := by
  obtain ⟨f₁, f₂, y, hm, hf₁, hf₂⟩ := p.request_split
  have hp1 : pieza1 p.request = f₁ := by
    rw [pieza1, hm, takeWhile_ne_append _ _ _ hf₁]
  have hp2 : pieza2 p.request = f₂ := by
    rw [pieza2, hm, dropWhile_ne_append _ _ _ hf₁, List.drop_succ_cons, List.drop_zero,
      takeWhile_ne_append _ _ _ hf₂]
  have hp3 : pieza3 p.request = (y ++ p.grupo).dropWhile isspace := by
    rw [pieza3, hm, dropWhile_ne_append _ _ _ hf₁, List.drop_succ_cons, List.drop_zero,
      dropWhile_ne_append _ _ _ hf₂, List.drop_succ_cons, List.drop_zero]
  have hlen : p.request.length ≤ s.request.bytes.length := by
    rw [s.request.tam]
    exact (p.peticion basura).tam
  -- the C string at `request` is the message followed by the old bytes up to a NUL
  have htext : cstr ((s.request.leer (p.peticion basura)).bytes ++ s.pila) =
      f₁ ++ '#' :: (f₂ ++ '#' :: ((y ++ p.grupo) ++
        cstr ((s.request.bytes ++ s.pila).drop p.request.length))) := by
    simp only [Bufer.leer, Solicitud.peticion]
    rw [List.append_assoc, cstr_append _ _ p.nul_notMem_request,
      ← List.drop_append_of_le_length hlen]
    generalize cstr ((s.request.bytes ++ s.pila).drop p.request.length) = t
    rw [hm]
    simp
  have hcola : (if (pieza3 p.request).any isspace = true then [] else
      (cstr ((s.request.bytes ++ s.pila).drop p.request.length)).takeWhile fun c => !isspace c) =
        cola s p.request := by
    rw [cola, cstr, List.takeWhile_takeWhile]
    congr 2
    funext c
    simp [Bool.and_comm]
  rw [decodificar, htext, formato, sscanf_upTo_lit _ _ _ _ hf₁, hp1, hp2]
  by_cases h1 : f₁ = []
  · rw [if_pos h1, if_pos h1]
    rfl
  · rw [if_neg h1, if_neg h1, sscanf_upTo_lit _ _ _ _ hf₂]
    by_cases h2 : f₂ = []
    · rw [if_pos h2, if_pos h2]
      rfl
    · rw [if_neg h2, if_neg h2, sscanf_word_cola _ _ (dropWhile_isspace_ne_nil p y), ← hp3, hcola]
      rfl

theorem guarda_iff (request : Bufer) (pila : Text) (alumnos : Fin MAX_ALUMNOS → Alumno)
    (h : List Peticion) (p : Peticion) (a : Alumno) :
    Guarda (servidor0 request pila alumnos) h p a ↔
      ∃ s, bucle (servidor0 request pila alumnos) h = .ok s ∧ guardar s p = .ok a := by
  have hnum : ∀ s, bucle (servidor0 request pila alumnos) h = .ok s → s.numSolictudes = h.length :=
    fun s hs => (bucle_numSolictudes h _ s hs).trans (Nat.zero_add _)
  constructor
  · rintro ⟨u, hu, hk, rfl⟩
    obtain ⟨s, a, hs, ha, rfl⟩ := (bucle_concat_eq_ok h _ u p).mp hu
    refine ⟨s, hs, ?_⟩
    simp only [anotar, hnum s hs, if_true]
    exact ha
  · rintro ⟨s, hs, ha⟩
    have hk : h.length < MAX_ALUMNOS := by
      rw [← hnum s hs]
      exact ((guardar_eq_ok s p a).mp ha).2.2
    exact ⟨_, (bucle_concat_eq_ok h _ _ p).mpr ⟨s, a, hs, ha, rfl⟩, hk, by simp [anotar, hnum s hs]⟩

/-- Two states store the same record for a message exactly when `Independiente` holds of them. -/
theorem guardar_igual_iff (s t : Servidor) (p : Solicitud) (basura basura' : Alumno) :
    (∃ a, guardar s (p.peticion basura) = .ok a ∧ guardar t (p.peticion basura') = .ok a) ↔
      Independiente s t p basura basura' := by
  simp only [guardar_eq_ok]
  rw [show (p.peticion basura).basura = basura from rfl,
    show (p.peticion basura').basura = basura' from rfl, decodificar_peticion, decodificar_peticion,
    Independiente]
  split
  · constructor
    · rintro ⟨a, ⟨rfl, hc, hs⟩, he, -, ht⟩
      exact ⟨hs, ht, he, hc⟩
    · rintro ⟨hs, ht, he, hc⟩
      exact ⟨basura, ⟨rfl, hc, hs⟩, he, hc, ht⟩
  · split
    · constructor
      · rintro ⟨a, ⟨rfl, ⟨h1, h2, h3⟩, hs⟩, he, -, ht⟩
        simp only [Alumno.mk.injEq] at he
        exact ⟨hs, ht, he.2.1, he.2.2, h1, h2, h3⟩
      · rintro ⟨hs, ht, hc, hg, h1, h2, h3⟩
        exact ⟨_, ⟨rfl, ⟨h1, h2, h3⟩, hs⟩, by simp only [hc, hg], ⟨h1, h2, h3⟩, ht⟩
    · constructor
      · rintro ⟨a, ⟨rfl, ⟨h1, h2, h3⟩, hs⟩, he, -, ht⟩
        simp only [Alumno.mk.injEq] at he
        exact ⟨hs, ht, List.append_cancel_left he.2.2, h1, h2, h3⟩
      · rintro ⟨hs, ht, hc, h1, h2, h3⟩
        exact ⟨_, ⟨rfl, ⟨h1, h2, h3⟩, hs⟩, by rw [hc], ⟨h1, h2, h3⟩, ht⟩

/-! ## Top theorems -/

/-- **Influence.**  After any two histories, the same record is stored for the next message of a client
exactly when both histories went through and the states they left are `Independiente` for it. -/
theorem guarda_igual_iff (request request' : Bufer) (pila pila' : Text)
    (alumnos alumnos' : Fin MAX_ALUMNOS → Alumno) (h h' : List Peticion) (p : Solicitud)
    (basura basura' : Alumno) :
    (∃ a, Guarda (servidor0 request pila alumnos) h (p.peticion basura) a ∧
      Guarda (servidor0 request' pila' alumnos') h' (p.peticion basura') a) ↔
      ∃ s t, bucle (servidor0 request pila alumnos) h = .ok s ∧
        bucle (servidor0 request' pila' alumnos') h' = .ok t ∧
        Independiente s t p basura basura' := by
  simp only [guarda_iff]
  constructor
  · rintro ⟨a, ⟨s, hs, ha⟩, t, ht, ha'⟩
    exact ⟨s, t, hs, ht, (guardar_igual_iff s t p basura basura').mp ⟨a, ha, ha'⟩⟩
  · rintro ⟨s, t, hs, ht, hi⟩
    obtain ⟨a, ha, ha'⟩ := (guardar_igual_iff s t p basura basura').mpr hi
    exact ⟨a, ⟨s, hs, ha⟩, t, ht, ha'⟩

def solicitudX : Solicitud :=
  ⟨"Ana".toList, "1".toList, "X".toList, by decide, by simp [nul], by decide,
    by simp [nul, isspace], by decide, by simp [nul, isspace]⟩

def peticionABCD : Peticion := ⟨"Ana#1#ABCD".toList, by decide, alumno0⟩

def peticionYZ : Peticion := ⟨"Ana#1#YZ".toList, by decide, alumno0⟩

/-- The message `Ana#1#X` is stored with group `XBCD` after `Ana#1#ABCD`, with group `XZ` after
`Ana#1#YZ`. -/
theorem grupo_con_restos :
    ¬ ∀ (request request' : Bufer) (pila pila' : Text) (alumnos alumnos' : Fin MAX_ALUMNOS → Alumno)
      (h h' : List Peticion) (p : Solicitud) (basura basura' a a' : Alumno),
      Guarda (servidor0 request pila alumnos) h (p.peticion basura) a →
      Guarda (servidor0 request' pila' alumnos') h' (p.peticion basura') a' → a = a' := by
  intro h
  have h1 : Guarda (servidor0 buferCero [] fun _ => alumno0) [peticionABCD]
      (solicitudX.peticion alumno0) ⟨"Ana".toList, "1".toList, "XBCD".toList⟩ :=
    ⟨_, rfl, by decide, rfl⟩
  have h2 : Guarda (servidor0 buferCero [] fun _ => alumno0) [peticionYZ]
      (solicitudX.peticion alumno0) ⟨"Ana".toList, "1".toList, "XZ".toList⟩ :=
    ⟨_, rfl, by decide, rfl⟩
  exact absurd (h _ _ _ _ _ _ _ _ _ _ _ _ _ h1 h2) (by decide)

end Inscripcion
