import SistemasDistribuidos.Inscripcion.Servidor

/-!
# The bounds of one turn of the enrolment servers

`sscanf("%[^#]#%[^#]#%s")` has no field widths, `read` writes no NUL, and neither the
count `read` returns nor that of `sscanf` is looked at.  For any message, over whatever
older requests have left in `request`:

    DentroDeLimites s p  ↔  `request` then has a NUL, and before it stand a name, a key and
                            a group of the client's lengths                  (dentro_iff)

`printf("La petición recibida fue: %s.\n", request)` reads up to the NUL as well, so both
it and `sscanf` count as looking at `request`.
-/

namespace Inscripcion

open CText Scanf

/-! ## Specification -/

/-- The sizes of `name`, `claveUEA` and `grupo`. -/
def tamanos : List Nat := [100, 8, 6]

/-- The memory from `request` on, after `read`. -/
def memoria (s : Servidor) (p : Peticion) : Text := (s.request.leer p).bytes ++ s.pila

/-- The fields `sscanf` assigns; their number is the value it returns. -/
def convertidos (s : Servidor) (p : Peticion) : List Text := sscanf formato (cstr (memoria s p))

/-- How many bytes from `request` on are looked at: by `sscanf`, and by the `printf` behind it. -/
def examinados (s : Servidor) (p : Peticion) : Nat :=
  max (looked formato (cstr (memoria s p))) ((cstr (memoria s p)).length + 1)

/-- Each field that is assigned fits with its NUL, no byte behind `request` is looked at, and a request
with fewer than three fields changes neither `alumnos` nor `numSolictudes`. -/
structure DentroDeLimites (s : Servidor) (p : Peticion) : Prop where
  campos : ∀ x ∈ (convertidos s p).zip tamanos, x.1.length + 1 ≤ x.2
  bytes : examinados s p ≤ ETHSIZE
  incompleta : (convertidos s p).length < 3 → ∃ t r, atender s p = .ok (t, r) ∧
    t.alumnos = s.alumnos ∧ t.numSolictudes = s.numSolictudes

/-- A name, a key and a group of the lengths the client allows, with a separator behind the first two,
blanks before the group, and behind it nothing or something that starts with a blank. -/
def BienFormada (t : Text) : Prop :=
  ∃ name claveUEA blancos grupo resto,
    t = name ++ '#' :: (claveUEA ++ '#' :: (blancos ++ (grupo ++ resto))) ∧
    ('#' ∉ name ∧ 1 ≤ name.length ∧ name.length ≤ 99) ∧
    ('#' ∉ claveUEA ∧ 1 ≤ claveUEA.length ∧ claveUEA.length ≤ 7) ∧
    (∀ c ∈ blancos, isspace c = true) ∧
    ((∀ c ∈ grupo, isspace c = false) ∧ 1 ≤ grupo.length ∧ grupo.length ≤ 5) ∧
    ∀ c ∈ resto.head?, isspace c = true

/-! ## Lemmas -/

/-- The three fields are converted and fit exactly when the text is well formed. -/
theorem bienFormada_iff (t : Text) :
    BienFormada t ↔ 3 ≤ (sscanf formato t).length ∧
      ∀ x ∈ (sscanf formato t).zip tamanos, x.1.length + 1 ≤ x.2 := by
  constructor
  · rintro ⟨name, claveUEA, blancos, grupo, resto, rfl, ⟨hn, hn1, hn2⟩, ⟨hc, hc1, hc2⟩, hb,
      ⟨hg, hg1, hg2⟩, hr⟩
    have hgrupo : sscanf [.word] (blancos ++ (grupo ++ resto)) = [grupo] :=
      (sscanf_word_eq_cons _ _ _).mpr
        ⟨blancos, resto, rfl, rfl, List.length_pos_iff.mp hg1, hb, hg, hr⟩
    have hclave := (sscanf_upTo_lit_eq_cons '#' _ _ claveUEA grupo []).mpr
      ⟨_, rfl, List.length_pos_iff.mp hc1, hc, hgrupo⟩
    have hname : sscanf formato _ = [name, claveUEA, grupo] :=
      (sscanf_upTo_lit_eq_cons '#' _ _ name claveUEA [grupo]).mpr
        ⟨_, rfl, List.length_pos_iff.mp hn1, hn, hclave⟩
    rw [hname]
    simp only [tamanos, List.zip_cons_cons, List.zip_nil_right, List.mem_cons, List.not_mem_nil,
      or_false, forall_eq_or_imp, forall_eq, List.length_cons, List.length_nil]
    omega
  · rintro ⟨h3, hcabe⟩
    rcases hts : sscanf formato t with _ | ⟨name, _ | ⟨claveUEA, _ | ⟨grupo, ts⟩⟩⟩
    · rw [hts] at h3
      simp at h3
    · rw [hts] at h3
      simp at h3
    · rw [hts] at h3
      simp at h3
    · rw [hts] at hcabe
      obtain ⟨r₁, rfl, hn1, hn, h⟩ := (sscanf_upTo_lit_eq_cons _ _ _ _ _ _).mp hts
      obtain ⟨r₂, rfl, hc1, hc, h⟩ := (sscanf_upTo_lit_eq_cons _ _ _ _ _ _).mp h
      obtain ⟨b, r, rfl, rfl, hg1, hb, hg, hr⟩ := (sscanf_word_eq_cons _ _ _).mp h
      simp only [tamanos, List.zip_cons_cons, List.zip_nil_right, List.mem_cons, List.not_mem_nil,
        or_false, forall_eq_or_imp, forall_eq] at hcabe
      obtain ⟨hn2, hc2, hg2⟩ := hcabe
      refine ⟨name, claveUEA, b, grupo, r, rfl, ⟨hn, List.length_pos_iff.mpr hn1, by omega⟩,
        ⟨hc, List.length_pos_iff.mpr hc1, by omega⟩, hb,
        ⟨hg, List.length_pos_iff.mpr hg1, by omega⟩, hr⟩

/-- `request` alone is looked at exactly when it has a NUL. -/
theorem examinados_le_iff (s : Servidor) (p : Peticion) :
    examinados s p ≤ ETHSIZE ↔ nul ∈ (s.request.leer p).bytes := by
  have h := cstr_length_lt_iff (s.request.leer p).bytes s.pila
  have hl := looked_le formato (cstr (memoria s p))
  rw [(s.request.leer p).tam] at h
  rw [← h]
  unfold examinados
  unfold memoria at hl ⊢
  omega

theorem cstr_memoria (s : Servidor) (p : Peticion) (t resto : Text)
    (h : (s.request.leer p).bytes = t ++ nul :: resto) (ht : nul ∉ t) : cstr (memoria s p) = t := by
  rw [memoria, h, List.append_assoc, List.cons_append, cstr_append_nul t _ ht]

/-- Every turn that goes through counts its request, whatever `sscanf` converted. -/
theorem atender_numSolictudes (s t : Servidor) (p : Peticion) (r : Text)
    (h : atender s p = .ok (t, r)) : t.numSolictudes = s.numSolictudes + 1 := by
  obtain ⟨a, -, rfl, -⟩ := (atender_eq_ok s t p r).mp h
  rfl

/-! ## Top theorems -/

/-- **A turn stays within its bounds exactly when `request` holds a NUL behind a well-formed text.** -/
theorem dentro_iff (s : Servidor) (p : Peticion) :
    DentroDeLimites s p ↔ ∃ t resto, (s.request.leer p).bytes = t ++ nul :: resto ∧ nul ∉ t ∧
      BienFormada t := by
  constructor
  · intro h
    obtain ⟨t, resto, hsplit, ht⟩ :=
      List.eq_append_cons_of_mem ((examinados_le_iff s p).mp h.bytes)
    have hcstr := cstr_memoria s p t resto hsplit ht
    refine ⟨t, resto, hsplit, ht, (bienFormada_iff t).mpr ?_⟩
    rw [← hcstr]
    refine ⟨?_, h.campos⟩
    by_contra hlt
    -- the request would be counted
    obtain ⟨u, r, hu, -, hnum⟩ := h.incompleta (by rw [convertidos]; omega)
    have := atender_numSolictudes s u p r hu
    omega
  · rintro ⟨t, resto, hsplit, ht, hbien⟩
    have hcstr := cstr_memoria s p t resto hsplit ht
    obtain ⟨h3, hcabe⟩ := (bienFormada_iff t).mp hbien
    have hmem : nul ∈ (s.request.leer p).bytes := by
      rw [hsplit]
      simp
    refine ⟨?_, (examinados_le_iff s p).mpr hmem, ?_⟩
    · rw [convertidos, hcstr]
      exact hcabe
    · rw [convertidos, hcstr]
      intro hlt
      omega

/-- The message `Ana` converts one field; its record, with what the other two locals held, is counted. -/
theorem solo_nombre : ¬ ∀ (s : Servidor) (p : Peticion), DentroDeLimites s p := by
  intro h
  obtain ⟨t, r, ht, -, hnum⟩ := (h (servidor0 buferCero [] fun _ => alumno0)
    ⟨"Ana".toList, by decide, alumno0⟩).incompleta (by decide)
  have := atender_numSolictudes _ _ _ _ ht
  omega

end Inscripcion
