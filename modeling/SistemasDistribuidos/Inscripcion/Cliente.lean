import SistemasDistribuidos.Lib.Scanf

/-!
# The enrolment client `Practica01/clienteTCPCodificar.c`

The client reads a name with `fgets`, a `claveUEA` and a `grupo` with `scanf`, and
sends `name#claveUEA#grupo` without a terminating NUL.

`Solicitud` collects what it can read; `leerSolicitud` is the reading itself, and the
two agree: what is read is a `Solicitud` (`leerSolicitud_sound`), and every
`Solicitud` can be typed in (`leerSolicitud_complete`).
-/

namespace Inscripcion

open CText Scanf

/-- The three C strings a run of the client sends. -/
structure Solicitud where
  name : Text
  claveUEA : Text
  grupo : Text
  name_length : name.length ≤ 99
  name_chars : ∀ c ∈ name, c ≠ '\n' ∧ c ≠ nul
  claveUEA_length : 1 ≤ claveUEA.length ∧ claveUEA.length ≤ 7
  claveUEA_chars : ∀ c ∈ claveUEA, isspace c = false ∧ c ≠ nul
  grupo_length : 1 ≤ grupo.length ∧ grupo.length ≤ 5
  grupo_chars : ∀ c ∈ grupo, isspace c = false ∧ c ≠ nul

/-! ## Algorithm -/

/-- `fgets` into an array of `k + 1`: the line read and the rest of the input. -/
def fgets : Nat → Text → Text × Text
  | 0, s => ([], s)
  | _ + 1, [] => ([], [])
  | k + 1, c :: cs =>
    if c = '\n' then (['\n'], cs) else (c :: (fgets k cs).1, (fgets k cs).2)

/-- `scanf("%ws")`. -/
def leerPalabra (w : Nat) (s : Text) : Option (Text × Text) :=
  let s := s.dropWhile isspace
  let t := (s.takeWhile fun c => !isspace c).take w
  if t = [] then none else some (t, s.drop t.length)

/-- `while (getchar() != '\n');`, which does not end on an input without a newline. -/
def descartarLinea : Text → Option Text
  | [] => none
  | c :: cs => if c = '\n' then some cs else descartarLinea cs

/-- What the client reads from its standard input. -/
def leerSolicitud (entrada : Text) : Option (Text × Text × Text) :=
  let linea := fgets 99 entrada
  let name := linea.1.takeWhile (· ≠ '\n')
  (leerPalabra 7 linea.2).bind fun clave =>
  (descartarLinea clave.2).bind fun r =>
  (leerPalabra 5 r).bind fun grupo =>
  (descartarLinea grupo.2).bind fun _ => some (name, clave.1, grupo.1)

/-- `sprintf(request, "%s#%s#%s", name, claveUEA, grupo)`. -/
def Solicitud.request (p : Solicitud) : Text :=
  p.name ++ '#' :: (p.claveUEA ++ '#' :: p.grupo)

/-! ## Lemmas -/

theorem fgets_spec (k : Nat) (s : Text) :
    (fgets k s).1.length ≤ k ∧ s = (fgets k s).1 ++ (fgets k s).2 := by
  induction k generalizing s with
  | zero => simp [fgets]
  | succ k ih =>
    cases s with
    | nil => simp [fgets]
    | cons c cs =>
      unfold fgets
      split
      · next h => subst h; simp
      · obtain ⟨h1, h2⟩ := ih cs
        exact ⟨by simpa using h1, by simp only [List.cons_append, ← h2]⟩

theorem fgets_line (k : Nat) (a rest : Text) (ha : '\n' ∉ a) (hk : a.length < k) :
    fgets k (a ++ '\n' :: rest) = (a ++ ['\n'], rest) := by
  induction k generalizing a with
  | zero => omega
  | succ k ih =>
    cases a with
    | nil => simp [fgets]
    | cons c cs =>
      have hc : c ≠ '\n' := fun e => ha (by rw [e]; exact List.mem_cons_self)
      have := ih cs (fun h => ha (List.mem_cons_of_mem _ h)) (by simpa using hk)
      simp [fgets, hc, this]

/-- A line that fills the array leaves its newline behind. -/
theorem fgets_full (a rest : Text) (ha : '\n' ∉ a) :
    fgets a.length (a ++ '\n' :: rest) = (a, '\n' :: rest) := by
  induction a with
  | nil => simp [fgets]
  | cons c cs ih =>
    have hc : c ≠ '\n' := fun e => ha (by rw [e]; exact List.mem_cons_self)
    have := ih (fun h => ha (List.mem_cons_of_mem _ h))
    simp [fgets, hc, this]

theorem leerPalabra_spec (w : Nat) (s : Text) (t : Text × Text) (h : leerPalabra w s = some t) :
    (1 ≤ t.1.length ∧ t.1.length ≤ w) ∧ (∀ c ∈ t.1, isspace c = false ∧ c ∈ s) ∧
      ∀ c ∈ t.2, c ∈ s := by
  unfold leerPalabra at h
  simp only at h
  split at h
  · cases h
  · next hne =>
    obtain rfl := Option.some.inj h
    have hsub : ∀ c ∈ s.dropWhile isspace, c ∈ s := fun c hc => (List.dropWhile_suffix _).subset hc
    refine ⟨⟨List.length_pos_iff.mpr hne, by simp⟩, fun c hc => ?_, fun c hc => ?_⟩
    · have hc' := List.mem_of_mem_take hc
      have hspace := List.mem_takeWhile_imp hc'
      exact ⟨by simpa using hspace, hsub c ((List.takeWhile_prefix _).subset hc')⟩
    · exact hsub c (List.mem_of_mem_drop hc)

theorem descartarLinea_mem (s t : Text) (h : descartarLinea s = some t) : ∀ c ∈ t, c ∈ s := by
  induction s with
  | nil => cases h
  | cons x xs ih =>
    unfold descartarLinea at h
    split at h
    · obtain rfl := Option.some.inj h
      exact fun c hc => List.mem_cons_of_mem _ hc
    · exact fun c hc => List.mem_cons_of_mem _ (ih h c hc)

/-- A word followed by a newline, after leading blanks. -/
theorem leerPalabra_line (w : Nat) (b a rest : Text) (hb : ∀ c ∈ b, isspace c = true)
    (ha : ∀ c ∈ a, isspace c = false) (hne : a ≠ []) (hw : a.length ≤ w) :
    leerPalabra w (b ++ a ++ '\n' :: rest) = some (a, '\n' :: rest) := by
  have hnot : ∀ x ∈ a, (!isspace x) = true := fun x hx => by rw [ha x hx]; rfl
  have hdrop : (b ++ a ++ '\n' :: rest).dropWhile isspace = a ++ '\n' :: rest := by
    rw [List.append_assoc]
    exact dropWhile_blanks b a _ hb ha hne
  have htake : (a ++ '\n' :: rest).takeWhile (fun c => !isspace c) = a :=
    (span_append _ a _ hnot (by simp [isspace])).1
  simp only [leerPalabra, hdrop, htake, List.take_of_length_le hw, if_neg hne, List.drop_left]

/-! ## Top theorems -/

/-- What is read from an input without NULs is a `Solicitud`. -/
theorem leerSolicitud_sound (entrada name clave grupo : Text) (hnul : nul ∉ entrada)
    (h : leerSolicitud entrada = some (name, clave, grupo)) :
    ∃ p : Solicitud, p.name = name ∧ p.claveUEA = clave ∧ p.grupo = grupo := by
  simp only [leerSolicitud, Option.bind_eq_some_iff, Option.some.injEq, Prod.mk.injEq] at h
  obtain ⟨c, hc, r, hr, g, hg, -, -, rfl, rfl, rfl⟩ := h
  obtain ⟨hlen, hsplit⟩ := fgets_spec 99 entrada
  obtain ⟨hc1, hc2, hc3⟩ := leerPalabra_spec 7 _ c hc
  obtain ⟨hg1, hg2, -⟩ := leerPalabra_spec 5 _ g hg
  have hin1 : ∀ x ∈ (fgets 99 entrada).1, x ∈ entrada := fun x hx => by
    rw [hsplit]; exact List.mem_append_left _ hx
  have hin2 : ∀ x ∈ (fgets 99 entrada).2, x ∈ entrada := fun x hx => by
    rw [hsplit]; exact List.mem_append_right _ hx
  have hne : ∀ x ∈ entrada, x ≠ nul := fun x hx e => hnul (by rw [← e]; exact hx)
  refine ⟨⟨_, c.1, g.1, ?_, fun x hx => ?_, hc1, fun x hx => ?_, hg1, fun x hx => ?_⟩, rfl, rfl, rfl⟩
  · exact Nat.le_trans (List.takeWhile_prefix _).length_le hlen
  · have hx' := List.mem_takeWhile_imp hx
    exact ⟨by simpa using hx', hne x (hin1 x ((List.takeWhile_prefix _).subset hx))⟩
  · exact ⟨(hc2 x hx).1, hne x (hin2 x (hc2 x hx).2)⟩
  · exact ⟨(hg2 x hx).1, hne x (hin2 x (hc3 x (descartarLinea_mem _ _ hr x (hg2 x hx).2)))⟩

/-- Every `Solicitud` is what the client reads when its three lines are typed in. -/
theorem leerSolicitud_complete (p : Solicitud) :
    leerSolicitud (p.name ++ '\n' :: (p.claveUEA ++ '\n' :: (p.grupo ++ ['\n']))) =
      some (p.name, p.claveUEA, p.grupo) := by
  have hn : '\n' ∉ p.name := fun h => (p.name_chars _ h).1 rfl
  have hc : p.claveUEA ≠ [] := List.length_pos_iff.mp p.claveUEA_length.1
  have hg : p.grupo ≠ [] := List.length_pos_iff.mp p.grupo_length.1
  have hpal := fun b hb => leerPalabra_line 7 b p.claveUEA (p.grupo ++ ['\n']) hb
    (fun c h => (p.claveUEA_chars c h).1) hc p.claveUEA_length.2
  have hgru := leerPalabra_line 5 [] p.grupo [] (by simp) (fun c h => (p.grupo_chars c h).1) hg
    p.grupo_length.2
  rcases Nat.lt_or_eq_of_le p.name_length with hlt | heq
  · simp only [leerSolicitud, fgets_line 99 p.name _ hn hlt, takeWhile_ne_append _ _ _ hn]
    rw [show p.claveUEA ++ '\n' :: (p.grupo ++ ['\n']) =
      [] ++ p.claveUEA ++ '\n' :: (p.grupo ++ ['\n']) from rfl, hpal [] (by simp)]
    simp only [Option.bind_some, descartarLinea, if_true]
    rw [show p.grupo ++ ['\n'] = [] ++ p.grupo ++ '\n' :: [] from rfl, hgru]
    rfl
  · -- the name fills the array, so its newline is skipped by the next `scanf`
    have hname : p.name.takeWhile (· ≠ '\n') = p.name :=
      List.takeWhile_eq_self_iff.mpr (all_ne_of_notMem _ _ hn)
    have hf := fgets_full p.name (p.claveUEA ++ '\n' :: (p.grupo ++ ['\n'])) hn
    rw [heq] at hf
    simp only [leerSolicitud, hf, hname]
    rw [show '\n' :: (p.claveUEA ++ '\n' :: (p.grupo ++ ['\n'])) =
      ['\n'] ++ p.claveUEA ++ '\n' :: (p.grupo ++ ['\n']) from rfl, hpal ['\n'] (by simp [isspace])]
    simp only [Option.bind_some, descartarLinea, if_true]
    rw [show p.grupo ++ ['\n'] = [] ++ p.grupo ++ '\n' :: [] from rfl, hgru]
    rfl

end Inscripcion
