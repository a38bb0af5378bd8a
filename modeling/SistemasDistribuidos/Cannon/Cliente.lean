import SistemasDistribuidos.Cannon.Greeter
import SistemasDistribuidos.Lib.CString

/-!
# The client `Practica03/CodigosFinales/main.go`

After the name, each turn of the loop reads a line for the angle and a line for the speed
and fires one shot; a line that is not a number is asked for again and does not count.
Five shots, a shot within one metre or a failed call end the loop.

The errors of `ReadString` are dropped and the last byte of what it returns is cut off
without a look.  At the end of the input that byte is not a newline, or there is none and
the slice panics:

    PartidaCorrecta  ↔  the loop ends inside the lines that have their newline, or with a
                        last one that loses no digit and no value   (partidaCorrecta_iff)

Bytes are `Char`s; `strconv.ParseFloat` and the test `math.Abs(distancia) <= 1` on `float64`
are parameters.
-/

namespace Cannon

open CText CString

/-! ## Algorithm -/

/-- `reader.ReadString('\n')`: up to the first newline, or all there is; and what is left. -/
def readString : Text → Text × Text
  | [] => ([], [])
  | c :: cs => if c = '\n' then ([c], cs) else (c :: (readString cs).1, (readString cs).2)

/-- `input[:len(input)-1]`; `none` is the panic at the bound -1. -/
def sinTerminador (input : Text) : Option Text := if input = [] then none else some input.dropLast

def parseDigits (sign : Int) (s : Text) : Option Int :=
  if s = [] ∨ ¬ s.all isdigit then none
  else if FitsInt (sign * ofDigits s) then some (sign * ofDigits s) else none

/-- `strconv.ParseInt(input, 10, 32)`; `none` is a syntax or a range error. -/
def parseInt : Text → Option Int
  | '-' :: s => parseDigits (-1) s
  | '+' :: s => parseDigits 1 s
  | s => parseDigits 1 s

/-- What the server answers to one shot: `none` and `false` are the errors of the two calls. -/
structure Respuesta (D : Type*) where
  disparaCannon : Option D
  mejorDisparo : Bool

/-- How the program ends: after five shots, on target, in `log.Fatalf` or in a panic. -/
inductive Final where
  | cinco
  | blanco
  | fatal
  | panico
deriving DecidableEq, Repr

/-- What one turn of the loop does before it calls the server. -/
inductive Vuelta (D : Type*) where
  | panico
  | repite (leido : List Text) (resto : Text)
  | dispara (linea₁ linea₂ : Text) (angulo : Int) (velocidad : D) (resto : Text)

/-- One turn of the loop: the shot it is about, the lines it read and the call it sent. -/
structure Intento (D : Type*) where
  i : Nat
  leido : List Text
  args : Option (DisparaCannonArgs D)

section Bucle

variable {D : Type*} (parseFloat : Text → Option D) (cerca : D → Bool) (respuestas : Nat → Respuesta D)

def vuelta (entrada : Text) : Vuelta D :=
  let linea₁ := readString entrada
  match sinTerminador linea₁.1 with
  | none => .panico
  | some input =>
    match parseInt input with
    | none => .repite [linea₁.1] linea₁.2
    | some angulo =>
      let linea₂ := readString linea₁.2
      match sinTerminador linea₂.1 with
      | none => .panico
      | some input =>
        match parseFloat input with
        | none => .repite [linea₁.1, linea₂.1] linea₂.2
        | some velocidad => .dispara linea₁.1 linea₂.1 angulo velocidad linea₂.2

/-- How the program ends on the answers to a shot, if it does. -/
def trasDisparo (r : Respuesta D) : Option Final :=
  match r.disparaCannon with
  | none => some .fatal
  | some distancia =>
    if cerca distancia then some .blanco
    else if r.mejorDisparo then none else some .fatal

/-! ## Lines -/

/-- `ReadString` on `s` returns `linea` and leaves `resto`; without its last byte, which is its newline
or the end of the input, the line is `input`. -/
inductive Corta : Text → Text → Text → Text → Prop where
  | entera (input resto : Text) (h : '\n' ∉ input) :
    Corta (input ++ '\n' :: resto) input (input ++ ['\n']) resto
  | ultima (input : Text) (b : Char) (h : '\n' ∉ input ++ [b]) :
    Corta (input ++ [b]) input (input ++ [b]) []

/-- A line as `ReadString` returns it: its newline is the last byte, or the input ends with it. -/
def EsLinea (linea : Text) : Prop := ∃ s input resto, Corta s input linea resto

theorem readString_line (t resto : Text) (ht : '\n' ∉ t) :
    readString (t ++ '\n' :: resto) = (t ++ ['\n'], resto) := by
  induction t with
  | nil => rfl
  | cons c t ih =>
    rw [List.mem_cons, not_or] at ht
    rw [List.cons_append, readString, if_neg (Ne.symm ht.1), ih ht.2]
    rfl

theorem readString_eof (s : Text) (hs : '\n' ∉ s) : readString s = (s, []) := by
  induction s with
  | nil => rfl
  | cons c s ih =>
    rw [List.mem_cons, not_or] at hs
    rw [readString, if_neg (Ne.symm hs.1), ih hs.2]

theorem sinTerminador_concat (t : Text) (b : Char) : sinTerminador (t ++ [b]) = some t := by
  simp [sinTerminador]

theorem Corta.lee {s input linea resto : Text} (h : Corta s input linea resto) :
    readString s = (linea, resto) ∧ sinTerminador linea = some input := by
  cases h with
  | entera _ _ h => exact ⟨readString_line _ _ h, sinTerminador_concat _ _⟩
  | ultima _ b h => exact ⟨readString_eof _ h, sinTerminador_concat _ _⟩

/-- A slice that is in range comes from a line. -/
theorem corta_of_sinTerminador (s input : Text) (h : sinTerminador (readString s).1 = some input) :
    Corta s input (readString s).1 (readString s).2 := by
  by_cases hs : '\n' ∈ s
  · obtain ⟨t, resto, rfl, ht⟩ := List.eq_append_cons_of_mem hs
    rw [readString_line t resto ht, sinTerminador_concat] at h
    obtain rfl := Option.some.inj h
    rw [readString_line t resto ht]
    exact .entera t resto ht
  · rw [readString_eof s hs] at h ⊢
    rcases s.eq_nil_or_concat with rfl | ⟨t, b, rfl⟩
    · cases h
    · rw [List.concat_eq_append] at h hs ⊢
      rw [sinTerminador_concat] at h
      obtain rfl := Option.some.inj h
      exact .ultima t b hs

theorem Corta.append {s input linea resto : Text} (h : Corta s input linea resto) :
    linea ++ resto = s := by
  cases h <;> simp

theorem Corta.length_lt {s input linea resto : Text} (h : Corta s input linea resto) :
    resto.length < s.length := by
  cases h <;> simp only [List.length_append, List.length_cons, List.length_nil] <;> omega

/-- Everything one turn can do before it calls the server. -/
theorem vuelta_cases (entrada : Text) :
    vuelta parseFloat entrada = .panico ∨
    (∃ input linea resto, Corta entrada input linea resto ∧ parseInt input = none ∧
      vuelta parseFloat entrada = .repite [linea] resto) ∨
    ∃ input₁ linea₁ resto₁ angulo input₂ linea₂ resto₂, Corta entrada input₁ linea₁ resto₁ ∧
      parseInt input₁ = some angulo ∧ Corta resto₁ input₂ linea₂ resto₂ ∧
      ((parseFloat input₂ = none ∧ vuelta parseFloat entrada = .repite [linea₁, linea₂] resto₂) ∨
        ∃ velocidad, parseFloat input₂ = some velocidad ∧
          vuelta parseFloat entrada = .dispara linea₁ linea₂ angulo velocidad resto₂) := by
  cases h₁ : sinTerminador (readString entrada).1 with
  | none => exact .inl (by simp only [vuelta, h₁])
  | some input₁ =>
    have hc₁ := corta_of_sinTerminador entrada input₁ h₁
    cases ha : parseInt input₁ with
    | none => exact .inr (.inl ⟨input₁, _, _, hc₁, ha, by simp only [vuelta, h₁, ha]⟩)
    | some angulo =>
      cases h₂ : sinTerminador (readString (readString entrada).2).1 with
      | none => exact .inl (by simp only [vuelta, h₁, ha, h₂])
      | some input₂ =>
        refine .inr (.inr ⟨input₁, _, _, angulo, input₂, _, _, hc₁, ha,
          corta_of_sinTerminador _ input₂ h₂, ?_⟩)
        cases hv : parseFloat input₂ with
        | none => exact .inl ⟨rfl, by simp only [vuelta, h₁, ha, h₂, hv]⟩
        | some velocidad => exact .inr ⟨velocidad, rfl, by simp only [vuelta, h₁, ha, h₂, hv]⟩

theorem vuelta_eq_repite (entrada resto : Text) (leido : List Text) :
    vuelta parseFloat entrada = .repite leido resto ↔
      (∃ input linea, leido = [linea] ∧ Corta entrada input linea resto ∧ parseInt input = none) ∨
      ∃ input₁ linea₁ resto₁ angulo input₂ linea₂, leido = [linea₁, linea₂] ∧
        Corta entrada input₁ linea₁ resto₁ ∧ parseInt input₁ = some angulo ∧
        Corta resto₁ input₂ linea₂ resto ∧ parseFloat input₂ = none := by
  constructor
  · intro h
    obtain hp | ⟨_, _, _, hc, ha, hr⟩ | ⟨_, _, _, _, _, _, _, hc₁, ha, hc₂, ⟨hv, hr⟩ | ⟨_, -, hd⟩⟩ :=
      vuelta_cases parseFloat entrada
    · rw [hp] at h
      cases h
    · rw [hr] at h
      cases h
      exact .inl ⟨_, _, rfl, hc, ha⟩
    · rw [hr] at h
      cases h
      exact .inr ⟨_, _, _, _, _, _, rfl, hc₁, ha, hc₂, hv⟩
    · rw [hd] at h
      cases h
  · rintro (⟨input, linea, rfl, hc, ha⟩ |
      ⟨input₁, linea₁, resto₁, angulo, input₂, linea₂, rfl, hc₁, ha, hc₂, hv⟩)
    · simp only [vuelta, hc.lee, ha]
    · simp only [vuelta, hc₁.lee, hc₂.lee, ha, hv]

theorem vuelta_eq_dispara (entrada linea₁ linea₂ resto : Text) (angulo : Int) (velocidad : D) :
    vuelta parseFloat entrada = .dispara linea₁ linea₂ angulo velocidad resto ↔
      ∃ input₁ resto₁ input₂, Corta entrada input₁ linea₁ resto₁ ∧ parseInt input₁ = some angulo ∧
        Corta resto₁ input₂ linea₂ resto ∧ parseFloat input₂ = some velocidad := by
  constructor
  · intro h
    obtain hp | ⟨_, _, _, -, -, hr⟩ | ⟨_, _, _, _, _, _, _, hc₁, ha, hc₂, ⟨-, hr⟩ | ⟨_, hv, hd⟩⟩ :=
      vuelta_cases parseFloat entrada
    · rw [hp] at h
      cases h
    · rw [hr] at h
      cases h
    · rw [hr] at h
      cases h
    · rw [hd] at h
      cases h
      exact ⟨_, _, _, hc₁, ha, hc₂, hv⟩
  · rintro ⟨input₁, resto₁, input₂, hc₁, ha, hc₂, hv⟩
    simp only [vuelta, hc₁.lee, hc₂.lee, ha, hv]

/-- A turn that repeats has read whole lines, and at least one. -/
theorem vuelta_repite (entrada resto : Text) (leido : List Text)
    (h : vuelta parseFloat entrada = .repite leido resto) :
    leido.flatten ++ resto = entrada ∧ (∀ linea ∈ leido, EsLinea linea) ∧
      resto.length < entrada.length := by
  rcases (vuelta_eq_repite parseFloat entrada resto leido).mp h with
    ⟨_, _, rfl, hc, -⟩ | ⟨_, _, _, _, _, _, rfl, hc₁, -, hc₂, -⟩
  · exact ⟨by simpa using hc.append, by simpa using ⟨_, _, _, hc⟩, hc.length_lt⟩
  · have h₁ := hc₁.length_lt
    have h₂ := hc₂.length_lt
    exact ⟨by simpa [hc₂.append] using hc₁.append, by simpa using ⟨⟨_, _, _, hc₁⟩, _, _, _, hc₂⟩, by omega⟩

theorem vuelta_dispara (entrada linea₁ linea₂ resto : Text) (angulo : Int) (velocidad : D)
    (h : vuelta parseFloat entrada = .dispara linea₁ linea₂ angulo velocidad resto) :
    [linea₁, linea₂].flatten ++ resto = entrada ∧ (∀ linea ∈ [linea₁, linea₂], EsLinea linea) ∧
      resto.length < entrada.length := by
  obtain ⟨_, _, _, hc₁, -, hc₂, -⟩ := (vuelta_eq_dispara parseFloat entrada _ _ _ _ _).mp h
  have h₁ := hc₁.length_lt
  have h₂ := hc₂.length_lt
  exact ⟨by simpa [hc₂.append] using hc₁.append, by simpa using ⟨⟨_, _, _, hc₁⟩, _, _, _, hc₂⟩, by omega⟩

/-- The loop `for i := 0; i < 5; i++` from shot `i` on.  The `i--` before `continue` cancels the `i++`
of the loop. -/
def bucle (nombre : Text) (i : Nat) (entrada : Text) : List (Intento D) × Final :=
  if i < 5 then
    match _h : vuelta parseFloat entrada with
    | .panico => ([], .panico)
    | .repite leido resto =>
      let sigue := bucle nombre i resto
      (⟨i, leido, none⟩ :: sigue.1, sigue.2)
    | .dispara linea₁ linea₂ angulo velocidad resto =>
      let x : Intento D := ⟨i, [linea₁, linea₂], some ⟨String.ofList nombre, angulo, velocidad⟩⟩
      match trasDisparo cerca (respuestas i) with
      | some final => ([x], final)
      | none =>
        let sigue := bucle nombre (i + 1) resto
        (x :: sigue.1, sigue.2)
  else ([], .cinco)
termination_by entrada.length
decreasing_by
  · exact (vuelta_repite parseFloat entrada _ _ _h).2.2
  · exact (vuelta_dispara parseFloat entrada _ _ _ _ _ _h).2.2

/-- The program from the name on. -/
def principal (entrada : Text) : List (Intento D) × Final :=
  match sinTerminador (readString entrada).1 with
  | none => ([], .panico)
  | some nombre => bucle parseFloat cerca respuestas nombre 0 (readString entrada).2

/-! ## Specification -/

/-- The calls `DisparaCannon` sent. -/
def llamadas (log : List (Intento D)) : Nat := log.countP fun x => x.args.isSome

/-- The line without its newline. -/
def contenido (linea : Text) : Text := linea.takeWhile (· ≠ '\n')

/-- `v` is the number written on the line, and no digit of it was cut off. -/
def Fiel {β : Type*} (parse : Text → Option β) (linea : Text) (v : β) : Prop :=
  parse (contenido linea) = some v ∧ ∃ input, sinTerminador linea = some input ∧
    input.filter isdigit = (contenido linea).filter isdigit

/-- What holds of the loop on any input, from shot `i` on. -/
structure Regular (i : Nat) (entrada : Text) (r : List (Intento D) × Final) : Prop where
  /-- The lines read follow one another in the input. -/
  lineas : (∃ resto, (r.1.flatMap (·.leido)).flatten ++ resto = entrada) ∧
    ∀ x ∈ r.1, ∀ linea ∈ x.leido, EsLinea linea
  cinco : i + llamadas r.1 ≤ 5
  /-- Only calls count as shots. -/
  cuenta : (∀ pre x post, r.1 = pre ++ x :: post → x.i = i + llamadas pre) ∧
    (r.2 = .cinco → i + llamadas r.1 = 5)
  blanco : ∀ pre x post, r.1 = pre ++ x :: post → x.args.isSome = true →
    ∀ d ∈ (respuestas x.i).disparaCannon, cerca d = true → post = []

/-- Each call carries the numbers of the two lines read for it. -/
def Numeros (log : List (Intento D)) : Prop :=
  ∀ x ∈ log, ∀ a ∈ x.args, ∃ linea₁ linea₂, x.leido = [linea₁, linea₂] ∧
    Fiel parseInt linea₁ a.anguloRadianes ∧ Fiel parseFloat linea₂ a.velocidadMtrsSeg

/-- No panic, and no call with anything but the numbers of its lines. -/
def Bien (r : List (Intento D) × Final) : Prop := r.2 ≠ .panico ∧ Numeros parseFloat r.1

/-- The whole program: the slices are in range, calls carry the numbers of their lines, and behind the
line of the name the loop is `Regular`. -/
structure PartidaCorrecta (entrada : Text) : Prop where
  enRango : (principal parseFloat cerca respuestas entrada).2 ≠ .panico
  numeros : Numeros parseFloat (principal parseFloat cerca respuestas entrada).1
  bucle : ∃ nombre resto, EsLinea nombre ∧ nombre ++ resto = entrada ∧
    Regular cerca respuestas 0 resto (principal parseFloat cerca respuestas entrada)

/-- The input from shot `i` on has all the lines the loop reads: lines that end in a newline, of which a
shot takes one that is an integer and then one that is a number, until the fifth shot or one that
ends the program.  The last line may lack its newline if it ends in something else than a digit and
is the same number without it. -/
inductive Bastan : Nat → Text → Prop where
  | cinco (entrada : Text) : Bastan 5 entrada
  | noEsAngulo {i : Nat} (t resto : Text) (hi : i < 5) (ht : '\n' ∉ t) (ha : parseInt t = none)
    (h : Bastan i resto) : Bastan i (t ++ '\n' :: resto)
  | noEsVelocidad {i : Nat} (t₁ t₂ resto : Text) (angulo : Int) (hi : i < 5) (ht₁ : '\n' ∉ t₁)
    (ha : parseInt t₁ = some angulo) (ht₂ : '\n' ∉ t₂) (hv : parseFloat t₂ = none)
    (h : Bastan i resto) : Bastan i (t₁ ++ '\n' :: (t₂ ++ '\n' :: resto))
  | acaba {i : Nat} (t₁ t₂ resto : Text) (angulo : Int) (velocidad : D) (final : Final) (hi : i < 5)
    (ht₁ : '\n' ∉ t₁) (ha : parseInt t₁ = some angulo) (ht₂ : '\n' ∉ t₂)
    (hv : parseFloat t₂ = some velocidad) (hf : trasDisparo cerca (respuestas i) = some final) :
    Bastan i (t₁ ++ '\n' :: (t₂ ++ '\n' :: resto))
  | sigue {i : Nat} (t₁ t₂ resto : Text) (angulo : Int) (velocidad : D) (hi : i < 5)
    (ht₁ : '\n' ∉ t₁) (ha : parseInt t₁ = some angulo) (ht₂ : '\n' ∉ t₂)
    (hv : parseFloat t₂ = some velocidad) (hf : trasDisparo cerca (respuestas i) = none)
    (h : Bastan (i + 1) resto) : Bastan i (t₁ ++ '\n' :: (t₂ ++ '\n' :: resto))
  | sinTerminar {i : Nat} (t₁ t : Text) (b : Char) (angulo : Int) (velocidad : D) (hi : i < 5)
    (ht₁ : '\n' ∉ t₁) (ha : parseInt t₁ = some angulo) (ht : '\n' ∉ t ++ [b])
    (hb : isdigit b = false) (hv : parseFloat t = some velocidad)
    (hv' : parseFloat (t ++ [b]) = some velocidad)
    (hf : i = 4 ∨ (trasDisparo cerca (respuestas i)).isSome = true) :
    Bastan i (t₁ ++ '\n' :: (t ++ [b]))

/-! ## Lemmas -/

theorem llamadas_cons (x : Intento D) (log : List (Intento D)) :
    llamadas (x :: log) = llamadas log + if x.args.isSome = true then 1 else 0 :=
  List.countP_cons

/-- The answers to a shot end the program on target or in `log.Fatalf`. -/
theorem trasDisparo_eq_some (r : Respuesta D) (final : Final) (h : trasDisparo cerca r = some final) :
    final = .blanco ∨ final = .fatal := by
  unfold trasDisparo at h
  split at h
  · exact .inr (Option.some.inj h).symm
  · split at h
    · exact .inl (Option.some.inj h).symm
    · split at h
      · cases h
      · exact .inr (Option.some.inj h).symm

theorem regular_nil (i : Nat) (entrada : Text) (final : Final) (hi : i ≤ 5)
    (hf : final = .cinco → i = 5) : Regular cerca respuestas i entrada ([], final) where
  lineas := ⟨⟨entrada, rfl⟩, by simp⟩
  cinco := hi
  cuenta := ⟨fun pre x post h => by simp at h, hf⟩
  blanco := fun pre x post h => by simp at h

/-- One more turn in front. -/
theorem Regular.cons {i : Nat} {entrada resto : Text} {log : List (Intento D)} {final : Final}
    (x : Intento D) (hx : x.i = i) (hleido : x.leido.flatten ++ resto = entrada)
    (hlineas : ∀ linea ∈ x.leido, EsLinea linea)
    (hblanco : x.args.isSome = true → ∀ d ∈ (respuestas i).disparaCannon, cerca d = true → log = [])
    (h : Regular cerca respuestas (i + if x.args.isSome = true then 1 else 0) resto (log, final)) :
    Regular cerca respuestas i entrada (x :: log, final) where
  lineas := by
    obtain ⟨⟨r, hr⟩, hl⟩ := h.lineas
    refine ⟨⟨r, ?_⟩, ?_⟩
    · rw [List.flatMap_cons, List.flatten_append, List.append_assoc]
      rw [hr, hleido]
    · rw [List.forall_mem_cons]
      exact ⟨hlineas, hl⟩
  cinco := by
    have := h.cinco
    rw [llamadas_cons]
    simp only at this
    omega
  cuenta := by
    obtain ⟨h1, h2⟩ := h.cuenta
    refine ⟨fun pre y post hy => ?_, fun hf => ?_⟩
    · rcases List.cons_eq_append_iff.mp hy with ⟨rfl, hy'⟩ | ⟨pre, rfl, hy'⟩
      · obtain ⟨rfl, -⟩ := List.cons.inj hy'
        exact hx
      · have := h1 pre y post hy'
        rw [llamadas_cons]
        omega
    · have := h2 hf
      rw [llamadas_cons]
      simp only at this
      omega
  blanco := by
    intro pre y post hy hargs d hd hc
    rcases List.cons_eq_append_iff.mp hy with ⟨rfl, hy'⟩ | ⟨pre, rfl, hy'⟩
    · obtain ⟨rfl, rfl⟩ := List.cons.inj hy'
      rw [hx] at hd
      exact hblanco hargs d hd hc
    · exact h.blanco pre y post hy' hargs d hd hc

/-- What holds on any input. -/
theorem bucle_regular (nombre : Text) (i : Nat) (entrada : Text) (hi : i ≤ 5) :
    Regular cerca respuestas i entrada (bucle parseFloat cerca respuestas nombre i entrada) := by
  fun_induction bucle parseFloat cerca respuestas nombre i entrada with
  | case1 i entrada hlt h => exact regular_nil _ _ _ _ _ hi (fun h => by cases h)
  | case2 i entrada hlt leido resto h sigue ih =>
    obtain ⟨hleido, hlineas, -⟩ := vuelta_repite parseFloat entrada resto leido h
    exact Regular.cons _ _ ⟨i, leido, none⟩ rfl hleido hlineas (by simp) (ih hi)
  | case3 i entrada hlt linea₁ linea₂ angulo velocidad resto h x final hf =>
    obtain ⟨hleido, hlineas, -⟩ := vuelta_dispara parseFloat entrada _ _ _ _ _ h
    refine Regular.cons _ _ x rfl hleido hlineas (fun _ _ _ _ => rfl)
      (regular_nil _ _ _ _ _ (Nat.succ_le_of_lt hlt) fun h5 => ?_)
    rcases trasDisparo_eq_some cerca _ final hf with rfl | rfl <;> cases h5
  | case4 i entrada hlt linea₁ linea₂ angulo velocidad resto h x hf sigue ih =>
    obtain ⟨hleido, hlineas, -⟩ := vuelta_dispara parseFloat entrada _ _ _ _ _ h
    refine Regular.cons _ _ x rfl hleido hlineas (fun _ d hd hc => ?_) (ih (Nat.succ_le_of_lt hlt))
    -- after a hit the loop does not go on
    rw [trasDisparo, Option.mem_def.mp hd] at hf
    simp [hc] at hf
  | case5 i entrada hlt => exact regular_nil _ _ _ _ _ hi (fun _ => by omega)

theorem contenido_entera (t : Text) (ht : '\n' ∉ t) : contenido (t ++ ['\n']) = t :=
  Scanf.takeWhile_ne_append '\n' t [] ht

theorem contenido_ultima (t : Text) (ht : '\n' ∉ t) : contenido t = t :=
  List.takeWhile_eq_self_iff.mpr (Scanf.all_ne_of_notMem '\n' t ht)

/-- From a line with its newline the number written on it is read. -/
theorem fiel_entera {β : Type*} (parse : Text → Option β) (t : Text) (v : β) (ht : '\n' ∉ t) :
    Fiel parse (t ++ ['\n']) v ↔ parse t = some v := by
  rw [Fiel, contenido_entera t ht]
  exact and_iff_left ⟨t, sinTerminador_concat t '\n', rfl⟩

/-- From a line without, when the byte that is cut off is no digit. -/
theorem fiel_ultima {β : Type*} (parse : Text → Option β) (t : Text) (b : Char) (v : β)
    (ht : '\n' ∉ t ++ [b]) : Fiel parse (t ++ [b]) v ↔ parse (t ++ [b]) = some v ∧ isdigit b = false := by
  rw [Fiel, contenido_ultima _ ht]
  refine and_congr_right fun _ => ?_
  constructor
  · rintro ⟨input, hin, hd⟩
    rw [sinTerminador_concat] at hin
    obtain rfl := Option.some.inj hin
    rw [List.filter_append, List.self_eq_append_right] at hd
    simpa using hd
  · intro hb
    exact ⟨t, sinTerminador_concat t b, by simp [hb]⟩

theorem Corta.ne_nil {s input linea resto : Text} (h : Corta s input linea resto) : s ≠ [] := by
  cases h <;> simp

theorem bastan_nil (i : Nat) (h : Bastan parseFloat cerca respuestas i []) : i = 5 := by
  generalize he : ([] : Text) = entrada at h
  cases h with
  | cinco => rfl
  | _ => simp at he

theorem numeros_repite (i : Nat) (leido : List Text) (log : List (Intento D)) :
    Numeros parseFloat (⟨i, leido, none⟩ :: log) ↔ Numeros parseFloat log := by
  simp [Numeros]

theorem numeros_dispara (i : Nat) (linea₁ linea₂ : Text) (a : DisparaCannonArgs D)
    (log : List (Intento D)) :
    Numeros parseFloat (⟨i, [linea₁, linea₂], some a⟩ :: log) ↔
      (Fiel parseInt linea₁ a.anguloRadianes ∧ Fiel parseFloat linea₂ a.velocidadMtrsSeg) ∧
        Numeros parseFloat log := by
  refine List.forall_mem_cons.trans (and_congr_left fun _ => ?_)
  constructor
  · intro h
    obtain ⟨_, _, he, hf⟩ := h a rfl
    cases he
    exact hf
  · intro hf a' ha'
    obtain rfl := Option.some.inj ha'
    exact ⟨linea₁, linea₂, rfl, hf⟩

/-! ## One turn of the loop -/

theorem bucle_turno (nombre : Text) (i : Nat) (entrada : Text) (hi : i < 5) :
    bucle parseFloat cerca respuestas nombre i entrada =
      match vuelta parseFloat entrada with
      | .panico => ([], .panico)
      | .repite leido resto =>
        (⟨i, leido, none⟩ :: (bucle parseFloat cerca respuestas nombre i resto).1,
          (bucle parseFloat cerca respuestas nombre i resto).2)
      | .dispara linea₁ linea₂ angulo velocidad resto =>
        (⟨i, [linea₁, linea₂], some ⟨String.ofList nombre, angulo, velocidad⟩⟩ ::
          ((trasDisparo cerca (respuestas i)).elim
            (bucle parseFloat cerca respuestas nombre (i + 1) resto).1 fun _ => []),
          (trasDisparo cerca (respuestas i)).getD
            (bucle parseFloat cerca respuestas nombre (i + 1) resto).2) := by
  rw [bucle, if_pos hi]
  -- the match of the definition keeps its equation for termination
  split
  · next h => rw [h]
  · next h => rw [h]
  · next h =>
    rw [h]
    cases trasDisparo cerca (respuestas i) <;> rfl

theorem bucle_cinco (nombre entrada : Text) :
    bucle parseFloat cerca respuestas nombre 5 entrada = ([], .cinco) := by
  rw [bucle, if_neg (Nat.lt_irrefl 5)]

/-- The turn of a shot from two lines with their newlines. -/
theorem vuelta_enteras (t₁ t₂ resto : Text) (angulo : Int) (velocidad : D) (ht₁ : '\n' ∉ t₁)
    (ha : parseInt t₁ = some angulo) (ht₂ : '\n' ∉ t₂) (hv : parseFloat t₂ = some velocidad) :
    vuelta parseFloat (t₁ ++ '\n' :: (t₂ ++ '\n' :: resto)) =
      .dispara (t₁ ++ ['\n']) (t₂ ++ ['\n']) angulo velocidad resto :=
  (vuelta_eq_dispara _ _ _ _ _ _ _).mpr ⟨t₁, _, t₂, .entera t₁ _ ht₁, ha, .entera t₂ resto ht₂, hv⟩

/-- The lines of a shot that carries the speed of its line: both end in a newline, or the second is the
last of the input and loses no digit. -/
theorem lineas_of_dispara (entrada linea₁ linea₂ resto : Text) (angulo : Int) (velocidad : D)
    (h : vuelta parseFloat entrada = .dispara linea₁ linea₂ angulo velocidad resto)
    (hfiel : Fiel parseFloat linea₂ velocidad) :
    ∃ t₁ t, '\n' ∉ t₁ ∧ parseInt t₁ = some angulo ∧ parseFloat t = some velocidad ∧
      ((entrada = t₁ ++ '\n' :: (t ++ '\n' :: resto) ∧ '\n' ∉ t) ∨
        ∃ b, entrada = t₁ ++ '\n' :: (t ++ [b]) ∧ resto = [] ∧ '\n' ∉ t ++ [b] ∧
          parseFloat (t ++ [b]) = some velocidad ∧ isdigit b = false) := by
  obtain ⟨t₁, resto₁, t, hc₁, ha, hc₂, hv⟩ := (vuelta_eq_dispara parseFloat entrada _ _ _ _ _).mp h
  cases hc₁ with
  | entera _ _ ht₁ =>
    refine ⟨t₁, t, ht₁, ha, hv, ?_⟩
    cases hc₂ with
    | entera _ _ ht => exact .inl ⟨rfl, ht⟩
    | ultima _ b ht => exact .inr ⟨b, rfl, rfl, ht, (fiel_ultima parseFloat t b velocidad ht).mp hfiel⟩
  | ultima => exact absurd rfl hc₂.ne_nil

/-- A shot with the numbers of its lines, when what comes after it is in order. -/
theorem bien_dispara (nombre : Text) (i : Nat) (entrada linea₁ linea₂ resto : Text) (angulo : Int)
    (velocidad : D) (hi : i < 5)
    (h : vuelta parseFloat entrada = .dispara linea₁ linea₂ angulo velocidad resto)
    (h₁ : Fiel parseInt linea₁ angulo) (h₂ : Fiel parseFloat linea₂ velocidad)
    (hsigue : trasDisparo cerca (respuestas i) = none →
      Bien parseFloat (bucle parseFloat cerca respuestas nombre (i + 1) resto)) :
    Bien parseFloat (bucle parseFloat cerca respuestas nombre i entrada) := by
  rw [bucle_turno parseFloat cerca respuestas nombre i entrada hi, h]
  cases hf : trasDisparo cerca (respuestas i) with
  | none =>
    obtain ⟨hp, hn⟩ := hsigue hf
    exact ⟨hp, (numeros_dispara _ _ _ _ _ _).mpr ⟨⟨h₁, h₂⟩, hn⟩⟩
  | some final =>
    refine ⟨?_, (numeros_dispara _ _ _ _ _ _).mpr ⟨⟨h₁, h₂⟩, by simp [Numeros]⟩⟩
    rcases trasDisparo_eq_some cerca _ final hf with rfl | rfl <;> simp

/-- The lines suffice when the loop neither panics nor loses a digit. -/
theorem bastan_of_bien (nombre : Text) (i : Nat) (entrada : Text) (hi : i ≤ 5)
    (h : Bien parseFloat (bucle parseFloat cerca respuestas nombre i entrada)) :
    Bastan parseFloat cerca respuestas i entrada := by
  fun_induction bucle parseFloat cerca respuestas nombre i entrada with
  | case1 i entrada hlt hv => exact absurd rfl h.1
  | case2 i entrada hlt leido resto hv sigue ih =>
    have hresto := ih hi ⟨h.1, (numeros_repite parseFloat _ _ _).mp h.2⟩
    rcases (vuelta_eq_repite parseFloat entrada resto leido).mp hv with
      ⟨t, _, -, hc, ha⟩ | ⟨t₁, _, _, _, t₂, _, -, hc₁, ha, hc₂, hno⟩
    · cases hc with
      | entera _ _ ht => exact .noEsAngulo t resto hlt ht ha hresto
      | ultima => exact absurd (bastan_nil _ _ _ i hresto) (by omega)
    · cases hc₁ with
      | entera _ _ ht₁ =>
        cases hc₂ with
        | entera _ _ ht₂ => exact .noEsVelocidad t₁ t₂ resto _ hlt ht₁ ha ht₂ hno hresto
        | ultima => exact absurd (bastan_nil _ _ _ i hresto) (by omega)
      | ultima => exact absurd rfl hc₂.ne_nil
  | case3 i entrada hlt linea₁ linea₂ angulo velocidad resto hv x final hf =>
    have hfiel := ((numeros_dispara parseFloat _ _ _ _ _).mp h.2).1.2
    obtain ⟨t₁, t, ht₁, ha, hvel, ⟨rfl, ht⟩ | ⟨b, rfl, -, ht, hvel', hb⟩⟩ :=
      lineas_of_dispara parseFloat entrada _ _ _ _ _ hv hfiel
    · exact .acaba t₁ t resto angulo velocidad final hlt ht₁ ha ht hvel hf
    · exact .sinTerminar t₁ t b angulo velocidad hlt ht₁ ha ht hb hvel hvel' (.inr (by simp [hf]))
  | case4 i entrada hlt linea₁ linea₂ angulo velocidad resto hv x hf sigue ih =>
    obtain ⟨⟨-, hfiel⟩, hn⟩ := (numeros_dispara parseFloat _ _ _ _ _).mp h.2
    have hresto := ih hlt ⟨h.1, hn⟩
    obtain ⟨t₁, t, ht₁, ha, hvel, ⟨rfl, ht⟩ | ⟨b, rfl, rfl, ht, hvel', hb⟩⟩ :=
      lineas_of_dispara parseFloat entrada _ _ _ _ _ hv hfiel
    · exact .sigue t₁ t resto angulo velocidad hlt ht₁ ha ht hvel hf hresto
    · -- nothing is left, so this was the fifth shot
      have h5 := bastan_nil _ _ _ (i + 1) hresto
      exact .sinTerminar t₁ t b angulo velocidad hlt ht₁ ha ht hb hvel hvel' (.inl (by omega))
  | case5 i entrada hlt =>
    obtain rfl : i = 5 := by omega
    exact .cinco entrada

theorem bien_of_bastan (nombre : Text) (i : Nat) (entrada : Text)
    (h : Bastan parseFloat cerca respuestas i entrada) :
    Bien parseFloat (bucle parseFloat cerca respuestas nombre i entrada) := by
  induction h with
  | cinco entrada =>
    rw [bucle_cinco]
    exact ⟨by simp, by simp [Numeros]⟩
  | noEsAngulo t resto hlt ht ha _ ih =>
    have hv := (vuelta_eq_repite parseFloat _ resto _).mpr (.inl ⟨t, _, rfl, .entera t resto ht, ha⟩)
    rw [bucle_turno _ _ _ _ _ _ hlt, hv]
    exact ⟨ih.1, (numeros_repite _ _ _ _).mpr ih.2⟩
  | noEsVelocidad t₁ t₂ resto angulo hlt ht₁ ha ht₂ hv _ ih =>
    have hv := (vuelta_eq_repite parseFloat _ resto _).mpr (.inr ⟨t₁, _, _, angulo, t₂, _, rfl,
      .entera t₁ _ ht₁, ha, .entera t₂ resto ht₂, hv⟩)
    rw [bucle_turno _ _ _ _ _ _ hlt, hv]
    exact ⟨ih.1, (numeros_repite _ _ _ _).mpr ih.2⟩
  | acaba t₁ t₂ resto angulo velocidad final hlt ht₁ ha ht₂ hv hf =>
    refine bien_dispara _ _ _ _ _ _ _ _ resto angulo velocidad hlt
      (vuelta_enteras parseFloat t₁ t₂ resto angulo velocidad ht₁ ha ht₂ hv)
      ((fiel_entera _ _ _ ht₁).mpr ha) ((fiel_entera _ _ _ ht₂).mpr hv) fun hno => ?_
    rw [hf] at hno
    cases hno
  | sigue t₁ t₂ resto angulo velocidad hlt ht₁ ha ht₂ hv hf _ ih =>
    exact bien_dispara _ _ _ _ _ _ _ _ resto angulo velocidad hlt
      (vuelta_enteras parseFloat t₁ t₂ resto angulo velocidad ht₁ ha ht₂ hv)
      ((fiel_entera _ _ _ ht₁).mpr ha) ((fiel_entera _ _ _ ht₂).mpr hv) fun _ => ih
  | @sinTerminar i t₁ t b angulo velocidad hlt ht₁ ha ht hb hv hv' hf =>
    refine bien_dispara _ _ _ _ _ _ (t₁ ++ ['\n']) (t ++ [b]) [] angulo velocidad hlt ?_
      ((fiel_entera _ _ _ ht₁).mpr ha) ((fiel_ultima _ _ _ _ ht).mpr ⟨hv', hb⟩) fun hno => ?_
    · exact (vuelta_eq_dispara parseFloat _ _ _ _ _ _).mpr
        ⟨t₁, _, t, .entera t₁ _ ht₁, ha, .ultima t b ht, hv⟩
    · -- this was the fifth shot
      obtain rfl : i = 4 := by
        rcases hf with hf | hf
        · exact hf
        · rw [hno] at hf
          cases hf
      rw [bucle_cinco]
      exact ⟨by simp, by simp [Numeros]⟩

/-! ## Top theorems -/

/-- **The shot loop meets its specification exactly when the lines of the input suffice for it.** -/
theorem partidaCorrecta_iff (entrada : Text) :
    PartidaCorrecta parseFloat cerca respuestas entrada ↔
      ∃ nombre resto, entrada = nombre ++ '\n' :: resto ∧ '\n' ∉ nombre ∧
        Bastan parseFloat cerca respuestas 0 resto := by
  constructor
  · rintro ⟨hp, hn, -⟩
    unfold principal at hp hn
    cases hnombre : sinTerminador (readString entrada).1 with
    | none =>
      rw [hnombre] at hp
      exact absurd rfl hp
    | some nombre =>
      rw [hnombre] at hp hn
      have hbastan := bastan_of_bien parseFloat cerca respuestas nombre 0 _ (by omega) ⟨hp, hn⟩
      have hc := corta_of_sinTerminador entrada nombre hnombre
      generalize (readString entrada).1 = linea at hc
      generalize (readString entrada).2 = resto at hc hbastan
      cases hc with
      | entera _ _ h => exact ⟨nombre, resto, rfl, h, hbastan⟩
      | ultima =>
        -- nothing is left for the first shot
        exact absurd (bastan_nil _ _ _ 0 hbastan) (by omega)
  · rintro ⟨nombre, resto, rfl, hnl, hbastan⟩
    have hc := Corta.entera nombre resto hnl
    have hprin : principal parseFloat cerca respuestas (nombre ++ '\n' :: resto) =
        bucle parseFloat cerca respuestas nombre 0 resto := by
      unfold principal
      simp only [hc.lee]
    obtain ⟨hp, hn⟩ := bien_of_bastan parseFloat cerca respuestas nombre 0 resto hbastan
    refine ⟨by rwa [hprin], by rwa [hprin], nombre ++ ['\n'], resto, ⟨_, _, _, hc⟩, hc.append, ?_⟩
    rw [hprin]
    exact bucle_regular parseFloat cerca respuestas nombre 0 resto (by omega)

end Bucle

/-- The input ends behind the name: the slice of the first angle is out of range. -/
theorem fin_de_la_entrada : ¬ ∀ (D : Type) (parseFloat : Text → Option D) (cerca : D → Bool)
    (respuestas : Nat → Respuesta D) (entrada : Text),
    PartidaCorrecta parseFloat cerca respuestas entrada := by
  intro h
  refine (h Int parseInt (fun d => -1 ≤ d ∧ d ≤ 1) (fun _ => ⟨some 0, true⟩) "Ana\n".toList).enRango ?_
  rw [principal]
  have hnombre : sinTerminador (readString "Ana\n".toList).1 = some "Ana".toList := by decide
  have hvuelta : vuelta parseInt (readString "Ana\n".toList).2 = .panico := rfl
  simp only [hnombre]
  rw [bucle_turno _ _ _ _ _ _ (by decide), hvuelta]

end Cannon
