import SistemasDistribuidos.Inscripcion.Servidor
import SistemasDistribuidos.Lib.Printf

/-!
# The reply of the enrolment server and the client that reads it

The server formats two `int`s with `"Cupo total: %d, Solicitud recibida: %d"` and sends the
text with its NUL; the client receives it in `datos_recibidos`, writes one more NUL behind
it and reads the two numbers with the same pattern.  Every pair of `int`s comes back
(`respuesta_recuperada`), and with it what a turn of the server answers (`interpretar_atender`).
-/

namespace Inscripcion

open CText Scanf CString Printf

/-! ## Algorithm -/

/-- `"Cupo total: %d, Solicitud recibida: %d"` -/
def patron : List Piece :=
  [.text "Cupo total: ".toList, .int, .text ", Solicitud recibida: ".toList, .int]

/-- The bytes of `send(newSocket_fd, datos_para_el_cliente, strlen(datos_para_el_cliente) + 1, 0)`. -/
def enviar (cupoGrupo numSolictudes : Int) : Text := sprintf patron [cupoGrupo, numSolictudes] ++ [nul]

/-- `datos_recibidos` after `recv` and `datos_recibidos[bytes_recibidos] = '\0'`. -/
def recibir (bytes basura : Text) : Text := bytes ++ nul :: basura

/-- The two numbers the client prints; `none` is `"Error al procesar los datos recibidos."` -/
def interpretar (datos_recibidos : Text) : Option (Int × Int) :=
  match scan patron (cstr datos_recibidos) with
  | some [cupo_total, solicitud_recibida] => some (cupo_total, solicitud_recibida)
  | _ => none

/-! ## Lemmas -/

/-- What the loop of the server answers is formatted with the pattern. -/
theorem respuesta_eq (n : Nat) : respuesta n = sprintf patron [cupoGrupo, n] := by
  unfold respuesta patron
  rw [sprintf, sprintf, sprintf, sprintf, sprintf, decimalInt_natCast, decimalInt_natCast]
  simp only [List.append_nil, List.append_assoc]

theorem separated_patron : Separated patron := ⟨⟨',', rfl, rfl⟩, trivial⟩

theorem nul_notMem_patron (cupo n : Int) : nul ∉ sprintf patron [cupo, n] := by
  refine notMem_sprintf nul (by decide) (by decide) _ _ fun t ht => ?_
  simp only [patron, List.mem_cons, Piece.text.injEq, reduceCtorEq, List.not_mem_nil, or_false,
    false_or] at ht
  rcases ht with rfl | rfl <;> decide

theorem scan_enviar (cupo n : Int) (hc : FitsInt cupo) (hn : FitsInt n) (basura : Text) :
    scan patron (cstr (recibir (enviar cupo n) basura)) = some [cupo, n] := by
  rw [recibir, enviar, List.append_assoc, List.singleton_append,
    cstr_append_nul _ _ (nul_notMem_patron cupo n)]
  refine scan_sprintf patron [cupo, n] separated_patron rfl fun v hv => ?_
  simp only [List.mem_cons, List.not_mem_nil, or_false] at hv
  rcases hv with rfl | rfl
  · exact hc
  · exact hn

theorem interpretar_enviar (cupo n : Int) (hc : FitsInt cupo) (hn : FitsInt n) (basura : Text) :
    interpretar (recibir (enviar cupo n) basura) = some (cupo, n) := by
  rw [interpretar, scan_enviar cupo n hc hn basura]

theorem sprintf_patron_length (cupo n : Int) (hc : FitsInt cupo) (hn : FitsInt n) :
    (sprintf patron [cupo, n]).length ≤ 56 := by
  have h1 := decimalInt_length cupo hc
  have h2 := decimalInt_length n hn
  simp only [patron, sprintf, List.length_append, List.length_nil]
  have h3 : "Cupo total: ".toList.length = 12 := rfl
  have h4 : ", Solicitud recibida: ".toList.length = 22 := rfl
  omega

/-! ## Top theorems -/

/-- **The reply comes back.**  For any two `int`s the client's `sscanf` stores exactly the numbers that
were formatted, so it returns 2, and the text with its NUL is shorter than the arrays of 255. -/
theorem respuesta_recuperada (cupo n : Int) (hc : FitsInt cupo) (hn : FitsInt n) (basura : Text) :
    scan patron (cstr (recibir (enviar cupo n) basura)) = some [cupo, n] ∧
      interpretar (recibir (enviar cupo n) basura) = some (cupo, n) ∧
      (enviar cupo n).length < 255 := by
  refine ⟨scan_enviar cupo n hc hn basura, interpretar_enviar cupo n hc hn basura, ?_⟩
  have hlen := sprintf_patron_length cupo n hc hn
  rw [enviar, List.length_append, List.length_singleton]
  omega

/-- The least `int` and a count of one. -/
theorem respuesta_recuperada_minimo :
    interpretar (recibir (enviar (-2147483648) 1) []) = some (-2147483648, 1) :=
  (respuesta_recuperada (-2147483648) 1 (by decide) (by decide) []).2.1

/-- The client of a request that is recorded learns the seats of the group and how many requests there
are with its own. -/
theorem interpretar_atender (s t : Servidor) (p : Peticion) (r basura : Text)
    (h : atender s p = .ok (t, r)) :
    interpretar (recibir (r ++ [nul]) basura) = some ((cupoGrupo : Int), (t.numSolictudes : Int)) := by
  obtain ⟨a, ha, rfl, rfl⟩ := (atender_eq_ok s t p r).mp h
  obtain ⟨-, -, hmax⟩ := (guardar_eq_ok s p a).mp ha
  have hfit : FitsInt ((s.numSolictudes + 1 : Nat) : Int) := by
    simp only [MAX_ALUMNOS] at hmax
    constructor <;> omega
  rw [respuesta_eq]
  exact interpretar_enviar cupoGrupo (s.numSolictudes + 1 : Nat) (by decide) hfit basura

end Inscripcion
