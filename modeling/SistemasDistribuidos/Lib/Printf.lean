import Mathlib.Data.List.DropRight
import SistemasDistribuidos.Lib.CString

/-!
`sprintf` and `sscanf` of one pattern of ordinary text and `%d`.

Reading follows the C standard: a white-space character of the pattern skips any number
of blanks, another character must be the next one of the input, and `%d` skips blanks
and reads a sign and digits.  The scan stops at the first failure and yields the values
stored so far, so the return value of `sscanf` is their number.

    scan ps (sprintf ps vs) = vs    when texts and numbers alternate and no text behind a
                                    number starts with a digit        (scan_sprintf)
-/

namespace Printf

open CText Scanf CString

inductive Piece where
  | text (t : Text)
  | int

/-! ## Definitions -/

/-- The text formatted from the arguments `vs` (too few of them is undefined in C). -/
def sprintf : List Piece → List Int → Text
  | [], _ => []
  | .text t :: ps, vs => t ++ sprintf ps vs
  | .int :: ps, v :: vs => decimalInt v ++ sprintf ps vs
  | .int :: _, [] => []

/-- The ordinary characters of a pattern against the input: the input behind them. -/
def matchText : Text → Text → Option Text
  | [], s => some s
  | c :: cs, s =>
    if isspace c then matchText cs (s.dropWhile isspace)
    else
      match s with
      | [] => none
      | x :: s => if x = c then matchText cs s else none

def scanDigits (sign : Int) (s : Text) : Option (Int × Text) :=
  if s.takeWhile isdigit = [] then none
  else some (sign * ofDigits (s.takeWhile isdigit), s.dropWhile isdigit)

/-- `%d` -/
def scanInt (s : Text) : Option (Int × Text) :=
  match s.dropWhile isspace with
  | '-' :: r => scanDigits (-1) r
  | '+' :: r => scanDigits 1 r
  | r => scanDigits 1 r

/-- The values stored; `none` if one does not fit an `int`, which is undefined in C. -/
def scan : List Piece → Text → Option (List Int)
  | [], _ => some []
  | .text t :: ps, s =>
    match matchText t s with
    | none => some []
    | some r => scan ps r
  | .int :: ps, s =>
    match scanInt s with
    | none => some []
    | some (v, r) => if FitsInt v then (scan ps r).map (v :: ·) else none

/-- Texts and numbers alternate, and a text behind a number starts with something else than a digit. -/
def Separated : List Piece → Prop
  | [] => True
  | [_] => True
  | .text _ :: .int :: ps => Separated (.int :: ps)
  | .int :: .text t :: ps => (∃ c ∈ t.head?, isdigit c = false) ∧ Separated (.text t :: ps)
  | .text _ :: .text _ :: _ => False
  | .int :: .int :: _ => False

/-- How many arguments a pattern takes. -/
def arity (ps : List Piece) : Nat := ps.countP fun p => p matches .int

/-! ## Lemmas -/

theorem scanDigits_decimal (sign : Int) (n : Nat) (rest : Text)
    (hr : ∀ c ∈ rest.head?, isdigit c = false) :
    scanDigits sign (decimal n ++ rest) = some (sign * n, rest) := by
  obtain ⟨h1, h2⟩ := takeWhile_decimal n rest hr
  rw [scanDigits, h1, h2, if_neg (decimal_ne_nil n), ofDigits_decimal]

theorem decimalInt_not_blank (v : Int) (rest : Text) :
    ∀ c ∈ (decimalInt v ++ rest).head?, isspace c = false := by
  obtain ⟨c, r, h, hc⟩ := decimalInt_cons v
  intro x hx
  obtain rfl : c = x := by simpa [h] using hx
  rcases hc with hc | rfl
  · exact (isdigit_cases c hc).1
  · decide

/-- `%d` reads back what `%d` wrote. -/
theorem scanInt_decimalInt (v : Int) (rest : Text) (hr : ∀ c ∈ rest.head?, isdigit c = false) :
    scanInt (decimalInt v ++ rest) = some (v, rest) := by
  have hdrop : (decimalInt v ++ rest).dropWhile isspace = decimalInt v ++ rest :=
    (span_append isspace [] _ (by simp) (decimalInt_not_blank v rest)).2
  unfold scanInt
  rw [hdrop]
  cases v with
  | ofNat n =>
    obtain ⟨c, r, hcr, hc⟩ := decimal_cons n
    obtain ⟨-, hm, hp⟩ := isdigit_cases c hc
    have hd := scanDigits_decimal 1 n rest hr
    simp only [decimalInt]
    rw [hcr, List.cons_append] at hd ⊢
    split
    next h => exact absurd (List.cons.inj h).1 hm
    next h => exact absurd (List.cons.inj h).1 hp
    next => rw [hd, Int.one_mul]; rfl
  | negSucc n =>
    have hd := scanDigits_decimal (-1) (n + 1) rest hr
    simp only [decimalInt, List.cons_append]
    rw [hd, Int.negSucc_eq]
    simp

/-- A text matches itself when no blank follows it, also if the blanks in front are skipped before. -/
theorem matchText_append (t rest : Text) (hr : ∀ c ∈ rest.head?, isspace c = false) :
    matchText t (t ++ rest) = some rest ∧ matchText t ((t ++ rest).dropWhile isspace) = some rest := by
  induction t with
  | nil =>
    have hdrop : rest.dropWhile isspace = rest := (span_append isspace [] rest (by simp) hr).2
    rw [List.nil_append, hdrop]
    exact ⟨rfl, rfl⟩
  | cons c cs ih =>
    rw [List.cons_append]
    by_cases hc : isspace c = true
    · rw [List.dropWhile_cons_of_pos hc]
      simp only [matchText, hc, if_true, List.dropWhile_cons_of_pos hc]
      rw [List.dropWhile_idempotent]
      exact ⟨ih.2, ih.2⟩
    · rw [List.dropWhile_cons_of_neg hc]
      simp only [matchText, hc, if_true]
      exact ⟨ih.1, ih.1⟩

/-- No blank follows a text of the pattern. -/
theorem Separated.head_text {t : Text} {ps : List Piece} (h : Separated (.text t :: ps)) (vs : List Int) :
    ∀ c ∈ (sprintf ps vs).head?, isspace c = false := by
  rcases ps with _ | ⟨_ | _, ps⟩
  · simp [sprintf]
  · exact h.elim
  · cases vs with
    | nil => simp [sprintf]
    | cons v vs => exact decimalInt_not_blank v (sprintf ps vs)

/-- No digit follows a number of the pattern. -/
theorem Separated.head_int {ps : List Piece} (h : Separated (.int :: ps)) (vs : List Int) :
    ∀ c ∈ (sprintf ps vs).head?, isdigit c = false := by
  rcases ps with _ | ⟨t | _, ps⟩
  · simp [sprintf]
  · obtain ⟨⟨c, hc, hd⟩, -⟩ := h
    intro x hx
    obtain rfl : c = x := by simpa [sprintf, Option.mem_def.mp hc] using hx
    exact hd
  · exact h.elim

theorem Separated.tail {p : Piece} {ps : List Piece} (h : Separated (p :: ps)) : Separated ps := by
  rcases ps with _ | ⟨_ | _, ps⟩
  · trivial
  · cases p with
    | text => exact h.elim
    | int => exact h.2
  · cases p with
    | text => exact h
    | int => exact h.elim

/-- **Round trip.**  A pattern whose pieces are separated reads back every value it writes. -/
theorem scan_sprintf (ps : List Piece) (vs : List Int) (hsep : Separated ps) (hn : vs.length = arity ps)
    (hfit : ∀ v ∈ vs, FitsInt v) : scan ps (sprintf ps vs) = some vs := by
  induction ps generalizing vs with
  | nil =>
    obtain rfl : vs = [] := List.length_eq_zero_iff.mp hn
    rfl
  | cons p ps ih =>
    cases p with
    | text t =>
      have ht := (matchText_append t (sprintf ps vs) (hsep.head_text vs)).1
      simp only [scan, sprintf, ht]
      exact ih vs hsep.tail (by simpa [arity] using hn) hfit
    | int =>
      cases vs with
      | nil => simp [arity] at hn
      | cons v vs =>
        have hv := scanInt_decimalInt v (sprintf ps vs) (hsep.head_int vs)
        have hrest := ih vs hsep.tail (by simpa [arity] using hn)
          fun w hw => hfit w (List.mem_cons_of_mem v hw)
        simp only [scan, sprintf, hv, if_pos (hfit v List.mem_cons_self), hrest, Option.map_some]

/-- A character that is neither a digit nor a minus sign is in the output only if it is in a text. -/
theorem notMem_sprintf (c : Char) (hd : isdigit c = false) (hm : c ≠ '-') (ps : List Piece)
    (vs : List Int) (ht : ∀ t, .text t ∈ ps → c ∉ t) : c ∉ sprintf ps vs := by
  have hv : ∀ v, c ∉ decimalInt v := by
    intro v
    cases v with
    | ofNat n => exact notMem_decimal n c hd
    | negSucc n =>
      rw [decimalInt, List.mem_cons, not_or]
      exact ⟨hm, notMem_decimal (n + 1) c hd⟩
  induction ps generalizing vs with
  | nil => simp [sprintf]
  | cons p ps ih =>
    have hps := fun vs => ih vs fun t h => ht t (List.mem_cons_of_mem p h)
    cases p with
    | text t =>
      rw [sprintf, List.mem_append, not_or]
      exact ⟨ht t List.mem_cons_self, hps vs⟩
    | int =>
      cases vs with
      | nil => simp [sprintf]
      | cons v vs =>
        rw [sprintf, List.mem_append, not_or]
        exact ⟨hv v, hps vs⟩

/-- A sign and ten digits. -/
theorem decimalInt_length (v : Int) (h : FitsInt v) : (decimalInt v).length ≤ 11 := by
  obtain ⟨h1, h2⟩ := h
  cases v with
  | ofNat n =>
    have := (decimal_length_le_iff 10 n (by decide)).mpr (by simp at h2; omega)
    simp only [decimalInt]
    omega
  | negSucc n =>
    have := (decimal_length_le_iff 10 (n + 1) (by decide)).mpr (by omega)
    simp only [decimalInt, List.length_cons]
    omega

end Printf
