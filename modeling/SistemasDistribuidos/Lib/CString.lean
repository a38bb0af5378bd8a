import SistemasDistribuidos.Lib.Scanf

/-!
Numbers and substrings in C text: `%d`, `atoi`, `strstr` and `snprintf`.

`atoi` of a number that does not fit an `int` is undefined in C and `none` here.
-/

namespace CString

open CText Scanf

/-! ## Definitions -/

/-- `%d`. -/
def decimalInt : Int → Text
  | .ofNat n => decimal n
  | .negSucc n => '-' :: decimal (n + 1)

def isdigit (c : Char) : Bool := '0' ≤ c && c ≤ '9'

def digitVal (c : Char) : Nat := c.toNat - '0'.toNat

/-- The number a run of digits stands for. -/
def ofDigits (ds : Text) : Nat := ds.foldl (fun n c => 10 * n + digitVal c) 0

/-- An `int` of 32 bits holds `v`. -/
def FitsInt (v : Int) : Prop := -2 ^ 31 ≤ v ∧ v < 2 ^ 31

instance (v : Int) : Decidable (FitsInt v) := inferInstanceAs (Decidable (_ ∧ _))

/-- The value `atoi` reads, before asking whether it fits: blanks, a sign, digits. -/
def atoiVal (s : Text) : Int :=
  match s.dropWhile isspace with
  | '-' :: r => - (ofDigits (r.takeWhile isdigit) : Int)
  | '+' :: r => ofDigits (r.takeWhile isdigit)
  | r => ofDigits (r.takeWhile isdigit)

def atoi (s : Text) : Option Int := if FitsInt (atoiVal s) then some (atoiVal s) else none

/-- The rest of `s` from the first occurrence of `pat` on. -/
def strstr : Text → Text → Option Text
  | [], pat => if pat = [] then some [] else none
  | c :: s, pat => if pat.isPrefixOf (c :: s) then some (c :: s) else strstr s pat

/-- What `snprintf` leaves in an array of `size` characters. -/
def snprintf (size : Nat) (s : Text) : Text := s.take (size - 1)

/-! ## Lemmas -/

theorem decimalInt_natCast (n : Nat) : decimalInt n = decimal n := rfl

theorem digitChar_spec : ∀ d < 10, isdigit d.digitChar = true ∧ digitVal d.digitChar = d := by
  decide

theorem decimal_digits (n : Nat) : ∀ c ∈ decimal n, isdigit c = true := by
  induction n using Nat.strongRecOn with
  | ind n ih =>
    rw [decimal_eq]
    split
    next h =>
      intro c hc
      rw [List.mem_singleton.mp hc]
      exact (digitChar_spec n h).1
    next h =>
      intro c hc
      rcases List.mem_append.mp hc with hc | hc
      · exact ih (n / 10) (by omega) c hc
      · rw [List.mem_singleton.mp hc]
        exact (digitChar_spec (n % 10) (Nat.mod_lt _ (by decide))).1

theorem decimal_ne_nil (n : Nat) : decimal n ≠ [] := Nat.toDigits_ne_nil

theorem ofDigits_decimal (n : Nat) : ofDigits (decimal n) = n := by
  induction n using Nat.strongRecOn with
  | ind n ih =>
    rw [decimal_eq]
    split
    next h => simp [ofDigits, (digitChar_spec n h).2]
    next h =>
      have hd := (digitChar_spec (n % 10) (Nat.mod_lt _ (by decide))).2
      have := ih (n / 10) (by omega)
      unfold ofDigits at this ⊢
      rw [List.foldl_append, this, List.foldl_cons, List.foldl_nil, hd]
      omega

/-- A number followed by something that is not a digit. -/
theorem takeWhile_decimal (n : Nat) (rest : Text) (h : ∀ c ∈ rest.head?, isdigit c = false) :
    (decimal n ++ rest).takeWhile isdigit = decimal n ∧
      (decimal n ++ rest).dropWhile isdigit = rest :=
  span_append isdigit (decimal n) rest (decimal_digits n) h

theorem isdigit_cases (c : Char) (h : isdigit c = true) :
    isspace c = false ∧ c ≠ '-' ∧ c ≠ '+' := by
  simp only [isdigit, Bool.and_eq_true, decide_eq_true_eq] at h
  obtain ⟨h1, h2⟩ := h
  refine ⟨?_, ?_, ?_⟩
  · rw [Bool.eq_false_iff]
    intro hs
    simp only [isspace, Bool.or_eq_true, decide_eq_true_eq] at hs
    rcases hs with ((((rfl | rfl) | rfl) | rfl) | rfl) | rfl <;> exact absurd h1 (by decide)
  · rintro rfl
    exact absurd h1 (by decide)
  · rintro rfl
    exact absurd h1 (by decide)

theorem decimal_cons (n : Nat) : ∃ c r, decimal n = c :: r ∧ isdigit c = true := by
  obtain ⟨c, r, h⟩ := List.exists_cons_of_ne_nil (decimal_ne_nil n)
  exact ⟨c, r, h, decimal_digits n c (by simp [h])⟩

/-- A number starts with a digit or a minus sign. -/
theorem decimalInt_cons (n : Int) :
    ∃ c r, decimalInt n = c :: r ∧ (isdigit c = true ∨ c = '-') := by
  cases n with
  | ofNat n =>
    obtain ⟨c, r, hcr, hc⟩ := decimal_cons n
    exact ⟨c, r, hcr, .inl hc⟩
  | negSucc n => exact ⟨'-', decimal (n + 1), rfl, .inr rfl⟩

/-- Only zero is written with a leading zero. -/
theorem decimal_head_ne_zero (n : Nat) (hn : 0 < n) : ∃ c r, decimal n = c :: r ∧ c ≠ '0' := by
  induction n using Nat.strongRecOn with
  | ind n ih =>
    rw [decimal_eq]
    split
    next h =>
      refine ⟨_, _, rfl, ?_⟩
      intro h0
      have := digitChar_inj n h 0 (by decide) h0
      omega
    next h =>
      obtain ⟨c, r, hcr, hc⟩ := ih (n / 10) (by omega) (by omega)
      exact ⟨c, r ++ [(n % 10).digitChar], by simp [hcr], hc⟩

/-- `atoi` on blanks, a number, and something that is not a digit. -/
theorem atoi_decimal (blanks rest : Text) (n : Nat) (hb : ∀ c ∈ blanks, isspace c = true)
    (hr : ∀ c ∈ rest.head?, isdigit c = false) (hn : n < 2 ^ 31) :
    atoi (blanks ++ decimal n ++ rest) = some (n : Int) := by
  obtain ⟨c, r, hcr, hc⟩ := decimal_cons n
  obtain ⟨-, hm, hp⟩ := isdigit_cases c hc
  have hblank : ∀ x ∈ decimal n, isspace x = false :=
    fun x hx => (isdigit_cases x (decimal_digits n x hx)).1
  have hval : atoiVal (blanks ++ decimal n ++ rest) = n := by
    unfold atoiVal
    rw [List.append_assoc, dropWhile_blanks blanks _ rest hb hblank (decimal_ne_nil n)]
    have hd := (takeWhile_decimal n rest hr).1
    rw [hcr, List.cons_append] at hd ⊢
    split
    next h => exact absurd (List.cons.inj h).1 hm
    next h => exact absurd (List.cons.inj h).1 hp
    next => rw [hd, ← hcr, ofDigits_decimal]
  have hfit : FitsInt (n : Int) := by
    constructor <;> omega
  rw [atoi, hval, if_pos hfit]

theorem strstr_of_notMem (s pat : Text) (c : Char) (hc : c ∈ pat) (h : c ∉ s) :
    strstr s pat = none := by
  induction s with
  | nil =>
    rw [strstr, if_neg]
    rintro rfl
    exact absurd hc List.not_mem_nil
  | cons d s ih =>
    have hno : ¬ pat.isPrefixOf (d :: s) = true :=
      fun hp => h ((List.isPrefixOf_iff_prefix.mp hp).subset hc)
    rw [strstr, if_neg hno, ih fun h' => h (List.mem_cons_of_mem d h')]

theorem strstr_prefix (pat rest : Text) : strstr (pat ++ rest) pat = some (pat ++ rest) := by
  cases h : pat ++ rest with
  | nil =>
    obtain ⟨rfl, rfl⟩ := List.append_eq_nil_iff.mp h
    rfl
  | cons c s =>
    rw [strstr, if_pos]
    rw [List.isPrefixOf_iff_prefix, ← h]
    exact List.prefix_append pat rest

theorem snprintf_of_lt (size : Nat) (s : Text) (h : s.length < size) : snprintf size s = s := by
  rw [snprintf, List.take_of_length_le (by omega)]

theorem notMem_decimal (n : Nat) (c : Char) (hc : isdigit c = false) : c ∉ decimal n := by
  intro h
  rw [decimal_digits n c h] at hc
  cases hc

end CString
