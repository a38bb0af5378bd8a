import Mathlib.Data.Nat.Digits.Defs
import Mathlib.Data.List.Basic

/-!
C text: what `printf` writes.

A C `char` is a `Char`, a C string is the list of its characters without the
terminating NUL.  Only comparisons with ASCII characters are made, so nothing
depends on how a `Char` is stored.
-/

namespace CText

abbrev Text := List Char

/-! ## Decimal digits -/

/-- `%d` of a non-negative value. -/
def decimal (n : Nat) : Text := Nat.toDigits 10 n

/-- `%0wd` of a non-negative value: zeros on the left up to width `w`. -/
def decimalPad (w n : Nat) : Text :=
  List.replicate (w - (decimal n).length) '0' ++ decimal n

/-- `%c` of `'A' + r % 26`. -/
def letter (r : Nat) : Char := Char.ofNat ('A'.toNat + r % 26)

theorem decimal_eq (n : Nat) :
    decimal n = if n < 10 then [n.digitChar] else decimal (n / 10) ++ [(n % 10).digitChar] :=
  Nat.toDigits_eq_if (by decide)

theorem decimal_of_lt (n : Nat) (h : n < 10) : decimal n = [n.digitChar] := by
  rw [decimal_eq, if_pos h]

theorem decimal_length_le_iff (k n : Nat) (hk : 0 < k) : (decimal n).length ≤ k ↔ n < 10 ^ k :=
  Nat.length_toDigits_le_iff (by decide) hk

theorem digitChar_inj : ∀ a < 10, ∀ b < 10, Nat.digitChar a = Nat.digitChar b → a = b := by
  decide

theorem decimalPad_three (n : Nat) (h : n < 1000) :
    decimalPad 3 n = [(n / 100).digitChar, (n / 10 % 10).digitChar, (n % 10).digitChar] := by
  unfold decimalPad
  by_cases h1 : n < 10
  · rw [decimal_of_lt n h1, show n / 100 = 0 by omega, show n / 10 % 10 = 0 by omega,
      Nat.mod_eq_of_lt h1]
    rfl
  · rw [decimal_eq n, if_neg h1]
    by_cases h2 : n < 100
    · rw [decimal_of_lt (n / 10) (by omega), show n / 100 = 0 by omega,
        Nat.mod_eq_of_lt (show n / 10 < 10 by omega)]
      rfl
    · rw [decimal_eq (n / 10), if_neg (by omega), Nat.div_div_eq_div_mul,
        decimal_of_lt (n / (10 * 10)) (by omega)]
      rfl

/-- Three padded digits determine the number. -/
theorem decimalPad_three_inj (a b : Nat) (ha : a < 1000) (hb : b < 1000)
    (h : decimalPad 3 a = decimalPad 3 b) : a = b := by
  rw [decimalPad_three a ha, decimalPad_three b hb] at h
  simp only [List.cons.injEq, and_true] at h
  obtain ⟨h1, h2, h3⟩ := h
  have d1 := digitChar_inj _ (by omega) _ (by omega) h1
  have d2 := digitChar_inj _ (by omega) _ (by omega) h2
  have d3 := digitChar_inj _ (by omega) _ (by omega) h3
  omega

theorem decimalPad_three_length (n : Nat) (h : n < 1000) : (decimalPad 3 n).length = 3 := by
  rw [decimalPad_three n h]; rfl

theorem letter_inj_aux : ∀ a < 26, ∀ b < 26,
    Char.ofNat ('A'.toNat + a) = Char.ofNat ('A'.toNat + b) → a = b := by
  decide

theorem letter_inj (a b : Nat) : letter a = letter b ↔ a % 26 = b % 26 := by
  constructor
  · exact letter_inj_aux _ (Nat.mod_lt _ (by decide)) _ (Nat.mod_lt _ (by decide))
  · intro h
    rw [letter, letter, h]

end CText
