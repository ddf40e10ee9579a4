import Mathlib.Algebra.Order.Ring.Nat
import P101Test.FileSystem.Path

/-!
# Formatted texts

What `snprintf` leaves in a buffer, and the numerals `%u`, `%zu` and `%d` print, with the facts
about them that a reader or a fixed buffer relies on.

## Main definitions

* `cut`: a text cut to a buffer.
* `decimal`, `signedDecimal`: numerals.

## Main results

* `decimal_injective`: a numeral determines its number.
* `length_decimal_le`: a bounded number has a short numeral.
-/

namespace P101Test.Stdio

/-- What `snprintf` leaves in a buffer of `size` characters. -/
def cut (size : ℕ) (text : Text) : Text := text.take (size - 1)

theorem cut_of_lt {size : ℕ} {text : Text} (h : text.length < size) : cut size text = text :=
  List.take_of_length_le (by omega)

/-- `%u` and `%zu`. -/
def decimal (n : ℕ) : Text := Nat.toDigits 10 n

/-- `%d` and `%ld`. -/
def signedDecimal : ℤ → Text
  | .ofNat n => decimal n
  | .negSucc n => '-' :: decimal (n + 1)

theorem decimal_injective : Function.Injective decimal := fun m n h => by
  rw [← Nat.ofDigitChars_ten_toDigits (n := m), ← Nat.ofDigitChars_ten_toDigits (n := n)]
  exact congrArg (Nat.ofDigitChars 10 · 0) h

theorem length_decimal_le {n k : ℕ} (hk : 0 < k) (h : n < 10 ^ k) : (decimal n).length ≤ k :=
  (Nat.length_toDigits_le_iff (by decide) hk).mpr h

theorem isDigit_of_mem_decimal {n : ℕ} {c : Char} (h : c ∈ decimal n) : c.isDigit = true :=
  Nat.isDigit_of_mem_toDigits (by decide) le_rfl h

end P101Test.Stdio
