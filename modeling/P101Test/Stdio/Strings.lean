import P101Test.Stdio.Format
import Mathlib.Algebra.Order.Ring.Int
import Mathlib.Data.Char
import Mathlib.Data.List.TakeWhile

/-!
# Functions on C strings

The functions of `string.h` and `stdlib.h` that order texts and read numbers.

## Main definitions

* `strcmp`: the order of texts.
* `strtol`: the integer at the front of a text.

## Main results

* `strtol_append`: reading a number stops where its digits stop.
-/

namespace P101Test.Stdio

/-- `strcmp`: the first characters that differ decide, and a text comes behind its beginnings. -/
def strcmp (a b : Text) : Ordering := compare a b

/-- `isspace`. -/
def isSpace (c : Char) : Bool :=
  c = ' ' || c = '\t' || c = '\n' || c = '\x0b' || c = '\x0c' || c = '\r'

/-- `strtol` in base 10: the integer after white space and a sign, and what follows it; nothing, if there
are no digits. -/
def strtol (text : Text) : Option (ℤ × Text) :=
  let (negative, digits) : Bool × Text :=
    match text.dropWhile isSpace with
    | '-' :: rest => (true, rest)
    | '+' :: rest => (false, rest)
    | rest => (false, rest)
  if digits.takeWhile Char.isDigit = [] then none
  else
    let n : ℕ := Nat.ofDigitChars 10 (digits.takeWhile Char.isDigit) 0
    some (if negative then -n else n, digits.dropWhile Char.isDigit)

/-- `LONG_MAX`. -/
def longMax : ℤ := 2 ^ 63 - 1

/-- `LONG_MIN`. -/
def longMin : ℤ := -2 ^ 63

variable {text rest : Text}

/-- Digits end where something else than a digit follows. -/
theorem digits_append {digits : Text} (hdigits : digits.dropWhile Char.isDigit = [])
    (hrest : ∀ c ∈ rest.head?, c.isDigit = false) :
    (digits ++ rest).takeWhile Char.isDigit = digits.takeWhile Char.isDigit ∧
      (digits ++ rest).dropWhile Char.isDigit = rest := by
  have hall := List.dropWhile_eq_nil_iff.mp hdigits
  have hnone : rest.takeWhile Char.isDigit = [] ∧ rest.dropWhile Char.isDigit = rest := by
    cases rest with
    | nil => exact ⟨rfl, rfl⟩
    | cons c rest =>
        have hc := hrest c rfl
        exact ⟨List.takeWhile_cons_of_neg (by simp [hc]), List.dropWhile_cons_of_neg (by simp [hc])⟩
  rw [List.takeWhile_append_of_pos hall, List.dropWhile_append_of_pos hall, hnone.1, hnone.2,
    List.append_nil, List.takeWhile_eq_self_iff.mpr hall]
  exact ⟨rfl, rfl⟩

/-- What follows a number that is not followed by a digit is left behind it. -/
theorem strtol_append {n : ℤ} (h : strtol text = some (n, []))
    (hrest : ∀ c ∈ rest.head?, c.isDigit = false) : strtol (text ++ rest) = some (n, rest) := by
  have hread (negative : Bool) {digits : Text}
      (hread : (if digits.takeWhile Char.isDigit = [] then none
        else some (if negative then -((Nat.ofDigitChars 10 (digits.takeWhile Char.isDigit) 0 : ℕ) : ℤ)
          else (Nat.ofDigitChars 10 (digits.takeWhile Char.isDigit) 0 : ℕ),
            digits.dropWhile Char.isDigit)) = some (n, ([] : Text))) :
      (if (digits ++ rest).takeWhile Char.isDigit = [] then none
        else some (if negative then
            -((Nat.ofDigitChars 10 ((digits ++ rest).takeWhile Char.isDigit) 0 : ℕ) : ℤ)
          else (Nat.ofDigitChars 10 ((digits ++ rest).takeWhile Char.isDigit) 0 : ℕ),
            (digits ++ rest).dropWhile Char.isDigit)) = some (n, rest) := by
    split at hread
    · cases hread
    · next hsome =>
      rw [Option.some.injEq, Prod.mk.injEq] at hread
      obtain ⟨htake, hdrop⟩ := digits_append hread.2 hrest
      rw [htake, hdrop, if_neg hsome, hread.1]
  have hspace (c : Char) (tail : Text) (hcons : text.dropWhile isSpace = c :: tail) :
      (text ++ rest).dropWhile isSpace = c :: (tail ++ rest) := by
    rw [List.dropWhile_append, hcons]
    rfl
  unfold strtol at h ⊢
  cases hcons : text.dropWhile isSpace with
  | nil => simp [hcons] at h
  | cons c tail =>
      rw [hspace c tail hcons]
      rw [hcons] at h
      by_cases hminus : c = '-'
      · subst hminus
        exact hread true h
      · by_cases hplus : c = '+'
        · subst hplus
          exact hread false h
        · split at h
          rename_i heq
          split at heq
          · next heq' => exact absurd (List.cons.inj heq').1 hminus
          · next heq' => exact absurd (List.cons.inj heq').1 hplus
          · obtain ⟨rfl, rfl⟩ := Prod.mk.inj heq
            split
            rename_i heq
            split at heq
            · next heq' => exact absurd (List.cons.inj heq').1 hminus
            · next heq' => exact absurd (List.cons.inj heq').1 hplus
            · obtain ⟨rfl, rfl⟩ := Prod.mk.inj heq
              exact hread false h

example : strtol " -12|".toList = some (-12, "|".toList) := by decide

end P101Test.Stdio
