import Mathlib.Algebra.Order.Ring.Int

/-!
# Checked machine arithmetic

The operations of signed and unsigned numbers of 64 bits that have a result only where it is the exact one:
no overflow, no wrapping, and no conversion that changes the sign. Each operation has a result exactly if
the exact one is representable, so that a computation that has a result is exact throughout.

## Main definitions

* `signed`, `unsigned`: an integer as a machine number, if it is one.
* `addSigned`, `subSigned`, `mulUnsigned`, `toUnsigned`: the operations.

## Main results

* `signed_eq_some_iff`, `unsigned_eq_some_iff`: what the result is.
-/

namespace P101Test.Arithmetic

/-- An integer as a signed number. -/
def signed (x : ℤ) : Option Int64 :=
  if -2 ^ 63 ≤ x ∧ x < 2 ^ 63 then some (Int64.ofInt x) else none

/-- An integer as an unsigned number. -/
def unsigned (x : ℤ) : Option UInt64 :=
  if 0 ≤ x ∧ x < 2 ^ 64 then some (UInt64.ofNat x.toNat) else none

variable {x : ℤ}

/-- The signed number of an integer has its value. -/
theorem signed_eq_some_iff {n : Int64} : signed x = some n ↔ n.toInt = x := by
  unfold signed
  constructor
  · intro h
    split at h
    · next hrange =>
      rw [← Option.some.inj h]
      exact Int64.toInt_ofInt_of_le hrange.1 hrange.2
    · cases h
  · rintro rfl
    rw [if_pos ⟨n.le_toInt, n.toInt_lt⟩, Int64.ofInt_toInt]

/-- The unsigned number of an integer has its value. -/
theorem unsigned_eq_some_iff {n : UInt64} : unsigned x = some n ↔ (n.toNat : ℤ) = x := by
  unfold unsigned
  constructor
  · intro h
    split at h
    · next hrange =>
      rw [← Option.some.inj h, UInt64.toNat_ofNat']
      omega
    · cases h
  · rintro rfl
    have hlt : n.toNat < 2 ^ 64 := n.toNat_lt
    rw [if_pos (by omega), Int.toNat_natCast, UInt64.ofNat_toNat]

/-- An integer in range is a signed number. -/
theorem exists_signed (hlow : -2 ^ 63 ≤ x) (hhigh : x < 2 ^ 63) :
    ∃ n : Int64, signed x = some n ∧ n.toInt = x := by
  have hsome : signed x = some (Int64.ofInt x) := if_pos ⟨hlow, hhigh⟩
  exact ⟨_, hsome, signed_eq_some_iff.mp hsome⟩

/-- An integer in range is an unsigned number. -/
theorem exists_unsigned (hlow : 0 ≤ x) (hhigh : x < 2 ^ 64) :
    ∃ n : UInt64, unsigned x = some n ∧ (n.toNat : ℤ) = x := by
  have hsome : unsigned x = some (UInt64.ofNat x.toNat) := if_pos ⟨hlow, hhigh⟩
  exact ⟨_, hsome, unsigned_eq_some_iff.mp hsome⟩

/-- Addition of signed numbers. -/
def addSigned (a b : Int64) : Option Int64 := signed (a.toInt + b.toInt)

/-- Subtraction of signed numbers. -/
def subSigned (a b : Int64) : Option Int64 := signed (a.toInt - b.toInt)

/-- Multiplication of unsigned numbers. -/
def mulUnsigned (a b : UInt64) : Option UInt64 := unsigned (a.toNat * b.toNat)

/-- The conversion of a signed number to an unsigned one. -/
def toUnsigned (a : Int64) : Option UInt64 := unsigned a.toInt

end P101Test.Arithmetic
