import P101Test.Arithmetic.Checked
import P101Test.CommandContract.Law

/-!
# The elapsed-time budget

The time limit compares two readings of the clock, held as seconds and nanoseconds in machine numbers,
with a number of milliseconds. The comparison borrows a second where the nanoseconds come out negative and
goes by seconds first. Computed with checked arithmetic it has a result for all readings and all limits, so
that no step of it overflows, wraps or changes a sign, and the result is that of the exact comparison in
nanoseconds.

## Main definitions

* `Timespec`: a reading of the clock in machine numbers.
* `timeExceeded`: the comparison of `main`, in checked arithmetic.

## Main results

* `timeExceeded_eq`: the comparison is defined and exact.
* `budget_exact`: a run with a time limit reports its finding exactly if the budget is exceeded.
-/

namespace P101Test.CommandContract

open Arithmetic Stdio

/-- A normalised `struct timespec` that is not before the epoch. -/
structure Timespec where
  seconds : Int64
  nanoseconds : Int64
  begun : 0 ≤ seconds.toInt
  counted : 0 ≤ nanoseconds.toInt
  normalised : nanoseconds.toInt < 1000000000

/-- The reading as numbers without a range. -/
def Timespec.instant (time : Timespec) : Instant :=
  ⟨time.seconds.toInt, time.nanoseconds.toInt, time.counted, time.normalised⟩

/-- The borrow of a second where the nanoseconds came out negative. -/
def borrowSecond (seconds nanoseconds : Int64) : Option (Int64 × Int64) :=
  if nanoseconds < 0 then do
    let seconds ← subSigned seconds 1
    let nanoseconds ← addSigned nanoseconds 1000000000
    return (seconds, nanoseconds)
  else return (seconds, nanoseconds)

/-- The comparison with the limit, seconds first. -/
def exceedsLimit (seconds nanoseconds : Int64) (maximum : UInt64) : Option Bool := do
  let maximumNanoseconds ← mulUnsigned (maximum % 1000) 1000000
  if seconds < 0 then return true
  let elapsedSeconds ← toUnsigned seconds
  if maximum / 1000 < elapsedSeconds then return true
  if elapsedSeconds = maximum / 1000 then
    let elapsedNanoseconds ← toUnsigned nanoseconds
    return maximumNanoseconds < elapsedNanoseconds
  else return false

/-- The comparison of the time limit in `main`; there is no result where a step of it overflows, wraps or
changes a sign. -/
def timeExceeded (started finished : Timespec) (maximum : UInt64) : Option Bool := do
  let seconds ← subSigned finished.seconds started.seconds
  let nanoseconds ← subSigned finished.nanoseconds started.nanoseconds
  let (seconds, nanoseconds) ← borrowSecond seconds nanoseconds
  exceedsLimit seconds nanoseconds maximum

/-- The borrow leaves the time and normalises the nanoseconds. -/
theorem exists_borrowSecond {seconds nanoseconds : Int64} (hseconds : -2 ^ 63 < seconds.toInt)
    (hlow : -1000000000 < nanoseconds.toInt) (hhigh : nanoseconds.toInt < 1000000000) :
    ∃ seconds' nanoseconds' : Int64,
      borrowSecond seconds nanoseconds = some (seconds', nanoseconds') ∧
      seconds'.toInt * 1000000000 + nanoseconds'.toInt =
        seconds.toInt * 1000000000 + nanoseconds.toInt ∧
      0 ≤ nanoseconds'.toInt ∧ nanoseconds'.toInt < 1000000000 := by
  have hone : (1 : Int64).toInt = 1 := rfl
  have hsecond : (1000000000 : Int64).toInt = 1000000000 := rfl
  have hlt := seconds.toInt_lt
  by_cases hneg : nanoseconds.toInt < 0
  · obtain ⟨seconds', hsub, hvalue⟩ := exists_signed (x := seconds.toInt - (1 : Int64).toInt)
      (by omega) (by omega)
    obtain ⟨nanoseconds', hadd, hvalue'⟩ := exists_signed
      (x := nanoseconds.toInt + (1000000000 : Int64).toInt) (by omega) (by omega)
    refine ⟨seconds', nanoseconds', ?_, by omega, by omega, by omega⟩
    rw [borrowSecond, if_pos (Int64.lt_iff_toInt_lt.mpr hneg), subSigned, hsub, addSigned, hadd]
    rfl
  · refine ⟨seconds, nanoseconds, ?_, rfl, by omega, hhigh⟩
    rw [borrowSecond, if_neg fun h => hneg (Int64.lt_iff_toInt_lt.mp h), Option.pure_def]

/-- The comparison by seconds and then by nanoseconds is the comparison of the times. -/
theorem exceedsLimit_eq {seconds nanoseconds : Int64} (hlow : 0 ≤ nanoseconds.toInt)
    (hhigh : nanoseconds.toInt < 1000000000) (maximum : UInt64) :
    exceedsLimit seconds nanoseconds maximum = some
      (seconds.toInt * 1000000000 + nanoseconds.toInt < 0 ||
        maximum.toNat * 1000000 < seconds.toInt * 1000000000 + nanoseconds.toInt) := by
  have hmod : (maximum % 1000).toNat = maximum.toNat % 1000 := UInt64.toNat_mod _ _
  have hdiv : (maximum / 1000).toNat = maximum.toNat / 1000 := UInt64.toNat_div _ _
  have hseconds := seconds.toInt_lt
  have hproduct : ((maximum % 1000).toNat : ℤ) * ((1000000 : UInt64).toNat : ℤ) =
      (maximum.toNat % 1000 : ℕ) * 1000000 := by
    rw [hmod]
    rfl
  obtain ⟨limit, hmul, hlimit⟩ := exists_unsigned (x := (maximum.toNat % 1000 : ℕ) * 1000000)
    (by omega) (by omega)
  rw [exceedsLimit, mulUnsigned, hproduct, hmul]
  simp only [Option.bind_eq_bind, Option.bind_some, Option.pure_def]
  by_cases hneg : seconds.toInt < 0
  · rw [if_pos (Int64.lt_iff_toInt_lt.mpr hneg)]
    refine congrArg some (Eq.symm ?_)
    rw [Bool.or_eq_true, decide_eq_true_eq, decide_eq_true_eq]
    omega
  · obtain ⟨elapsed, hconvert, helapsed⟩ := exists_unsigned (x := seconds.toInt) (by omega) (by omega)
    obtain ⟨rest, hconvert', hrest⟩ := exists_unsigned (x := nanoseconds.toInt) (by omega) (by omega)
    rw [if_neg fun h => hneg (Int64.lt_iff_toInt_lt.mp h), toUnsigned, hconvert, toUnsigned, hconvert',
      Option.bind_some, Option.bind_some]
    by_cases hmore : maximum.toNat / 1000 < elapsed.toNat
    · rw [if_pos (UInt64.lt_iff_toNat_lt.mpr (by omega))]
      refine congrArg some (Eq.symm ?_)
      rw [Bool.or_eq_true, decide_eq_true_eq, decide_eq_true_eq]
      omega
    rw [if_neg fun h => hmore (by have := UInt64.lt_iff_toNat_lt.mp h; omega)]
    by_cases hsame : elapsed.toNat = maximum.toNat / 1000
    · rw [if_pos (UInt64.toNat_inj.mp (by omega))]
      refine congrArg some ?_
      rw [Bool.eq_iff_iff, Bool.or_eq_true, decide_eq_true_eq, decide_eq_true_eq, decide_eq_true_eq,
        UInt64.lt_iff_toNat_lt]
      omega
    · rw [if_neg fun h => hsame (by rw [h, hdiv])]
      refine congrArg some (Eq.symm ?_)
      rw [Bool.or_eq_false_iff, decide_eq_false_iff_not, decide_eq_false_iff_not]
      omega

/-- **The comparison.** It has a result for all readings of the clock and all limits, and the result is that
of the comparison in nanoseconds. -/
theorem timeExceeded_eq (started finished : Timespec) (maximum : UInt64) :
    timeExceeded started finished maximum = some
      (elapsed started.instant finished.instant < 0 ||
        maximum.toNat * 1000000 < elapsed started.instant finished.instant) := by
  have hstarted := started.seconds.toInt_lt
  have hfinished := finished.seconds.toInt_lt
  have := started.begun
  have := started.counted
  have := started.normalised
  have := finished.begun
  have := finished.counted
  have := finished.normalised
  obtain ⟨seconds, hsub, hseconds⟩ := exists_signed
    (x := finished.seconds.toInt - started.seconds.toInt) (by omega) (by omega)
  obtain ⟨nanoseconds, hsub', hnanoseconds⟩ := exists_signed
    (x := finished.nanoseconds.toInt - started.nanoseconds.toInt) (by omega) (by omega)
  obtain ⟨seconds', nanoseconds', hborrow, htime, hlow, hhigh⟩ := exists_borrowSecond
    (show -2 ^ 63 < seconds.toInt by omega) (show -1000000000 < nanoseconds.toInt by omega) (by omega)
  have helapsed : elapsed started.instant finished.instant =
      seconds'.toInt * 1000000000 + nanoseconds'.toInt := by
    rw [htime, hseconds, hnanoseconds]
    rfl
  rw [timeExceeded, subSigned, hsub, subSigned, hsub']
  simp only [Option.bind_eq_bind, Option.bind_some]
  rw [hborrow, helapsed, Option.bind_some, exceedsLimit_eq hlow hhigh maximum]

/-- **The budget.** For all readings of the clock and all limits the comparison has a result, which tells
whether the time is negative or longer than the limit; a run with a time limit that is granted its
execution and the emission of a finding reports its finding exactly then. -/
theorem budget_exact (started finished : Timespec) (maximum : UInt64) :
    ∃ exceeded, timeExceeded started finished maximum = some exceeded ∧
      (exceeded = true ↔ elapsed started.instant finished.instant < 0 ∨
        maximum.toNat * 1000000 < elapsed started.instant finished.instant) ∧
      ∀ (host : Host) (outputs : Outputs) (value : Text) (command : List Text),
        Granted host .timeLimit value command → host.parseUnsigned value = some maximum →
        host.clock 0 = some started.instant → host.clock 1 = some finished.instant →
          (check host outputs .timeLimit value command).finding =
            if exceeded then some Mode.timeLimit.finding else none := by
  refine ⟨_, timeExceeded_eq started finished maximum, ?_, ?_⟩
  · rw [Bool.or_eq_true, decide_eq_true_eq, decide_eq_true_eq]
  · intro host outputs value command hgranted hvalue hstarted hfinished
    obtain ⟨violated, hcheck, hiff⟩ := check_eq hgranted outputs
    rw [hcheck]
    refine if_congr ?_ rfl rfl
    rw [hiff, Bool.or_eq_true, decide_eq_true_eq, decide_eq_true_eq]
    simp only [Violated, hvalue, hstarted, hfinished, Option.some.injEq, exists_and_left,
      exists_eq_left']

/-- A reading of the clock in the second second. -/
def slowStart : Timespec := ⟨1, 999999999, by decide, by decide, by decide⟩

/-- A reading one second and one nanosecond later. -/
def slowEnd : Timespec := ⟨3, 0, by decide, by decide, by decide⟩

/-- A host whose command takes the time between the two. -/
def slowHost : Host :=
  { leaking with
    parseUnsigned := fun _ => some 1000
    clock := fun reading => some (if reading = 0 then slowStart.instant else slowEnd.instant) }

/-- A second is the limit, and a nanosecond more is a finding. -/
theorem budget_exact_slow :
    (check slowHost ⟨true, false⟩ .timeLimit "1000".toList ["c".toList]).finding =
      some Mode.timeLimit.finding := by
  obtain ⟨exceeded, -, hiff, hfinding⟩ := budget_exact slowStart slowEnd 1000
  have hexceeded : exceeded = true := hiff.mpr (.inr (by decide))
  have hgranted : Granted slowHost .timeLimit "1000".toList ["c".toList] :=
    ⟨by decide, by decide, fun _ _ => ⟨rfl, rfl⟩, nofun, rfl, fun _ => ⟨rfl, rfl⟩, rfl, rfl, rfl⟩
  rw [hfinding slowHost ⟨true, false⟩ _ _ hgranted rfl rfl rfl, if_pos hexceeded]

end P101Test.CommandContract
