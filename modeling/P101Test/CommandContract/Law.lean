import P101Test.CommandContract.Program

/-!
# The law of the command contract

When its runs, its readings, its conversions and the emission of a finding succeed, the exit status says
whether the contract of the mode is violated; and an error on record makes it the status of trouble.

## Main definitions

* `Granted`: everything a run needs succeeds.
* `Violated`: the contract of a mode is violated.

## Main results

* `capturedContains_iff`: the search finds exactly the contiguous occurrences.
* `total_lt_iff`: the sizes are compared without wrapping.
* `verdict_law`: the exit status says whether the contract is violated.
-/

namespace P101Test.CommandContract

open Stdio

variable {host : Host}

/-! ### The comparisons -/

@[simp] theorem capturedEqual_iff (left right : Text) : capturedEqual left right = true ↔ left = right := by
  unfold capturedEqual
  constructor
  · intro h
    simp only [Bool.and_eq_true, Bool.or_eq_true, decide_eq_true_eq] at h
    obtain ⟨hlength, hempty | heq⟩ := h
    · rw [List.length_eq_zero_iff.mp hempty, List.length_eq_zero_iff.mp (hlength.symm.trans hempty)]
    · exact heq
  · rintro rfl
    simp

theorem containsFrom_iff (text probe : Text) (offset remaining : ℕ) :
    containsFrom text probe offset remaining = true ↔
      ∃ i < remaining, (text.drop (offset + i)).take probe.length = probe := by
  induction remaining generalizing offset with
  | zero => simp [containsFrom]
  | succ remaining ih =>
      rw [containsFrom]
      split
      · next hhere => exact iff_of_true rfl ⟨0, by omega, hhere⟩
      · next hhere =>
        rw [ih]
        constructor
        · rintro ⟨i, hi, heq⟩
          exact ⟨i + 1, by omega, by rwa [Nat.add_comm i 1, ← Nat.add_assoc]⟩
        · rintro ⟨_ | i, hi, heq⟩
          · exact absurd heq hhere
          · exact ⟨i, by omega, by rwa [Nat.add_assoc, Nat.add_comm 1 i]⟩

/-- **Searching.** The probe is found exactly if it occurs somewhere in the text, in one piece. -/
theorem capturedContains_iff (text probe : Text) :
    capturedContains text probe = true ↔ probe <:+: text := by
  unfold capturedContains
  split
  · rw [containsFrom_iff]
    constructor
    · rintro ⟨i, -, heq⟩
      have hprefix : probe <+: text.drop (0 + i) := heq ▸ List.take_prefix _ _
      exact hprefix.isInfix.trans (List.drop_suffix _ _).isInfix
    · rintro ⟨before, behind, rfl⟩
      refine ⟨before.length, by simp only [List.length_append]; omega, ?_⟩
      rw [Nat.zero_add, List.append_assoc, List.drop_left, List.take_left]
  · next hlong =>
    refine iff_of_false Bool.false_ne_true fun hinfix => ?_
    exact hlong hinfix.length_le

/-- **Adding sizes.** The sum of two sizes that `long` can hold exceeds a limit as `size_t` exactly if
it does as a number. -/
theorem total_lt_iff {a b : ℕ} (ha : (a : ℤ) ≤ longMax) (hb : (b : ℤ) ≤ longMax) (maximum : UInt64) :
    (UInt64.ofNat a + UInt64.ofNat b < UInt64.ofNat a ∨ maximum < UInt64.ofNat a + UInt64.ofNat b) ↔
      maximum.toNat < a + b := by
  have hmax : longMax = 2 ^ 63 - 1 := rfl
  rw [UInt64.lt_iff_toNat_lt, UInt64.lt_iff_toNat_lt, UInt64.toNat_add, UInt64.toNat_ofNat',
    UInt64.toNat_ofNat']
  omega

theorem toInt_expected {expected : UInt64} (h : expected.toNat ≤ 255) :
    (expected.toBitVec.setWidth 32).toInt = expected.toNat := by
  have hwidth : (expected.toBitVec.setWidth 32).toNat = expected.toNat := by
    rw [BitVec.toNat_setWidth, UInt64.toNat_toBitVec]
    omega
  rw [BitVec.toInt_eq_toNat_of_lt (by omega), hwidth]

/-! ### What a run needs -/

/-- The executions of a mode. -/
def Mode.runs (mode : Mode) : List ℕ :=
  if mode = .determinism ∨ mode = .sideEffectDeterminism then [1, 2] else [1]

/-- A file can be read. -/
def Readable (file : WholeFile) : Prop := readFile file = .ok file.content

/-- The time between two readings of the clock, in nanoseconds. -/
def elapsed (started finished : Instant) : ℤ :=
  (finished.seconds - started.seconds) * 1000000000 + (finished.nanoseconds - started.nanoseconds)

variable (host)

/-- A value can be converted as its mode asks: a probe is not empty, a limit is a number, and an expected
status is one of `0` to `255`. -/
def Admitted (value : Text) : Mode → Prop
  | .redaction => value ≠ []
  | .outputLimit | .timeLimit => (host.parseUnsigned value).isSome
  | .recovery | .schemaCompatibility =>
    ∃ expected, host.parseUnsigned value = some expected ∧ expected.toNat ≤ 255
  | .determinism | .sideEffectDeterminism => True

/-- The executions of a command succeed, their files can be read, the value can be converted, and a
finding can be emitted. -/
structure Granted (mode : Mode) (value : Text) (command : List Text) : Prop where
  paths : ∀ index ∈ mode.runs, (capturePaths (stemText host) index).1.length < pathSize ∧
    (capturePaths (stemText host) index).2.length < pathSize
  ran : ∀ index ∈ mode.runs, (host.execution index command).status.isSome
  outputs : ∀ index ∈ mode.runs, Readable (host.execution index command).standardOutput ∧
    Readable (host.execution index command).standardError
  effects : mode = .sideEffectDeterminism →
    ∀ index ∈ mode.runs, Readable (host.execution index command).effects
  value : Admitted host value mode
  clock : mode = .timeLimit → (host.clock 0).isSome ∧ (host.clock 1).isSome
  emitted : host.initializes = true ∧ host.writes = true ∧ host.endsLine = true

/-- The two executions differ in wait status or in output bytes. -/
def Differ (first second : Execution) : Prop :=
  first.status ≠ second.status ∨ first.standardOutput.content ≠ second.standardOutput.content ∨
    first.standardError.content ≠ second.standardError.content

/-- The contract of a mode is violated. -/
def Violated (value : Text) (command : List Text) : Mode → Prop
  | .determinism => Differ (host.execution 1 command) (host.execution 2 command)
  | .sideEffectDeterminism => Differ (host.execution 1 command) (host.execution 2 command) ∨
      (host.execution 1 command).effects.content ≠ (host.execution 2 command).effects.content
  | .redaction => value <:+: (host.execution 1 command).standardOutput.content ∨
      value <:+: (host.execution 1 command).standardError.content
  | .outputLimit => ∃ maximum, host.parseUnsigned value = some maximum ∧
      maximum.toNat < (host.execution 1 command).standardOutput.content.length +
        (host.execution 1 command).standardError.content.length
  | .timeLimit => ∃ maximum started finished, host.parseUnsigned value = some maximum ∧
      host.clock 0 = some started ∧ host.clock 1 = some finished ∧
      (elapsed started finished < 0 ∨ maximum.toNat * 1000000 < elapsed started finished)
  | .recovery | .schemaCompatibility => ∃ expected, host.parseUnsigned value = some expected ∧
      ¬∃ status, (host.execution 1 command).status = some status ∧ wifexited status = true ∧
        wexitstatus status = expected.toNat

/-! ### Each mode -/

variable {host} {mode : Mode} {value : Text} {command : List Text}

theorem Readable.length_le {file : WholeFile} (h : Readable file) : (file.content.length : ℤ) ≤ longMax := by
  unfold Readable readFile at h
  split at h
  · split at h
    · cases h
    · next hle => exact Int.not_lt.mp hle
  · split at h
    · cases h
    · next hle => exact Int.not_lt.mp hle
  · cases h

/-- The capture of an execution that ended with a status. -/
def Execution.capture (execution : Execution) (status : Status) : Capture :=
  ⟨execution.standardOutput.content, execution.standardError.content, status⟩

theorem Granted.runCommand_eq (h : Granted host mode value command) (index : ℕ)
    (hindex : index ∈ mode.runs) :
    ∃ status, (host.execution index command).status = some status ∧
      runCommand host command (stemText host) index = .ok ((host.execution index command).capture status) := by
  obtain ⟨hout, herr⟩ := h.paths index hindex
  obtain ⟨status, hstatus⟩ := Option.isSome_iff_exists.mp (h.ran index hindex)
  obtain ⟨hreadOut, hreadErr⟩ := h.outputs index hindex
  unfold Readable at hreadOut hreadErr
  refine ⟨status, hstatus, ?_⟩
  rw [runCommand, if_neg (by omega), if_neg (by omega)]
  simp only [hstatus, hreadOut, hreadErr]
  rfl

theorem capturesDiffer_iff {first second : Execution} {status status' : Status}
    (hfirst : first.status = some status) (hsecond : second.status = some status') :
    capturesDiffer (first.capture status) (second.capture status') = true ↔ Differ first second := by
  simp only [capturesDiffer, Bool.or_eq_true, decide_eq_true_eq, Bool.not_eq_true', ← Bool.not_eq_true,
    capturedEqual_iff, or_assoc, Differ, hfirst, hsecond, ne_eq, Option.some.injEq]
  rfl

theorem checkDeterminism_spec (h : Granted host .determinism value command) :
    ∃ violated, checkContract host command (stemText host) .determinism value = .ok violated ∧
      (violated = true ↔ Violated host value command .determinism) := by
  obtain ⟨first, hfirst, hrun⟩ := h.runCommand_eq 1 (by decide)
  obtain ⟨second, hsecond, hrun'⟩ := h.runCommand_eq 2 (by decide)
  refine ⟨_, ?_, capturesDiffer_iff hfirst hsecond⟩
  rw [checkContract, if_neg (by decide), hrun]
  dsimp only
  rw [checkDeterminism, hrun']

theorem checkSideEffects_spec (h : Granted host .sideEffectDeterminism value command) :
    ∃ violated, checkContract host command (stemText host) .sideEffectDeterminism value = .ok violated ∧
      (violated = true ↔ Violated host value command .sideEffectDeterminism) := by
  obtain ⟨first, hfirst, hrun⟩ := h.runCommand_eq 1 (by decide)
  obtain ⟨second, hsecond, hrun'⟩ := h.runCommand_eq 2 (by decide)
  have heffects : readFile (host.execution 1 command).effects = _ := h.effects rfl 1 (by decide)
  have heffects' : readFile (host.execution 2 command).effects = _ := h.effects rfl 2 (by decide)
  refine ⟨capturesDiffer ((host.execution 1 command).capture first)
    ((host.execution 2 command).capture second) || !capturedEqual (host.execution 1 command).effects.content
      (host.execution 2 command).effects.content, ?_, ?_⟩
  · rw [checkContract, if_neg (by decide), hrun]
    dsimp only
    rw [checkSideEffects, heffects, hrun', heffects']
  · rw [Bool.or_eq_true, capturesDiffer_iff hfirst hsecond, Bool.not_eq_true', ← Bool.not_eq_true,
      capturedEqual_iff]
    rfl

theorem checkRedaction_spec (h : Granted host .redaction value command) :
    ∃ violated, checkContract host command (stemText host) .redaction value = .ok violated ∧
      (violated = true ↔ Violated host value command .redaction) := by
  obtain ⟨first, -, hrun⟩ := h.runCommand_eq 1 (by decide)
  refine ⟨capturedContains (host.execution 1 command).standardOutput.content value ||
    capturedContains (host.execution 1 command).standardError.content value, ?_, ?_⟩
  · rw [checkContract, if_neg (by decide), hrun]
    dsimp only
    exact if_neg h.value
  · rw [Bool.or_eq_true, capturedContains_iff, capturedContains_iff]
    rfl

theorem checkOutputLimit_spec (h : Granted host .outputLimit value command) :
    ∃ violated, checkContract host command (stemText host) .outputLimit value = .ok violated ∧
      (violated = true ↔ Violated host value command .outputLimit) := by
  obtain ⟨first, -, hrun⟩ := h.runCommand_eq 1 (by decide)
  obtain ⟨hout, herr⟩ := h.outputs 1 (by decide)
  obtain ⟨maximum, hmaximum⟩ := Option.isSome_iff_exists.mp h.value
  rw [checkContract, if_neg (by decide), hrun]
  dsimp only
  rw [checkOutputLimit, hmaximum]
  refine ⟨_, rfl, ?_⟩
  rw [Bool.or_eq_true, decide_eq_true_eq, decide_eq_true_eq]
  simp only [Violated, hmaximum, Option.some.injEq, exists_eq_left']
  exact total_lt_iff hout.length_le herr.length_le maximum

theorem checkTimeLimit_spec (h : Granted host .timeLimit value command) :
    ∃ violated, checkContract host command (stemText host) .timeLimit value = .ok violated ∧
      (violated = true ↔ Violated host value command .timeLimit) := by
  obtain ⟨first, -, hrun⟩ := h.runCommand_eq 1 (by decide)
  obtain ⟨maximum, hmaximum⟩ := Option.isSome_iff_exists.mp h.value
  obtain ⟨started, hstarted⟩ := Option.isSome_iff_exists.mp (h.clock rfl).1
  obtain ⟨finished, hfinished⟩ := Option.isSome_iff_exists.mp (h.clock rfl).2
  rw [checkContract, if_pos rfl, hstarted, hrun, hfinished]
  dsimp only
  rw [checkTimeLimit, hmaximum]
  refine ⟨_, rfl, ?_⟩
  simp only [Violated, hmaximum, hstarted, hfinished, Option.some.injEq, exists_and_left, exists_eq_left',
    Bool.or_eq_true, Bool.and_eq_true, decide_eq_true_eq, elapsed]
  have := started.begun
  have := started.unfinished
  have := finished.begun
  have := finished.unfinished
  split <;> omega

theorem checkStatus_spec (first : Execution) {status : Status} (hfirst : first.status = some status)
    {expected : UInt64} (hexpected : host.parseUnsigned value = some expected) (hbyte : expected.toNat ≤ 255) :
    ∃ violated, checkStatus host (first.capture status) value = .ok violated ∧
      (violated = true ↔ ¬∃ status, first.status = some status ∧ wifexited status = true ∧
        wexitstatus status = expected.toNat) := by
  rw [checkStatus, hexpected]
  dsimp only
  rw [toInt_expected hbyte, if_neg (by omega)]
  refine ⟨_, rfl, ?_⟩
  simp only [Bool.or_eq_true, Bool.not_eq_true', decide_eq_true_eq, ne_eq, Int.natCast_inj, hfirst,
    Option.some.injEq, exists_eq_left', not_and_or, Bool.not_eq_true]
  rfl

/-- What the check of a mode answers. -/
theorem checkContract_spec (h : Granted host mode value command) :
    ∃ violated, checkContract host command (stemText host) mode value = .ok violated ∧
      (violated = true ↔ Violated host value command mode) := by
  cases mode with
  | determinism => exact checkDeterminism_spec h
  | sideEffectDeterminism => exact checkSideEffects_spec h
  | redaction => exact checkRedaction_spec h
  | outputLimit => exact checkOutputLimit_spec h
  | timeLimit => exact checkTimeLimit_spec h
  | recovery | schemaCompatibility =>
      obtain ⟨status, hstatus, hrun⟩ := h.runCommand_eq 1 (by decide)
      obtain ⟨expected, hexpected, hbyte⟩ := h.value
      rw [checkContract, if_neg (by decide), hrun]
      dsimp only
      obtain ⟨violated, hcheck, hiff⟩ := checkStatus_spec _ hstatus hexpected hbyte
      refine ⟨violated, hcheck, ?_⟩
      simp only [hiff, Violated, hexpected, Option.some.injEq, exists_eq_left']

/-! ### The program -/

theorem Granted.stem_lt (h : Granted host mode value command) : (stemText host).length < pathSize := by
  have hone : 1 ∈ mode.runs := by cases mode <;> decide
  have hpath := (h.paths 1 hone).1
  simp only [capturePaths, List.length_append] at hpath
  omega

/-- How a run that is granted everything ends: its finding is that of its mode, if the contract is
violated. -/
theorem check_eq (h : Granted host mode value command) (outputs : Outputs) :
    ∃ violated : Bool, check host outputs mode value command =
        ⟨if violated then exitFinding else 0, if violated then some mode.finding else none, none⟩ ∧
      (violated = true ↔ Violated host value command mode) := by
  obtain ⟨violated, hcheck, hiff⟩ := checkContract_spec h
  have hemit : emitFinding host outputs = (true, none) := by
    rw [emitFinding, h.emitted.1, h.emitted.2.1, h.emitted.2.2]
    simp
  refine ⟨violated, ?_, hiff⟩
  rw [check, if_neg (Nat.not_le.mpr h.stem_lt), hcheck]
  cases violated with
  | false => rfl
  | true =>
    dsimp only
    rw [hemit]
    rfl

/-- What a run that is granted everything leaves. -/
theorem check_status (h : Granted host mode value command) (outputs : Outputs) :
    ((check host outputs mode value command).status = 1 ↔ Violated host value command mode) ∧
      ((check host outputs mode value command).status = 0 ↔ ¬Violated host value command mode) := by
  obtain ⟨violated, hcheck, hiff⟩ := check_eq h outputs
  rw [hcheck, ← hiff]
  cases violated <;> simp [exitFinding]

theorem status_done_of_isSome {status : ℕ} {finding : Option Finding} {err : Option Fault} :
    (done status finding err).err.isSome = true → (done status finding err).status = exitTrouble :=
  fun h => if_pos h

theorem main_of_error (host : Host) (argv : List Text) (h : (main host argv).err.isSome = true) :
    (main host argv).status = exitTrouble := by
  have hdone : ∃ status finding err, main host argv = done status finding err := by
    unfold main check
    repeat' split
    all_goals exact ⟨_, _, _, rfl⟩
  obtain ⟨status, finding, err, heq⟩ := hdone
  rw [heq] at h ⊢
  exact status_done_of_isSome h

/-- **The law.** A run that is granted its executions, its readings, its conversions and the emission of a
finding ends with the status 1 exactly if the contract of its mode is violated, and with 0 otherwise. A
run that ends with an error on record ends with 2. -/
theorem verdict_law (host : Host) (argv : List Text) :
    (∀ outputs mode value command,
      parseArguments host argv ⟨true, false⟩ = .run outputs mode value command →
      Granted host mode value command →
      ((main host argv).status = 1 ↔ Violated host value command mode) ∧
        ((main host argv).status = 0 ↔ ¬Violated host value command mode)) ∧
    ((main host argv).err.isSome = true → (main host argv).status = 2) := by
  refine ⟨fun outputs mode value command hargv hgranted => ?_, main_of_error host argv⟩
  have hmain : main host argv = check host outputs mode value command := by rw [main, hargv]
  rw [hmain]
  exact check_status hgranted outputs

/-- A host whose command prints a secret behind a null character. -/
def leaking : Host where
  parseOutputs _ := none
  parseUnsigned _ := none
  tmpdir := none
  pid := 7
  clock _ := none
  execution _ _ := ⟨some 0, ⟨"a\x00secret".toList, none⟩, ⟨[], none⟩, ⟨[], none⟩⟩
  initializes := true
  writes := true
  endsLine := true

theorem verdict_law_leaking :
    (main leaking ["redaction".toList, "secret".toList, "--".toList, "c".toList]).status = 1 ↔
      Violated leaking "secret".toList ["c".toList] .redaction := by
  refine ((verdict_law leaking _).1 ⟨true, false⟩ _ _ _ (by decide) ⟨?_, ?_, ?_, ?_, ?_, ?_, ?_⟩).1
  · decide
  · decide
  · exact fun _ _ => ⟨rfl, rfl⟩
  · exact fun h => by cases h
  · change "secret".toList ≠ []
    decide
  · exact fun h => by cases h
  · exact ⟨rfl, rfl, rfl⟩

end P101Test.CommandContract
