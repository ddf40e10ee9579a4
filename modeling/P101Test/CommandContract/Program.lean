import P101Test.Stdio.Stream
import P101Test.Stdio.Strings

/-!
# The command contract program

The program that runs a command once or twice and checks one contract about what it captured (`main.c`
of `command-contract`). A run is given what each execution of the command stores and leaves behind; the
conversion of numbers, the selection of outputs and the emission of a finding belong to libraries.

A wait status is the number that waiting stores, so that two executions can differ in any part of it.

## Main definitions

* `Mode`, `Host`, `Capture`: the contracts, what a run is given, and what it captures.
* `readFile`, `runCommand`: capturing an execution.
* `capturedEqual`, `capturedContains`: the comparisons.
* `checkContract`: the contract of each mode.
* `main`: the program.
-/

namespace P101Test.CommandContract

open Stdio

/-- `EXIT_FINDING`. -/
def exitFinding : ℕ := 1

/-- `EXIT_TROUBLE`. -/
def exitTrouble : ℕ := 2

/-- `PATH_SIZE`. -/
def pathSize : ℕ := 4096

/-- `enum contract_mode`. -/
inductive Mode
  | determinism
  | redaction
  | outputLimit
  | timeLimit
  | recovery
  | schemaCompatibility
  | sideEffectDeterminism
  deriving DecidableEq, Repr

/-- A wait status. -/
abbrev Status := BitVec 32

/-- `WIFEXITED`. -/
def wifexited (status : Status) : Bool := status &&& 0x7f = 0

/-- `WEXITSTATUS`. -/
def wexitstatus (status : Status) : ℕ := ((status &&& 0xff00) >>> 8).toNat

/-- One execution of the command: the wait status, unless running it fails, and the files behind it. -/
structure Execution where
  status : Option Status
  standardOutput : WholeFile
  standardError : WholeFile
  effects : WholeFile
  deriving DecidableEq, Repr

/-- The diagnostic outputs. -/
structure Outputs where
  human : Bool
  json : Bool
  deriving DecidableEq, Repr

/-- A reading of the clock: seconds, and the nanoseconds of an unfinished second. -/
structure Instant where
  seconds : ℤ
  nanoseconds : ℤ
  begun : 0 ≤ nanoseconds
  unfinished : nanoseconds < 1000000000

/-- What a run is given: the library functions, the environment, the readings of the clock, the
executions of a command, and which calls of a finding's emission succeed. -/
structure Host where
  parseOutputs : Text → Option Outputs
  parseUnsigned : Text → Option UInt64
  tmpdir : Option Text
  pid : ℕ
  clock : ℕ → Option Instant
  execution : ℕ → List Text → Execution
  initializes : Bool
  writes : Bool
  endsLine : Bool

/-- `struct run_capture`. -/
structure Capture where
  standardOutput : Text
  standardError : Text
  status : Status
  deriving DecidableEq, Repr

/-- A part of `main`: it goes on, or it goes to the label `done` with the error record it has then. -/
abbrev Step := Except (Option Fault)

variable (host : Host)

/-! ### Capturing -/

/-- `read_file`: closing may fail, and a length that `long` cannot hold is an error. -/
def readFile (file : WholeFile) : Step Text :=
  match file.failsAt with
  | none | some .closing =>
    if longMax < file.content.length then .error (some .call) else .ok file.content
  | some _ => .error (some .call)

/-- The path names of the files of an execution. -/
def capturePaths (stem : Text) (index : ℕ) : Text × Text :=
  (stem ++ '-' :: decimal index ++ ".stdout".toList, stem ++ '-' :: decimal index ++ ".stderr".toList)

/-- `run_command`. -/
def runCommand (command : List Text) (stem : Text) (index : ℕ) : Step Capture :=
  if pathSize ≤ (capturePaths stem index).1.length then .error none
  else if pathSize ≤ (capturePaths stem index).2.length then .error none
  else
    let execution := host.execution index command
    match execution.status with
    | none => .error (some .call)
    | some status =>
      match readFile execution.standardOutput with
      | .error err => .error err
      | .ok standardOutput =>
        match readFile execution.standardError with
        | .error err => .error err
        | .ok standardError => .ok ⟨standardOutput, standardError, status⟩

/-- `captured_equal`. -/
def capturedEqual (left right : Text) : Bool :=
  left.length = right.length && (left.length = 0 || left = right)

/-- The loop of `captured_contains` over the offsets, from one on. -/
def containsFrom (text probe : Text) : ℕ → ℕ → Bool
  | _, 0 => false
  | offset, remaining + 1 =>
    if (text.drop offset).take probe.length = probe then true
    else containsFrom text probe (offset + 1) remaining

/-- `captured_contains`. -/
def capturedContains (text probe : Text) : Bool :=
  if probe.length ≤ text.length then containsFrom text probe 0 (text.length - probe.length + 1)
  else false

/-! ### The contracts -/

variable (command : List Text) (stem : Text) (first : Capture)

/-- The comparison of two captures. -/
def capturesDiffer (first second : Capture) : Bool :=
  first.status ≠ second.status || !capturedEqual first.standardOutput second.standardOutput ||
    !capturedEqual first.standardError second.standardError

/-- The determinism contract. -/
def checkDeterminism : Step Bool :=
  match runCommand host command stem 2 with
  | .error err => .error err
  | .ok second => .ok (capturesDiffer first second)

/-- The side-effect determinism contract: the manifest is read after each execution. -/
def checkSideEffects : Step Bool :=
  match readFile (host.execution 1 command).effects with
  | .error err => .error err
  | .ok firstEffects =>
    match runCommand host command stem 2 with
    | .error err => .error err
    | .ok second =>
      match readFile (host.execution 2 command).effects with
      | .error err => .error err
      | .ok secondEffects =>
        .ok (capturesDiffer first second || !capturedEqual firstEffects secondEffects)

/-- The redaction contract. -/
def checkRedaction (probe : Text) : Step Bool :=
  if probe = [] then .error (some (.user "the sensitive probe must not be empty".toList))
  else .ok (capturedContains first.standardOutput probe || capturedContains first.standardError probe)

/-- The output limit: the sizes are added as `size_t`. -/
def checkOutputLimit (value : Text) : Step Bool :=
  match host.parseUnsigned value with
  | none => .error (some (.user "the output limit must be a representable byte count".toList))
  | some maximum =>
    let outputSize := UInt64.ofNat first.standardOutput.length
    let total := outputSize + UInt64.ofNat first.standardError.length
    .ok (total < outputSize || maximum < total)

/-- The time limit. -/
def checkTimeLimit (value : Text) (started finished : Instant) : Step Bool :=
  match host.parseUnsigned value with
  | none => .error (some (.user "the time limit must be a representable millisecond count".toList))
  | some maximum =>
    let borrow := finished.nanoseconds - started.nanoseconds < 0
    let seconds := finished.seconds - started.seconds - if borrow then 1 else 0
    let nanoseconds :=
      finished.nanoseconds - started.nanoseconds + if borrow then 1000000000 else 0
    .ok (seconds < 0 || (maximum.toNat / 1000 : ℕ) < seconds ||
      (seconds = (maximum.toNat / 1000 : ℕ) && (maximum.toNat % 1000 * 1000000 : ℕ) < nanoseconds))

/-- The expected status, of recovery and of schema compatibility. -/
def checkStatus (value : Text) : Step Bool :=
  match host.parseUnsigned value with
  | none => .error (some (.user "the expected exit status must be between 0 and 255".toList))
  | some expected =>
    let expectedStatus := (expected.toBitVec.setWidth 32).toInt
    if 255 < expected.toNat ∨ expectedStatus < 0 then
      .error (some (.user "the expected exit status must be between 0 and 255".toList))
    else .ok (!wifexited first.status || (wexitstatus first.status : ℤ) ≠ expectedStatus)

/-- The first execution, between two readings of the clock where there is a time limit, and the contract
of a mode. -/
def checkContract (mode : Mode) (value : Text) : Step Bool :=
  if mode = .timeLimit then
    match host.clock 0 with
    | none => .error (some .call)
    | some started =>
      match runCommand host command stem 1 with
      | .error err => .error err
      | .ok _ =>
        match host.clock 1 with
        | none => .error (some .call)
        | some finished => checkTimeLimit host value started finished
  else
    match runCommand host command stem 1 with
    | .error err => .error err
    | .ok first =>
      match mode with
      | .determinism => checkDeterminism host command stem first
      | .sideEffectDeterminism => checkSideEffects host command stem first
      | .redaction => checkRedaction first value
      | .outputLimit => checkOutputLimit host first value
      | _ => checkStatus host first value

/-! ### Findings -/

/-- A finding: its rule and its message. -/
structure Finding where
  rule : Text
  message : Text
  deriving DecidableEq, Repr

/-- The finding of a mode. -/
def Mode.finding : Mode → Finding
  | .determinism => ⟨"P101-TEST-DETERMINISM-001".toList,
      "identical admitted inputs produced different exit status or output bytes".toList⟩
  | .redaction => ⟨"P101-DATA-001".toList,
      "command output disclosed the admitted sensitive probe".toList⟩
  | .outputLimit => ⟨"P101-RESOURCE-006".toList,
      "command output exceeded its admitted byte budget".toList⟩
  | .timeLimit => ⟨"P101-TIME-001".toList,
      "command exceeded its admitted monotonic elapsed-time budget".toList⟩
  | .recovery => ⟨"P101-TEST-RECOVERY-001".toList, ("the admitted fault scenario did not produce the " ++
      "caller's expected recovery status").toList⟩
  | .schemaCompatibility => ⟨"P101-SCHEMA-001".toList,
      "the admitted compatibility fixture did not produce its expected status".toList⟩
  | .sideEffectDeterminism => ⟨"P101-TEST-SIDE-EFFECT-001".toList, ("identical admitted inputs produced " ++
      "different exit status, output bytes, or declared filesystem-effect manifest bytes").toList⟩

/-- `emit_finding`: whether it succeeded, and the error record behind it. -/
def emitFinding (outputs : Outputs) : Bool × Option Fault :=
  if !host.initializes || !host.writes then (false, some .call)
  else (true, if outputs.json && !host.endsLine then some .call else none)

/-! ### The program -/

/-- `parse_mode`. -/
def parseMode (text : Text) : Option Mode :=
  if text = "determinism".toList then some .determinism
  else if text = "redaction".toList then some .redaction
  else if text = "output-limit".toList then some .outputLimit
  else if text = "time-limit".toList then some .timeLimit
  else if text = "recovery".toList then some .recovery
  else if text = "schema-compatibility".toList then some .schemaCompatibility
  else if text = "side-effect-determinism".toList then some .sideEffectDeterminism
  else none

/-- What the command line asks for. -/
inductive Parsed
  | wrongOutputs
  | usage
  | run (outputs : Outputs) (mode : Mode) (value : Text) (command : List Text)
  deriving DecidableEq, Repr

/-- The arguments behind the mode and its value. -/
def parseCommand (outputs : Outputs) (mode : Mode) (value : Text) : List Text → Parsed
  | separator :: command =>
    if separator ≠ "--".toList ∨ command = [] then .usage else .run outputs mode value command
  | [] => .usage

/-- The arguments from the mode on. -/
def parseContract (outputs : Outputs) : List Text → Parsed
  | [] => .usage
  | text :: rest =>
    match parseMode text with
    | none => .usage
    | some .determinism => parseCommand outputs .determinism [] rest
    | some mode =>
      match rest with
      | [] => .usage
      | value :: rest => parseCommand outputs mode value rest

/-- The arguments of `main`, behind the program name. -/
def parseArguments : List Text → Outputs → Parsed
  | [], _ => .usage
  | argument :: rest, outputs =>
    if "-d:".toList.isPrefixOf argument then
      match host.parseOutputs (argument.drop 3) with
      | none => .wrongOutputs
      | some outputs => parseArguments rest outputs
    else parseContract outputs (argument :: rest)

/-- What a run leaves: its exit status, the finding it emitted, and the error on record. -/
structure Ended where
  status : ℕ
  finding : Option Finding
  err : Option Fault
  deriving DecidableEq, Repr

/-- The end of `main`, from the label `done` on: a recorded error makes the status that of trouble. -/
def done (status : ℕ) (finding : Option Finding) (err : Option Fault) : Ended :=
  ⟨if err.isSome then exitTrouble else status, finding, err⟩

/-- The path name the captures start with. -/
def stemText : Text :=
  (match host.tmpdir with
    | none | some [] => "/tmp".toList
    | some directory => directory) ++ "/p101-command-contract-".toList ++ decimal host.pid

/-- `main` after the arguments were parsed. -/
def check (outputs : Outputs) (mode : Mode) (value : Text) (command : List Text) : Ended :=
  if pathSize ≤ (stemText host).length then done exitTrouble none none
  else
    match checkContract host command (stemText host) mode value with
    | .error err => done exitTrouble none err
    | .ok false => done 0 none none
    | .ok true =>
      match emitFinding host outputs with
      | (false, err) => done exitTrouble none err
      | (true, err) => done exitFinding (some mode.finding) err

/-- `main`, on the arguments behind the program name. -/
def main (argv : List Text) : Ended :=
  match parseArguments host argv ⟨true, false⟩ with
  | .wrongOutputs => done exitTrouble none (some (.user "invalid diagnostic output selection".toList))
  | .usage => done exitTrouble none none
  | .run outputs mode value command => check host outputs mode value command

end P101Test.CommandContract
