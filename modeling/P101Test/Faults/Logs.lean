import Mathlib.Data.List.DropRight
import P101Test.Faults.World

/-!
# The files of a case

Where a case keeps its files and what the walker reads back from them (`paths.c`, `resource.c`): the
path names, the fault log, and the policy summaries.

## Main definitions

* `RunResult`: what is known of a case.
* `makeLogPaths`: the path names of a case.
* `fileExists`, `readFaultHit`, `readPolicyJson`: reading the files of a case.
-/

namespace P101Test.Faults

open Stdio

/-- `PATH_LEN`. -/
def pathLength : ℕ := 1024

/-- `NAME_LEN`. -/
def nameLength : ℕ := 128

/-- `READ_BUF_LEN`. -/
def readBufferLength : ℕ := 4096

/-- `POLICY_INITIAL_CAPACITY`. -/
def policyInitialCapacity : ℕ := 4096

/-- `POLICY_OUTPUT_LIMIT`. -/
def policyOutputLimit : ℕ := 64 * 1024 * 1024

/-- `DEFAULT_LOG_PREFIX`. -/
def defaultLogPrefix : Text := "/tmp/test-faults".toList

/-- `struct run_result`. -/
structure RunResult where
  faultIndex : ℕ
  status : WaitStatus
  faultHit : Bool
  resourceLogPresent : Bool
  pipelineOk : Bool
  faultName : Text
  runDir : Text
  captureDir : Text
  analysisDir : Text
  resourceLogPath : Text
  callLogPath : Text
  faultLogPath : Text
  resourceJsonPath : Text
  analysisJsonPath : Text
  reportPath : Text
  pipelineStdoutPath : Text
  pipelineStderrPath : Text
  resources : PolicySummary
  analysis : PolicySummary
  deriving DecidableEq, Repr

/-- A cleared result. -/
def RunResult.zero : RunResult :=
  ⟨0, .exited 0, false, false, false, [], [], [], [], [], [], [], [], [], [], [], [], ⟨false, 0, 0⟩,
    ⟨false, 0, 0⟩⟩

/-! ### Path names -/

/-- What an over-long path name is reported as. -/
def pathTooLong : Text := "An error-path-walk report path is too long.".toList

/-- `join_path`. -/
def joinPath (dir name : Text) (w : World) : Text × World :=
  (cut pathLength (dir ++ '/' :: name),
    if pathLength ≤ (dir ++ '/' :: name).length then w.raise (.usage pathTooLong) else w)

/-- The name of a case's run directory, before it is cut. -/
def runName (pid : ℕ) (arguments : Arguments) (faultIndex : ℕ) : Text :=
  arguments.logPrefix.getD defaultLogPrefix ++ '-' :: decimal pid ++
    (if faultIndex = 0 then "-baseline.run".toList
      else "-fault-".toList ++ decimal faultIndex ++ ".run".toList)

/-- `p101_error_path_walk_make_log_paths`. -/
def makeLogPaths (host : Host) (arguments : Arguments) (faultIndex : ℕ) (result : RunResult)
    (w : World) : RunResult × World :=
  let name := runName host.pid arguments faultIndex
  let runDir := cut pathLength name
  match joinPath runDir "capture".toList w with
  | (captureDir, w) =>
  match joinPath runDir "analysis".toList w with
  | (analysisDir, w) =>
  match joinPath captureDir "resources.log".toList w with
  | (resourceLogPath, w) =>
  match joinPath captureDir "calls.log".toList w with
  | (callLogPath, w) =>
  match joinPath captureDir "fault.log".toList w with
  | (faultLogPath, w) =>
  match joinPath analysisDir "resource-report.json".toList w with
  | (resourceJsonPath, w) =>
  match joinPath analysisDir "correlated-report.json".toList w with
  | (analysisJsonPath, w) =>
  match joinPath analysisDir "correlated-report.txt".toList w with
  | (reportPath, w) =>
    ({ result with
        runDir := runDir
        captureDir := captureDir
        analysisDir := analysisDir
        resourceLogPath := resourceLogPath
        callLogPath := callLogPath
        faultLogPath := faultLogPath
        resourceJsonPath := resourceJsonPath
        analysisJsonPath := analysisJsonPath
        reportPath := reportPath
        pipelineStdoutPath := cut pathLength (name ++ ".stdout.txt".toList)
        pipelineStderrPath := cut pathLength (name ++ ".stderr.txt".toList) }, w)

/-- The fault log of a case, when no path name is too long. -/
def faultLogText (pid : ℕ) (arguments : Arguments) (faultIndex : ℕ) : Text :=
  runName pid arguments faultIndex ++ "/capture/fault.log".toList

/-! ### The fault log -/

variable (host : Host)

/-- `p101_error_path_walk_file_exists`: without an error object of its own it answers no. -/
def fileExists (path : Text) (w : World) : Bool × World :=
  match attemptOptional host w with
  | (false, w) => (false, w)
  | (true, w) =>
    match openStream host path w with
    | (stream, w) => (stream.opens, w)

/-- `fault_semantics_valid`. -/
def faultSemanticsValid (mode phase disposition : Text) : Bool :=
  match host.faultDefaults mode with
  | none => false
  | some (phaseWord, dispositionWord) => phase == phaseWord && disposition == dispositionWord

/-- What a line of the fault log amounts to. -/
inductive Scanned
  | skipped
  | malformed (message : Text)
  | hit (name : Text)
  deriving DecidableEq, Repr

/-- The messages about a fault log. -/
def overlongRecord : Text := "The fault log contains an over-long record.".toList

@[inherit_doc overlongRecord]
def malformedRecord : Text := "The fault log contains a malformed P101FAULT record.".toList

@[inherit_doc overlongRecord]
def unsupportedVersion : Text := "The fault log version is not supported.".toList

@[inherit_doc overlongRecord]
def inconsistentSemantics : Text :=
  "The fault log contains inconsistent phase/disposition semantics.".toList

/-- A tagged record, split at its tabs. -/
def scanFields (fields : List Text) : Scanned :=
  match fields.map host.unescape with
  | [_, version, _, _, name, _, mode, _, phase, disposition] =>
    if version ≠ host.faultLogVersion then .malformed unsupportedVersion
    else if faultSemanticsValid host mode phase disposition then .hit (cut nameLength name)
    else .malformed inconsistentSemantics
  | _ => .malformed malformedRecord

/-- The body of the loop of `read_fault_hit` on one piece of the file. -/
def scanPiece (piece : Text) : Scanned :=
  let line := cString piece
  if line.length = readBufferLength - 1 ∧ '\n' ∉ line then .malformed overlongRecord
  else
    let fields := (line.rdropWhile fun c => c == '\n' || c == '\r').splitOn '\t'
    if fields.head? ≠ some host.faultLogTag then .skipped
    else scanFields host fields

/-- The loop of `read_fault_hit`: the first piece that is not skipped decides. -/
def scanPieces : List Text → Scanned
  | [] => .skipped
  | piece :: rest =>
    match scanPiece host piece with
    | .skipped => scanPieces rest
    | decided => decided

/-- `p101_fclose` on a stream that was read. -/
def closeStream (stream : Stream) (w : World) : World :=
  if stream.closes then w else w.raise (.call 5)

/-- `p101_error_path_walk_read_fault_hit`: whether a fault was hit, and the name of the call. -/
def readFaultHit (path : Text) (w : World) : Bool × Text × World :=
  match attemptOptional host w with
  | (false, w) => (false, [], w.raise (.call 12))
  | (true, w) =>
    match openStream host path w with
    | (stream, w) =>
      if stream.opens = false then (false, [], w)
      else
        match scanPieces host (stream.delivered readBufferLength) with
        | .skipped =>
          (false, [], closeStream stream
            (if stream.breaks readBufferLength then w.raise (.call 5) else w))
        | .malformed message => (false, [], closeStream stream (w.raise (.usage message)))
        | .hit name => (true, name, closeStream stream w)

/-! ### Policy summaries -/

/-- `p101_fread` of at most `count` bytes. -/
def fread (count : ℕ) (rest : Text) (w : World) : Text × Text × World :=
  match attempt host w with
  | (false, w') => ([], rest, w')
  | (true, w') =>
    (rest.take (min count (host.transfer w.calls)), rest.drop (min count (host.transfer w.calls)),
      w')

/-- The capacity before the next read: a full buffer is doubled up to the limit, unless that
fails. -/
def growBuffer (used capacity : ℕ) (w : World) : Option ℕ × World :=
  if used = capacity - 1 then
    match attempt host w with
    | (false, w) => (none, w)
    | (true, w) =>
      (some (if policyOutputLimit / 2 < capacity then policyOutputLimit else capacity * 2), w)
  else (some capacity, w)

/-- The reading loop of `read_policy_json`: the bytes in the buffer when it ends, unless growing the
buffer fails. -/
def fillBuffer (buffer rest : Text) (capacity : ℕ) (w : World) : Option Text × World :=
  if policyOutputLimit - 1 ≤ buffer.length then (some buffer, w)
  else
    match growBuffer host buffer.length capacity w with
    | (none, w) => (none, w)
    | (some capacity, w) =>
      match fread host (capacity - buffer.length - 1) rest w with
      | (data, rest, w) =>
        if w.hasError ∨ data = [] then (some (buffer ++ data), w)
        else fillBuffer (buffer ++ data) rest capacity w
termination_by policyOutputLimit - buffer.length
decreasing_by
  have : 0 < data.length := List.length_pos_iff.mpr (by grind)
  simp only [List.length_append]
  omega

/-- `p101_error_path_walk_read_policy_json`. -/
def readPolicyJson (path schema : Text) (w : World) : PolicySummary × World :=
  match openStream host path w with
  | (stream, w) =>
    if stream.opens = false then (⟨false, 0, 0⟩, w.raise (.call 2))
    else
      match attempt host w with
      | (false, w) => (⟨false, 0, 0⟩, closeStream stream w)
      | (true, w) =>
        match fillBuffer host [] stream.content policyInitialCapacity w with
        | (none, w) => (⟨false, 0, 0⟩, closeStream stream w)
        | (some buffer, w) => (host.parsePolicy buffer schema, closeStream stream w)

end P101Test.Faults
