import P101Test.Process.WaitStatus
import P101Test.Stdio.Format
import P101Test.Stdio.Stream

/-!
# The world of the fault walker

The walker runs a command again and again, each time asking the pipeline to fail one more call. It
tells the pipeline which through environment variables. The world is the process environment, the
error record, the text printed so far and a log of the changes of variables and of the launches;
nothing reads the log. `Host` fixes what the walker cannot decide: which of its calls fail, what the
files hold and what the pipeline does.

A wrapper performs its call whether or not an error is recorded, and records an error when the call
fails. Formatting into a buffer does not fail.

## Main definitions

* `Variable`: the environment variables by the name the source gives them.
* `Arguments`, `Host`, `World`: the options of a walk, the environment's choices and the state.
* `setenv`, `unsetenv`, `put`, `openStream`: the wrapped calls.
-/

namespace P101Test.Faults

open Stdio

/-- The environment variables: the parent's fault and call-log variables, those of the pipeline's
child, the resource log, and any other. -/
inductive Variable
  | faultCall | faultErrno | faultLog | faultName | faultMode | faultAmount | faultRepeat
  | callLog | callLogArgs | callLogResult
  | childFaultCall | childFaultErrno | childFaultLog | childFaultName | childFaultMode
  | childFaultAmount | childFaultRepeat
  | resourceLog
  | other (name : Text)
  deriving DecidableEq, Repr

namespace Variable

/-- The ten variables of the parent side. -/
def parentSide : List Variable :=
  [faultCall, faultErrno, faultLog, faultName, faultMode, faultAmount, faultRepeat, callLog,
    callLogArgs, callLogResult]

/-- The seven variables of the child side. -/
def childSide : List Variable :=
  [childFaultCall, childFaultErrno, childFaultLog, childFaultName, childFaultMode,
    childFaultAmount, childFaultRepeat]

end Variable

/-- The environment of a process. -/
abbrev Environment := Variable → Option Text

/-- What a recorded error says: the failure of a call, or a message of the walker's own. -/
inductive Fault
  | call (code : ℕ)
  | usage (message : Text)
  deriving DecidableEq, Repr

/-- `MAX_FAILURES_LIMIT`. -/
def maxFailuresLimit : ℕ := 100000

/-- `struct arguments`, as `convert_arguments` leaves it; `faultErrno` is given with `-E` only. -/
structure Arguments where
  maxFailures : ℕ
  admitted : maxFailures ≤ maxFailuresLimit
  faultErrno : Option Int32
  faultName : Option Text
  faultMode : Text
  faultAmount : UInt32
  faultRepeat : UInt32
  logPrefix : Option Text
  p101Run : Text
  p101Observe : Text
  command : List Text

/-- One launch of the pipeline: the case it is for, its arguments, the files that capture its output,
and the environment it inherits. -/
structure Launch where
  index : ℕ
  argv : List Text
  stdoutPath : Text
  stderrPath : Text
  environment : Environment

/-- What the log records. -/
inductive Event
  | set (name : Variable) (done : Bool)
  | unset (name : Variable) (done : Bool)
  | launched (launch : Launch)

namespace Event

/-- A failed change of a variable. -/
def Failed : Event → Prop
  | .set _ done | .unset _ done => done = false
  | .launched _ => False

/-- A failed removal of a variable. -/
def FailedUnset : Event → Prop
  | .unset _ done => done = false
  | _ => False

end Event

/-- `struct p101_tool_event_policy_summary`, as far as the walker uses it. -/
structure PolicySummary where
  parsed : Bool
  records : ℕ
  findings : ℕ
  deriving DecidableEq, Repr

/-- The environment's choices: wrapped call number `k` fails with `failure k` if that is given, and
the stream opened as number `n` for a path is `stream n path`. The last five fields are the libraries
the walker uses. -/
structure Host where
  failure : ℕ → Option ℕ
  pid : ℕ
  stream : ℕ → Text → Stream
  /-- How many bytes a read at call `k` moves at most. -/
  transfer : ℕ → ℕ
  /-- `p101_tool_run_capture`: the status of the pipeline and the error it records, if any. -/
  capture : ℕ → Launch → WaitStatus × Option ℕ
  faultLogTag : Text
  faultLogVersion : Text
  /-- The phase and the disposition words of the defaults of a fault mode, given by its name. -/
  faultDefaults : Text → Option (Text × Text)
  /-- `p101_record_unescape_field`. -/
  unescape : Text → Text
  /-- `p101_tool_event_parse_policy_summary_json_n`. -/
  parsePolicy : Text → Text → PolicySummary

/-- The phase and the disposition of an injected error, of a short transfer and of an uncertain outcome. -/
def modeDefaults (mode : Text) : Option (Text × Text) :=
  if mode = "error".toList then some ("before-call".toList, "retry-safe".toList)
  else if mode = "short".toList then some ("after-partial-progress".toList, "progress-known".toList)
  else if mode = "uncertain".toList then some ("after-dispatch".toList, "outcome-uncertain".toList)
  else none

/-- The state of a walk. -/
structure World where
  environment : Environment
  err : Option Fault
  calls : ℕ
  opened : ℕ
  output : Text
  events : List Event

namespace World

/-- `p101_error_has_error`. -/
def hasError (w : World) : Bool := w.err.isSome

/-- `P101_ERROR_RAISE_USER` and `P101_ERROR_RAISE_ERRNO`. -/
def raise (w : World) (fault : Fault) : World := { w with err := some fault }

/-- One more call was made. -/
def tick (w : World) : World := { w with calls := w.calls + 1 }

/-- An event is logged. -/
def log (w : World) (event : Event) : World := { w with events := w.events ++ [event] }

/-- The walk starts with no error on record. -/
def initial (environment : Environment) : World := ⟨environment, none, 0, 0, [], []⟩

variable (w : World) (fault : Fault) (event : Event)

@[simp] theorem hasError_raise : (w.raise fault).hasError = true := rfl
@[simp] theorem hasError_tick : w.tick.hasError = w.hasError := rfl
@[simp] theorem hasError_log : (w.log event).hasError = w.hasError := rfl
@[simp] theorem environment_raise : (w.raise fault).environment = w.environment := rfl
@[simp] theorem environment_tick : w.tick.environment = w.environment := rfl
@[simp] theorem environment_log : (w.log event).environment = w.environment := rfl
@[simp] theorem events_raise : (w.raise fault).events = w.events := rfl
@[simp] theorem events_tick : w.tick.events = w.events := rfl
@[simp] theorem events_log : (w.log event).events = w.events ++ [event] := rfl

end World

variable (host : Host)

/-- A call that fails or does nothing the model sees. -/
def attempt (w : World) : Bool × World :=
  match host.failure w.calls with
  | some code => (false, w.tick.raise (.call code))
  | none => (true, w.tick)

/-- The same with an error object of its own. -/
def attemptOptional (w : World) : Bool × World :=
  ((host.failure w.calls).isNone, w.tick)

/-- `p101_setenv`, always with permission to overwrite. -/
def setenv (name : Variable) (value : Text) (w : World) : World :=
  match attempt host w with
  | (false, w) => w.log (.set name false)
  | (true, w) =>
    { w with environment := Function.update w.environment name (some value) }.log
      (.set name true)

/-- `p101_unsetenv`. -/
def unsetenv (w : World) (name : Variable) : World :=
  match attempt host w with
  | (false, w) => w.log (.unset name false)
  | (true, w) =>
    { w with environment := Function.update w.environment name none }.log (.unset name true)

/-- `p101_printf` and `p101_fputs` to the standard output. -/
def put (text : Text) (w : World) : World :=
  match attempt host w with
  | (false, w) => w
  | (true, w) => { w with output := w.output ++ text }

/-- `p101_fopen` for reading. -/
def openStream (path : Text) (w : World) : Stream × World :=
  (host.stream w.opened path, { w with opened := w.opened + 1 })

end P101Test.Faults
