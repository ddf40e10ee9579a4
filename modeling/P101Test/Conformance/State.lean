import P101Test.Stdio.Format
import P101Test.Stdio.Stream
import P101Test.Table.FirstMatch

/-!
# The state of the conformance check

The records the check builds from its evidence, what a run is given, and the steps that only touch the
error record. A run is given its files as streams, so that a statement over all inputs covers every
content and every failure to open or to read; the macros file is opened anew for every lookup. JSON
documents are read through a library, `JsonLibrary`.

A wrapper performs its call whether or not an error is recorded, and records an error when the call
fails. Formatting into a buffer does not fail, and memory allocation fails only where `WholeFile` says.

## Main definitions

* `ApiRecord`, `ExpectedFault`, `State`: the records of the check.
* `Inputs`, `JsonLibrary`: what a run is given.
* `Session`: the state of a run, with its error record.
* `splitFields`, `listItems`: the columns of a line and the items of a column.
-/

namespace P101Test.Conformance

open Stdio

/-! ### Limits -/

/-- `MAX_APIS`. -/
def maxApis : ℕ := 2048

/-- `MAX_LINE`. -/
def maxLine : ℕ := 32768

/-- `MAX_NAME`. -/
def maxName : ℕ := 256

/-- `MAX_USR`. -/
def maxUsr : ℕ := 1024

/-- `MAX_FAULTS`. -/
def maxFaults : ℕ := 8192

/-- `MAX_JSON`. -/
def maxJson : ℕ := 128 * 1024 * 1024

/-- `PATH_SIZE`. -/
def pathSize : ℕ := 4096

/-- `MACRO_EXTRA`. -/
def macroExtra : ℕ := 16

/-! ### Records -/

/-- `struct api_record`. -/
structure ApiRecord where
  name : Text
  usr : Text
  tested : Bool
  faultTest : Bool
  conformanceSeen : Bool
  instrumentationSeen : Bool
  traceApplicable : Bool
  requireArguments : Bool
  requireResult : Bool
  enters : ℕ
  exits : ℕ
  arguments : Bool
  result : Bool
  deriving DecidableEq, Repr

/-- A record of which only the identity is known. -/
def ApiRecord.new (name usr : Text) : ApiRecord :=
  ⟨name, usr, false, false, false, false, false, false, false, 0, 0, false, false⟩

/-- What identifies an expected fault: its wrapper, domain and symbol. -/
structure FaultKey where
  wrapper : Text
  domain : Text
  symbol : Text
  deriving DecidableEq, Repr

/-- `struct expected_fault`. -/
structure ExpectedFault where
  key : FaultKey
  observed : Bool
  deriving DecidableEq, Repr

/-- One call of `finding`. -/
structure Finding where
  path : Text
  message : Text
  identity : Text
  deriving DecidableEq, Repr

/-- `struct conformance`. -/
structure State where
  apis : List ApiRecord
  faults : List ExpectedFault
  faultOutcomesObserved : ℕ
  findings : List Finding
  deriving DecidableEq, Repr

/-- A cleared state. -/
def State.zero : State := ⟨[], [], 0, []⟩

/-! ### What a run is given -/

/-- The files of a run; `macros n` is the macros file as the lookup number `n` meets it. -/
structure Inputs where
  apiManifest : Stream
  testManifest : Stream
  conformanceManifest : Stream
  faultManifest : Stream
  macros : ℕ → Stream
  instrumentation : WholeFile
  model : WholeFile
  outcomes : Stream
  receipt : Output

/-- `struct arguments`, once all are given. -/
structure Arguments where
  library : Text
  repo : Text
  instrumentation : Text
  model : Text
  outcomes : Text
  platform : Text
  macros : Text
  receipt : Text
  deriving DecidableEq, Repr

/-- The JSON library: documents, their tokens, and the functions that look into them. Copying a token
to a buffer of a given size may fail. -/
structure JsonLibrary where
  Document : Type
  Token : Type
  parse : Text → Option Document
  root : Document → Token
  objectGet : Document → Token → Text → Option Token
  arrayGet : Document → Token → ℕ → Option Token
  isArray : Document → Token → Bool
  childCount : Document → Token → ℕ
  tokenCopy : Document → Token → ℕ → Option Text
  tokenEquals : Document → Token → Text → Bool

/-! ### Sessions -/

/-- The state of a run: the records, the error record, and the number of macro lookups so far. -/
structure Session where
  state : State
  err : Option Fault
  lookups : ℕ
  deriving DecidableEq, Repr

namespace Session

/-- A run starts with nothing. -/
def zero : Session := ⟨.zero, none, 0⟩

/-- `p101_error_has_error`. -/
def hasError (s : Session) : Bool := s.err.isSome

/-- `P101_ERROR_RAISE_USER` and `P101_ERROR_RAISE_ERRNO`. -/
def raise (s : Session) (fault : Fault) : Session := { s with err := some fault }

variable (s : Session) (fault : Fault)

@[simp] theorem hasError_raise : (s.raise fault).hasError = true := rfl
@[simp] theorem state_raise : (s.raise fault).state = s.state := rfl
@[simp] theorem lookups_raise : (s.raise fault).lookups = s.lookups := rfl

end Session

/-- A step of loading: it answers false (`error`) or true (`ok`), and leaves a session. -/
abbrev Loading := Except Session Session

/-! ### Lines -/

/-- `split_fields`: the columns of a line up to its newline, at most a number of them. -/
def splitFields : ℕ → Text → List Text
  | 0, _ => []
  | limit + 1, line =>
    line.takeWhile (fun c => c ≠ '\t' && c ≠ '\n') ::
      match line.dropWhile (fun c => c ≠ '\t' && c ≠ '\n') with
      | '\t' :: rest => splitFields limit rest
      | _ => []

example : splitFields 2 "a\tb\tc\n".toList = ["a".toList, "b".toList] := by decide

/-- The items of a list separated by commas; nothing follows a final comma. -/
def listItems (list : Text) : List Text :=
  let parts := list.splitOn ','
  if parts.getLast? = some [] then parts.dropLast else parts

/-- `list_contains`. -/
def listContains (list value : Text) : Bool := (listItems list).contains value

/-- `copy_text`: a text that does not fit is an error. -/
def copyText (size : ℕ) (input : Text) (s : Session) : Except Session Text :=
  if input.length < size then .ok input else .error (s.raise .call)

end P101Test.Conformance
