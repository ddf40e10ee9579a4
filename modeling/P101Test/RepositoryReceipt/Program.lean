import P101Test.Sorting.InPlace
import P101Test.Stdio.Stream
import P101Test.Stdio.Strings

/-!
# The repository receipt program

The program that turns a directory of result files, one for each repository, into one receipt (`main.c`
of `repository-receipt`). A run is given the listing of the directory as `readdir` enumerates it, and the
files as streams; a path name that does not fit the limit of the system cannot be opened.

The JSON library that writes a string is a parameter.

## Main definitions

* `Record`, `Host`, `Listing`: a result, and what a run is given.
* `loadResult`, `loadResults`: reading the results.
* `receiptText`, `writeReceipt`: writing the receipt.
* `main`: the program.
-/

namespace P101Test.RepositoryReceipt

open Stdio

/-- `MAX_RECORDS`. -/
def maxRecords : ℕ := 256

/-- `MAX_PATH`, which is also the limit of the system. -/
def maxPath : ℕ := 4096

/-- `MAX_LINE`. -/
def maxLine : ℕ := 16384

/-- `struct repository_result`. -/
structure Record where
  repository : Text
  unit : Text
  fuzz : Text
  testLog : Text
  fuzzLog : Text
  durationSeconds : ℕ
  deriving DecidableEq, Repr

/-- The files of a run by their path names, the receipt it writes, and the text
`p101_json_write_string` writes for a string. -/
structure Host where
  files : Text → Stream
  tooLong : ∀ path, maxPath ≤ path.length → (files path).opens = false
  output : Output
  jsonString : Text → Text

/-- A directory as a run meets it: whether it can be opened, the names `readdir` delivers, whether it
fails behind them, and whether closing succeeds. -/
structure Listing where
  opens : Bool
  entries : List Text
  breaks : Bool
  closes : Bool
  deriving DecidableEq, Repr

/-- A listing without failures. -/
def Listing.whole (entries : List Text) : Listing := ⟨true, entries, false, true⟩

variable (host : Host)

/-! ### One result -/

/-- `copy_field`: whether a field was copied, and the error record. -/
def copyField (input : Text) (err : Option Fault) : Bool × Option Fault :=
  if input.length < maxPath then (true, err)
  else (false, some (.user "repository result field is too long".toList))

/-- Copying the fields of a record one after the other, also behind one that is too long. -/
def copyFields (fields : List Text) (err : Option Fault) : Bool × Option Fault :=
  fields.foldl (fun state input =>
    let copied := copyField input state.2
    (copied.1 && state.1, copied.2)) (true, err)

/-- What `load_result` does with the fields of its line: `p101_strtol` records an error when it has to
clamp the duration. -/
def loadFields (line : Text) (err : Option Fault) : Option Record × Option Fault :=
  match line.splitOn '|' with
  | [repository, unit, fuzz, testLog, fuzzLog, duration] =>
    match strtol (duration.takeWhile fun c => c ≠ '\r' && c ≠ '\n') with
    | none => (none, some (.user "repository result has an invalid duration".toList))
    | some (number, rest) =>
      let err := if number < longMin ∨ longMax < number then some .call else err
      let seconds := max longMin (min longMax number)
      if rest ≠ [] ∨ seconds < 0 then
        (none, some (.user "repository result has an invalid duration".toList))
      else
        let copied := copyFields [repository, unit, fuzz, testLog, fuzzLog] err
        (if copied.1 then some ⟨repository, unit, fuzz, testLog, fuzzLog, seconds.toNat⟩ else none,
          copied.2)
  | _ => (none, some (.user "repository result must contain six fields".toList))

/-- `load_result`. -/
def loadResult (stream : Stream) (err : Option Fault) : Option Record × Option Fault :=
  if stream.opens = false then (none, some .call)
  else
    let loaded :=
      match stream.delivered maxLine with
      | [] => (none, some (.user "repository result is empty".toList))
      | [line] => loadFields (cString line) (if stream.breaks maxLine then some .call else err)
      | _ => (none, some (.user "repository result has multiple lines".toList))
    if stream.closes then loaded else (none, some .call)

/-! ### All results -/

/-- `has_suffix`. -/
def hasSuffix (text suffix : Text) : Bool :=
  suffix.length ≤ text.length && text.drop (text.length - suffix.length) = suffix

/-- The name of a result file. -/
def isResult (name : Text) : Bool := hasSuffix name ".result".toList

/-- The step of the loop over the directory; one result too many ends it. -/
def listStep (names : List Text) (entry : Text) : Except (List Text) (List Text) :=
  if isResult entry = false then .ok names
  else if maxRecords ≤ names.length then .error names
  else .ok (names ++ [cut maxPath entry])

/-- The path name of an entry. -/
def pathOf (directory name : Text) : Text := directory ++ '/' :: name

/-- The loop over the sorted names; a result that is not loaded ends it. -/
def loadRecords (directory : Text) : List Text → Option Fault → Option (List Record) × Option Fault
  | [], err => (some [], err)
  | name :: names, err =>
    match loadResult (host.files (cut maxPath (pathOf directory name))) err with
    | (none, err) => (none, err)
    | (some record, err) =>
      match loadRecords directory names err with
      | (none, err) => (none, err)
      | (some records, err) => (some (record :: records), err)

/-- `load_results`. -/
def loadResults (directory : Text) (listing : Listing) (err : Option Fault) :
    Option (List Record) × Option Fault :=
  if listing.opens = false then (none, some .call)
  else
    let (names, err) :=
      match listing.entries.foldlM listStep [] with
      | .error names => (names, some (.user "too many repository result records".toList))
      | .ok names => (names, if listing.breaks then some .call else err)
    if listing.closes = false then (none, some .call)
    else
      match loadRecords host directory (Sorting.sort strcmp names) err with
      | (none, err) => (none, err)
      | (some records, err) => (if err.isSome then none else some records, err)

/-! ### The receipt -/

/-- A result that keeps a receipt from passing. -/
def Record.fails (record : Record) : Bool :=
  record.unit = "FAIL".toList || record.unit = "MISSING".toList || record.fuzz = "FAIL".toList

/-- The verdict of `main` about the records. -/
def passed (records : List Record) : Bool :=
  records.foldl (fun passed record => if record.fails then false else passed)
    (0 < records.length)

/-- One member of the receipt. -/
def memberText (record : Record) : Text :=
  "\n    \x7b\"repository\": ".toList ++ host.jsonString record.repository ++
    ", \"unit\": ".toList ++ host.jsonString record.unit ++
    ", \"fuzz\": ".toList ++ host.jsonString record.fuzz ++
    ", \"test_log\": ".toList ++ host.jsonString record.testLog ++
    ", \"fuzz_log\": ".toList ++ host.jsonString record.fuzzLog ++
    ", \"duration_seconds\": ".toList ++ decimal record.durationSeconds ++ "\x7d".toList

/-- What the receipt says it does not prove. -/
def doesNotProve : Text :=
  ("A clean receipt proves only that each repository-owned test launcher admitted by repos.txt either " ++
    "completed in this campaign or reused stricter unit evidence admitted by the runner. It does not " ++
    "prove that an unregistered test, platform, branch, or third-party dependency ran.").toList

/-- The text `write_receipt` prints. -/
def receiptText (records : List Record) (passed : Bool) : Text :=
  "\x7b\n  \"schema\": \"p101-repository-test-receipt-v1\",\n  \"passed\": ".toList ++
    (if passed then "true".toList else "false".toList) ++
    ",\n  \"repositories\": [".toList ++
    [','].intercalate (records.map (memberText host)) ++
    "\n  ],\n  \"does_not_prove\": \"".toList ++ doesNotProve ++ "\"\n\x7d\n".toList

/-- `write_receipt`: whether it succeeded, the receipt it leaves, and the error record. -/
def writeReceipt (records : List Record) (passed : Bool) (err : Option Fault) :
    Bool × Option Text × Option Fault :=
  if host.output.opens = false then (false, none, some .call)
  else
    let err := if host.output.prints then err else some .call
    let text := if host.output.prints then some (receiptText host records passed) else none
    if host.output.closes then (err.isNone, text, err) else (false, text, some .call)

/-! ### The program -/

/-- What the command line asks for. -/
inductive Parsed
  | help
  | wrong (message : Text)
  | run (results output : Text)
  deriving DecidableEq, Repr

/-- `parse_arguments`, on the arguments behind the program name. -/
def parseArguments : List Text → Option Text → Option Text → Parsed
  | [], some results, some output => .run results output
  | [], _, _ => .wrong "--results and --output are required".toList
  | [argument], _, _ =>
    if argument = "-h".toList ∨ argument = "--help".toList then .help
    else .wrong "unknown or incomplete repository-receipt option".toList
  | argument :: value :: rest, results, output =>
    if argument = "-h".toList ∨ argument = "--help".toList then .help
    else if argument = "--results".toList then parseArguments rest (some value) output
    else if argument = "--output".toList then parseArguments rest results (some value)
    else .wrong "unknown or incomplete repository-receipt option".toList

/-- What a run leaves: its exit status, and the receipt it wrote, if it wrote one. -/
structure Ended where
  status : ℕ
  receipt : Option Text
  deriving DecidableEq, Repr

/-- The end of `main`, from the label `done` on: a recorded error makes the status 2. -/
def done (status : ℕ) (receipt : Option Text) (err : Option Fault) : Ended :=
  ⟨if err.isSome then 2 else status, receipt⟩

/-- `main`, on the arguments behind the program name and the listing of the directory they name. -/
def main (listing : Listing) (argv : List Text) : Ended :=
  match parseArguments argv none none with
  | .help => done 0 none none
  | .wrong message => done 2 none (some (.user message))
  | .run results _ =>
    match loadResults host results listing none with
    | (none, err) => done 2 none err
    | (some records, err) =>
      match writeReceipt host records (passed records) err with
      | (true, receipt, err) => done (if passed records then 0 else 1) receipt err
      | (false, receipt, err) => done 2 receipt err

end P101Test.RepositoryReceipt
