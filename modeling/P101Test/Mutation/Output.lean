import P101Test.Mutation.Execution

/-!
# Reporting the results

The report of the mutation tool (`output.c`): the counters, one diagnostic for each surviving
mutant, and the outcome and exit status the report records. The report stream itself belongs to a
library; each of its calls succeeds or fails as the host decides, and a failure is recorded as an
error.

## Main definitions

* `Counters`, `Diagnostic`, `Report`: what a report consists of.
* `mutationMessage`: the text of a diagnostic, cut to its buffer.
* `reportResults`: the report written for a list of results.
-/

namespace P101Test.Mutation

open Stdio

/-- `P101_MUTATION_EXIT_FINDINGS`. -/
def exitFindings : ℕ := 1

/-- `P101_MUTATION_EXIT_TROUBLE`. -/
def exitTrouble : ℕ := 2

/-- `MUTATION_DIAGNOSTIC_MESSAGE_SIZE`. -/
def messageSize : ℕ := 1024

/-- `struct p101_tool_report_options`; the outputs are the human and the machine-readable one. -/
structure ReportOptions where
  tool : Text
  scope : Text
  limits : Text
  human : Bool
  json : Bool
  deriving DecidableEq, Repr

/-- The options of the mutation report. -/
def reportOptions (arguments : Arguments) : ReportOptions where
  tool := "test-mutation".toList
  scope := ("Clang mutation candidates selected from the requested sources and outcomes from the " ++
    "configured test command.").toList
  limits := ("This report does not prove correctness, and it cannot assess unselected mutations, " ++
    "unexecuted paths, flaky tests, or equivalent mutants.").toList
  human := arguments.human || !arguments.json
  json := arguments.json

/-- The four counters of the report. -/
structure Counters where
  selected : ℕ
  killed : ℕ
  survived : ℕ
  inconclusive : ℕ
  deriving DecidableEq, Repr

/-- `p101_tool_outcome`. -/
inductive ToolOutcome
  | clean
  | findings
  | toolError
  deriving DecidableEq, Repr

/-- `p101_tool_outcome_exit_status`. -/
def ToolOutcome.exitStatus : ToolOutcome → ℕ
  | .clean => 0
  | .findings => exitFindings
  | .toolError => exitTrouble

/-- A `P101_TOOL_FINDING_MUTATION_001` warning. -/
structure Diagnostic where
  path : Text
  line : ℕ
  message : Text
  deriving DecidableEq, Repr

/-- What was written to the report stream. -/
structure Report where
  options : ReportOptions
  emitted : List Diagnostic
  ending : Option (ToolOutcome × ℕ × Counters)
  deriving DecidableEq, Repr

variable (host : Host)

/-- `mutation_message`: a text that does not fit is cut, and an error is recorded. -/
def mutationMessage (candidate : Candidate) (w : World) : Text × World :=
  let text := "surviving ".toList ++ candidate.kind ++ " mutation: ".toList ++ candidate.original ++
    " -> ".toList ++ candidate.replacement
  (cut messageSize text,
    if messageSize ≤ text.length then w.raise (.errno .overflow) else w)

/-- One more result is counted. -/
def Counters.add (counters : Counters) (result : Result) : Counters :=
  match result.outcome with
  | .killed => { counters with killed := counters.killed + 1 }
  | .survived => { counters with survived := counters.survived + 1 }
  | .inconclusive => { counters with inconclusive := counters.inconclusive + 1 }

/-- The counting loop of `p101_mutation_report_results`. -/
def countResults (results : List Result) : Counters :=
  results.foldl Counters.add ⟨results.length, 0, 0, 0⟩

/-- The emitting loop of `p101_mutation_report_results`: what it emitted, and whether it reached
the end. It stops when a diagnostic cannot be initialized, and goes on when one cannot be
emitted. -/
def emitResults : List Result → World → List Diagnostic × Bool × World
  | [], w => ([], true, w)
  | result :: rest, w =>
    if result.outcome ≠ .survived then emitResults rest w
    else
      match mutationMessage result.candidate w with
      | (message, w) =>
        match attempt host w with
        | (false, w) => ([], false, w)
        | (true, w) =>
          match attempt host w with
          | (false, w) => emitResults rest w
          | (true, w) =>
            match emitResults rest w with
            | (emitted, finished, w) =>
              (⟨result.candidate.path, result.candidate.line, message⟩ :: emitted, finished, w)

/-- The outcome the counters stand for. -/
def Counters.outcome (counters : Counters) : ToolOutcome :=
  if counters.inconclusive > 0 then .toolError
  else if counters.survived > 0 then .findings
  else .clean

/-- `p101_mutation_report_results`. -/
def reportResults (arguments : Arguments) (results : List Result) (w : World) :
    Option Report × World :=
  match attempt host w with
  | (false, w) => (none, w)
  | (true, w) =>
    match emitResults host results w with
    | (emitted, false, w) => (some ⟨reportOptions arguments, emitted, none⟩, w)
    | (emitted, true, w) =>
      let counters := countResults results
      let outcome := counters.outcome
      match attempt host w with
      | (false, w) => (some ⟨reportOptions arguments, emitted, none⟩, w)
      | (true, w) =>
        (some ⟨reportOptions arguments, emitted,
          some (outcome, outcome.exitStatus, counters)⟩, w)

end P101Test.Mutation
