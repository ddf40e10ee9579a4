import P101Test.Mutation.Output

/-!
# A whole campaign

`main` of the mutation tool from the point where the candidates are selected: the baseline run in
the original project, the execution of every candidate, the report, and the exit status. The
options that make it list the candidates instead, and the parsing of the command line, are not part
of a campaign.

## Main definitions

* `executeAll`: the loop over the candidates, which stops at an execution that does not complete.
* `main`: the campaign.
-/

namespace P101Test.Mutation

variable (host : Host)

/-- The loop of `main` over the candidates. -/
def executeAll (arguments : Arguments) : List Candidate → World → Option (List Result) × World
  | [], w => (some [], w)
  | candidate :: rest, w =>
    match execute host arguments candidate w with
    | (false, _, w) => (none, w)
    | (true, result, w) =>
      match executeAll arguments rest w with
      | (none, w) => (none, w)
      | (some results, w) => (some (result :: results), w)

/-- One round of the verdict loop of `main`. -/
def verdictStep (status : ℕ) (result : Result) : ℕ :=
  if result.outcome = .inconclusive then exitTrouble
  else if result.outcome = .survived ∧ status = 0 then exitFindings
  else status

/-- The verdict loop of `main`. -/
def verdictStatus (results : List Result) : ℕ :=
  results.foldl verdictStep 0

/-- What a campaign leaves: the exit status, the report if one was begun, and the world. -/
structure Ended where
  status : ℕ
  report : Option Report
  world : World

/-- The end of `main`: a recorded error makes the status that of trouble. -/
def done (status : ℕ) (report : Option Report) (w : World) : Ended :=
  if w.hasError then ⟨exitTrouble, report, (attemptOptional host w).2⟩
  else ⟨status, report, w⟩

/-- `main`, from the selected candidates on. -/
def main (arguments : Arguments) (candidates : List Candidate) (w : World) : Ended :=
  if candidates = [] then done host exitTrouble none (attempt host w).2
  else
    match runCommand host arguments.testCommand (some arguments.project) w with
    | (baseline, timedOut, w) =>
      if timedOut || baseline ≠ 0 || w.hasError then
        done host exitTrouble none (attempt host w).2
      else
        match executeAll host arguments candidates w with
        | (none, w) => done host exitTrouble none w
        | (some results, w) =>
          match reportResults host arguments results w with
          | (report, w) => done host (verdictStatus results) report w

end P101Test.Mutation
