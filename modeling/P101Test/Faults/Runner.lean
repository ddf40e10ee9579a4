import P101Test.Faults.Logs

/-!
# Running the cases

The loop of the walker (`runner.c`, `printer.c`): a baseline case and then one case for each call
that can be made to fail, until a case meets no fault. The loop is written over any way of running a
case, `CaseRunner`; `run` is the loop over `runOneCase`. It keeps a list of the cases it executed,
which nothing reads.

## Main definitions

* `runPipeline`, `runOneCase`: one case.
* `updateFaultGroup`: the table of faulted calls.
* `walk`, `run`: the whole walk.
-/

namespace P101Test.Faults

open Stdio

variable (host : Host)

/-- `EXIT_SUCCESS`. -/
def exitSuccess : ℕ := 0

/-- `EXIT_FINDINGS`. -/
def exitFindings : ℕ := 1

/-- `EXIT_TROUBLE`. -/
def exitTrouble : ℕ := 2

/-- `FAULT_LEN`. -/
def faultLength : ℕ := 32

/-- `FAULT_GROUP_LIMIT`. -/
def faultGroupLimit : ℕ := 128

/-- `MAX_TOOL_ARGS`. -/
def maxToolArgs : ℕ := 128

/-- The number of values of a `size_t`. -/
def sizeRange : ℕ := 2 ^ 64

/-- The two policy schemas. -/
def resourcePolicySchema : Text := "p101-resource-policy-findings-v1".toList

@[inherit_doc resourcePolicySchema]
def analysisPolicySchema : Text := "p101-analysis-findings-v1".toList

/-! ### One case -/

/-- `pipeline_status_is_acceptable`. -/
def pipelineStatusIsAcceptable (status : WaitStatus) : Bool :=
  status.exitCode? = some exitSuccess || status.exitCode? = some exitFindings

/-- `clear_fault_environment`. -/
def clearFaultEnvironment (w : World) : World :=
  (Variable.parentSide ++ Variable.childSide).foldl (unsetenv host) w

/-- `reset_run_environment`. -/
def resetRunEnvironment (w : World) : World :=
  unsetenv host (clearFaultEnvironment host w) .resourceLog

/-- What an over-long command is reported as. -/
def tooManyArguments : Text := "The command has too many arguments for test-faults.".toList

/-- The fixed part of the pipeline's command line; each part is copied to a buffer. -/
def pipelinePrefix (arguments : Arguments) (result : RunResult) : List Text :=
  [cut pathLength arguments.p101Run, "run".toList, "-o".toList, cut pathLength result.runDir,
    "--observe-tool".toList, cut pathLength arguments.p101Observe, "--".toList]

/-- `run_p101_pipeline`. -/
def runPipeline (arguments : Arguments) (result : RunResult) (w : World) : WaitStatus × World :=
  if maxToolArgs - 1 < (pipelinePrefix arguments result ++ arguments.command).length then
    (.exited 0, w.raise (.usage tooManyArguments))
  else
    let launch : Launch :=
      ⟨result.faultIndex, pipelinePrefix arguments result ++ arguments.command,
        result.pipelineStdoutPath, result.pipelineStderrPath, w.environment⟩
    match host.capture w.calls launch with
    | (status, none) => (status, w.tick.log (.launched launch))
    | (status, some code) => (status, (w.tick.log (.launched launch)).raise (.call code))

/-- A variable that is set only when a value is given. -/
def setenvIfGiven (w : World) (setting : Variable × Option Text) : World :=
  match setting.2 with
  | none => w
  | some value => setenv host setting.1 value w

/-- The variables `run_one_case` sets, in its order; the number of the call is given to every case but
the baseline. -/
def caseSettings (arguments : Arguments) (faultIndex : ℕ) (faultLogPath : Text) :
    List (Variable × Option Text) :=
  [(.childFaultLog, some faultLogPath), (.childFaultName, arguments.faultName),
    (.childFaultMode, some arguments.faultMode),
    (.childFaultAmount, some (cut faultLength (decimal arguments.faultAmount.toNat))),
    (.childFaultRepeat, some (cut faultLength (decimal arguments.faultRepeat.toNat))),
    (.childFaultErrno,
      arguments.faultErrno.map fun errno => cut faultLength (signedDecimal errno.toInt)),
    (.childFaultCall,
      if 0 < faultIndex then some (cut faultLength (decimal faultIndex)) else none)]

/-- The part of `run_one_case` that sets the variables of the case. -/
def setCaseEnvironment (arguments : Arguments) (faultIndex : ℕ) (faultLogPath : Text) (w : World) :
    World :=
  (caseSettings arguments faultIndex faultLogPath).foldl (setenvIfGiven host) w

/-- The part of `run_one_case` that reads the summaries. -/
def readSummaries (result : RunResult) (w : World) : RunResult × World :=
  match fileExists host result.resourceLogPath w with
  | (present, w) =>
    let result := { result with resourceLogPresent := present }
    match (if present then fileExists host result.resourceJsonPath w else (false, w)) with
    | (json, w) =>
      match (if json then readPolicyJson host result.resourceJsonPath resourcePolicySchema w
        else (result.resources, w)) with
      | (resources, w) =>
        let result := { result with resources := resources }
        match fileExists host result.analysisJsonPath w with
        | (json, w) =>
          match (if json then readPolicyJson host result.analysisJsonPath analysisPolicySchema w
            else (result.analysis, w)) with
          | (analysis, w) => ({ result with analysis := analysis }, w)

/-- The part of `run_one_case` from the launch on. -/
def observeCase (arguments : Arguments) (result : RunResult) (w : World) : RunResult × World :=
  match runPipeline host arguments result w with
  | (status, w) =>
    match readFaultHit host result.faultLogPath w with
    | (hit, name, w) =>
      let result := { result with
        status := status
        pipelineOk := pipelineStatusIsAcceptable status
        faultHit := hit
        faultName := name }
      if w.hasError then (result, w) else readSummaries host result w

/-- The part of `run_one_case` before the label `done`. -/
def prepareCase (arguments : Arguments) (faultIndex : ℕ) (w : World) : RunResult × World :=
  match makeLogPaths host arguments faultIndex { RunResult.zero with faultIndex := faultIndex } w with
  | (result, w) =>
    if w.hasError then (result, w)
    else
      let w := clearFaultEnvironment host w
      if w.hasError then (result, w)
      else
        let w := setCaseEnvironment host arguments faultIndex result.faultLogPath w
        if w.hasError then (result, w) else observeCase host arguments result w

/-- `run_one_case`: its status, the result, and the world. -/
def runOneCase (arguments : Arguments) (faultIndex : ℕ) (w : World) : ℕ × RunResult × World :=
  match prepareCase host arguments faultIndex w with
  | (result, w) =>
    let w := clearFaultEnvironment host w
    (if w.hasError then exitTrouble else exitSuccess, result, w)

/-! ### Printing -/

/-- `p101_error_path_walk_status_is_success`. -/
def statusIsSuccess (status : WaitStatus) : Bool := status.exitCode? = some exitSuccess

/-- The plural ending of a count. -/
def plural (n : ℕ) : Text := if n = 1 then [] else ['s']

/-- The name a hit is printed under. -/
def printedName (name : Text) : Text := if name = [] then ['?'] else name

/-- `p101_error_path_walk_print_status_text`. -/
def printStatusText (status : WaitStatus) (w : World) : World :=
  match status with
  | .exited code => put host ("exit=".toList ++ decimal code) w
  | .signaled signal => put host ("signal=".toList ++ decimal signal) w
  | .stopped _ => put host ("signal=".toList ++ decimal 127) w

/-- The first words about a case. -/
def printCase (result : RunResult) (w : World) : World :=
  if result.faultIndex = 0 then put host "test-faults: baseline ".toList w
  else
    let w := put host ("test-faults: fault ".toList ++ decimal result.faultIndex ++ [' ']) w
    if result.faultHit then put host ("hit=".toList ++ printedName result.faultName ++ [' ']) w
    else put host "no-hit ".toList w

/-- The summaries of a case. -/
def printSummaries (result : RunResult) (w : World) : World :=
  let w :=
    if result.resourceLogPresent && result.resources.parsed then
      put host (" resources(records=".toList ++ decimal result.resources.records ++
        " findings=".toList ++ decimal result.resources.findings ++ [')']) w
    else put host " resources(unavailable)".toList w
  if result.analysis.parsed then
    put host (" analysis(findings=".toList ++ decimal result.analysis.findings ++ [')']) w
  else put host " analysis(unavailable)".toList w

/-- `p101_error_path_walk_print_run_result`. -/
def printRunResult (result : RunResult) (w : World) : World :=
  let w := printCase host result w
  let w := put host "pipeline_".toList w
  let w := printStatusText host result.status w
  let w := printSummaries host result w
  put host (" run_dir=".toList ++ result.runDir ++ " capture=".toList ++ result.captureDir ++
    " analysis=".toList ++ result.analysisDir ++ " resource_log=".toList ++ result.resourceLogPath ++
    " call_log=".toList ++ result.callLogPath ++ " report=".toList ++ result.reportPath ++ ['\n']) w

/-! ### The table of faulted calls -/

/-- `analysis_finding_count`. -/
def analysisFindingCount (result : RunResult) : ℕ :=
  if result.analysis.parsed then result.analysis.findings else 0

/-- `analysis_summary_unavailable`. -/
def analysisSummaryUnavailable (result : RunResult) : Bool :=
  !result.resourceLogPresent || !result.resources.parsed || !result.analysis.parsed

/-- Addition of `size_t`. -/
def addSize (m n : ℕ) : ℕ := (m + n) % sizeRange

/-- `struct fault_group`. -/
structure FaultGroup where
  name : Text
  runs : ℕ
  findings : ℕ
  deriving DecidableEq, Repr

/-- One more run of a group. -/
def FaultGroup.add (findings : ℕ) (group : FaultGroup) : FaultGroup :=
  { group with runs := addSize group.runs 1, findings := addSize group.findings findings }

/-- `update_fault_group`. -/
def updateFaultGroup (groups : List FaultGroup) (result : RunResult) : List FaultGroup :=
  if result.faultIndex = 0 ∨ result.faultHit = false then groups
  else
    match groups.findIdx? fun group => group.name == printedName result.faultName with
    | some i => groups.modify i (FaultGroup.add (analysisFindingCount result))
    | none =>
      if faultGroupLimit ≤ groups.length then groups
      else groups ++ [FaultGroup.add (analysisFindingCount result)
        ⟨cut nameLength (printedName result.faultName), 0, 0⟩]

/-- One line of `print_fault_groups`. -/
def printFaultGroup (w : World) (group : FaultGroup) : World :=
  put host ("  ".toList ++ group.name ++ ": ".toList ++ decimal group.runs ++ " run".toList ++
    plural group.runs ++ ", ".toList ++ decimal group.findings ++ " policy finding".toList ++
    plural group.findings ++ ['\n']) w

/-- `print_fault_groups`. -/
def printFaultGroups (groups : List FaultGroup) (w : World) : World :=
  if groups = [] then w
  else groups.foldl (printFaultGroup host)
    (put host "test-faults: grouped by faulted wrapper:\n".toList w)

/-! ### The walk -/

/-- A way of running a case: its status, what is known of it, and the world it leaves. -/
abbrev CaseRunner := ℕ → World → ℕ × RunResult × World

/-- One case a walk executed: how it was run, and whether an error is on record after its result was
printed. -/
structure Executed where
  index : ℕ
  before : World
  status : ℕ
  result : RunResult
  after : World
  errorAfter : Bool

/-- The variables of the loop. -/
structure Progress where
  runs : ℕ
  findings : ℕ
  groups : List FaultGroup
  trouble : Bool
  executed : List Executed
  world : World

/-- `pipeline_ok` is false or a summary is missing. -/
def caseTrouble (result : RunResult) : Bool :=
  !result.pipelineOk || analysisSummaryUnavailable result

/-- The test of the baseline. -/
def baselineTrouble (result : RunResult) : Bool :=
  caseTrouble result ||
    (!statusIsSuccess result.status && analysisFindingCount result = 0)

/-- A case that failed. -/
def Progress.fail (p : Progress) (index status : ℕ) (result : RunResult) (w : World) : Progress :=
  { p with
    trouble := true
    executed := p.executed ++ [⟨index, p.world, status, result, w, w.hasError⟩]
    world := w }

/-- A case whose result was printed. -/
def Progress.print (p : Progress) (index status : ℕ) (result : RunResult) (w w' : World) :
    Progress :=
  { p with
    runs := addSize p.runs 1
    executed := p.executed ++ [⟨index, p.world, status, result, w, w'.hasError⟩]
    world := w' }

/-- The findings of a case are added to the total. -/
def Progress.count (p : Progress) (result : RunResult) : Progress :=
  { p with findings := addSize p.findings (analysisFindingCount result) }

/-- What the walk says when a case meets no fault. -/
def exhausted (index : ℕ) : Text :=
  "test-faults: exhausted after ".toList ++ decimal (index - 1) ++ " fault-capable call".toList ++
    plural (index - 1) ++ ".\n".toList

variable (runCase : CaseRunner)

/-- The loop of `p101_error_path_walk_run` with `remaining` cases to go from `index` on. The first
component is false when a case failed. -/
def walkFrom : ℕ → ℕ → Progress → Bool × Progress
  | 0, _, p => (true, p)
  | remaining + 1, index, p =>
    if p.world.hasError then (true, p)
    else
      match runCase index p.world with
      | (status, result, w) =>
        if status ≠ exitSuccess then (false, p.fail index status result w)
        else
          let p := p.print index status result w (printRunResult host result w)
          let p := { p with trouble := p.trouble || caseTrouble result }
          if result.faultHit = false then
            (true, { p with world := put host (exhausted index) p.world })
          else
            walkFrom remaining (index + 1)
              { p.count result with groups := updateFaultGroup p.groups result }

/-- What a walk leaves. -/
structure Walk where
  status : ℕ
  findings : ℕ
  groups : List FaultGroup
  executed : List Executed
  world : World

/-- The end of `p101_error_path_walk_run`, from the label `done` on. -/
def finish (p : Progress) : Walk :=
  let w := resetRunEnvironment host p.world
  ⟨if w.hasError || p.trouble then exitTrouble
    else if 0 < p.findings then exitFindings
    else exitSuccess, p.findings, p.groups, p.executed, w⟩

/-- The text of the total. -/
def totalText (p : Progress) : Text :=
  "test-faults: ".toList ++ decimal p.runs ++ " run".toList ++ plural p.runs ++ ", ".toList ++
    decimal p.findings ++ " policy finding".toList ++ plural p.findings ++ ".\n".toList

/-- The totals are printed. -/
def printTotals (p : Progress) : Progress :=
  { p with world := printFaultGroups host p.groups (put host (totalText p) p.world) }

/-- `p101_error_path_walk_run` over any way of running a case. -/
def walk (maxFailures : ℕ) (w : World) : Walk :=
  let p : Progress := ⟨0, 0, [], false, [], w⟩
  match runCase 0 w with
  | (status, result, w) =>
    if status ≠ exitSuccess then finish host (p.fail 0 status result w)
    else
      let p := (p.print 0 status result w (printRunResult host result w)).count result
      match walkFrom host runCase maxFailures 1 { p with trouble := baselineTrouble result } with
      | (true, p) => finish host (printTotals host p)
      | (false, p) => finish host p

/-- `p101_error_path_walk_run`. -/
def run (arguments : Arguments) (w : World) : Walk :=
  walk host (runOneCase host arguments) arguments.maxFailures w

end P101Test.Faults
