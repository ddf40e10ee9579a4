import P101Test.Mutation.Files

/-!
# Executing one candidate

The process half of the mutation tool (`execution.c`): the compile check built from the compile
database, the launching and polling of commands, and the execution of one candidate in a fresh
copy of the project.

## Main definitions

* `buildCompileCommand`: the syntax check of the candidate's source in the copy.
* `runCommand`: launch, poll, and report an exit code.
* `execute`: copy, edit, check, test and clean up.
-/

namespace P101Test.Mutation

open FileSystem Stdio

/-! ### The compile check -/

/-- `compile_option_takes_value`. -/
def compileOptionTakesValue (argument : Text) : Bool :=
  argument = "-o".toList || argument = "-MF".toList || argument = "-MT".toList ||
    argument = "-MQ".toList

/-- `is_compile_output_option`. -/
def isCompileOutputOption (argument : Text) : Bool :=
  ("-o".toList.isPrefixOf argument && argument ≠ "-ObjC".toList) ||
    "-MF".toList.isPrefixOf argument || "-MT".toList.isPrefixOf argument ||
    "-MQ".toList.isPrefixOf argument

variable (host : Host)

/-- The loop of `build_compile_command` over the database's arguments. -/
def compileArguments (project copy : Text) : List Text → World → List Text × World
  | [], w => ([], w)
  | value :: rest, w =>
    if value = "-c".toList then compileArguments project copy rest w
    else if compileOptionTakesValue value then
      -- The option's value is skipped with it.
      match rest with
      | [] => ([], w)
      | _ :: rest => compileArguments project copy rest w
    else if isCompileOutputOption value then compileArguments project copy rest w
    else
      match rewritePath host project copy value w with
      | (value, w) =>
        match compileArguments project copy rest w with
        | (values, w) => (value :: values, w)

/-- The option the compile check adds. -/
def syntaxOnly : Text := "-fsyntax-only".toList

/-- The compile database's command for a candidate's source file. -/
def sourceCommand (arguments : Arguments) (candidate : Candidate) : Call CompileCommand := fun fs =>
  match host.compileCommand fs arguments.compileDatabase candidate.path with
  | some command => .ok (command, fs)
  | none => .error .invalid

/-- `build_compile_command`. -/
def buildCompileCommand (arguments : Arguments) (candidate : Candidate) (copy : Text) (w : World) :
    Option CompileCommand × World :=
  match call host (sourceCommand host arguments candidate) w with
  | (none, w) => (none, w)
  | (some source, w) =>
    -- The observer answers whether an error is recorded.
    if w.hasError then (none, w)
    else
      match call host (canonicalize host arguments.project) w with
      | (none, w) => (none, w)
      | (some project, w) =>
        match rewritePath host project copy source.directory w with
        | (directory, w) =>
          match compileArguments host project copy source.arguments w with
          | (values, w) =>
            if w.hasError then (none, w)
            else (some ⟨directory, values ++ [syntaxOnly]⟩, w)

/-! ### Running a command -/

/-- `SPAWN_PREFIX`. -/
def spawnPrefix : List Text :=
  ["sh".toList, "-c".toList, "cd \"$1\" && shift && exec \"$@\"".toList, "test-mutation".toList]

/-- `spawn_arguments`. -/
def spawnArguments (command : List Text) (directory : Text) : List Text :=
  spawnPrefix ++ directory :: command

/-- `PROCESS_SIGNAL_BASE`. -/
def processSignalBase : ℕ := 128

/-- A call outside the file system that fails when a code is given. -/
def outcomeOf (failure : Option ℕ) (w : World) : World :=
  match failure with
  | none => w
  | some code => w.raise (.errno (.host code))

/-- The polling loop of `p101_mutation_run_command`. -/
def poll : List (Option ℕ) → Ending → World → Outcome × World
  | [], .reaped status _, w => (.ended status, w)
  | [], .waitFails code, w => (.unobserved, w.raise (.errno (.host code)))
  | [], .expires clock, w =>
    -- The child still runs; a recorded error gives up on it before the deadline is looked at.
    if w.hasError then (.unobserved, w) else (.timedOut, outcomeOf clock w)
  | clock :: pauses, ending, w =>
    if w.hasError then (.unobserved, w) else poll pauses ending (outcomeOf clock w)

/-- The value `p101_mutation_run_command` returns. -/
def Outcome.result : Outcome → ℤ
  | .ended status =>
    match status.exitCode? with
    | some code => code
    | none =>
      match status.signal? with
      | some signal => processSignalBase + signal
      | none => -1
  | _ => -1

/-- What `p101_mutation_run_command` learns about the process it starts. -/
def observe (process : Process) (w : World) : Outcome × World :=
  match process with
  | .refused code => (.refused, w.raise (.errno (.host code)))
  | .spawned clock pauses ending => poll pauses ending (outcomeOf clock w)

/-- The file system after a process that may not have started. -/
def fsAfter (process : Process) (before after : FileSystem) : FileSystem :=
  match process with
  | .refused _ => before
  | .spawned _ _ _ => after

/-- The file `p101_mutation_run_command` launches. -/
def childFile (command : List Text) : Option Text → Text
  | some _ => "sh".toList
  | none => command.headD []

/-- The arguments `p101_mutation_run_command` launches it with. -/
def childArguments (command : List Text) : Option Text → List Text
  | some directory => spawnArguments command directory
  | none => command

/-- `p101_mutation_run_command`: the result and whether the deadline passed. -/
def runCommand (command : List Text) (directory : Option Text) (w : World) : ℤ × Bool × World :=
  if w.hasError then (-1, false, w)
  else
    let file := childFile command directory
    let argv := childArguments command directory
    match host.process w.launches.length file argv w.fs with
    | (process, fs) =>
      match observe process w with
      | (outcome, w') =>
        let after := fsAfter process w.fs fs
        (outcome.result, outcome == .timedOut,
          { w' with fs := after, launches := w.launches ++ [⟨file, argv, outcome, w.fs, after⟩] })

/-! ### One candidate -/

/-- `enum p101_mutation_outcome`. -/
inductive Verdict
  | inconclusive
  | survived
  | killed
  deriving DecidableEq, Repr

/-- `struct p101_mutation_result`. -/
structure Result where
  candidate : Candidate
  outcome : Verdict
  returnCode : ℤ
  timedOut : Bool
  deriving DecidableEq, Repr

/-- The result before anything is known. -/
def Result.initial (candidate : Candidate) : Result := ⟨candidate, .inconclusive, 0, false⟩

/-- The template of the temporary directory, without the characters `mkdtemp` replaces. -/
def temporaryTemplate : Text := "/tmp/test-mutation.".toList

/-- The path name `mkdtemp` makes of the tool's template. -/
def temporaryText (w : World) : Text := temporaryTemplate ++ (host.temporary w.calls).1

/-- The path name of the copy in a temporary directory. -/
def copyText (temp : Text) : Text := cut pathSize (temp ++ "/project".toList)

/-- `mkdtemp`: a new directory and its path name. -/
def makeTemporary (w : World) : Option Text × World :=
  match call host (mkdir host.cwd (temporaryText host w) 0o700) w with
  | (none, w') => (none, w')
  | (some _, w') => (some (temporaryText host w), w')

/-- The rewriting of the test command's arguments. -/
def rewriteAll (project copy : Text) : List Text → World → List Text × World
  | [], w => ([], w)
  | value :: rest, w =>
    match rewritePath host project copy value w with
    | (value, w) =>
      match rewriteAll project copy rest w with
      | (values, w) => (value :: values, w)

/-- The part of `p101_mutation_execute` after the compile check has passed. -/
def executeTest (arguments : Arguments) (candidate : Candidate) (project copy : Text) (w : World) :
    Bool × Result × World :=
  match rewriteAll host project copy arguments.testCommand w with
  | (testCommand, w) =>
    if w.hasError then (false, .initial candidate, w)
    else
      match runCommand host testCommand (some copy) w with
      | (status, timedOut, w) =>
        let outcome : Verdict :=
          if timedOut then .inconclusive else if status = 0 then .survived else .killed
        (true, ⟨candidate, outcome, status, timedOut⟩, w)

/-- The part of `p101_mutation_execute` between the creation and the removal of the temporary
directory. -/
def executeIn (arguments : Arguments) (candidate : Candidate) (temp : Text) (w : World) :
    Bool × Result × World :=
  match call host (canonicalize host arguments.project) w with
  | (none, w) => (false, .initial candidate, w)
  | (some project, w) =>
    let copy := copyText temp
    match copyTree host project copy w with
    | (false, w) => (false, .initial candidate, w)
    | (true, w) =>
      match applyCandidate host arguments candidate copy w with
      | (false, w) => (false, .initial candidate, w)
      | (true, w) =>
        match buildCompileCommand host arguments candidate copy w with
        | (none, w) => (false, .initial candidate, w)
        | (some command, w) =>
          match runCommand host command.arguments (some command.directory) w with
          | (status, timedOut, w) =>
            if timedOut || status ≠ 0 then
              (true, ⟨candidate, .inconclusive, status, timedOut⟩, w)
            else executeTest host arguments candidate project copy w

/-- `p101_mutation_execute`: whether it completed, its result, and the world after cleaning up. -/
def execute (arguments : Arguments) (candidate : Candidate) (w : World) : Bool × Result × World :=
  match makeTemporary host w with
  | (none, w) => (false, .initial candidate, w)
  | (some temp, w) =>
    match executeIn host arguments candidate temp w with
    | (completed, result, w) => (completed, result, (removeTree host temp w).2)

end P101Test.Mutation
