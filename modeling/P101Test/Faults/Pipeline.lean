import P101Test.Faults.Walk

/-!
# The command line of the pipeline

The pipeline is launched with the path names of two tools, the run directory and the command. The path
names go through buffers of `PATH_LEN` characters, and the command through a loop that stops where the
slots of `MAX_TOOL_ARGS` end. The argument checks look at neither length, so that the launched command line
is the one asked for exactly when the path names fit, unless the command is refused as too long.

## Main definitions

* `checkArguments`: the argument checks.
* `copyCommand`: the loop that copies the command.
* `toolArguments`: the command line asked for.
* `Faithful`: what launching the pipeline should do.

## Main results

* `runPipeline_eq`: the loop decides whether the command is refused, and what is launched.
* `faithful_iff`: the exact condition.
-/

namespace P101Test.Faults

open Stdio

/-! ### The argument checks -/

/-- `p101_env_fault_mode`. -/
inductive FaultMode
  | error
  | eintr
  | timeout
  | short
  | uncertain
  deriving DecidableEq, Repr

/-- `required_text_missing`. -/
def requiredTextMissing (text : Text) : Bool := text = []

/-- `p101_error_path_walk_check_arguments`; the mode of a name belongs to a library. -/
def checkArguments (faultModeFromName : Text → Option FaultMode) (arguments : Arguments) (w : World) :
    World :=
  if arguments.command = [] then w.raise (.usage "A command is required.".toList)
  else if arguments.logPrefix = some [] then
    w.raise (.usage "The log prefix must not be empty.".toList)
  else if requiredTextMissing arguments.p101Run then
    w.raise (.usage "The p101-inspect path must not be empty.".toList)
  else if requiredTextMissing arguments.p101Observe then
    w.raise (.usage "The inspect-capture path must not be empty.".toList)
  else if arguments.faultName = some [] then
    w.raise (.usage "The fault-name filter must not be empty.".toList)
  else
    match faultModeFromName arguments.faultMode with
    | none =>
      w.raise (.usage "The fault mode must be error, eintr, timeout, short, or uncertain.".toList)
    | some mode =>
      if (mode = .short ∨ mode = .uncertain) ∧ arguments.faultName = none then
        w.raise
          (.usage "Short and uncertain modes require an exact wrapper identity with -F.".toList)
      else w

/-! ### The loop -/

/-- The loop of `run_p101_pipeline` over the command: the slots it has filled, and the rest of the command
where it stops. One slot is left for the terminator. -/
def copyCommand (slots : List Text) : List Text → List Text × List Text
  | [] => (slots, [])
  | argument :: rest =>
    if slots.length < maxToolArgs - 1 then copyCommand (slots ++ [argument]) rest
    else (slots, argument :: rest)

variable (host : Host) {arguments : Arguments} {result : RunResult} {w : World}

/-- The loop fills the slots with the beginning of the command, and stops early only with one slot left. -/
theorem copyCommand_eq (slots command : List Text) (hroom : slots.length < maxToolArgs) :
    copyCommand slots command =
      (slots ++ command.take (maxToolArgs - 1 - slots.length),
        command.drop (maxToolArgs - 1 - slots.length)) := by
  induction command generalizing slots with
  | nil => simp [copyCommand]
  | cons argument rest ih =>
      rw [copyCommand]
      split
      · next hfree =>
        obtain ⟨room, hleft⟩ : ∃ room, maxToolArgs - 1 - slots.length = room + 1 :=
          ⟨maxToolArgs - 1 - slots.length - 1, by omega⟩
        have hnext : maxToolArgs - 1 - (slots ++ [argument]).length = room := by
          rw [List.length_append, List.length_singleton]
          omega
        rw [ih (slots ++ [argument]) (by rw [List.length_append, List.length_singleton]; omega), hnext,
          hleft, List.take_succ_cons, List.drop_succ_cons, List.append_assoc, List.singleton_append]
      · next hfull =>
        rw [show maxToolArgs - 1 - slots.length = 0 by omega, List.take_zero, List.drop_zero,
          List.append_nil]

theorem length_copyCommand_lt (slots command : List Text) (hroom : slots.length < maxToolArgs) :
    (copyCommand slots command).1.length < maxToolArgs := by
  rw [copyCommand_eq slots command hroom, List.length_append, List.length_take]
  omega

/-- `p101_tool_run_capture`: a launch, and the error it may record. -/
def toolRunCapture (launch : Launch) (w : World) : WaitStatus × World :=
  match host.capture w.calls launch with
  | (status, none) => (status, w.tick.log (.launched launch))
  | (status, some code) => (status, (w.tick.log (.launched launch)).raise (.call code))

theorem events_toolRunCapture (launch : Launch) (w : World) :
    (toolRunCapture host launch w).2.events = w.events ++ [.launched launch] := by
  unfold toolRunCapture
  split <;> rfl

/-- The launch of a command line for a case. -/
def launchOf (result : RunResult) (argv : List Text) (w : World) : Launch :=
  ⟨result.faultIndex, argv, result.pipelineStdoutPath, result.pipelineStderrPath, w.environment⟩

theorem length_pipelinePrefix : (pipelinePrefix arguments result).length = 7 := rfl

theorem runPipeline_of_long (hlong : maxToolArgs < 7 + arguments.command.length + 1) :
    runPipeline host arguments result w = (.exited 0, w.raise (.usage tooManyArguments)) := by
  rw [runPipeline, List.length_append, length_pipelinePrefix, if_pos (by omega)]

theorem runPipeline_of_short (hshort : 7 + arguments.command.length + 1 ≤ maxToolArgs) :
    runPipeline host arguments result w = toolRunCapture host
      (launchOf result (pipelinePrefix arguments result ++ arguments.command) w) w := by
  rw [runPipeline, List.length_append, length_pipelinePrefix, if_neg (by omega)]
  rfl

/-- **The loop.** The pipeline is launched with the filled slots if the loop reaches the end of the
command, and otherwise the command is refused. -/
theorem runPipeline_eq : runPipeline host arguments result w =
    if (copyCommand (pipelinePrefix arguments result) arguments.command).2 ≠ [] then
      (.exited 0, w.raise (.usage tooManyArguments))
    else toolRunCapture host (launchOf result
      (copyCommand (pipelinePrefix arguments result) arguments.command).1 w) w := by
  have hroom : (pipelinePrefix arguments result).length < maxToolArgs := by
    rw [length_pipelinePrefix]
    decide
  have hslots : maxToolArgs = 128 := rfl
  rw [copyCommand_eq _ _ hroom, length_pipelinePrefix]
  by_cases hlong : maxToolArgs < 7 + arguments.command.length + 1
  · have hrest : arguments.command.drop (maxToolArgs - 1 - 7) ≠ [] := by
      rw [Ne, List.drop_eq_nil_iff]
      omega
    rw [runPipeline_of_long host hlong, if_pos hrest]
  · have hrest : ¬arguments.command.drop (maxToolArgs - 1 - 7) ≠ [] := by
      rw [not_not, List.drop_eq_nil_iff]
      omega
    rw [runPipeline_of_short host (by omega), if_neg hrest, List.take_of_length_le (by omega)]

/-! ### The command line -/

/-- The command line asked for: every text in full. -/
def toolArguments (arguments : Arguments) (result : RunResult) : List Text :=
  [arguments.p101Run, "run".toList, "-o".toList, result.runDir, "--observe-tool".toList,
    arguments.p101Observe, "--".toList] ++ arguments.command

/-- What launching the pipeline should do: a command line that does not fit its slots with the terminator
is refused with an error and nothing is launched; any other is launched as it was asked for. -/
def Faithful (host : Host) (arguments : Arguments) (result : RunResult) (w : World) : Prop :=
  (maxToolArgs < (toolArguments arguments result).length + 1 →
    (runPipeline host arguments result w).2.events = w.events ∧
      (runPipeline host arguments result w).2.err = some (.usage tooManyArguments)) ∧
  ((toolArguments arguments result).length + 1 ≤ maxToolArgs →
    ∃ launch : Launch,
      (runPipeline host arguments result w).2.events = w.events ++ [.launched launch] ∧
        launch.argv = toolArguments arguments result)

/-- A text comes out of its buffer whole exactly when it fits. -/
theorem cut_eq_iff {size : ℕ} {text : Text} (hsize : 0 < size) : cut size text = text ↔ text.length < size := by
  rw [cut, List.take_eq_self_iff]
  omega

/-- The launched command line is the one asked for exactly when the three path names fit. -/
theorem pipelinePrefix_eq_iff : pipelinePrefix arguments result ++ arguments.command =
      toolArguments arguments result ↔
    arguments.p101Run.length < pathLength ∧ result.runDir.length < pathLength ∧
      arguments.p101Observe.length < pathLength := by
  have hsize : 0 < pathLength := by decide
  rw [toolArguments, List.append_left_inj, pipelinePrefix]
  simp only [List.cons.injEq, cut_eq_iff hsize, true_and, and_true]

/-- **The command line.** The pipeline is launched faithfully exactly when the path names of the two tools
and of the run directory fit their buffers, or the command is refused. -/
theorem faithful_iff : Faithful host arguments result w ↔
    maxToolArgs < 7 + arguments.command.length + 1 ∨
      arguments.p101Run.length < pathLength ∧ result.runDir.length < pathLength ∧
        arguments.p101Observe.length < pathLength := by
  have hlength : (toolArguments arguments result).length = 7 + arguments.command.length :=
    List.length_append
  rw [Faithful, hlength]
  by_cases hlong : maxToolArgs < 7 + arguments.command.length + 1
  · rw [runPipeline_of_long host hlong]
    exact iff_of_true ⟨fun _ => ⟨rfl, rfl⟩, fun hshort => absurd hlong (by omega)⟩ (.inl hlong)
  · rw [runPipeline_of_short host (by omega), events_toolRunCapture]
    constructor
    · rintro ⟨-, hfaithful⟩
      obtain ⟨launch, hevents, hargv⟩ := hfaithful (by omega)
      have hlaunch := List.append_cancel_left hevents
      rw [List.cons.injEq, Event.launched.injEq] at hlaunch
      rw [← hlaunch.1] at hargv
      exact .inr (pipelinePrefix_eq_iff.mp hargv)
    · rintro (hlong' | hfit)
      · exact absurd hlong' hlong
      · exact ⟨fun hlong' => absurd hlong' hlong, fun _ => ⟨_, rfl, pipelinePrefix_eq_iff.mpr hfit⟩⟩

/-- The options of a walk with a path name of `PATH_LEN` characters for the pipeline. -/
def longPathArguments : Arguments :=
  { defaultArguments with p101Run := List.replicate pathLength 'a' }

/-- **A long path name.** The argument checks admit a path name of `PATH_LEN` characters, and the pipeline is
launched under another name. -/
theorem not_faithful_long :
    (checkArguments (fun _ => some .error) longPathArguments (.initial fun _ => none)).err = none ∧
      ¬Faithful quietHost longPathArguments RunResult.zero (.initial fun _ => none) := by
  refine ⟨by decide +kernel, fun h => ?_⟩
  have hshort : 7 + longPathArguments.command.length + 1 ≤ maxToolArgs := by decide
  obtain ⟨launch, hevents, hargv⟩ := h.2 hshort
  rw [runPipeline_of_short quietHost hshort, events_toolRunCapture] at hevents
  have hlaunch := List.append_cancel_left hevents
  rw [List.cons.injEq, Event.launched.injEq] at hlaunch
  rw [← hlaunch.1] at hargv
  have hfit := (pipelinePrefix_eq_iff.mp hargv).1
  rw [longPathArguments, List.length_replicate] at hfit
  exact absurd hfit (lt_irrefl _)

end P101Test.Faults
