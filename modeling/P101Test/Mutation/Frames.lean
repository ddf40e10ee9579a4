import P101Test.Mutation.Campaign

/-!
# What the functions leave alone

Only `runCommand` launches anything, and an error that is recorded stays recorded except where the
copy clears it. Cleaning up records nothing. These facts are used wherever a run is cut into the
phases of one candidate.

## Main results

* `copyTree_launches`, `applyCandidate_launches`, `buildCompileCommand_launches`,
  `removeTree_launches`: no launch outside `runCommand`.
* `removeTree_err`, `rewriteAll_err`, `hasError_reportResults`: where the error record survives.
* `applyCandidate_err`, `buildCompileCommand_err`: success means that nothing is recorded.
* `runCommand_of_noError`: what one launch records.
-/

namespace P101Test.Mutation

open FileSystem Stdio

variable {host : Host}

/-! ### Launches -/

@[grind =] theorem call_launches (host : Host) {α : Type} (c : Call α) (w : World) :
    (call host c w).2.launches = w.launches := by
  unfold call
  split
  · rfl
  · split <;> rfl

@[grind =] theorem callOptional_launches {α : Type} (c : Call α) (w : World) :
    (callOptional host c w).2.launches = w.launches := by
  unfold callOptional
  split
  · rfl
  · split <;> rfl

@[grind =] theorem attempt_launches (w : World) : (attempt host w).2.launches = w.launches := by
  unfold attempt
  split <;> rfl

@[grind =] theorem attemptOptional_launches (w : World) :
    (attemptOptional host w).2.launches = w.launches := rfl

@[grind =] theorem write_launches (output : Path) (data : Text) (w : World) :
    (write host output data w).2.launches = w.launches := by
  grind [write]

@[grind =] theorem writeAll_launches (output : Path) (rounds : ℕ) (data : Text) (w : World) :
    (writeAll host output rounds data w).2.launches = w.launches := by
  fun_induction writeAll <;> grind

@[grind =] theorem copyLoop_launches (input output : Path) (rounds offset : ℕ) (w : World) :
    (copyLoop host input output rounds offset w).2.launches = w.launches := by
  fun_induction copyLoop <;> grind [read]

@[grind =] theorem copyFile_launches (source destination : Text) (mode : ℕ) (w : World) :
    (copyFile host source destination mode w).2.launches = w.launches := by
  grind [copyFile]

theorem copyEntries_launches (host : Host) {copyChild : Text → Text → World → Bool × World}
    (h : ∀ s d w, (copyChild s d w).2.launches = w.launches) (source destination : Text)
    (names : List Text) (w : World) :
    (copyEntries host copyChild source destination names w).2.launches = w.launches := by
  induction names generalizing w <;> grind [copyEntries]

theorem copyDirectory_launches (host : Host) {copyChild : Text → Text → World → Bool × World}
    (h : ∀ s d w, (copyChild s d w).2.launches = w.launches) (source destination : Text) (mode : ℕ)
    (w : World) :
    (copyDirectory host copyChild source destination mode w).2.launches = w.launches := by
  have hentries := copyEntries_launches host h source destination
  simp only [copyDirectory, World.ite_hasError_reset]
  grind [World.reset_launches]

@[grind =] theorem copyLink_launches (source destination : Text) (w : World) :
    (copyLink host source destination w).2.launches = w.launches := by
  grind [copyLink]

theorem copyLevels_launches (levels : ℕ) (source destination : Text) (w : World) :
    (copyLevels host levels source destination w).2.launches = w.launches := by
  induction levels generalizing source destination w with
  | zero => rfl
  | succ levels ih =>
      have hdirectory := copyDirectory_launches host ih source destination
      simp only [copyLevels]
      grind

@[grind =] theorem copyTree_launches (host : Host) (source destination : Text) (w : World) :
    (copyTree host source destination w).2.launches = w.launches :=
  copyLevels_launches maxLevels source destination w

theorem removeEntries_launches (host : Host) {removeChild : Text → World → Bool × World}
    (h : ∀ path w, (removeChild path w).2.launches = w.launches) (path : Text) (names : List Text)
    (result : Bool) (w : World) :
    (removeEntries host removeChild path names result w).2.launches = w.launches := by
  induction names generalizing result w <;> grind [removeEntries]

theorem removeLevels_launches (levels : ℕ) (path : Text) (w : World) :
    (removeLevels host levels path w).2.launches = w.launches := by
  induction levels generalizing path w with
  | zero => rfl
  | succ levels ih =>
      have hentries := removeEntries_launches host ih path
      simp only [removeLevels]
      grind

@[grind =] theorem removeTree_launches (path : Text) (w : World) :
    (removeTree host path w).2.launches = w.launches :=
  removeLevels_launches maxLevels path w

@[grind =] theorem rewritePath_launches (project copy value : Text) (w : World) :
    (rewritePath host project copy value w).2.launches = w.launches := by
  grind [rewritePath]

@[grind =] theorem rewriteAll_launches (host : Host) (project copy : Text) (values : List Text) (w : World) :
    (rewriteAll host project copy values w).2.launches = w.launches := by
  induction values generalizing w <;> grind [rewriteAll]

@[grind =] theorem compileArguments_launches (project copy : Text) (values : List Text) (w : World) :
    (compileArguments host project copy values w).2.launches = w.launches := by
  fun_induction compileArguments <;> grind

@[grind =] theorem buildCompileCommand_launches (host : Host) (arguments : Arguments) (candidate : Candidate)
    (copy : Text) (w : World) :
    (buildCompileCommand host arguments candidate copy w).2.launches = w.launches := by
  unfold buildCompileCommand
  repeat' split
  all_goals grind

@[grind =] theorem fwrite_launches (output : Path) (data : Text) (w : World) :
    (fwrite host output data w).2.launches = w.launches := by
  grind [fwrite, World.tick_launches, World.raise_launches]

@[grind =] theorem fwriteAll_launches (output : Path) (pieces : List Text) (w : World) :
    (fwriteAll host output pieces w).2.launches = w.launches := by
  induction pieces generalizing w <;> grind [fwriteAll]

@[grind =] theorem readStream_launches (input : Path) (w : World) :
    (readStream host input w).2.launches = w.launches := by
  unfold readStream
  repeat' split
  all_goals grind

@[grind =] theorem editTarget_launches (candidate : Candidate) (target : Text) (w : World) :
    (editTarget host candidate target w).2.launches = w.launches := by
  unfold editTarget
  repeat' split
  all_goals grind [World.raise_launches]

@[grind =] theorem applyCandidate_launches (host : Host) (arguments : Arguments) (candidate : Candidate)
    (copy : Text) (w : World) :
    (applyCandidate host arguments candidate copy w).2.launches = w.launches := by
  unfold applyCandidate
  repeat' split
  all_goals grind [World.raise_launches]

@[grind =] theorem makeTemporary_launches (host : Host) (w : World) :
    (makeTemporary host w).2.launches = w.launches := by
  grind [makeTemporary]

/-! ### The error record -/

@[grind =] theorem callOptional_err {α : Type} (c : Call α) (w : World) :
    (callOptional host c w).2.err = w.err := by
  unfold callOptional
  split
  · rfl
  · split <;> rfl

/-- A recorded error survives every call. -/
@[grind →] theorem hasError_call {α : Type} {c : Call α} {w w' : World} {a : Option α}
    (h : call host c w = (a, w')) (hw : w.hasError = true) : w'.hasError = true := by
  cases a with
  | none => exact (call_none h).2.1
  | some a => rw [World.hasError, (call_some h).2.1]; exact hw

@[grind →] theorem hasError_attempt {w w' : World} {done : Bool}
    (h : attempt host w = (done, w')) (hw : w.hasError = true) : w'.hasError = true := by
  unfold attempt at h
  split at h
  all_goals
    obtain ⟨-, rfl⟩ := Prod.mk.inj h
    first | rfl | exact hw

@[grind =] theorem attemptOptional_err (w : World) : (attemptOptional host w).2.err = w.err := rfl

theorem removeEntries_err (host : Host) {removeChild : Text → World → Bool × World}
    (h : ∀ path w, (removeChild path w).2.err = w.err) (path : Text) (names : List Text)
    (result : Bool) (w : World) :
    (removeEntries host removeChild path names result w).2.err = w.err := by
  induction names generalizing result w <;> grind [removeEntries]

theorem removeLevels_err (levels : ℕ) (path : Text) (w : World) :
    (removeLevels host levels path w).2.err = w.err := by
  induction levels generalizing path w with
  | zero => rfl
  | succ levels ih =>
      have hentries := removeEntries_err host ih path
      simp only [removeLevels]
      grind

/-- Cleaning up neither records nor clears an error. -/
@[grind =] theorem removeTree_err (path : Text) (w : World) :
    (removeTree host path w).2.err = w.err :=
  removeLevels_err maxLevels path w

theorem editTarget_err {candidate : Candidate} {target : Text} {w w' : World}
    (h : editTarget host candidate target w = (true, w')) : w'.err = none := by
  unfold editTarget at h
  repeat' split at h
  all_goals simp_all only [Prod.mk.injEq, Bool.and_eq_true, Bool.not_eq_true',
    World.hasError_eq_false_iff, Bool.false_eq_true, false_and]
  exact h.2 ▸ h.1.2

/-- An edit that succeeds leaves no error on record. -/
@[grind →] theorem applyCandidate_err {arguments : Arguments} {candidate : Candidate} {copy : Text}
    {w w' : World} (h : applyCandidate host arguments candidate copy w = (true, w')) :
    w'.err = none := by
  unfold applyCandidate at h
  repeat' split at h
  all_goals grind [editTarget_err]

/-- A compile command that is built leaves no error on record. -/
@[grind →] theorem buildCompileCommand_err {arguments : Arguments} {candidate : Candidate}
    {copy : Text} {command : CompileCommand} {w w' : World}
    (h : buildCompileCommand host arguments candidate copy w = (some command, w')) :
    w'.err = none := by
  unfold buildCompileCommand at h
  repeat' split at h
  all_goals simp_all only [Prod.mk.injEq, reduceCtorEq, false_and, Bool.not_eq_true,
    World.hasError_eq_false_iff]

theorem hasError_emitResults (host : Host) (results : List Result) (w : World) (hw : w.hasError = true) :
    (emitResults host results w).2.2.hasError = true := by
  induction results generalizing w with
  | nil => exact hw
  | cons result rest ih =>
      have hmessage : (mutationMessage result.candidate w).2.hasError = true := by
        simp only [mutationMessage]
        split
        · rfl
        · exact hw
      simp only [emitResults]
      grind

/-- Reporting never clears an error. -/
theorem hasError_reportResults (host : Host) (arguments : Arguments) (results : List Result) (w : World)
    (hw : w.hasError = true) : (reportResults host arguments results w).2.hasError = true := by
  have hemit := hasError_emitResults host results
  simp only [reportResults]
  grind

/-! ### Launching -/

/-- A child that is lost sight of leaves an error on record. -/
theorem hasError_of_poll {pauses : List (Option ℕ)} {ending : Ending} {w w' : World}
    (h : poll pauses ending w = (.unobserved, w')) : w'.hasError = true := by
  fun_induction poll pauses ending w with
  | case2 code w =>
      obtain ⟨-, rfl⟩ := Prod.mk.inj h
      rfl
  | _ => simp_all

theorem poll_ne_refused {pauses : List (Option ℕ)} {ending : Ending} {w w' : World} :
    poll pauses ending w ≠ (.refused, w') := by
  fun_induction poll pauses ending w <;> simp_all

/-- The outcomes that come with an error: the command was not started, or not seen to end. -/
def Outcome.Lost (outcome : Outcome) : Prop := outcome = .refused ∨ outcome = .unobserved

instance (outcome : Outcome) : Decidable outcome.Lost := inferInstanceAs (Decidable (_ ∨ _))

theorem hasError_of_observe {process : Process} {outcome : Outcome} {w w' : World}
    (h : observe process w = (outcome, w')) (hlost : outcome.Lost) : w'.hasError = true := by
  cases process with
  | refused code =>
      obtain ⟨-, rfl⟩ := Prod.mk.inj h
      rfl
  | spawned clock pauses ending =>
      rcases hlost with rfl | rfl
      · exact absurd h poll_ne_refused
      · exact hasError_of_poll h

/-- **One launch.** Without an error on record the command is launched, the result is read off its
outcome, and a command that is lost leaves an error. -/
theorem runCommand_of_noError (host : Host) (command : List Text) (directory : Option Text) {w : World}
    (hw : w.hasError = false) :
    ∃ launch w', runCommand host command directory w =
        (launch.outcome.result, launch.outcome == .timedOut, w') ∧
      w'.launches = w.launches ++ [launch] ∧ launch.fs = w.fs ∧ launch.after = w'.fs ∧
      launch.file = childFile command directory ∧ launch.argv = childArguments command directory ∧
      (launch.outcome.Lost → w'.hasError = true) := by
  rcases hprocess : host.process w.launches.length (childFile command directory)
    (childArguments command directory) w.fs with ⟨process, fs⟩
  rcases hobserve : observe process w with ⟨outcome, w'⟩
  let launch : Launch := ⟨childFile command directory, childArguments command directory, outcome,
    w.fs, fsAfter process w.fs fs⟩
  refine ⟨launch, { w' with fs := launch.after, launches := w.launches ++ [launch] }, ?_, rfl, rfl,
    rfl, rfl, rfl, fun hlost => ?_⟩
  · simp only [runCommand, hw, Bool.false_eq_true, if_false, hprocess, hobserve, launch]
  · have hrecorded := hasError_of_observe hobserve hlost
    exact hrecorded

/-! ### The phases of an execution -/

/-- The phases of an execution up to the compile check, each of them passed: the project is found,
copied and edited, and the compile command is built. -/
structure Prepared (host : Host) (arguments : Arguments) (candidate : Candidate) (temp : Text)
    (w : World) (project : Text) (command : CompileCommand) (found copied edited built : World) :
    Prop where
  found_eq : call host (canonicalize host arguments.project) w = (some project, found)
  copied_eq : copyTree host project (copyText temp) found = (true, copied)
  edited_eq : applyCandidate host arguments candidate (copyText temp) copied = (true, edited)
  built_eq : buildCompileCommand host arguments candidate (copyText temp) edited =
    (some command, built)

namespace Prepared

variable {arguments : Arguments} {candidate : Candidate} {temp project : Text}
  {command : CompileCommand} {w found copied edited built : World}

/-- Nothing is launched before the compile check. -/
theorem launches (h : Prepared host arguments candidate temp w project command found copied edited
    built) : built.launches = w.launches := by
  have hfound := call_launches host (canonicalize host arguments.project) w
  have hcopied := copyTree_launches host project (copyText temp) found
  have hedited := applyCandidate_launches host arguments candidate (copyText temp) copied
  have hbuilt :=
    buildCompileCommand_launches host arguments candidate (copyText temp) edited
  rw [h.found_eq] at hfound
  rw [h.copied_eq] at hcopied
  rw [h.edited_eq] at hedited
  rw [h.built_eq] at hbuilt
  exact hbuilt.trans (hedited.trans (hcopied.trans hfound))

/-- The compile check starts without an error on record. -/
theorem hasError_built (h : Prepared host arguments candidate temp w project command found copied
    edited built) : built.hasError = false :=
  World.hasError_eq_false_iff.mpr (buildCompileCommand_err h.built_eq)

end Prepared

/-- An execution that stops at one of these phases, and the world it stops in. -/
inductive Stopped (host : Host) (arguments : Arguments) (candidate : Candidate) (temp : Text)
    (w : World) : World → Prop
  | notFound {w'} (h : call host (canonicalize host arguments.project) w = (none, w')) :
      Stopped host arguments candidate temp w w'
  | notCopied {project found w'}
      (hfound : call host (canonicalize host arguments.project) w = (some project, found))
      (h : copyTree host project (copyText temp) found = (false, w')) :
      Stopped host arguments candidate temp w w'
  | notEdited {project found copied w'}
      (hfound : call host (canonicalize host arguments.project) w = (some project, found))
      (hcopied : copyTree host project (copyText temp) found = (true, copied))
      (h : applyCandidate host arguments candidate (copyText temp) copied = (false, w')) :
      Stopped host arguments candidate temp w w'
  | notBuilt {project found copied edited w'}
      (hfound : call host (canonicalize host arguments.project) w = (some project, found))
      (hcopied : copyTree host project (copyText temp) found = (true, copied))
      (hedited : applyCandidate host arguments candidate (copyText temp) copied = (true, edited))
      (h : buildCompileCommand host arguments candidate (copyText temp) edited = (none, w')) :
      Stopped host arguments candidate temp w w'

/-- An execution that stops has launched nothing. -/
theorem Stopped.launches {arguments : Arguments} {candidate : Candidate} {temp : Text}
    {w w' : World} (h : Stopped host arguments candidate temp w w') : w'.launches = w.launches := by
  cases h <;> grind

/-- An execution either stops before the compile check, or passes all the phases and goes on with
the compile check. -/
theorem executeIn_cases (host : Host) (arguments : Arguments) (candidate : Candidate) (temp : Text)
    (w : World) :
    (∃ w', executeIn host arguments candidate temp w = (false, .initial candidate, w') ∧
      Stopped host arguments candidate temp w w') ∨
    ∃ project command found copied edited built,
      Prepared host arguments candidate temp w project command found copied edited built ∧
      executeIn host arguments candidate temp w =
        match runCommand host command.arguments (some command.directory) built with
        | (status, timedOut, w) =>
          if timedOut || status ≠ 0 then
            (true, ⟨candidate, .inconclusive, status, timedOut⟩, w)
          else executeTest host arguments candidate project (copyText temp) w := by
  rcases found_eq : call host (canonicalize host arguments.project) w with ⟨_ | project, found⟩
  · exact .inl ⟨found, by simp only [executeIn, found_eq], .notFound found_eq⟩
  rcases copied_eq : copyTree host project (copyText temp) found with ⟨_ | _, copied⟩
  · exact .inl ⟨copied, by simp only [executeIn, found_eq, copied_eq], .notCopied found_eq copied_eq⟩
  rcases edited_eq : applyCandidate host arguments candidate (copyText temp) copied with
    ⟨_ | _, edited⟩
  · exact .inl ⟨edited, by simp only [executeIn, found_eq, copied_eq, edited_eq],
      .notEdited found_eq copied_eq edited_eq⟩
  rcases built_eq : buildCompileCommand host arguments candidate (copyText temp) edited with
    ⟨_ | command, built⟩
  · exact .inl ⟨built, by simp only [executeIn, found_eq, copied_eq, edited_eq, built_eq],
      .notBuilt found_eq copied_eq edited_eq built_eq⟩
  · exact .inr ⟨project, command, found, copied, edited, built,
      ⟨found_eq, copied_eq, edited_eq, built_eq⟩,
      by simp only [executeIn, found_eq, copied_eq, edited_eq, built_eq]⟩

/-- The value zero is that of a command that was seen to exit with code zero. -/
theorem Outcome.result_eq_zero_iff {outcome : Outcome} :
    outcome.result = 0 ↔ outcome = .ended (.exited 0) := by
  rcases outcome with _ | _ | _ | ⟨code | signal | signal⟩ <;>
    simp [Outcome.result, WaitStatus.exitCode?, WaitStatus.signal?, processSignalBase]
  omega

end P101Test.Mutation
