import P101Test.Mutation.EditSpec
import P101Test.Mutation.Ending
import P101Test.Mutation.Frames

/-!
# The exit status of a campaign

The executions of a campaign are listed with the worlds before and after each of them, so that
what was observed for a candidate is the part of the launch log its execution added: the compile check
of the edited copy, and the test command in the copy. The exit status is sound as long as every execution
ends and none starts with an error on record: the copy made for a candidate clears the record, and with it
the loss of the previous candidate's test command.

## Main definitions

* `Execution`, `executions`: the executions of a campaign, in order.
* `Execution.Checks`, `Execution.Tests`: what an execution launches.
* `Execution.Killed`, `Execution.Survived`, `Execution.Troubled`: what the launches say.
* `Returns`, `Sound`: what the exit status promises.

## Main results

* `execute_cases`: what an execution launches and decides.
* `executeAll_eq_some`: the results of a campaign are those of its executions.
* `sound_of_noError`: the exit status is sound when every execution starts without an error.
* `not_sound_lost_test`: a lost test command followed by a killed mutant is a clean campaign.
-/

namespace P101Test.Mutation

variable {host : Host}

/-! ### Executions and what they observed -/

/-- One execution of a candidate. -/
structure Execution where
  candidate : Candidate
  before : World
  completed : Bool
  result : Result
  after : World

/-- The launches an execution made. -/
def Execution.launches (e : Execution) : List Launch :=
  e.after.launchedSince e.before

/-- The executions `executeAll` performs. -/
def executions (host : Host) (arguments : Arguments) : List Candidate → World → List Execution
  | [], _ => []
  | candidate :: rest, w =>
    match execute host arguments candidate w with
    | (false, result, w') => [⟨candidate, w, false, result, w'⟩]
    | (true, result, w') => ⟨candidate, w, true, result, w'⟩ :: executions host arguments rest w'

/-- Whether a command was seen to end with a non-zero code or by a signal. -/
def Outcome.Fails : Outcome → Prop
  | .ended status => status ≠ .exited 0
  | _ => False

instance (outcome : Outcome) : Decidable outcome.Fails := by
  cases outcome <;> simp only [Outcome.Fails] <;> infer_instance

/-- The launch is that of a command in a directory. -/
def Launch.Runs (launch : Launch) (command : List Text) (directory : Text) : Prop :=
  launch.file = "sh".toList ∧ launch.argv = spawnArguments command directory

namespace Execution

/-- The launch is the compile check of an execution: in a new temporary directory the project was copied,
the candidate applied and the compile command built, and that command was launched in its directory. The
world is the one after the check. -/
def Checks (host : Host) (arguments : Arguments) (e : Execution) (temp project : Text) (checked : World)
    (compile : Launch) : Prop :=
  ∃ made command found copied edited built, makeTemporary host e.before = (some temp, made) ∧
    Prepared host arguments e.candidate temp made project command found copied edited built ∧
    compile.Runs command.arguments command.directory ∧ compile.fs = built.fs ∧
    checked = (runCommand host command.arguments (some command.directory) built).2.2

/-- The launches of an execution are the compile check and, after it, the test command in the copy, with
the paths among its arguments redirected into the copy. -/
def Tests (host : Host) (arguments : Arguments) (e : Execution) (compile test : Launch) : Prop :=
  ∃ temp project checked, e.Checks host arguments temp project checked compile ∧
    test.Runs (rewriteAll host project (copyText temp) arguments.testCommand checked).1 (copyText temp) ∧
    test.fs = checked.fs ∧ e.launches = [compile, test]

/-- An execution launches nothing, the compile check, or the compile check and the test command. -/
def Launched (host : Host) (arguments : Arguments) (e : Execution) : Prop :=
  e.launches = [] ∨
    (∃ temp project checked compile, e.Checks host arguments temp project checked compile ∧
      e.launches = [compile]) ∨
    ∃ compile test, e.Tests host arguments compile test

/-- The compile check exited 0, and the test command was launched and seen to fail. -/
def Killed (host : Host) (arguments : Arguments) (e : Execution) : Prop :=
  ∃ compile test, e.Tests host arguments compile test ∧ compile.outcome = .ended (.exited 0) ∧
    test.outcome.Fails

/-- The compile check exited 0, and the test command was launched and seen to exit 0. -/
def Survived (host : Host) (arguments : Arguments) (e : Execution) : Prop :=
  ∃ compile test, e.Tests host arguments compile test ∧ compile.outcome = .ended (.exited 0) ∧
    test.outcome = .ended (.exited 0)

/-- A launch or a wait failed, a command timed out, or the compile check did not exit 0. -/
def Troubled (e : Execution) : Prop :=
  (∃ launch ∈ e.launches, launch.outcome.Lost ∨ launch.outcome = .timedOut) ∨
    ∃ compile ∈ e.launches.take 1, compile.outcome ≠ .ended (.exited 0)

instance (e : Execution) : Decidable e.Troubled := inferInstanceAs (Decidable (_ ∨ _))

end Execution

/-- The world after the baseline run. -/
def baselineWorld (host : Host) (arguments : Arguments) (w : World) : World :=
  (runCommand host arguments.testCommand (some arguments.project) w).2.2

/-- The baseline, the test command in the project, was launched and seen to exit 0. -/
def BaselinePassed (host : Host) (arguments : Arguments) (w : World) : Prop :=
  ∃ launch, (baselineWorld host arguments w).launches = w.launches ++ [launch] ∧
    launch.Runs arguments.testCommand arguments.project ∧ launch.outcome = .ended (.exited 0)

/-- The campaign returns: each of its executions ends. -/
def Returns (host : Host) (arguments : Arguments) (candidates : List Candidate) (w : World) : Prop :=
  ∀ e ∈ executions host arguments candidates (baselineWorld host arguments w),
    executionEnds host arguments e.candidate e.before = true

/-- **What the exit status promises.** Zero means that every candidate was killed, one that every
candidate was decided and some survived; with trouble with any candidate, or an error an execution
leaves on record, the campaign returns two. -/
structure Sound (host : Host) (arguments : Arguments) (candidates : List Candidate) (w : World) :
    Prop where
  launched : ∀ e ∈ executions host arguments candidates (baselineWorld host arguments w),
    e.Launched host arguments
  clean : Returns host arguments candidates w → (main host arguments candidates w).status = 0 →
    BaselinePassed host arguments w ∧
      (executions host arguments candidates (baselineWorld host arguments w)).map
        Execution.candidate = candidates ∧
      ∀ e ∈ executions host arguments candidates (baselineWorld host arguments w),
        e.Killed host arguments
  findings : Returns host arguments candidates w →
    (main host arguments candidates w).status = exitFindings →
    BaselinePassed host arguments w ∧
      (executions host arguments candidates (baselineWorld host arguments w)).map
        Execution.candidate = candidates ∧
      (∀ e ∈ executions host arguments candidates (baselineWorld host arguments w),
        e.Killed host arguments ∨ e.Survived host arguments) ∧
      ∃ e ∈ executions host arguments candidates (baselineWorld host arguments w),
        e.Survived host arguments
  trouble : (∃ e ∈ executions host arguments candidates (baselineWorld host arguments w),
      e.Troubled ∨ e.after.hasError = true) →
    Returns host arguments candidates w ∧ (main host arguments candidates w).status = exitTrouble

/-! ### One execution -/

/-- The verdict on the outcome of a test command. -/
def Outcome.verdict (outcome : Outcome) : Verdict :=
  if outcome = .timedOut then .inconclusive
  else if outcome.result = 0 then .survived else .killed

theorem Outcome.verdict_eq_survived {outcome : Outcome} (h : outcome.verdict = .survived) :
    outcome = .ended (.exited 0) := by
  unfold Outcome.verdict at h
  split at h
  · exact absurd h (by simp)
  · split at h
    · next hzero => exact Outcome.result_eq_zero_iff.mp hzero
    · exact absurd h (by simp)

theorem Outcome.verdict_eq_killed {outcome : Outcome} (h : outcome.verdict = .killed) :
    outcome.Fails ∨ outcome.Lost := by
  unfold Outcome.verdict at h
  split at h
  · exact absurd h (by simp)
  · next htimed =>
    split at h
    · exact absurd h (by simp)
    · next hzero =>
      cases outcome with
      | refused => exact .inr (.inl rfl)
      | unobserved => exact .inr (.inr rfl)
      | timedOut => exact absurd rfl htimed
      | ended status =>
          refine .inl fun hstatus => hzero ?_
          exact Outcome.result_eq_zero_iff.mpr (by rw [hstatus])

/-- After the compile check the test command is launched in the copy, and the verdict is that on its
outcome; with an error on record nothing is launched. -/
theorem executeTest_cases (host : Host) (arguments : Arguments) (candidate : Candidate)
    (project copy : Text) (w : World) :
    ((executeTest host arguments candidate project copy w).1 = false ∧
      (executeTest host arguments candidate project copy w).2.2.launches = w.launches) ∨
    ∃ test, (executeTest host arguments candidate project copy w).2.2.launches = w.launches ++ [test] ∧
      test.Runs (rewriteAll host project copy arguments.testCommand w).1 copy ∧ test.fs = w.fs ∧
      (executeTest host arguments candidate project copy w).2.1.outcome = test.outcome.verdict ∧
      (test.outcome.Lost → (executeTest host arguments candidate project copy w).2.2.hasError = true) := by
  have hlaunches := rewriteAll_launches host project copy arguments.testCommand w
  have hfs := rewriteAll_fs host project copy arguments.testCommand w
  rw [executeTest]
  rcases hrewrite : rewriteAll host project copy arguments.testCommand w with ⟨command, w₁⟩
  rw [hrewrite] at hlaunches hfs
  dsimp only at hlaunches hfs ⊢
  by_cases herr : w₁.hasError = true
  · rw [if_pos herr]
    exact .inl ⟨rfl, hlaunches⟩
  · rw [if_neg herr]
    obtain ⟨test, w₂, hrun, happend, hbefore, -, hfile, hargv, hlost⟩ :=
      runCommand_of_noError host command (some copy) (Bool.not_eq_true _ ▸ herr)
    rw [hrun]
    refine .inr ⟨test, hlaunches ▸ happend, ⟨hfile, hargv⟩, hbefore.trans hfs, ?_, hlost⟩
    simp [Outcome.verdict]

/-- **One execution.** It launches nothing and does not complete, or the compile check alone, or, where
the check exited 0, the test command after it; a test command that is lost leaves an error on record. -/
theorem execute_cases {arguments : Arguments} {e : Execution}
    (h : execute host arguments e.candidate e.before = (e.completed, e.result, e.after)) :
    (e.completed = false ∧ e.launches = []) ∨
    (∃ temp project checked compile, e.Checks host arguments temp project checked compile ∧
      e.launches = [compile] ∧ (e.completed = true → e.result.outcome = .inconclusive)) ∨
    ∃ compile test, e.Tests host arguments compile test ∧ compile.outcome = .ended (.exited 0) ∧
      e.result.outcome = test.outcome.verdict ∧ (test.outcome.Lost → e.after.hasError = true) := by
  rw [execute] at h
  rcases htemp : makeTemporary host e.before with ⟨_ | temp, w₁⟩
  all_goals
    have hmade : w₁.launches = e.before.launches := by
      simpa [htemp] using makeTemporary_launches host e.before
    rw [htemp] at h
    simp only [Prod.mk.injEq] at h
    obtain ⟨hcompleted, hresult, hafter⟩ := h
  · rw [hafter] at hmade
    exact .inl ⟨hcompleted.symm, World.launchedSince_of_append (by rw [hmade, List.append_nil])⟩
  rcases hin : executeIn host arguments e.candidate temp w₁ with ⟨completed, result, w₂⟩
  rw [hin] at hcompleted hresult hafter
  dsimp only at hcompleted hresult hafter
  have hlaunches : ∀ launches, w₂.launches = w₁.launches ++ launches → e.launches = launches := by
    intro launches happend
    rw [Execution.launches, World.launchedSince_of_append]
    rw [← hafter, removeTree_launches, happend, hmade]
  have herr : w₂.hasError = true → e.after.hasError = true := by
    rw [← hafter, World.hasError, World.hasError, removeTree_err]
    exact id
  rcases executeIn_cases host arguments e.candidate temp w₁ with
    ⟨w', hstop, hstopped⟩ | ⟨project, command, found, copied, edited, built, hprepared, hgo⟩
  · rw [hstop] at hin
    simp only [Prod.mk.injEq] at hin
    obtain ⟨rfl, -, rfl⟩ := hin
    exact .inl ⟨hcompleted.symm, hlaunches [] (by rw [hstopped.launches, List.append_nil])⟩
  obtain ⟨compile, w₃, hrun, happend, hbefore, -, hfile, hargv, -⟩ := runCommand_of_noError host
    command.arguments (some command.directory) hprepared.hasError_built
  have hchecks : e.Checks host arguments temp project w₃ compile :=
    ⟨w₁, command, found, copied, edited, built, htemp, hprepared, ⟨hfile, hargv⟩, hbefore, by rw [hrun]⟩
  rw [hprepared.launches] at happend
  rw [hgo] at hin
  simp only [hrun] at hin
  split at hin
  · simp only [Prod.mk.injEq] at hin
    obtain ⟨-, rfl, rfl⟩ := hin
    exact .inr (.inl ⟨temp, project, w₃, compile, hchecks, hlaunches _ happend, fun _ => by rw [← hresult]⟩)
  next hpassed =>
  simp only [Bool.or_eq_true, not_or, decide_eq_true_eq, ne_eq, not_not] at hpassed
  rcases executeTest_cases host arguments e.candidate project (copyText temp) w₃ with
    ⟨hfails, hsame⟩ | ⟨test, happend', htest, hfs, hverdict, hlost⟩
  all_goals rw [hin] at *
  · rw [hcompleted] at hfails
    exact .inr (.inl ⟨temp, project, w₃, compile, hchecks, hlaunches _ (hsame.trans happend),
      fun hdone => by rw [hdone] at hfails; cases hfails⟩)
  · have htwo : w₂.launches = w₁.launches ++ [compile, test] := by
      rw [happend', happend, List.append_assoc]
      rfl
    exact .inr (.inr ⟨compile, test, ⟨temp, project, w₃, hchecks, htest, hfs, hlaunches _ htwo⟩,
      Outcome.result_eq_zero_iff.mp hpassed.2, hresult ▸ hverdict, fun hl => herr (hlost hl)⟩)

/-- What an execution launches. -/
theorem launched_of_execute {arguments : Arguments} {e : Execution}
    (h : execute host arguments e.candidate e.before = (e.completed, e.result, e.after)) :
    e.Launched host arguments := by
  rcases execute_cases h with ⟨-, hnone⟩ | ⟨temp, project, checked, compile, hchecks, hone, -⟩ |
    ⟨compile, test, htests, -⟩
  · exact .inl hnone
  · exact .inr (.inl ⟨temp, project, checked, compile, hchecks, hone⟩)
  · exact .inr (.inr ⟨compile, test, htests⟩)

/-! ### Whole runs -/

/-- The executions listed are executions. -/
theorem execute_of_mem {arguments : Arguments} {candidates : List Candidate} {w : World}
    {e : Execution} (he : e ∈ executions host arguments candidates w) :
    execute host arguments e.candidate e.before = (e.completed, e.result, e.after) := by
  induction candidates generalizing w with
  | nil => simp [executions] at he
  | cons candidate rest ih =>
      simp only [executions] at he
      split at he
      · next result w' h =>
        rw [List.mem_singleton] at he
        subst he
        exact h
      · next result w' h =>
        rcases List.mem_cons.mp he with rfl | he
        · exact h
        · exact ih he

/-- **The run.** The loop of `main` yields results exactly when every execution completes, and then
they are the results of the executions. -/
theorem executeAll_eq_some {arguments : Arguments} {candidates : List Candidate} {w w' : World}
    {results : List Result} (h : executeAll host arguments candidates w = (some results, w')) :
    (executions host arguments candidates w).map Execution.candidate = candidates ∧
      (executions host arguments candidates w).map Execution.result = results ∧
      ∀ e ∈ executions host arguments candidates w, e.completed = true := by
  induction candidates generalizing w w' results with
  | nil =>
      simp only [executeAll, Prod.mk.injEq, Option.some.injEq] at h
      simp [executions, h.1]
  | cons candidate rest ih =>
      rcases hexecute : execute host arguments candidate w with ⟨_ | _, result, w₁⟩
      · simp [executeAll, hexecute] at h
      · rcases hrest : executeAll host arguments rest w₁ with ⟨_ | results', w₂⟩
        · simp [executeAll, hexecute, hrest] at h
        · simp only [executeAll, hexecute, hrest, Prod.mk.injEq, Option.some.injEq] at h
          obtain ⟨hcandidates, hresults, hcompleted⟩ := ih hrest
          simp only [executions, hexecute, List.map_cons, hcandidates, hresults, List.mem_cons,
            forall_eq_or_imp, true_and]
          exact ⟨h.1, hcompleted⟩

/-- The first execution starts in the world the loop starts in. -/
theorem exists_before_eq (host : Host) (arguments : Arguments) (candidate : Candidate) (rest : List Candidate)
    (w : World) : ∃ e ∈ executions host arguments (candidate :: rest) w, e.before = w := by
  simp only [executions]
  split <;> exact ⟨_, List.mem_cons_self, rfl⟩

/-- An error that an execution leaves on record is met by the next one, or stays to the end. -/
theorem hasError_executeAll {arguments : Arguments} {candidates : List Candidate} {w w' : World}
    {results : List Result} {e : Execution}
    (h : executeAll host arguments candidates w = (some results, w'))
    (hclear : ∀ e ∈ executions host arguments candidates w, e.before.err = none)
    (he : e ∈ executions host arguments candidates w) (herr : e.after.hasError = true) :
    w'.hasError = true := by
  induction candidates generalizing w results with
  | nil => simp [executions] at he
  | cons candidate rest ih =>
      rcases hexecute : execute host arguments candidate w with ⟨_ | _, result, w₁⟩
      · simp [executeAll, hexecute] at h
      · rcases hrest : executeAll host arguments rest w₁ with ⟨_ | results', w₂⟩
        · simp [executeAll, hexecute, hrest] at h
        · simp only [executeAll, hexecute, hrest, Prod.mk.injEq] at h
          simp only [executions, hexecute, List.mem_cons, forall_eq_or_imp] at hclear he
          obtain ⟨-, rfl⟩ := h
          rcases he with rfl | he
          · cases rest with
            | nil =>
                simp only [executeAll, Prod.mk.injEq] at hrest
                exact hrest.2 ▸ herr
            | cons next rest =>
                obtain ⟨e', he', rfl⟩ := exists_before_eq host arguments next rest w₁
                exact absurd herr (by simp [World.hasError, hclear.2 e' he'])
          · exact ih hrest hclear.2 he

private theorem foldl_verdictStep_trouble (results : List Result) :
    results.foldl verdictStep exitTrouble = exitTrouble := by
  induction results with
  | nil => rfl
  | cons r rest ih => simpa [verdictStep, exitTrouble] using ih

private theorem foldl_verdictStep_findings (results : List Result) :
    results.foldl verdictStep exitFindings =
      if ∃ r ∈ results, r.outcome = .inconclusive then exitTrouble else exitFindings := by
  induction results with
  | nil => simp
  | cons r rest ih =>
      cases hr : r.outcome with
      | inconclusive => simp [verdictStep, hr, foldl_verdictStep_trouble]
      | survived => simpa [verdictStep, hr, exitFindings] using ih
      | killed => simpa [verdictStep, hr] using ih

/-- What the verdict loop computes. -/
theorem verdictStatus_eq (results : List Result) :
    verdictStatus results =
      if ∃ r ∈ results, r.outcome = .inconclusive then exitTrouble
      else if ∃ r ∈ results, r.outcome = .survived then exitFindings else 0 := by
  unfold verdictStatus
  induction results with
  | nil => simp
  | cons r rest ih =>
      cases hr : r.outcome with
      | inconclusive => simp [verdictStep, hr, foldl_verdictStep_trouble]
      | survived => simp [verdictStep, hr, foldl_verdictStep_findings]
      | killed => simpa [verdictStep, hr] using ih

/-! ### Soundness -/

/-- What is known of a completed execution whose verdict is not inconclusive. -/
theorem observed_of_completed {arguments : Arguments} {e : Execution}
    (h : execute host arguments e.candidate e.before = (true, e.result, e.after))
    (hcompleted : e.completed = true) (hdecided : e.result.outcome ≠ .inconclusive)
    (herr : e.after.hasError = false) :
    ¬ e.Troubled ∧ (e.result.outcome = .survived → e.Survived host arguments) ∧
      (e.result.outcome = .killed → e.Killed host arguments) := by
  rw [← hcompleted] at h
  rcases execute_cases h with ⟨hstopped, -⟩ | ⟨temp, project, checked, compile, -, -, hinconclusive⟩ |
    ⟨compile, test, htests, hcompile, hverdict, hlost⟩
  · cases hcompleted.symm.trans hstopped
  · exact absurd (hinconclusive hcompleted) hdecided
  obtain ⟨-, -, -, -, -, -, hlaunches⟩ := id htests
  have hseen : ¬ test.outcome.Lost := fun hl => by simp [hlost hl] at herr
  refine ⟨?_, fun hs => ?_, fun hk => ?_⟩
  · rintro (⟨launch, hmem, hout⟩ | ⟨launch, hmem, hout⟩)
    · rw [hlaunches] at hmem
      simp only [List.mem_cons, List.not_mem_nil, or_false] at hmem
      rcases hmem with rfl | rfl
      · simp [hcompile, Outcome.Lost] at hout
      · refine hout.elim hseen fun htimed => hdecided ?_
        simp [hverdict, Outcome.verdict, htimed]
    · rw [hlaunches] at hmem
      simp only [List.take_succ_cons, List.take_zero, List.mem_singleton] at hmem
      exact hout (hmem ▸ hcompile)
  · exact ⟨compile, test, htests, hcompile,
      Outcome.verdict_eq_survived (hverdict.symm.trans hs)⟩
  · exact ⟨compile, test, htests, hcompile,
      (Outcome.verdict_eq_killed (hverdict.symm.trans hk)).resolve_right hseen⟩

/-- A campaign that does not end in trouble ran every execution to its end, decided every
candidate, and ended without an error on record. -/
theorem main_ne_trouble {arguments : Arguments} {candidates : List Candidate} {w : World}
    (h : (main host arguments candidates w).status ≠ exitTrouble) :
    BaselinePassed host arguments w ∧ ∃ results w',
      executeAll host arguments candidates (baselineWorld host arguments w) = (some results, w') ∧
      w'.hasError = false ∧ (main host arguments candidates w).status = verdictStatus results := by
  have hdone : ∀ status report w', (done host status report w').status ≠ exitTrouble →
      w'.hasError = false ∧ (done host status report w').status = status := by
    intro status report w' hne
    unfold done at hne ⊢
    split at hne
    · exact absurd rfl hne
    · next herr => simp [herr]
  have htrouble : ∀ report w', (done host exitTrouble report w').status = exitTrouble := by
    intro report w'
    unfold done
    split <;> rfl
  unfold main at h ⊢
  split at h
  · exact absurd (htrouble _ _) h
  next hne =>
  rw [if_neg hne]
  rcases hbaseline : runCommand host arguments.testCommand (some arguments.project) w with
    ⟨baseline, timedOut, w₁⟩
  have hw₁ : baselineWorld host arguments w = w₁ := by rw [baselineWorld, hbaseline]
  simp only [hbaseline] at h ⊢
  split at h
  · exact absurd (htrouble _ _) h
  next hpassed =>
  rw [if_neg hpassed]
  simp only [Bool.or_eq_true, not_or, decide_eq_true_eq, ne_eq, not_not] at hpassed
  rcases hall : executeAll host arguments candidates w₁ with ⟨_ | results, w₂⟩
  · simp only [hall] at h
    exact absurd (htrouble _ _) h
  rcases hreport : reportResults host arguments results w₂ with ⟨report, w₃⟩
  simp only [hall, hreport] at h ⊢
  obtain ⟨herr, hstatus⟩ := hdone _ _ _ h
  refine ⟨?_, results, w₂, hw₁ ▸ hall, ?_, hstatus⟩
  · rw [BaselinePassed, hw₁]
    have hclear : w.hasError = false := by
      by_contra hw
      rw [Bool.not_eq_false] at hw
      simp [runCommand, hw] at hbaseline
      simp [← hbaseline.1] at hpassed
    obtain ⟨launch, w', hrun, happend, -, -, hfile, hargv, -⟩ :=
      runCommand_of_noError host arguments.testCommand (some arguments.project) hclear
    rw [hbaseline] at hrun
    simp only [Prod.mk.injEq] at hrun
    exact ⟨launch, hrun.2.2 ▸ happend, ⟨hfile, hargv⟩,
      Outcome.result_eq_zero_iff.mp (hrun.1.symm.trans hpassed.1.2)⟩
  · by_contra hw₂
    rw [Bool.not_eq_false] at hw₂
    have := hasError_reportResults host arguments results w₂ hw₂
    simp [hreport, herr] at this

theorem verdictStatus_ne_trouble {results : List Result}
    (h : verdictStatus results ≠ exitTrouble) : ∀ r ∈ results, r.outcome ≠ .inconclusive := by
  rw [verdictStatus_eq] at h
  intro r hr hout
  exact h (if_pos ⟨r, hr, hout⟩)

theorem verdictStatus_eq_zero {results : List Result} (h : verdictStatus results = 0) :
    ∀ r ∈ results, r.outcome = .killed := by
  rw [verdictStatus_eq] at h
  intro r hr
  cases hout : r.outcome with
  | inconclusive =>
      rw [if_pos ⟨r, hr, hout⟩] at h
      exact absurd h (by decide)
  | survived =>
      split at h
      · exact absurd h (by decide)
      · rw [if_pos ⟨r, hr, hout⟩] at h
        exact absurd h (by decide)
  | killed => rfl

theorem verdictStatus_eq_findings {results : List Result}
    (h : verdictStatus results = exitFindings) : ∃ r ∈ results, r.outcome = .survived := by
  rw [verdictStatus_eq] at h
  split at h
  · exact absurd h (by decide)
  · split at h
    · next hsurvived => exact hsurvived
    · exact absurd h (by decide)

/-- Every candidate of a campaign that does not end in trouble was decided, and what its launches
show is what its verdict says. -/
theorem decided_of_noError {arguments : Arguments} {candidates : List Candidate} {w w' : World}
    {results : List Result} (hall : executeAll host arguments candidates w = (some results, w'))
    (hw' : w'.hasError = false) (hdecided : ∀ r ∈ results, r.outcome ≠ .inconclusive)
    (hclear : ∀ e ∈ executions host arguments candidates w, e.before.err = none) :
    ∀ e ∈ executions host arguments candidates w, e.after.hasError = false ∧ ¬ e.Troubled ∧
      (e.result.outcome = .survived → e.Survived host arguments) ∧
      (e.result.outcome = .killed → e.Killed host arguments) := by
  obtain ⟨-, hresults, hcompleted⟩ := executeAll_eq_some hall
  intro e he
  have herr : e.after.hasError = false := by
    by_contra hne
    rw [Bool.not_eq_false] at hne
    simp [hasError_executeAll hall hclear he hne] at hw'
  have hexecute := execute_of_mem he
  rw [hcompleted e he] at hexecute
  have hout := hdecided e.result (hresults ▸ List.mem_map_of_mem he)
  exact ⟨herr, observed_of_completed hexecute (hcompleted e he) hout herr⟩

/-- **Soundness.** A campaign all of whose executions end and none of whose executions starts with an
error on record ends with a status that says what was observed for every candidate. -/
theorem sound_of_noError (host : Host) (arguments : Arguments) (candidates : List Candidate)
    (w : World) (hreturns : Returns host arguments candidates w)
    (hclear : ∀ e ∈ executions host arguments candidates (baselineWorld host arguments w),
      e.before.err = none) : Sound host arguments candidates w where
  launched e he := launched_of_execute (execute_of_mem he)
  clean _ hstatus := by
    obtain ⟨hbaseline, results, w', hall, hw', hmain⟩ :=
      main_ne_trouble (by rw [hstatus]; decide : (main host arguments candidates w).status ≠ _)
    have hkilled := verdictStatus_eq_zero (hmain.symm.trans hstatus)
    obtain ⟨hcandidates, hresults, -⟩ := executeAll_eq_some hall
    refine ⟨hbaseline, hcandidates, fun e he => ?_⟩
    have hdecided := decided_of_noError hall hw' (fun r hr => by simp [hkilled r hr]) hclear e he
    exact hdecided.2.2.2 (hkilled _ (hresults ▸ List.mem_map_of_mem he))
  findings _ hstatus := by
    obtain ⟨hbaseline, results, w', hall, hw', hmain⟩ :=
      main_ne_trouble (by rw [hstatus]; decide : (main host arguments candidates w).status ≠ _)
    have hout := verdictStatus_ne_trouble
      (by rw [← hmain, hstatus]; decide : verdictStatus results ≠ exitTrouble)
    have hdecided := decided_of_noError hall hw' hout hclear
    obtain ⟨hcandidates, hresults, -⟩ := executeAll_eq_some hall
    refine ⟨hbaseline, hcandidates, fun e he => ?_, ?_⟩
    · obtain ⟨-, -, hsurvived, hkilled⟩ := hdecided e he
      cases hr : e.result.outcome with
      | inconclusive => exact absurd hr (hout _ (hresults ▸ List.mem_map_of_mem he))
      | survived => exact .inr (hsurvived hr)
      | killed => exact .inl (hkilled hr)
    · obtain ⟨r, hr, hsurvived⟩ := verdictStatus_eq_findings (hmain.symm.trans hstatus)
      rw [← hresults, List.mem_map] at hr
      obtain ⟨e, he, rfl⟩ := hr
      exact ⟨e, he, (hdecided e he).2.2.1 hsurvived⟩
  trouble htrouble := by
    refine ⟨hreturns, ?_⟩
    by_contra hstatus
    obtain ⟨-, results, w', hall, hw', hmain⟩ := main_ne_trouble hstatus
    have hout := verdictStatus_ne_trouble
      (by rw [← hmain]; exact hstatus : verdictStatus results ≠ exitTrouble)
    obtain ⟨e, he, htroubled | herr⟩ := htrouble
    · exact (decided_of_noError hall hw' hout hclear e he).2.1 htroubled
    · simp [(decided_of_noError hall hw' hout hclear e he).1] at herr

/-! ### A lost test command -/

/-- A project with one source file, and the directory for temporary files. -/
def smallProject : FileSystem :=
  .ofEntries [(["tmp".toList], .directory 0o777), (["p".toList], .directory 0o755),
    (["p".toList, "a.c".toList], .regular 0o644 "x<y".toList)]

/-- A candidate in the small project. -/
def smallCandidate : Candidate where
  path := "/p/a.c".toList
  line := 1
  start := 1
  stop := 2
  original := "<".toList
  replacement := ">".toList
  kind := "comparison".toList

/-- The command line of a campaign over the small project. -/
def smallArguments : Arguments where
  project := "/p".toList
  compileDatabase := "/db".toList
  human := true
  json := false
  testCommand := ["t".toList]

/-- The compile command of the small project. -/
def smallCommand : FileSystem → Text → Text → Option CompileCommand := fun _ _ _ =>
  some ⟨"/p".toList, ["cc".toList, "-c".toList, "/p/a.c".toList]⟩

/-- A host whose commands exit with the given codes, one after the other, and do nothing else; a
command without a code cannot be started. -/
def exiting (codes : List (Option ℕ)) : Host :=
  .granting smallCommand fun n _ _ fs =>
    (match codes[n]? with
      | some (some code) => .spawned none [] (.reaped (.exited code) trivial)
      | _ => .refused 11, fs)

/-- Two killed mutants. -/
theorem sound_two_killed : (main (exiting [some 0, some 0, some 1, some 0, some 1]) smallArguments
      [smallCandidate, smallCandidate] ⟨smallProject, none, 0, []⟩).status = 0 ∧
    Sound (exiting [some 0, some 0, some 1, some 0, some 1]) smallArguments
      [smallCandidate, smallCandidate] ⟨smallProject, none, 0, []⟩ := by
  have hruns : ∀ e ∈ executions (exiting [some 0, some 0, some 1, some 0, some 1]) smallArguments
      [smallCandidate, smallCandidate]
      (baselineWorld (exiting [some 0, some 0, some 1, some 0, some 1]) smallArguments
        ⟨smallProject, none, 0, []⟩), executionEnds (exiting [some 0, some 0, some 1, some 0, some 1])
          smallArguments e.candidate e.before = true ∧ e.before.err = none := by
    decide +kernel
  exact ⟨by decide +kernel,
    sound_of_noError _ _ _ _ (fun e he => (hruns e he).1) fun e he => (hruns e he).2⟩

/-- **The lost test command.** The first mutant's test command cannot be started, the second mutant
is killed, and the campaign reports that every mutant was killed. -/
theorem not_sound_lost_test : ¬ Sound (exiting [some 0, some 0, none, some 0, some 1])
    smallArguments [smallCandidate, smallCandidate] ⟨smallProject, none, 0, []⟩ := by
  intro h
  have hclean : (main (exiting [some 0, some 0, none, some 0, some 1]) smallArguments
      [smallCandidate, smallCandidate] ⟨smallProject, none, 0, []⟩).status = 0 := by
    decide +kernel
  obtain ⟨-, htrouble⟩ := h.trouble (by decide +kernel)
  rw [hclean] at htrouble
  exact absurd htrouble (by decide)

end P101Test.Mutation
