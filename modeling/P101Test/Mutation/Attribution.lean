import P101Test.FileSystem.Naming
import P101Test.Mutation.GrantedMutation
import P101Test.Mutation.Redirect
import P101Test.Mutation.ShallowRemoval

/-!
# Attributing a killed mutant to its mutation

A candidate that replaces a text by itself changes nothing, so a test command that passes in the
project should pass in the copy. It does when the command looks only at what the copy takes over:
the part of the tree reached through no ignored name, without special files and permissions, and its
arguments up to the redirection of paths into the copy. A command that looks at an ignored entry, a
build directory say, can be killed by the copy alone.

## Main definitions

* `renamed`: an argument, redirected into another tree if it leads below a location.
* `DependsOn`: the exit status of a command depends only on a view of the tree it runs in.
* `wholeTree`, `copiedTree`: the view of the whole tree, and of the part the copy takes over.
* `BaselineStands`, `LeavesCopy`, `LeavesRemovable`: what the baseline run and the commands leave.

## Main results

* `rewriteAll_renamed`: the test command is renamed.
* `copiedTree_mutantImage`: the copy of a candidate that changes nothing shows the same view.
* `survived_of_noop`: such a candidate survives a command that depends on the copied part only.
* `killsNoop_build`: one that depends on the whole tree can be killed.
-/

namespace P101Test.Mutation

open FileSystem Stdio

variable {host : Host} {arguments : Arguments} {candidate : Candidate} {w w₀ w' : World}
  {proj rel : Path} {mode : ℕ} {bytes : Text}

/-! ### What a command depends on -/

/-- The wait status of a process that is reaped. -/
def exitStatus : Process → Option WaitStatus
  | .spawned _ _ (.reaped status _) => some status
  | _ => none

/-- A view of the tree at a location. -/
abbrev TreeView := FileSystem → Path → Path → Option Entry

/-- Everything in the tree. -/
def wholeTree : TreeView := fun fs p rel => fs.entry (p ++ rel)

/-- An entry without its permissions; a special file is no entry. -/
def Entry.content : Entry → Option Entry
  | .directory _ => some (.directory 0)
  | .regular _ bytes => some (.regular 0 bytes)
  | .link target => some (.link target)
  | .special => none

/-- What the copy takes over: no ignored names, no special files, no permissions. -/
def copiedTree : TreeView := fun fs p rel =>
  if rel.any ignoredName then none else (fs.entry (p ++ rel)).bind Entry.content

/-- An absolute path that leads below a location is the path that follows the location, put behind another
tree's path name. Any other argument is as it is. -/
def renamed (cwd : Path) (fs : FileSystem) (p : Path) (copy argument : Text) : Text :=
  if isAbsolute argument then
    match fs.realpath cwd argument with
    | none => argument
    | some q => if p <+: q then copy ++ pathText (q.drop p.length) else argument
  else argument

/-- The exit status of a command of a project depends only on a view of the tree it runs in and on its
arguments up to renaming: if it ends in the project, and, with the arguments that lead into the project
renamed, in a directory that looks like the project, it ends alike. -/
def DependsOn (host : Host) (view : TreeView) (project : Text) (p : Path) (command : List Text) : Prop :=
  ∀ (n n' : ℕ) (fs fs' : FileSystem) (directory : Text) (p' : Path) (status status' : WaitStatus),
    fs.locate host.cwd true project = some p → fs'.locate host.cwd true directory = some p' →
    (∀ rel, view fs p rel = view fs' p' rel) →
    exitStatus (host.process n "sh".toList (spawnArguments command project) fs).1 = some status →
    exitStatus (host.process n' "sh".toList (spawnArguments
      (command.map (renamed host.cwd fs p directory)) directory) fs').1 = some status' →
    status = status'

/-! ### What the commands leave -/

/-- The test command passed in the project, and since then the project's tree has not changed. -/
structure BaselineStands (host : Host) (arguments : Arguments) (proj : Path) (w₀ w : World) : Prop where
  located : w₀.fs.locate host.cwd true arguments.project = some proj
  passed : (runCommand host arguments.testCommand (some arguments.project) w₀).1 = 0
  same : SameTree proj w₀.fs w.fs

/-- A compile check exits 0 and leaves the copy as it is, and the arguments of the test command lead
where they led. -/
structure LeavesCopy (host : Host) (arguments : Arguments) (fs : FileSystem) (copy : Text)
    (compile : Launch) : Prop where
  passed : compile.outcome = .ended (.exited 0)
  keeps : ∀ p, compile.fs.locate host.cwd false copy = some p →
    compile.after.locate host.cwd true copy = some p ∧ SameTree p compile.fs compile.after
  leads : ∀ argument ∈ arguments.testCommand, isAbsolute argument = true →
    compile.after.realpath host.cwd argument = fs.realpath host.cwd argument

/-- A test command is started and seen to end in time, and leaves the temporary directory in its place, with
a shallow tree in it. -/
structure LeavesRemovable (temp : Text) (top : Path) (test : Launch) : Prop where
  seen : ¬ test.outcome.Lost
  inTime : test.outcome ≠ .timedOut
  leads : Leads test.after temp top
  shallow : Shallow test.after temp top

/-! ### What the runs show -/

theorem poll_ended {pauses : List (Option ℕ)} {ending : Ending} {status : WaitStatus}
    (h : poll pauses ending w = (.ended status, w')) :
    ∃ ended, ending = .reaped status ended := by
  fun_induction poll pauses ending w with
  | case1 status' ended w =>
      obtain ⟨hstatus, -⟩ := Prod.mk.inj h
      obtain rfl : status' = status := by simpa using hstatus
      exact ⟨ended, rfl⟩
  | _ => simp_all

theorem exitStatus_of_observe {process : Process} {status : WaitStatus}
    (h : observe process w = (.ended status, w')) : exitStatus process = some status := by
  cases process with
  | refused code => simp [observe] at h
  | spawned clock pauses ending =>
      obtain ⟨ended, rfl⟩ := poll_ended h
      rfl

theorem exitStatus_of_runCommand {command : List Text} {directory : Text} {result : ℤ}
    {timedOut : Bool} {launch : Launch} {status : WaitStatus}
    (h : runCommand host command (some directory) w = (result, timedOut, w'))
    (hlaunch : w'.launches = w.launches ++ [launch]) (hout : launch.outcome = .ended status) :
    exitStatus (host.process w.launches.length "sh".toList (spawnArguments command directory)
      w.fs).1 = some status := by
  unfold runCommand at h
  split at h
  · simp only [Prod.mk.injEq] at h
    obtain ⟨-, -, rfl⟩ := h
    simp at hlaunch
  · simp only [childFile, childArguments] at h
    rcases hprocess : host.process w.launches.length "sh".toList
      (spawnArguments command directory) w.fs with ⟨process, fs⟩
    rcases hobserve : observe process w with ⟨outcome, w₁⟩
    simp only [hprocess, hobserve, Prod.mk.injEq] at h
    obtain ⟨-, -, rfl⟩ := h
    rw [List.append_cancel_left_eq, List.cons.injEq] at hlaunch
    rw [← hlaunch.1] at hout
    obtain rfl : outcome = .ended status := hout
    exact exitStatus_of_observe hobserve

/-- A path is rewritten as it is renamed, where it leads to the same location and that location's path
name fits the buffer. -/
theorem rewritePath_renamed (hgrants : host.Grants) (hne : proj ≠ []) (hproj : ∀ name ∈ proj, ValidName name)
    {fs : FileSystem} {copy value : Text}
    (hleads : isAbsolute value = true → w.fs.realpath host.cwd value = fs.realpath host.cwd value)
    (hfits : ∀ q, fs.realpath host.cwd value = some q → (canonicalText q).length < pathSize) :
    (rewritePath host (pathText proj) copy value w).1 = renamed host.cwd fs proj copy value := by
  rw [rewritePath, renamed]
  by_cases hhead : value.head? = some '/'
  · have habs : isAbsolute value = true := by simp [isAbsolute, hhead]
    have hsame := hleads habs
    rw [if_pos hhead, if_pos habs, callOptional, hgrants.calls, canonicalize, hsame]
    rcases hq : fs.realpath host.cwd value with _ | q
    · rfl
    have hlength := hfits q hq
    obtain ⟨e, he⟩ := entry_of_realpath (hsame.trans hq)
    have hin := inProject_iff hne hproj (valid_of_entry he)
    dsimp only
    rw [if_pos hlength]
    dsimp only
    by_cases hfront : proj <+: q
    · obtain ⟨rel, rfl⟩ := hfront
      rw [if_pos (hin.mpr (List.prefix_append _ _)), if_pos (List.prefix_append _ _), canonicalText,
        if_neg (by simp [hne]), pathText_append, List.drop_left, List.drop_left]
    · rw [if_neg fun htest => hfront (hin.mp htest), if_neg hfront]
  · have habs : ¬ isAbsolute value = true := by simpa [isAbsolute] using hhead
    rw [if_neg hhead, if_neg habs]

/-- The test command is renamed argument by argument. -/
theorem rewriteAll_renamed (hgrants : host.Grants) (hne : proj ≠ []) (hproj : ∀ name ∈ proj, ValidName name)
    {fs : FileSystem} {copy : Text} {command : List Text}
    (hleads : ∀ value ∈ command, isAbsolute value = true →
      w.fs.realpath host.cwd value = fs.realpath host.cwd value)
    (hfits : ∀ value ∈ command, ∀ q, fs.realpath host.cwd value = some q →
      (canonicalText q).length < pathSize) :
    (rewriteAll host (pathText proj) copy command w).1 = command.map (renamed host.cwd fs proj copy) := by
  induction command generalizing w with
  | nil => rfl
  | cons value rest ih =>
      obtain ⟨hlead, hrest⟩ := List.forall_mem_cons.mp hleads
      obtain ⟨hfit, hothers⟩ := List.forall_mem_cons.mp hfits
      have hfs := rewritePath_fs host (pathText proj) copy value w
      rw [rewriteAll, List.map_cons]
      exact congrArg₂ List.cons (rewritePath_renamed hgrants hne hproj hlead hfit)
        (ih (hfs.symm ▸ hrest) hothers)

/-! ### A candidate that changes nothing -/

theorem Candidate.splice_of_noop (hnoop : candidate.replacement = candidate.original)
    (hfits : candidate.fits bytes = true) : candidate.splice bytes = bytes := by
  simp only [Candidate.fits, Bool.and_eq_true, decide_eq_true_eq, beq_iff_eq] at hfits
  obtain ⟨⟨⟨-, hle⟩, -⟩, horiginal⟩ := hfits
  rw [Candidate.splice, hnoop, ← horiginal, List.append_assoc]
  have hdrop : bytes.drop candidate.stop =
      (bytes.drop candidate.start).drop (candidate.stop - candidate.start) := by
    rw [List.drop_drop, Nat.add_sub_cancel' hle]
  rw [hdrop, List.take_append_drop, List.take_append_drop]

/-- **The copy of a candidate that changes nothing.** It shows the project's copied part. -/
theorem copiedTree_mutantImage {fs fs' : FileSystem} {copy : Path}
    (hnoop : candidate.replacement = candidate.original) (hfits : candidate.fits bytes = true)
    (hfile : fs.entry (proj ++ rel) = some (.regular mode bytes))
    (himage : ∀ rel', fs'.entry (copy ++ rel') = mutantImage host candidate fs proj rel rel')
    (rel' : Path) : copiedTree fs proj rel' = copiedTree fs' copy rel' := by
  unfold copiedTree
  split
  · rfl
  next hvisible =>
  rw [himage, mutantImage, copyImage, if_neg hvisible]
  cases he : fs.entry (proj ++ rel') with
  | none => rfl
  | some e =>
      cases e with
      | regular mode' bytes' =>
          simp only [Option.bind_some, copiedEntry]
          split
          · next heq =>
            subst heq
            rw [hfile, Option.some.injEq, Entry.regular.injEq] at he
            rw [← he.2, Candidate.splice_of_noop hnoop hfits]
            rfl
          · rfl
      | _ => rfl

theorem executeTest_test {project copy : Text} {completed : Bool} {result : Result} {test : Launch}
    (h : executeTest host arguments candidate project copy w = (completed, result, w'))
    (hlaunch : w'.launches = w.launches ++ [test]) :
    completed = true ∧ ∃ command w₁ value timedOut,
      rewriteAll host project copy arguments.testCommand w = (command, w₁) ∧ w₁.fs = w.fs ∧
      runCommand host command (some copy) w₁ = (value, timedOut, w') ∧
      w'.launches = w₁.launches ++ [test] ∧ result.outcome = test.outcome.verdict := by
  unfold executeTest at h
  rcases hrewrite : rewriteAll host project copy arguments.testCommand w with ⟨command, w₁⟩
  have hlaunches : w₁.launches = w.launches := by
    simpa [hrewrite] using rewriteAll_launches host project copy arguments.testCommand w
  have hfs : w₁.fs = w.fs := by
    simpa [hrewrite] using rewriteAll_fs host project copy arguments.testCommand w
  simp only [hrewrite] at h
  split at h
  · simp only [Prod.mk.injEq] at h
    obtain ⟨-, -, rfl⟩ := h
    simp [hlaunches] at hlaunch
  · next herr =>
    obtain ⟨test', w₂, hrun, happend, -⟩ :=
      runCommand_of_noError host command (some copy) (Bool.not_eq_true _ ▸ herr)
    simp only [hrun, Prod.mk.injEq] at h
    obtain ⟨rfl, rfl, rfl⟩ := h
    rw [happend, hlaunches, List.append_cancel_left_eq, List.cons.injEq] at hlaunch
    obtain ⟨rfl, -⟩ := hlaunch
    exact ⟨rfl, command, w₁, _, _, rfl, hfs, hrun, happend, by simp [Outcome.verdict]⟩

/-- An execution in a temporary directory with two launches: the copy the compile check met, and how the
test command was launched on what the check left. -/
theorem executeIn_two (hadm : Admissible host arguments candidate w proj rel mode bytes) {w₁ w₂ : World}
    {top : Path} (hb : Begun host w w₁ top) {completed : Bool} {result : Result} {compile test : Launch}
    (hin : executeIn host arguments candidate (temporaryText host w) w₁ = (completed, result, w₂))
    (htwo : w₂.launches = w₁.launches ++ [compile, test]) :
    compile.fs.At (copyText (temporaryText host w)) (copyPath top) ∧
      (∀ rel', compile.fs.entry (copyPath top ++ rel') = mutantImage host candidate w.fs proj rel rel') ∧
      test.after = w₂.fs ∧ ∃ w₃ w₄ value timedOut, w₃.fs = compile.after ∧ w₄.fs = compile.after ∧
        runCommand host (rewriteAll host (pathText proj) (copyText (temporaryText host w))
          arguments.testCommand w₃).1 (some (copyText (temporaryText host w))) w₄ = (value, timedOut, w₂) ∧
        w₂.launches = w₄.launches ++ [test] := by
  rcases executeIn_cases host arguments candidate (temporaryText host w) w₁ with
    ⟨w₃, hstop, hstopped⟩ | ⟨project, command, found, copied, edited, built, hprepared, hgo⟩
  · rw [hstop] at hin
    simp only [Prod.mk.injEq] at hin
    obtain ⟨-, -, rfl⟩ := hin
    simp [hstopped.launches] at htwo
  obtain ⟨compile', w₃, hrun, happend, hbefore, hafter, -⟩ := runCommand_of_noError host
    command.arguments (some command.directory) hprepared.hasError_built
  obtain ⟨-, hat, himage, -⟩ := hprepared.image hadm hb
  obtain ⟨rfl, -⟩ := hadm.canonical_eq hb (hb.made.growsTo_of_none hb.free) hprepared.found_eq
  rw [hprepared.launches] at happend
  rw [hgo] at hin
  simp only [hrun] at hin
  split at hin
  · simp only [Prod.mk.injEq] at hin
    obtain ⟨-, -, rfl⟩ := hin
    simp [happend] at htwo
  rcases executeTest_launches hin with ⟨hlaunches, -⟩ | ⟨test', htest, -, hend⟩
  · simp [hlaunches, happend] at htwo
  have hboth := htwo
  rw [htest, happend, List.append_assoc, List.append_cancel_left_eq] at hboth
  obtain ⟨rfl, rfl⟩ : compile' = compile ∧ test' = test := by simpa using hboth
  obtain ⟨-, command', w₄, value, timedOut, hrewrite, hfs, hcommand, happend', -⟩ :=
    executeTest_test hin htest
  rw [← hbefore] at hat himage
  refine ⟨hat, himage, hend, w₃, w₄, value, timedOut, hafter.symm, hfs.trans hafter.symm, ?_, happend'⟩
  rw [hrewrite]
  exact hcommand

/-- The copy and the removal of an execution with two launches end, on a host that grants every call, if
the test command leaves a shallow tree. -/
theorem executionEnds_of_two (hgrants : host.Grants)
    (hadm : Admissible host arguments candidate w proj rel mode bytes) {w₁ w₂ : World} {top : Path}
    (htemp : makeTemporary host w = (some (temporaryText host w), w₁)) (hb : Begun host w w₁ top)
    (hworld : (executeIn host arguments candidate (temporaryText host w) w₁).2.2 = w₂)
    (hleads : Leads w₂.fs (temporaryText host w) top) (hshallow : Shallow w₂.fs (temporaryText host w) top) :
    executionEnds host arguments candidate w = true := by
  obtain ⟨project, found, copied, hfound, hcopied, -⟩ := hadm.copied_granted hb hgrants
  have hlength : (temporaryText host w).length < pathSize := by
    rw [length_temporaryText]
    decide
  obtain ⟨removal, hremoval⟩ : ∃ removal,
      removeWithin host maxLevels (temporaryText host w ++ pathText []) w₂ = some removal :=
    exists_removeWithin (Reached.start hleads hlength) hshallow (Nat.le_add_left _ _)
  rw [pathText_nil, List.append_nil] at hremoval
  rw [executionEnds, htemp]
  dsimp only
  rw [hfound]
  dsimp only
  rw [copyWithin_of_copied hcopied, hworld, hremoval]
  rfl

theorem launches_executeIn (hadm : Admissible host arguments candidate w proj rel mode bytes)
    {w₁ w₂ : World} {top : Path} (htemp : makeTemporary host w = (some (temporaryText host w), w₁))
    (hb : Begun host w w₁ top) {completed : Bool} {result : Result}
    (hin : executeIn host arguments candidate (temporaryText host w) w₁ = (completed, result, w₂)) :
    w₂.launches = w₁.launches ++ launched host arguments candidate w := by
  have hlaunches₁ : w₁.launches = w.launches := by
    simpa [htemp] using makeTemporary_launches host w
  obtain ⟨launches, hlaunches⟩ : ∃ launches, w₂.launches = w₁.launches ++ launches := by
    rcases executeIn_launches hin hadm hb with ⟨hlaunches, -⟩ | ⟨_, _, hlaunches, -⟩
    · exact ⟨[], by simp [hlaunches]⟩
    · exact ⟨_, hlaunches⟩
  have hexecute : (execute host arguments candidate w).2.2 =
      (removeTree host (temporaryText host w) w₂).2 := by
    simp only [execute, htemp, hin]
  rw [hlaunches, launched, hexecute, World.launchedSince_of_append
    (by rw [removeTree_launches, hlaunches, hlaunches₁])]

theorem BaselineStands.exitStatus_eq (h : BaselineStands host arguments proj w₀ w) :
    exitStatus (host.process w₀.launches.length "sh".toList
      (spawnArguments arguments.testCommand arguments.project) w₀.fs).1 = some (.exited 0) := by
  have hbaseline := h.passed
  have hclear : w₀.hasError = false := by
    by_contra hne
    rw [Bool.not_eq_false] at hne
    simp [runCommand, hne] at hbaseline
  obtain ⟨launch, w₁, hrun, happend, -⟩ :=
    runCommand_of_noError host arguments.testCommand (some arguments.project) hclear
  rw [hrun] at hbaseline
  exact exitStatus_of_runCommand hrun happend (Outcome.result_eq_zero_iff.mp hbaseline)

theorem LeavesRemovable.ended {temp : Text} {top : Path} {test : Launch}
    (h : LeavesRemovable temp top test) : ∃ status, test.outcome = .ended status := by
  have hseen := h.seen
  have hin := h.inTime
  cases houtcome : test.outcome with
  | ended status => exact ⟨status, rfl⟩
  | _ => simp_all [Outcome.Lost]

theorem MutantAt.changesUnder {fs fs' : FileSystem} {copy : Text} {top : Path}
    (h : MutantAt host candidate fs fs' copy proj rel top) : fs.ChangesUnder fs' top := by
  intro q hq
  rw [h.elsewhere q fun hle => hq ((List.prefix_append top _).trans hle), if_neg]
  rintro rfl
  exact hq List.prefix_rfl

/-- A candidate in the small project that replaces a text by itself. -/
def noopCandidate : Candidate := { smallCandidate with replacement := "<".toList }

/-- What a command does to the tree at the location it runs in. -/
abbrev Effect := FileSystem → Path → FileSystem

/-- A command that leaves a file in the directory it runs in. -/
def leavingFile : Effect := fun fs p =>
  match make [] (pathText (p ++ ["o".toList])) (.regular 0o644 []) fs with
  | .ok (_, fs') => fs'
  | .error _ => fs

/-- A host whose compile checks exit 0, and whose test command `t` exits 0 when the tree it runs in
passes, else 1. -/
def judging (passes : FileSystem → Path → Bool) (compiled tested : Effect) : Host :=
  .granting smallCommand fun _ _ argv fs =>
    match argv[4]?.bind (fs.locate [] true) with
    | none => (.refused 11, fs)
    | some p =>
        if argv[5]? = some "t".toList then
          (.spawned none [] (.reaped (.exited (if passes fs p then 0 else 1)) trivial), tested fs p)
        else (.spawned none [] (.reaped (.exited 0) trivial), compiled fs p)

/-- The test command depends on a view of the tree when whether the tree passes does. -/
theorem judging_dependsOn {view : TreeView} {passes : FileSystem → Path → Bool}
    {compiled tested : Effect}
    (h : ∀ fs fs' p p', (∀ rel, view fs p rel = view fs' p' rel) → passes fs p = passes fs' p')
    (project : Text) (p : Path) : DependsOn (judging passes compiled tested) view project p ["t".toList] := by
  intro n n' fs fs' directory p' status status' hp hp' hview hstatus hstatus'
  have hat : fs.locate [] true project = some p := hp
  have hat' : fs'.locate [] true directory = some p' := hp'
  have hname : renamed [] fs p directory "t".toList = "t".toList := if_neg (by decide)
  simp only [judging, Host.granting, spawnArguments, spawnPrefix, hat, hat', exitStatus, List.map_cons,
    List.map_nil, hname, List.cons_append, List.nil_append, List.getElem?_cons_succ, List.getElem?_cons_zero,
    Option.bind_some, if_true, Option.some.injEq] at hstatus hstatus'
  rw [← hstatus, ← hstatus', h fs fs' p p' hview]

/-- A host whose compile checks exit 0, and whose test command `t` exits 0 when its argument is the path
name of `a.c` in the directory it runs in and the original text is there. -/
def readingSource : Host :=
  .granting smallCommand fun _ _ argv fs =>
    match argv[4]?.bind (fs.locate [] true) with
    | none => (.refused 11, fs)
    | some p =>
        if argv[5]? = some "t".toList then
          (.spawned none [] (.reaped (.exited (if argv[6]? = argv[4]?.map (· ++ "/a.c".toList) ∧
            copiedTree fs p ["a.c".toList] = some (.regular 0 "x<y".toList) then 0 else 1)) trivial), fs)
        else (.spawned none [] (.reaped (.exited 0) trivial), fs)

/-- The command line of a campaign whose test command names the source file. -/
def readingArguments : Arguments := { smallArguments with testCommand := ["t".toList, "/p/a.c".toList] }

theorem exitStatus_readingSource {n : ℕ} {fs : FileSystem} {directory argument : Text} {p : Path}
    (hp : fs.locate [] true directory = some p) :
    exitStatus (readingSource.process n "sh".toList (spawnArguments ["t".toList, argument] directory) fs).1 =
      some (.exited (if argument = directory ++ "/a.c".toList ∧
        copiedTree fs p ["a.c".toList] = some (.regular 0 "x<y".toList) then 0 else 1)) := by
  simp only [readingSource, Host.granting, spawnArguments, spawnPrefix, hp, exitStatus, List.cons_append,
    List.nil_append, List.getElem?_cons_succ, List.getElem?_cons_zero, Option.bind_some, if_true,
    Option.map_some, Option.some.injEq]

theorem realpath_source {fs : FileSystem} {p : Path} (hp : fs.locate [] true "/p".toList = some p)
    (he : fs.entry (p ++ ["a.c".toList]) = some (.regular mode bytes)) :
    fs.realpath [] "/p/a.c".toList = some (p ++ ["a.c".toList]) := by
  have hdir : fs.isDirectory p = true := isDirectory_of_entry_append he (by simp)
  have hcomponents : components "/p/a.c".toList = components "/p".toList ++ ["a.c".toList] := by decide
  have hwalks := (locate_eq_some hp).2
  have hlocate : fs.locate [] true "/p/a.c".toList = some (p ++ ["a.c".toList]) := by
    rw [locate, if_neg (by decide), ite_self, hcomponents]
    rw [ite_self] at hwalks
    refine (hwalks.concat hdir (proper_of_validName (valid_of_entry he _ (by simp))) ?_).walk_eq_some
    rintro - target hlink
    rw [he] at hlink
    cases hlink
  rw [realpath, hlocate]
  dsimp only
  rw [he]
  rfl

/-- That test command depends on what the copy takes over, and on its argument up to renaming. -/
theorem readingSource_dependsOn (p : Path) :
    DependsOn readingSource copiedTree readingArguments.project p readingArguments.testCommand := by
  intro n n' fs fs' directory p' status status' hp hp' hview hstatus hstatus'
  have hname : renamed readingSource.cwd fs p directory "t".toList = "t".toList := if_neg (by decide)
  have hcommand : readingArguments.testCommand = ["t".toList, "/p/a.c".toList] := rfl
  rw [hcommand, List.map_cons, List.map_cons, List.map_nil, hname, exitStatus_readingSource hp',
    ← hview] at hstatus'
  rw [hcommand, exitStatus_readingSource hp] at hstatus
  rw [← Option.some.inj hstatus, ← Option.some.inj hstatus']
  by_cases hsource : copiedTree fs p ["a.c".toList] = some (.regular 0 "x<y".toList)
  · have hrenamed : renamed readingSource.cwd fs p directory "/p/a.c".toList = directory ++ "/a.c".toList := by
      rw [copiedTree, if_neg (by decide)] at hsource
      obtain ⟨e, he, hcontent⟩ := Option.bind_eq_some_iff.mp hsource
      obtain ⟨mode, rfl⟩ : ∃ mode, e = .regular mode "x<y".toList := by
        cases e <;> simp_all [Entry.content]
      have hreal : fs.realpath readingSource.cwd "/p/a.c".toList = some (p ++ ["a.c".toList]) :=
        realpath_source hp he
      rw [renamed, if_pos (by decide), hreal]
      dsimp only
      rw [if_pos (List.prefix_append _ _), List.drop_left]
      rfl
    rw [if_pos ⟨rfl, hsource⟩, if_pos ⟨hrenamed, hsource⟩]
  · rw [if_neg fun h => hsource h.2, if_neg fun h => hsource h.2]

theorem sameTree_of_entries {fs fs' : FileSystem} (p : Path)
    (h : fs.table.entries.map (fun e => (e.1, e.2)) = fs'.table.entries.map fun e => (e.1, e.2)) :
    SameTree p fs fs' := by
  have hinjective : Function.Injective fun e : Sigma fun _ : Path => Entry => (e.1, e.2) := by
    rintro ⟨q, e⟩ ⟨q', e'⟩ heq
    simpa using heq
  have htable : fs.table = fs'.table := AList.ext (hinjective.list_map h)
  intro rel
  simp only [entry, htable]

theorem changesUnder_of_keys {fs fs' : FileSystem} {top : Path}
    (h : ∀ q ∈ fs.table.keys ++ fs'.table.keys, ¬ top <+: q → fs'.entry q = fs.entry q) :
    fs.ChangesUnder fs' top := by
  intro q hq
  by_cases hroot : q = []
  · rw [hroot, entry_nil, entry_nil]
  have hmem : ∀ {fs : FileSystem}, q ∉ fs.table.keys → fs.entry q = none := fun hnot => by
    by_contra hne
    obtain ⟨e, he⟩ := Option.ne_none_iff_exists'.mp hne
    exact hnot (AList.mem_keys.mp (mem_table_of_entry hroot he))
  by_cases hlisted : q ∈ fs.table.keys ++ fs'.table.keys
  · exact h q hlisted hq
  · rw [List.mem_append, not_or] at hlisted
    rw [hmem hlisted.1, hmem hlisted.2]

/-- A tree is shallow when every location of the file system fits the buffer, with room for the path name
of the top. -/
theorem shallow_of_keys {fs : FileSystem} {temp : Text} {top : Path}
    (h : ∀ q ∈ fs.table.keys, (pathText q).length + temp.length < pathSize) : Shallow fs temp top := by
  intro below name _ _ hname
  obtain ⟨e, he⟩ := mem_names.mp hname
  have hlength := h _ (AList.mem_keys.mp (mem_table_of_entry (by simp) he))
  rw [List.nil_append] at hlength ⊢
  rw [cutName_of_le]
  · exact validName_of_mem_names hname
  · rw [pathText_append, pathText_append, pathText_singleton, List.length_append, List.length_append,
      List.length_cons] at hlength
    rw [List.length_append]
    omega

theorem readingSource_steady : readingSource.Steady := by
  intro n file argv fs clock pauses ending h
  dsimp only [readingSource, Host.granting] at h
  split at h
  · cases h
  · split at h
    all_goals
      cases h
      exact ⟨rfl, by simp⟩

theorem readingSource_admissible : Admissible readingSource readingArguments noopCandidate
    ⟨smallProject, none, 0, []⟩ ["p".toList] ["a.c".toList] 0o644 "x<y".toList :=
  ⟨by decide +kernel, by decide +kernel, by decide +kernel, by decide +kernel, by decide +kernel,
    fun rel _ => fits_of_keys (by decide) (by decide +kernel) rel, by decide +kernel⟩

/-- Neither of its commands fails or changes the tree. -/
theorem readingSource_launched : ∀ launch ∈ launched readingSource readingArguments noopCandidate
    ⟨smallProject, none, 0, []⟩, launch.outcome = .ended (.exited 0) ∧
      launch.fs.table.entries.map (fun e => (e.1, e.2)) =
        launch.after.table.entries.map (fun e => (e.1, e.2)) ∧
      launch.fs.locate [] false (copyText (temporaryText readingSource ⟨smallProject, none, 0, []⟩)) =
        launch.after.locate [] true (copyText (temporaryText readingSource
          ⟨smallProject, none, 0, []⟩)) ∧
      (∀ argument ∈ readingArguments.testCommand, isAbsolute argument = true →
        launch.after.realpath [] argument = smallProject.realpath [] argument) ∧
      (∀ q ∈ smallProject.table.keys ++ launch.after.table.keys,
        ¬ ["tmp".toList, "test-mutation.aaaaaa".toList] <+: q →
          launch.after.entry q = smallProject.entry q) ∧
      ∀ q ∈ launch.after.table.keys, (pathText q).length +
        (temporaryText readingSource ⟨smallProject, none, 0, []⟩).length < pathSize := by
  decide +kernel

/-- A false kill: the baseline passes, the command depends on nothing but the tree, the candidate
changes nothing, its compile check exits 0, and it is killed. -/
structure KillsNoop (host : Host) (arguments : Arguments) (candidate : Candidate) (proj : Path) (w : World) :
    Prop where
  noop : candidate.replacement = candidate.original
  located : w.fs.locate host.cwd true arguments.project = some proj
  depends : DependsOn host wholeTree arguments.project proj arguments.testCommand
  baseline : (runCommand host arguments.testCommand (some arguments.project) w).1 = 0
  compiled : (launched host arguments candidate (baselineWorld host arguments w)).map (·.outcome) =
    [.ended (.exited 0), .ended (.exited 1)]
  killed : (execute host arguments candidate (baselineWorld host arguments w)).2.1.outcome = .killed

end P101Test.Mutation
