import P101Test.Mutation.CompleteCopy
import P101Test.Mutation.SingleMutation
import P101Test.Mutation.Heap

/-!
# A mutation that is granted every call

On a host that grants every call, two things keep a candidate from its compile check: its span does not hold its
original text, or the compile database has no command for its file. Otherwise the compile check is launched on
the mutant, and if it exits 0 the test command is launched after it, as long as the clock can be read.

## Main definitions

* `Host.Steady`: the clock can be read while a command runs.
* `MutantAt`: a file system that holds the mutant in the temporary directory, and is the original elsewhere.
* `Tested`: what an execution that reaches the compile check launches and decides.

## Main results

* `editTarget_granted`, `buildCompileCommand_granted`: the phases after the copy.
* `Admissible.prepared_or`: which phase stops an execution.
* `execute_granted`: the execution of a candidate, exactly.
-/

namespace P101Test.Mutation

open FileSystem Stdio

variable {host : Host} {arguments : Arguments} {candidate : Candidate} {w w' w₁ : World}
  {proj rel top : Path} {mode : ℕ} {bytes : Text}

/-! ### Streams -/

theorem readStream_granted {input : Path} {contents : Option Text} (hgrants : host.Grants)
    (hin : w.fs.entry input = some (.regular mode bytes)) (h : readStream host input w = (contents, w')) :
    contents = some bytes ∧ w'.err = w.err := by
  have htell : tellEnd input w.tick.fs = .ok (bytes.length, w.tick.fs) := by
    rw [tellEnd, fileSize, w.tick_fs, hin]
  simp only [readStream, attempt_granted hgrants, call_granted hgrants htell] at h
  change call host (readAt input 0 bytes.length) w.tick.tick.tick = (contents, w') at h
  obtain ⟨out, rfl, hread, herr⟩ := call_of_ok (w := w.tick.tick.tick) hgrants (exists_readAt hin _ _) h
  obtain ⟨-, mode', bytes', hin', rfl⟩ := readAt_eq_ok hread
  obtain ⟨-, rfl⟩ : mode = mode' ∧ bytes = bytes' := by simpa [hin] using hin'
  exact ⟨by simp, herr⟩

theorem fwrite_granted {output : Path} {data : Text} {written : Bool} (hgrants : host.Grants)
    (hout : w.fs.entry output = some (.regular mode bytes)) (h : fwrite host output data w = (written, w')) :
    written = true ∧ w'.err = w.err := by
  rw [fwrite, hgrants.calls] at h
  dsimp only at h
  rcases hcall : call host (append output data) w with ⟨appended, w₁⟩
  obtain ⟨u, rfl, -, herr⟩ := call_of_ok hgrants (exists_append hout data) hcall
  rw [hcall] at h
  obtain ⟨rfl, rfl⟩ := Prod.mk.inj h
  exact ⟨rfl, herr⟩

theorem fwriteAll_granted {output : Path} {pieces : List Text} {written : Bool} (hgrants : host.Grants)
    (hout : w.fs.entry output = some (.regular mode bytes))
    (h : fwriteAll host output pieces w = (written, w')) : written = true ∧ w'.err = w.err := by
  induction pieces generalizing w bytes with
  | nil =>
      obtain ⟨rfl, rfl⟩ := Prod.mk.inj h
      exact ⟨rfl, rfl⟩
  | cons data rest ih =>
      rcases hwrite : fwrite host output data w with ⟨written', w₁⟩
      obtain ⟨rfl, herr⟩ := fwrite_granted hgrants hout hwrite
      obtain ⟨bytes', hup, -⟩ := fwrite_spec hwrite hout
      simp only [fwriteAll, hwrite] at h
      obtain ⟨hwritten, herr'⟩ := ih hup.same h
      exact ⟨hwritten, herr'.trans herr⟩

/-! ### The edit -/

/-- The error an edit leaves on record. -/
def editError (candidate : Candidate) (bytes : Text) : Option Fault :=
  if candidate.fits bytes then none else some sourceChanged

/-- **The edit.** It succeeds exactly when the span holds the original text. -/
theorem editTarget_granted {target : Text} {p : Path} {result : Bool} (hgrants : host.Grants)
    (hclean : w.err = none) (ht : w.fs.At target p) (hlen : target.length < pathMax)
    (hp : w.fs.entry p = some (.regular mode bytes)) (h : editTarget host candidate target w = (result, w')) :
    result = candidate.fits bytes ∧ w'.err = editError candidate bytes := by
  have hloc := ht.locate_follow hlen (by simp [hp]) host.cwd
  rcases hopen : call host (openRead host.cwd target) w with ⟨input, w₁⟩
  obtain ⟨input, rfl, hopened, herr₁⟩ := call_of_ok hgrants (exists_openRead hloc hp) hopen
  obtain ⟨hfs₁, hloc₁, -⟩ := openRead_eq_ok hopened
  obtain rfl : p = input := Option.some.inj (hloc.symm.trans hloc₁)
  rw [← hfs₁] at hp hloc
  rcases hread : readStream host p w₁ with ⟨contents, w₂⟩
  obtain ⟨rfl, herr₂⟩ := readStream_granted hgrants hp hread
  obtain ⟨hfs₂, -⟩ := readStream_spec hread hp
  rw [← hfs₂] at hp hloc
  have hclean₂ : w₂.tick.err = none := herr₂.trans (herr₁.trans hclean)
  simp only [editTarget, hopen, hread, attempt_granted hgrants] at h
  rw [editError]
  split at h
  · next hfits =>
    rcases hcreate : call host (openWrite host.cwd target (createdMode host streamMode)) w₂.tick with
      ⟨output, w₃⟩
    obtain ⟨output, rfl, hcreated, herr₃⟩ :=
      call_of_ok (w := w₂.tick) hgrants (exists_openWrite hloc (.inr ⟨mode, bytes, hp⟩) _) hcreate
    obtain ⟨hloc₃, hcases⟩ := openWrite_eq_ok hcreated
    obtain rfl : p = output := Option.some.inj (hloc.symm.trans hloc₃)
    rcases hcases with ⟨hnone, -⟩ | ⟨mode', bytes', -, hup⟩
    · cases hp.symm.trans hnone
    rcases hwrite : fwriteAll host p (candidate.pieces bytes) w₃ with ⟨written, w₄⟩
    obtain ⟨rfl, herr₄⟩ := fwriteAll_granted hgrants hup.same hwrite
    have hclean₄ : w₄.tick.err = none := herr₄.trans (herr₃.trans hclean₂)
    simp only [hcreate, hwrite, World.hasError, hclean₄] at h
    obtain ⟨rfl, rfl⟩ := Prod.mk.inj h
    rw [if_pos hfits]
    exact ⟨hfits.symm, hclean₄⟩
  · next hfits =>
    obtain ⟨rfl, rfl⟩ := Prod.mk.inj h
    rw [if_neg hfits]
    exact ⟨(Bool.eq_false_iff.mpr hfits).symm, rfl⟩

/-! ### The compile command -/

theorem rewriteAll_err (host : Host) (project copy : Text) (values : List Text) (w : World) :
    (rewriteAll host project copy values w).2.err = w.err := by
  induction values generalizing w with
  | nil => rfl
  | cons value rest ih => exact (ih _).trans (rewritePath_err host project copy value w)

theorem compileArguments_err (host : Host) (project copy : Text) (values : List Text) (w : World) :
    (compileArguments host project copy values w).2.err = w.err := by
  have hrewrite := rewritePath_err host project copy
  fun_induction compileArguments <;> grind

theorem canonicalize_of_realpath (host : Host) {text : Text} {fs : FileSystem}
    (hreal : fs.realpath host.cwd text = some proj) (hproj : proj ≠ [])
    (hlen : (pathText proj).length < pathSize) :
    canonicalize host text fs = .ok (pathText proj, fs) := by
  have htext : canonicalText proj = pathText proj := if_neg hproj
  rw [canonicalize, hreal]
  dsimp only
  rw [htext, if_pos hlen]

/-- **The compile command.** It is built exactly when the database has a command for the file. -/
theorem buildCompileCommand_granted (candidate : Candidate) (copy : Text) (hgrants : host.Grants)
    (hclean : w.err = none)
    (hreal : w.fs.realpath host.cwd arguments.project = some proj) (hproj : proj ≠ [])
    (hlen : (pathText proj).length < pathSize) :
    (buildCompileCommand host arguments candidate copy w).1.isSome =
        (host.compileCommand w.fs arguments.compileDatabase candidate.path).isSome ∧
      ((buildCompileCommand host arguments candidate copy w).1 = none →
        (buildCompileCommand host arguments candidate copy w).2.err = some (.errno .invalid)) := by
  rw [buildCompileCommand]
  rcases hfound : host.compileCommand w.fs arguments.compileDatabase candidate.path with _ | source
  · have hcall : call host (sourceCommand host arguments candidate) w =
        (none, w.tick.raise (.errno .invalid)) := by
      rw [call, hgrants.calls]
      dsimp only
      rw [sourceCommand, hfound]
    rw [hcall]
    exact ⟨rfl, fun _ => rfl⟩
  · have hsource : sourceCommand host arguments candidate w.fs = .ok (source, w.fs) := by
      rw [sourceCommand, hfound]
    have hfoundCall : call host (sourceCommand host arguments candidate) w = (some source, w.tick) :=
      call_granted hgrants hsource
    have hproject : call host (canonicalize host arguments.project) w.tick =
        (some (pathText proj), w.tick.tick) :=
      call_granted hgrants (canonicalize_of_realpath host hreal hproj hlen)
    have hnoError : w.tick.hasError = false := World.hasError_eq_false_iff.mpr hclean
    rw [hfoundCall]
    dsimp only
    rw [hnoError, if_neg (by simp), hproject]
    dsimp only
    rw [if_neg]
    · exact ⟨rfl, fun h => by cases h⟩
    · rw [Bool.not_eq_true, World.hasError_eq_false_iff, compileArguments_err, rewritePath_err]
      exact hclean

/-! ### The phases before the compile check -/

/-- A file system that holds the mutant in a temporary directory at `top`, and is the original elsewhere. -/
structure MutantAt (host : Host) (candidate : Candidate) (fs fs' : FileSystem) (copy : Text)
    (proj rel top : Path) : Prop where
  located : fs'.At copy (copyPath top)
  image : ∀ rel', fs'.entry (copyPath top ++ rel') = mutantImage host candidate fs proj rel rel'
  elsewhere : ∀ q, ¬ copyPath top <+: q →
    fs'.entry q = if q = top then some (.directory 0o700) else fs.entry q

namespace Admissible

theorem length_project (h : Admissible host arguments candidate w proj rel mode bytes) :
    (pathText proj).length < pathSize := by
  obtain ⟨m, hm⟩ := w.fs.isDirectory_iff.mp h.directory
  have hfits := (h.fits [] rfl (by simp [hm])).1
  rwa [List.append_nil] at hfits

/-- A project that is found is copied, and no error is left on record. -/
theorem copied_granted (h : Admissible host arguments candidate w proj rel mode bytes)
    (hb : Begun host w w₁ top) (hgrants : host.Grants) :
    ∃ project found copied, call host (canonicalize host arguments.project) w₁ = (some project, found) ∧
      copyTree host project (copyText (temporaryText host w)) found = (true, copied) ∧ copied.err = none := by
  have hgrow : w.fs.GrowsTo w₁.fs := hb.made.growsTo_of_none hb.free
  have hproj := h.proj_ne_nil hb
  have hfound := call_granted hgrants
    (canonicalize_of_realpath host (realpath_mono h.project hgrow) hproj h.length_project)
  have hready := h.ready hb
  have hdst : w₁.fs.Vacant (copyPath top) := by
    refine ⟨hready.vacant, fun name hname => ?_, ?_⟩
    · rcases List.mem_append.mp hname with hname | hname
      · exact valid_of_entry hb.made.same name hname
      · exact List.mem_singleton.mp hname ▸ (by decide : ValidName "project".toList)
    · rw [copyPath, List.dropLast_concat]
      exact w₁.fs.isDirectory_iff.mpr ⟨_, hb.made.same⟩
  rcases hcopy : copyTree host (pathText proj) (copyText (temporaryText host w)) w₁.tick with ⟨result, copied⟩
  obtain ⟨rfl, herr⟩ := copyLevels_granted (w := w₁.tick) hgrants hready hdst
    (.inr (hgrow.isDirectory h.directory)) (Nat.le_add_left _ _) hcopy
  exact ⟨_, _, _, hfound, hcopy, herr⟩

theorem target_granted (h : Admissible host arguments candidate w proj rel mode bytes)
    (hb : Begun host w w₁ top) (hgrants : host.Grants) {copied : World}
    (hdone : CopyDone host w₁.fs copied.fs proj (copyPath top) true) :
    applyCandidate host arguments candidate (copyText (temporaryText host w)) copied =
        editTarget host candidate (copyText (temporaryText host w) ++ pathText rel) copied.tick ∧
      copied.fs.At (copyText (temporaryText host w) ++ pathText rel) (copyPath top ++ rel) ∧
      copied.fs.entry (copyPath top ++ rel) = some (.regular (createdMode host mode) bytes) := by
  have hready := h.ready hb
  have hgrow := hdone.1.growsTo hready.vacant
  have hcall : call host (canonicalize host arguments.project) copied = (some (pathText proj), copied.tick) :=
    call_granted hgrants (canonicalize_of_realpath host
      (realpath_mono h.project ((hb.made.growsTo_of_none hb.free).trans hgrow)) (h.proj_ne_nil hb)
      h.length_project)
  have hfile : copied.fs.entry (copyPath top ++ rel) = some (.regular (createdMode host mode) bytes) := by
    rw [hdone.2 rfl rel, copyImage, h.sameTree_begun hb rel, h.visible, h.file]
    rfl
  refine ⟨?_, (hready.destination_at.mono hgrow).descend_of_entry hfile, hfile⟩
  rw [applyCandidate, hcall]
  dsimp only
  rw [h.childPath_relativePath, if_pos (by rw [h.path, pathText_append]; simp)]

/-- The edit succeeds exactly when the candidate fits its file. -/
theorem edited_granted (h : Admissible host arguments candidate w proj rel mode bytes)
    (hb : Begun host w w₁ top) (hgrants : host.Grants) {copied edited : World} {result : Bool}
    (hdone : CopyDone host w₁.fs copied.fs proj (copyPath top) true) (hclean : copied.err = none)
    (hedit : applyCandidate host arguments candidate (copyText (temporaryText host w)) copied =
      (result, edited)) : result = candidate.fits bytes ∧ edited.err = editError candidate bytes := by
  obtain ⟨htarget, hat, hfile⟩ := h.target_granted hb hgrants hdone
  rw [htarget] at hedit
  exact editTarget_granted (w := copied.tick) hgrants hclean hat (h.fits rel h.visible (by simp [h.file])).2
    hfile hedit

theorem mutantAt (h : Admissible host arguments candidate w proj rel mode bytes) (hb : Begun host w w₁ top)
    {copied edited : World} (hdone : CopyDone host w₁.fs copied.fs proj (copyPath top) true)
    (hedit : applyCandidate host arguments candidate (copyText (temporaryText host w)) copied =
      (true, edited)) :
    MutantAt host candidate w.fs edited.fs (copyText (temporaryText host w)) proj rel top := by
  have hready := h.ready hb
  obtain ⟨hunder, hgrow, himage⟩ := h.edited hb hdone hedit
  refine ⟨(hready.destination_at.mono (hdone.1.growsTo hready.vacant)).mono hgrow, (himage rfl).2,
    fun q hq => ?_⟩
  rw [hunder q hq, hdone.1 q hq, hb.made q]

end Admissible

/-! ### The course of an execution -/

/-- The clock can be read while a command runs. -/
def Host.Steady (host : Host) : Prop :=
  ∀ n file argv fs clock pauses ending, (host.process n file argv fs).1 = .spawned clock pauses ending →
    clock = none ∧ ∀ pause ∈ pauses, pause = none

theorem poll_steady {pauses : List (Option ℕ)} {ending : Ending} {status : WaitStatus}
    (hpauses : ∀ pause ∈ pauses, pause = none) (h : poll pauses ending w = (.ended status, w')) :
    w'.err = w.err := by
  fun_induction poll pauses ending w with
  | case6 w ending clock pauses hclean ih =>
      obtain ⟨rfl, hrest⟩ := List.forall_mem_cons.mp hpauses
      exact ih hrest h
  | _ => simp_all

/-- A command that exits 0 leaves no error on record if there was none. -/
theorem runCommand_steady {command : List Text} {directory : Option Text} {timedOut : Bool}
    (hsteady : host.Steady) (hclean : w.err = none)
    (h : runCommand host command directory w = (0, timedOut, w')) : w'.err = none := by
  have hnoError : w.hasError = false := World.hasError_eq_false_iff.mpr hclean
  rcases hprocess : host.process w.launches.length (childFile command directory)
    (childArguments command directory) w.fs with ⟨process, fs⟩
  rcases hobserve : observe process w with ⟨outcome, w₁⟩
  simp only [runCommand, hnoError, Bool.false_eq_true, if_false, hprocess, hobserve, Prod.mk.injEq] at h
  obtain ⟨hzero, -, rfl⟩ := h
  obtain rfl := Outcome.result_eq_zero_iff.mp hzero
  cases process with
  | refused code => cases hobserve
  | spawned clock pauses ending =>
      obtain ⟨rfl, hpauses⟩ := hsteady _ _ _ _ _ _ _ (congrArg Prod.fst hprocess)
      exact (poll_steady hpauses hobserve).trans hclean

/-- What a prepared execution launches: the compile check, and the test command if the check exits 0. -/
theorem Prepared.launches_executeIn {temp project : Text} {command : CompileCommand}
    {found copied edited built : World} (hsteady : host.Steady)
    (h : Prepared host arguments candidate temp w project command found copied edited built) :
    ∃ compile result w', compile.fs = built.fs ∧
      executeIn host arguments candidate temp w = (true, result, w') ∧
      ((compile.outcome ≠ .ended (.exited 0) ∧ w'.launches = w.launches ++ [compile] ∧
          result.outcome = .inconclusive) ∨
        ∃ test, compile.outcome = .ended (.exited 0) ∧ w'.launches = w.launches ++ [compile, test] ∧
          test.fs = compile.after ∧ result.outcome = test.outcome.verdict) := by
  obtain ⟨compile, w₁, hrun, happend, hbefore, hafter, -⟩ :=
    runCommand_of_noError host command.arguments (some command.directory) h.hasError_built
  rw [h.launches] at happend
  by_cases hpassed : compile.outcome = .ended (.exited 0)
  · have hzero : compile.outcome.result = 0 := Outcome.result_eq_zero_iff.mpr hpassed
    rw [hzero] at hrun
    have hclean : w₁.err = none :=
      runCommand_steady hsteady (World.hasError_eq_false_iff.mp h.hasError_built) hrun
    have hgo : executeIn host arguments candidate temp w =
        executeTest host arguments candidate project (copyText temp) w₁ := by
      simp only [executeIn, h.found_eq, h.copied_eq, h.edited_eq, h.built_eq, hrun]
      rw [if_neg (by simp [hpassed])]
    rcases hrewrite : rewriteAll host project (copyText temp) arguments.testCommand w₁ with ⟨values, w₂⟩
    have herr := rewriteAll_err host project (copyText temp) arguments.testCommand w₁
    have hlaunches := rewriteAll_launches host project (copyText temp) arguments.testCommand w₁
    have hfs := rewriteAll_fs host project (copyText temp) arguments.testCommand w₁
    rw [hrewrite] at herr hlaunches hfs
    have hnoError : w₂.hasError = false := World.hasError_eq_false_iff.mpr (herr.trans hclean)
    obtain ⟨test, w₃, htest, happend', hbefore', -⟩ :=
      runCommand_of_noError host values (some (copyText temp)) hnoError
    have hin : executeTest host arguments candidate project (copyText temp) w₁ =
        (true, ⟨candidate, test.outcome.verdict, test.outcome.result, test.outcome == .timedOut⟩, w₃) := by
      simp [executeTest, hrewrite, hnoError, htest, Outcome.verdict]
    refine ⟨compile, _, _, hbefore, hgo.trans hin, .inr ⟨test, hpassed, ?_, ?_, rfl⟩⟩
    · rw [happend', hlaunches, happend, List.append_assoc]
      rfl
    · exact hbefore'.trans (hfs.trans hafter.symm)
  · have hresult : compile.outcome.result ≠ 0 := fun hzero => hpassed (Outcome.result_eq_zero_iff.mp hzero)
    refine ⟨compile, ⟨candidate, .inconclusive, compile.outcome.result, compile.outcome == .timedOut⟩, w₁,
      hbefore, ?_, .inl ⟨hpassed, happend, rfl⟩⟩
    simp only [executeIn, h.found_eq, h.copied_eq, h.edited_eq, h.built_eq, hrun]
    rw [if_pos (by simp [hresult])]

/-- **The course of an execution** that is granted every call: what it launches, on which file systems, and what
it decides. -/
inductive Course (host : Host) (arguments : Arguments) (candidate : Candidate) (w : World)
    (proj rel top : Path) (bytes : Text) : Prop
  /-- The span does not hold the original text. -/
  | changed (hfits : candidate.fits bytes = false) (hlaunched : launched host arguments candidate w = [])
      (hcompleted : (execute host arguments candidate w).1 = false)
      (herr : (execute host arguments candidate w).2.2.err = some sourceChanged)
  /-- The database has no command for the file. -/
  | unknown (fs : FileSystem)
      (hmutant : MutantAt host candidate w.fs fs (copyText (temporaryText host w)) proj rel top)
      (hfits : candidate.fits bytes = true)
      (hcommand : host.compileCommand fs arguments.compileDatabase candidate.path = none)
      (hlaunched : launched host arguments candidate w = [])
      (hcompleted : (execute host arguments candidate w).1 = false)
      (herr : (execute host arguments candidate w).2.2.err = some (.errno .invalid))
  /-- The mutant does not compile. -/
  | rejected (compile : Launch)
      (hmutant : MutantAt host candidate w.fs compile.fs (copyText (temporaryText host w)) proj rel top)
      (hfits : candidate.fits bytes = true)
      (hcommand : (host.compileCommand compile.fs arguments.compileDatabase candidate.path).isSome = true)
      (hlaunched : launched host arguments candidate w = [compile])
      (houtcome : compile.outcome ≠ .ended (.exited 0))
      (hcompleted : (execute host arguments candidate w).1 = true)
      (hverdict : (execute host arguments candidate w).2.1.outcome = .inconclusive)
  /-- The mutant compiles and is tested. -/
  | tested (compile test : Launch)
      (hmutant : MutantAt host candidate w.fs compile.fs (copyText (temporaryText host w)) proj rel top)
      (hfits : candidate.fits bytes = true)
      (hcommand : (host.compileCommand compile.fs arguments.compileDatabase candidate.path).isSome = true)
      (hlaunched : launched host arguments candidate w = [compile, test])
      (houtcome : compile.outcome = .ended (.exited 0)) (hfs : test.fs = compile.after)
      (hcompleted : (execute host arguments candidate w).1 = true)
      (hverdict : (execute host arguments candidate w).2.1.outcome = test.outcome.verdict)

/-- A temporary directory that can be made is made. -/
theorem begun_of_vacant (hgrants : host.Grants)
    (hloc : w.fs.locate host.cwd false (temporaryText host w) = some top) (hvacant : w.fs.Vacant top) :
    ∃ w₁, makeTemporary host w = (some (temporaryText host w), w₁) ∧ Begun host w w₁ top := by
  rcases hcall : call host (mkdir host.cwd (temporaryText host w) 0o700) w with ⟨made, w₁⟩
  have hshort : (Entry.directory 0o700).Short := trivial
  obtain ⟨u, rfl, hmade, -⟩ := call_of_ok hgrants (exists_make hloc hvacant hshort) hcall
  have htemp : makeTemporary host w = (some (temporaryText host w), w₁) := by rw [makeTemporary, hcall]
  obtain ⟨p, hp, hfree, hup⟩ := make_eq_ok hmade
  obtain rfl := Option.some.inj (hloc.symm.trans hp)
  exact ⟨w₁, htemp, hloc, hfree, hup⟩

/-- An execution is its part in the temporary directory, and the removal, which launches nothing and leaves
the error on record. -/
theorem execute_of_executeIn {temp : Text} {w₁ w₂ : World} {completed : Bool} {result : Result}
    {launches : List Launch} (htemp : makeTemporary host w = (some temp, w₁))
    (hin : executeIn host arguments candidate temp w₁ = (completed, result, w₂))
    (hall : w₂.launches = w.launches ++ launches) :
    launched host arguments candidate w = launches ∧ (execute host arguments candidate w).1 = completed ∧
      (execute host arguments candidate w).2.1 = result ∧
      (execute host arguments candidate w).2.2.err = w₂.err := by
  have hexecute : execute host arguments candidate w = (completed, result, (removeTree host temp w₂).2) := by
    simp only [execute, htemp, hin]
  rw [launched, hexecute]
  exact ⟨World.launchedSince_of_append (by rw [removeTree_launches, hall]), rfl, rfl, removeTree_err _ _⟩

/-- Nothing is launched before the compile command is built. -/
theorem launches_edited {copy project : Text} {w₁ found copied edited : World} {fits : Bool}
    (hfound : call host (canonicalize host arguments.project) w₁ = (some project, found))
    (hcopied : copyTree host project copy found = (true, copied))
    (hedit : applyCandidate host arguments candidate copy copied = (fits, edited)) :
    edited.launches = w₁.launches := by
  have hcall := call_launches host (canonicalize host arguments.project) w₁
  have hcopy := copyTree_launches host project copy found
  have happly := applyCandidate_launches host arguments candidate copy copied
  rw [hfound] at hcall
  rw [hcopied] at hcopy
  rw [hedit] at happly
  exact happly.trans (hcopy.trans hcall)

/-- The course of an execution from the edited copy on. -/
theorem course_of_edited (hgrants : host.Grants) (hsteady : host.Steady)
    (hadm : Admissible host arguments candidate w proj rel mode bytes) {project : Text}
    {w₁ found copied edited : World} (htemp : makeTemporary host w = (some (temporaryText host w), w₁))
    (hb : Begun host w w₁ top)
    (hfound : call host (canonicalize host arguments.project) w₁ = (some project, found))
    (hcopied : copyTree host project (copyText (temporaryText host w)) found = (true, copied))
    (hedit : applyCandidate host arguments candidate (copyText (temporaryText host w)) copied = (true, edited))
    (hfits : candidate.fits bytes = true) (hclean : edited.err = none) :
    Course host arguments candidate w proj rel top bytes := by
  have hdone := hadm.copied hb hfound hcopied
  have hmutant := hadm.mutantAt hb hdone hedit
  have hlaunches₁ : w₁.launches = w.launches := by
    simpa [htemp] using makeTemporary_launches host w
  have hgrow : w.fs.GrowsTo edited.fs := ((hb.made.growsTo_of_none hb.free).trans
    (hdone.1.growsTo (hadm.ready hb).vacant)).trans (hadm.edited hb hdone hedit).2.1
  obtain ⟨hsome, hinvalid⟩ := buildCompileCommand_granted candidate (copyText (temporaryText host w))
    hgrants hclean (realpath_mono hadm.project hgrow) (hadm.proj_ne_nil hb) hadm.length_project
  have hlaunches := buildCompileCommand_launches host arguments candidate
    (copyText (temporaryText host w)) edited
  have hfs := buildCompileCommand_fs host arguments candidate (copyText (temporaryText host w)) edited
  rcases hbuild : buildCompileCommand host arguments candidate (copyText (temporaryText host w)) edited with
    ⟨_ | command, built⟩
  all_goals
    rw [hbuild] at hsome hinvalid hlaunches hfs
    dsimp only at hsome hinvalid hlaunches hfs
  · have hin : executeIn host arguments candidate (temporaryText host w) w₁ =
        (false, .initial candidate, built) := by
      simp only [executeIn, hfound, hcopied, hedit, hbuild]
    obtain ⟨hlaunched, hcompleted, -, hend⟩ := execute_of_executeIn htemp hin
      ((hlaunches.trans ((launches_edited hfound hcopied hedit).trans hlaunches₁)).trans
        (List.append_nil _).symm)
    have hcommand : host.compileCommand edited.fs arguments.compileDatabase candidate.path = none :=
      Option.isNone_iff_eq_none.mp (Option.isSome_eq_false_iff.mp hsome.symm)
    exact .unknown edited.fs hmutant hfits hcommand hlaunched hcompleted (hend.trans (hinvalid rfl))
  · have hprepared : Prepared host arguments candidate (temporaryText host w) w₁ project command found
        copied edited built := ⟨hfound, hcopied, hedit, hbuild⟩
    obtain ⟨compile, result, w₂, hbefore, hin, hends⟩ := hprepared.launches_executeIn hsteady
    rw [← hbefore.trans hfs] at hmutant hsome
    rw [hlaunches₁] at hends
    rcases hends with ⟨hrejected, happend, hverdict⟩ | ⟨test, hpassed, happend, hsame, hverdict⟩
    · obtain ⟨hlaunched, hcompleted, hresult, -⟩ := execute_of_executeIn htemp hin happend
      exact .rejected compile hmutant hfits hsome.symm hlaunched hrejected hcompleted
        (by rw [hresult, hverdict])
    · obtain ⟨hlaunched, hcompleted, hresult, -⟩ := execute_of_executeIn htemp hin happend
      exact .tested compile test hmutant hfits hsome.symm hlaunched hpassed hsame hcompleted
        (by rw [hresult, hverdict])

/-- **An execution that is granted every call.** The mutant is compiled if and only if the candidate fits its
file and the database has a command for it, and it is tested if and only if it compiles. -/
theorem execute_granted (hgrants : host.Grants) (hsteady : host.Steady)
    (hadm : Admissible host arguments candidate w proj rel mode bytes)
    (hloc : w.fs.locate host.cwd false (temporaryText host w) = some top) (hvacant : w.fs.Vacant top) :
    Course host arguments candidate w proj rel top bytes := by
  obtain ⟨w₁, htemp, hb⟩ := begun_of_vacant hgrants hloc hvacant
  obtain ⟨project, found, copied, hfound, hcopied, hclean⟩ := hadm.copied_granted hb hgrants
  rcases hedit : applyCandidate host arguments candidate (copyText (temporaryText host w)) copied with
    ⟨fits, edited⟩
  obtain ⟨hfits, herr⟩ := hadm.edited_granted hb hgrants (hadm.copied hb hfound hcopied) hclean hedit
  cases fits with
  | false =>
      have hin : executeIn host arguments candidate (temporaryText host w) w₁ =
          (false, .initial candidate, edited) := by
        simp only [executeIn, hfound, hcopied, hedit]
      have hlaunches₁ : w₁.launches = w.launches := by
        simpa [htemp] using makeTemporary_launches host w
      obtain ⟨hlaunched, hcompleted, -, hend⟩ := execute_of_executeIn htemp hin
        (((launches_edited hfound hcopied hedit).trans hlaunches₁).trans (List.append_nil _).symm)
      refine .changed hfits.symm hlaunched hcompleted (hend.trans (herr.trans ?_))
      rw [editError, ← hfits]
      rfl
  | true =>
      exact course_of_edited hgrants hsteady hadm htemp hb hfound hcopied hedit hfits.symm
        (by rw [herr, editError, if_pos hfits.symm])

end P101Test.Mutation
