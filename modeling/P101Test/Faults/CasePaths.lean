import Mathlib.Data.List.Nodup
import P101Test.Faults.Logs

/-!
# The path names of the cases

Making the path names of a case either records an error or leaves all of them whole: the longest of them is
checked, and it leaves room for the others. The path names of one case are distinct, and they are not those
of another case of the same walk, because the number of a case can be read off any of them.

## Main definitions

* `casePaths`: the eleven path names of a result.
* `caseFiles`: what stands behind the name of the run directory in each of them.
* `caseLabel`: what tells one case from another.

## Main results

* `makeLogPaths_exact`: an error, or whole and distinct path names.
* `disjoint_casePaths`: two cases have no path name in common.
* `casePaths_law`: both together.
-/

namespace P101Test.Faults

open Stdio

variable {host : Host} {arguments : Arguments} {index index' : ℕ} {result result' : RunResult} {w w' : World}

/-- The path names of a case. -/
def casePaths (result : RunResult) : List Text :=
  [result.runDir, result.pipelineStdoutPath, result.pipelineStderrPath, result.captureDir,
    result.analysisDir, result.resourceLogPath, result.callLogPath, result.faultLogPath,
    result.resourceJsonPath, result.analysisJsonPath, result.reportPath]

/-- What stands behind the name of the run directory in each of them. -/
def caseFiles : List Text :=
  ["".toList, ".stdout.txt".toList, ".stderr.txt".toList, "/capture".toList, "/analysis".toList,
    "/capture/resources.log".toList, "/capture/calls.log".toList, "/capture/fault.log".toList,
    "/analysis/resource-report.json".toList, "/analysis/correlated-report.json".toList,
    "/analysis/correlated-report.txt".toList]

/-- What tells one case from another. -/
def caseLabel (index : ℕ) : Text :=
  if index = 0 then "baseline".toList else "fault-".toList ++ decimal index

/-- The path names a case should have: the prefix, the process, the label and the file. -/
def intendedPaths (pid : ℕ) (arguments : Arguments) (index : ℕ) : List Text :=
  caseFiles.map fun file =>
    arguments.logPrefix.getD defaultLogPrefix ++ '-' :: decimal pid ++ '-' :: caseLabel index ++
      ".run".toList ++ file

theorem runName_eq (pid : ℕ) (arguments : Arguments) (index : ℕ) :
    runName pid arguments index = arguments.logPrefix.getD defaultLogPrefix ++ '-' :: decimal pid ++
      '-' :: caseLabel index ++ ".run".toList := by
  unfold runName caseLabel
  rw [List.append_assoc (_ ++ '-' :: decimal pid)]
  congr 1
  split <;> rfl

theorem intendedPaths_eq (pid : ℕ) (arguments : Arguments) (index : ℕ) :
    intendedPaths pid arguments index = caseFiles.map (runName pid arguments index ++ ·) := by
  rw [intendedPaths, runName_eq]

/-! ### One case -/

/-- The world with the error about a path name on record. -/
def World.tooLong (w : World) : World := w.raise (.usage pathTooLong)

/-- The directories and the names that are joined, in order. -/
def joined (name : Text) : List (Text × Text) :=
  let runDir := cut pathLength name
  let captureDir := cut pathLength (runDir ++ '/' :: "capture".toList)
  let analysisDir := cut pathLength (runDir ++ '/' :: "analysis".toList)
  [(runDir, "capture".toList), (runDir, "analysis".toList), (captureDir, "resources.log".toList),
    (captureDir, "calls.log".toList), (captureDir, "fault.log".toList),
    (analysisDir, "resource-report.json".toList), (analysisDir, "correlated-report.json".toList),
    (analysisDir, "correlated-report.txt".toList)]

/-- A directory and a name that do not fit together. -/
def Long (pair : Text × Text) : Prop := pathLength ≤ (pair.1 ++ '/' :: pair.2).length

instance (pair : Text × Text) : Decidable (Long pair) := inferInstanceAs (Decidable (_ ≤ _))

theorem foldl_joinPath (pairs : List (Text × Text)) (w : World) :
    pairs.foldl (fun w pair => (joinPath pair.1 pair.2 w).2) w =
      if ∃ pair ∈ pairs, Long pair then w.tooLong else w := by
  induction pairs generalizing w with
  | nil => simp
  | cons pair pairs ih =>
      have hstep : (joinPath pair.1 pair.2 w).2 = if Long pair then w.tooLong else w := rfl
      rw [List.foldl_cons, ih, hstep]
      by_cases hpair : Long pair
      · have hidem : w.tooLong.tooLong = w.tooLong := rfl
        simp [hpair, hidem]
      · simp only [hpair, if_false, List.exists_mem_cons_iff, false_or]

theorem makeLogPaths_world (host : Host) (arguments : Arguments) (index : ℕ) (result : RunResult) (w : World) :
    (makeLogPaths host arguments index result w).2 =
      if ∃ pair ∈ joined (runName host.pid arguments index), Long pair then w.tooLong else w :=
  foldl_joinPath (joined (runName host.pid arguments index)) w

/-- There is room for the longest name exactly if there is room for all of them. -/
theorem long_joined_iff (name : Text) :
    (∃ pair ∈ joined name, Long pair) ↔ pathLength ≤ name.length + 32 := by
  simp [joined, Long, cut, pathLength]
  omega

theorem casePaths_of_short (h : (runName host.pid arguments index).length + 32 < pathLength) :
    casePaths (makeLogPaths host arguments index result w).1 = intendedPaths host.pid arguments index := by
  have hcut : ∀ file ∈ caseFiles, cut pathLength (runName host.pid arguments index ++ file) =
      runName host.pid arguments index ++ file := by
    have hshort : ∀ file ∈ caseFiles, file.length ≤ 32 := by decide
    intro file hfile
    have := hshort file hfile
    exact cut_of_lt (by rw [List.length_append]; omega)
  rw [intendedPaths_eq]
  have hpaths : casePaths (makeLogPaths host arguments index result w).1 =
      let name := runName host.pid arguments index
      let captureDir := cut pathLength (cut pathLength name ++ '/' :: "capture".toList)
      let analysisDir := cut pathLength (cut pathLength name ++ '/' :: "analysis".toList)
      [cut pathLength name, cut pathLength (name ++ ".stdout.txt".toList),
        cut pathLength (name ++ ".stderr.txt".toList), captureDir, analysisDir,
        cut pathLength (captureDir ++ '/' :: "resources.log".toList),
        cut pathLength (captureDir ++ '/' :: "calls.log".toList),
        cut pathLength (captureDir ++ '/' :: "fault.log".toList),
        cut pathLength (analysisDir ++ '/' :: "resource-report.json".toList),
        cut pathLength (analysisDir ++ '/' :: "correlated-report.json".toList),
        cut pathLength (analysisDir ++ '/' :: "correlated-report.txt".toList)] := rfl
  rw [hpaths]
  generalize runName host.pid arguments index = name at hcut ⊢
  have hrun : cut pathLength name = name := by simpa using hcut [] (by decide)
  have hjoin : ∀ dir file : Text, dir ++ '/' :: file ∈ caseFiles →
      cut pathLength (name ++ dir ++ '/' :: file) = name ++ (dir ++ '/' :: file) := fun dir file hfile => by
    rw [List.append_assoc]
    exact hcut _ hfile
  have hcapture : cut pathLength (name ++ '/' :: "capture".toList) = name ++ "/capture".toList :=
    hcut _ (by decide)
  have hanalysis : cut pathLength (name ++ '/' :: "analysis".toList) = name ++ "/analysis".toList :=
    hcut _ (by decide)
  have hresources := hjoin "/capture".toList "resources.log".toList (by decide)
  have hcalls := hjoin "/capture".toList "calls.log".toList (by decide)
  have hfault := hjoin "/capture".toList "fault.log".toList (by decide)
  have hreport := hjoin "/analysis".toList "resource-report.json".toList (by decide)
  have hjson := hjoin "/analysis".toList "correlated-report.json".toList (by decide)
  have htext := hjoin "/analysis".toList "correlated-report.txt".toList (by decide)
  have hstdout := hcut ".stdout.txt".toList (by decide)
  have hstderr := hcut ".stderr.txt".toList (by decide)
  dsimp only
  rw [hrun, hcapture, hanalysis, hresources, hcalls, hfault, hreport, hjson, htext, hstdout, hstderr]
  exact congrArg (· :: _) (List.append_nil name).symm

/-! ### Two cases -/

theorem runName_append (pid : ℕ) (arguments : Arguments) (index : ℕ) (file : Text) :
    runName pid arguments index ++ file =
      arguments.logPrefix.getD defaultLogPrefix ++ '-' :: decimal pid ++
        '-' :: (caseLabel index ++ '.' :: ("run".toList ++ file)) := by
  rw [runName_eq, List.append_assoc, List.append_assoc]
  rfl

theorem dot_notMem_caseLabel (index : ℕ) : '.' ∉ caseLabel index := by
  unfold caseLabel
  split
  · decide
  · intro hmem
    rcases List.mem_append.mp hmem with hmem | hmem
    · exact absurd hmem (by decide)
    · exact absurd (isDigit_of_mem_decimal hmem) (by decide)

/-- The label can be read off a path name. -/
theorem caseLabel_of_eq {rest rest' : Text}
    (h : caseLabel index ++ '.' :: rest = caseLabel index' ++ '.' :: rest') :
    caseLabel index = caseLabel index' := by
  have hread : ∀ (index : ℕ) (rest : Text),
      (caseLabel index ++ '.' :: rest).takeWhile (· ≠ '.') = caseLabel index := fun index rest => by
    rw [List.takeWhile_append_of_pos fun c hc => by
      simpa using fun heq : c = '.' => dot_notMem_caseLabel index (heq ▸ hc)]
    simp
  rw [← hread index rest, h, hread]

theorem caseLabel_injective : Function.Injective caseLabel := by
  intro index index' h
  have hne : ∀ digits : Text, "baseline".toList ≠ "fault-".toList ++ digits := fun digits heq => by
    exact absurd (List.cons.inj heq).1 (by decide)
  unfold caseLabel at h
  split at h <;> split at h
  · omega
  · exact absurd h (hne _)
  · exact absurd h.symm (hne _)
  · exact decimal_injective (List.append_cancel_left h)

/-- Two path names of one case, or of two cases with one name, differ in their files. -/
theorem nodup_intendedPaths (pid : ℕ) (arguments : Arguments) (index : ℕ) :
    (intendedPaths pid arguments index).Nodup := by
  rw [intendedPaths_eq]
  exact List.Nodup.map (List.append_right_injective _) (by decide)

/-- **Two cases.** A path name of one case is not a path name of another. -/
theorem disjoint_intendedPaths (pid : ℕ) (arguments : Arguments) (hne : index ≠ index') :
    List.Disjoint (intendedPaths pid arguments index) (intendedPaths pid arguments index') := by
  intro path hpath hpath'
  rw [intendedPaths_eq, List.mem_map] at hpath hpath'
  obtain ⟨file, -, rfl⟩ := hpath
  obtain ⟨file', -, heq⟩ := hpath'
  rw [runName_append, runName_append] at heq
  have hlabel := caseLabel_of_eq (List.cons.inj (List.append_cancel_left heq)).2
  exact hne (caseLabel_injective hlabel.symm)

/-- **The path names of a case.** Making them records the error about a path name, or they are the
intended ones. -/
theorem makeLogPaths_exact (host : Host) (arguments : Arguments) (index : ℕ) (result : RunResult) (w : World) :
    (makeLogPaths host arguments index result w).2 = w.tooLong ∨
      (makeLogPaths host arguments index result w).2 = w ∧
      casePaths (makeLogPaths host arguments index result w).1 = intendedPaths host.pid arguments index ∧
      ∀ path ∈ intendedPaths host.pid arguments index, path.length < pathLength := by
  rw [makeLogPaths_world]
  by_cases hlong : ∃ pair ∈ joined (runName host.pid arguments index), Long pair
  · exact .inl (if_pos hlong)
  · have hshort := Nat.not_le.mp ((long_joined_iff _).not.mp hlong)
    refine .inr ⟨if_neg hlong, casePaths_of_short hshort, fun path hpath => ?_⟩
    have hfiles : ∀ file ∈ caseFiles, file.length ≤ 32 := by decide
    rw [intendedPaths_eq, List.mem_map] at hpath
    obtain ⟨file, hfile, rfl⟩ := hpath
    have := hfiles file hfile
    rw [List.length_append]
    omega

/-- **The path names of a walk.** Making the path names of a case records an error, or it leaves the
eleven intended ones, whole and distinct; and when it leaves those of two cases, they have none in
common. -/
theorem casePaths_law (host : Host) (arguments : Arguments) (index : ℕ) (result : RunResult) (w : World) :
    (makeLogPaths host arguments index result w).2 = w.tooLong ∨
      (makeLogPaths host arguments index result w).2 = w ∧
      casePaths (makeLogPaths host arguments index result w).1 = intendedPaths host.pid arguments index ∧
      (∀ path ∈ casePaths (makeLogPaths host arguments index result w).1, path.length < pathLength) ∧
      (casePaths (makeLogPaths host arguments index result w).1).Nodup ∧
      ∀ index' result' w', index' ≠ index →
        (makeLogPaths host arguments index' result' w').2 = w'.tooLong ∨
          List.Disjoint (casePaths (makeLogPaths host arguments index result w).1)
            (casePaths (makeLogPaths host arguments index' result' w').1) := by
  rcases makeLogPaths_exact host arguments index result w with herror | ⟨hworld, hpaths, hwhole⟩
  · exact .inl herror
  · refine .inr ⟨hworld, hpaths, hpaths ▸ hwhole, hpaths ▸ nodup_intendedPaths _ _ _,
      fun index' result' w' hne => ?_⟩
    rcases makeLogPaths_exact host arguments index' result' w' with herror | ⟨-, hpaths', -⟩
    · exact .inl herror
    · rw [hpaths, hpaths']
      exact .inr (disjoint_intendedPaths _ _ hne.symm)

end P101Test.Faults
