import P101Test.Mutation.Verdict
import P101Test.Mutation.CopySpec
import P101Test.Mutation.RemoveSpec
import P101Test.Mutation.EditSpec

/-!
# One mutation, and the original left alone

The copy, the edit and the removal put together. When the compile check of a candidate is launched,
the tree it is launched on is the image of the project with one span of one file replaced. Between
the commands it launches, on every path through an execution, the tool changes nothing in the
project.

## Main definitions

* `Admissible`: a project that fits the path buffers, a candidate in it, and a temporary directory
  outside it.
* `mutantImage`: the image of the project with the candidate's span replaced.
* `KeepsProject`: the tool's own part of a run leaves the project alone.

## Main results

* `Admissible.ready`: the circumstances of the copy.
* `Prepared.image`: what the compile check meets.
* `single_mutation`: the single-mutation law.
-/

namespace P101Test.Mutation

open FileSystem Stdio

variable {host : Host} {arguments : Arguments} {candidate : Candidate} {w w' : World}
  {proj rel : Path} {mode : ℕ} {bytes : Text}

/-! ### The temporary directory -/

theorem length_temporaryText (host : Host) (w : World) : (temporaryText host w).length = 25 := by
  rw [temporaryText, List.length_append, (host.temporary w.calls).2.1]
  rfl

theorem isAbsolute_temporaryText (host : Host) (w : World) :
    isAbsolute (temporaryText host w) = true := rfl

theorem plain_temporaryText (host : Host) (w : World) :
    (temporaryText host w).getLast? ≠ some '/' := by
  refine getLast?_ne_slash ?_ (host.temporary w.calls).2.2 _
  have hlen := (host.temporary w.calls).2.1
  intro hnil
  simp [hnil] at hlen

theorem copyText_temporaryText (host : Host) (w : World) :
    copyText (temporaryText host w) = temporaryText host w ++ '/' :: "project".toList := by
  have hlen : (temporaryText host w ++ '/' :: "project".toList).length < pathSize := by
    rw [List.length_append, length_temporaryText]
    decide
  exact cut_of_lt hlen

/-- The temporary directory is a new, empty one. -/
theorem makeTemporary_spec {temp : Text} (h : makeTemporary host w = (some temp, w')) :
    temp = temporaryText host w ∧ ∃ top, w.fs.locate host.cwd false temp = some top ∧
      w.fs.entry top = none ∧ w.fs.UpdatedAt w'.fs top (some (.directory 0o700)) := by
  unfold makeTemporary at h
  split at h
  · exact absurd h (by simp)
  · next u w₁ hcall =>
    simp only [Prod.mk.injEq, Option.some.injEq] at h
    obtain ⟨rfl, rfl⟩ := h
    exact ⟨rfl, make_eq_ok (call_some hcall).1⟩

/-- The temporary directory lies outside the project, and the project outside it. -/
def TemporaryOutside (host : Host) (temp : Text) (proj : Path) (fs : FileSystem) : Prop :=
  ∀ top, fs.locate host.cwd false temp = some top →
    ¬ proj <+: top ∧ ((fs.entry top).isSome = true → ¬ top <+: proj)

instance (host : Host) (temp : Text) (proj : Path) (fs : FileSystem) :
    Decidable (TemporaryOutside host temp proj fs) :=
  match h : fs.locate host.cwd false temp with
  | none => .isTrue fun top htop => by simp [h] at htop
  | some top => decidable_of_iff
      (¬ proj <+: top ∧ ((fs.entry top).isSome = true → ¬ top <+: proj))
      ⟨fun ht top' htop' => Option.some.inj (h.symm.trans htop') ▸ ht, fun ht => ht top h⟩

/-- The tree below a location is the same in two file systems. -/
def SameTree (proj : Path) (fs fs' : FileSystem) : Prop :=
  ∀ rel, fs'.entry (proj ++ rel) = fs.entry (proj ++ rel)

/-- A change below a location that lies apart from the project leaves the project alone. -/
theorem sameTree_of_changesUnder {fs fs' : FileSystem} {top : Path} (h : fs.ChangesUnder fs' top)
    (hout : ¬ proj <+: top) (hin : ¬ top <+: proj) : SameTree proj fs fs' := by
  refine fun rel => h _ fun hprefix => ?_
  rcases List.prefix_or_prefix_of_prefix hprefix (List.prefix_append proj rel) with h' | h'
  · exact hin h'
  · exact hout h'

/-- The removal of a temporary directory outside the project leaves the project alone. -/
theorem sameTree_removeTree (host : Host) (w₀ : World)
    (h : TemporaryOutside host (temporaryText host w₀) proj w.fs) :
    SameTree proj w.fs (removeTree host (temporaryText host w₀) w).2.fs := by
  have hroom : (temporaryText host w₀).length + 4 < pathSize := by
    simp [length_temporaryText, pathSize]
  rcases hremove : removeTree host (temporaryText host w₀) w with ⟨removed, w₁⟩
  rcases removeTree_frame hroom (isAbsolute_temporaryText host w₀) (plain_temporaryText host w₀)
    hremove with hfs | ⟨top, htop, hsome, hunder⟩
  · exact fun rel => by rw [hfs]
  · obtain ⟨hout, hin⟩ := h top (htop.locate (by simp [length_temporaryText, pathMax]) host.cwd)
    exact sameTree_of_changesUnder hunder hout (hin hsome)

/-! ### The circumstances of an execution -/

/-- A project directory that fits the path buffers, a candidate that is a regular file of it reached
through no ignored name, and a temporary directory outside it. -/
structure Admissible (host : Host) (arguments : Arguments) (candidate : Candidate) (w : World)
    (proj rel : Path) (mode : ℕ) (bytes : Text) : Prop where
  project : w.fs.realpath host.cwd arguments.project = some proj
  directory : w.fs.isDirectory proj = true
  path : candidate.path = pathText (proj ++ rel)
  file : w.fs.entry (proj ++ rel) = some (.regular mode bytes)
  visible : rel.any ignoredName = false
  fits : ∀ rel, rel.any ignoredName = false → (w.fs.entry (proj ++ rel)).isSome = true →
    (pathText (proj ++ rel)).length < pathSize ∧
      (copyText (temporaryText host w) ++ pathText rel).length < pathSize
  outside : TemporaryOutside host (temporaryText host w) proj w.fs

/-- Path names fit when every location of the file system does, with room for the path name of the
copy. -/
theorem fits_of_keys {fs : FileSystem} {copy : Text} (hproj : proj ≠ [])
    (h : ∀ q ∈ fs.table.keys, (pathText q).length + copy.length < pathSize) (rel : Path)
    (hpresent : (fs.entry (proj ++ rel)).isSome = true) :
    (pathText (proj ++ rel)).length < pathSize ∧ (copy ++ pathText rel).length < pathSize := by
  obtain ⟨e, he⟩ := Option.isSome_iff_exists.mp hpresent
  have hlen := h _ (AList.mem_keys.mp (mem_table_of_entry (by simp [hproj]) he))
  rw [pathText_append, List.length_append] at hlen ⊢
  rw [List.length_append]
  omega

/-- The location of the copy in the temporary directory. -/
def copyPath (top : Path) : Path := top ++ ["project".toList]

/-- What the compile check of a candidate meets at a relative location of the copy. -/
def mutantImage (host : Host) (candidate : Candidate) (fs : FileSystem) (proj rel rel' : Path) :
    Option Entry :=
  match copyImage host fs proj rel' with
  | some (.regular mode bytes) =>
    some (.regular mode (if rel' = rel then candidate.splice bytes else bytes))
  | e => e

/-- The world right after the temporary directory was made at `top`. -/
structure Begun (host : Host) (w w₁ : World) (top : Path) : Prop where
  located : w.fs.locate host.cwd false (temporaryText host w) = some top
  free : w.fs.entry top = none
  made : w.fs.UpdatedAt w₁.fs top (some (.directory 0o700))

/-- Its path name leads there as long as nothing else changes. -/
theorem Begun.temporary_at {w₁ : World} {top : Path} {fs : FileSystem} (h : Begun host w w₁ top)
    (hunder : w₁.fs.ChangesUnder fs top) : fs.At (temporaryText host w) top :=
  (at_of_locate h.located (isAbsolute_temporaryText host w) (plain_temporaryText host w)).mono
    (((h.made.changesUnder List.prefix_rfl).trans hunder).growsTo h.free)

namespace Admissible

variable {w₁ : World} {top : Path}

theorem proj_ne_nil (h : Admissible host arguments candidate w proj rel mode bytes)
    (hb : Begun host w w₁ top) : proj ≠ [] := by
  rintro rfl
  exact (h.outside top hb.located).1 List.nil_prefix

theorem not_prefix (h : Admissible host arguments candidate w proj rel mode bytes)
    (hb : Begun host w w₁ top) : ¬ proj <+: top := (h.outside top hb.located).1

/-- The temporary directory is new, so nothing of the project lies in it. -/
theorem not_prefix' (h : Admissible host arguments candidate w proj rel mode bytes)
    (hb : Begun host w w₁ top) : ¬ top <+: proj := by
  rintro ⟨r, rfl⟩
  obtain ⟨m, hm⟩ := w.fs.isDirectory_iff.mp h.directory
  simp [entry_append_eq_none hb.free r] at hm

theorem rel_ne_nil (h : Admissible host arguments candidate w proj rel mode bytes) : rel ≠ [] := by
  rintro rfl
  obtain ⟨m, hm⟩ := w.fs.isDirectory_iff.mp h.directory
  simpa [hm] using h.file

/-- While only the temporary directory changes, the project stays as it is. -/
theorem sameTree (h : Admissible host arguments candidate w proj rel mode bytes)
    (hb : Begun host w w₁ top) {fs : FileSystem} (hunder : w₁.fs.ChangesUnder fs top) :
    SameTree proj w.fs fs :=
  sameTree_of_changesUnder ((hb.made.changesUnder List.prefix_rfl).trans hunder) (h.not_prefix hb)
    (h.not_prefix' hb)

theorem sameTree_begun (h : Admissible host arguments candidate w proj rel mode bytes)
    (hb : Begun host w w₁ top) : SameTree proj w.fs w₁.fs :=
  h.sameTree hb (.of_eq rfl)

/-- And the temporary directory stays outside of it. -/
theorem temporaryOutside (h : Admissible host arguments candidate w proj rel mode bytes)
    (hb : Begun host w w₁ top) {fs : FileSystem} (hunder : w₁.fs.ChangesUnder fs top) :
    TemporaryOutside host (temporaryText host w) proj fs := by
  intro top' htop'
  obtain rfl := (hb.temporary_at hunder).eq_of_locate htop'
  exact ⟨h.not_prefix hb, fun _ => h.not_prefix' hb⟩

theorem canonical_eq (h : Admissible host arguments candidate w proj rel mode bytes)
    (hb : Begun host w w₁ top) {w₂ w₃ : World} (hgrow : w.fs.GrowsTo w₂.fs) {project : Text}
    (hcall : call host (canonicalize host arguments.project) w₂ = (some project, w₃)) :
    project = pathText proj ∧ w₃.fs = w₂.fs := by
  obtain ⟨hfs, p, hp, rfl, -⟩ := canonicalize_eq_ok (call_some hcall).1
  rw [realpath_mono h.project hgrow, Option.some.injEq] at hp
  subst hp
  exact ⟨if_neg (h.proj_ne_nil hb), hfs⟩

theorem ready (h : Admissible host arguments candidate w proj rel mode bytes)
    (hb : Begun host w w₁ top) :
    CopyReady w₁.fs (pathText proj) (copyText (temporaryText host w)) proj (copyPath top) := by
  have hgrow : w.fs.GrowsTo w₁.fs := hb.made.growsTo_of_none hb.free
  obtain ⟨m, hm⟩ := w₁.fs.isDirectory_iff.mp (hgrow.isDirectory h.directory)
  have htop : w₁.fs.isDirectory top = true := w₁.fs.isDirectory_iff.mpr ⟨_, hb.made.same⟩
  refine ⟨at_pathText (h.proj_ne_nil hb) hm, ?_, by simp [hm], ?_, ?_, ?_⟩
  · rw [copyText_temporaryText]
    exact (hb.temporary_at (.of_eq rfl)).child htop (by decide)
  · rw [copyPath, hb.made.other (by simp), entry_append_eq_none hb.free]
  · intro hprefix
    rcases List.prefix_concat_iff.mp hprefix with rfl | hprefix
    · exact h.not_prefix' hb (List.prefix_append top _)
    · exact h.not_prefix hb hprefix
  · intro rel' hvisible hpresent
    rw [h.sameTree_begun hb rel'] at hpresent
    rw [← pathText_append]
    exact h.fits rel' hvisible hpresent

theorem copied (h : Admissible host arguments candidate w proj rel mode bytes)
    (hb : Begun host w w₁ top) {project : Text} {found copied : World} {result : Bool}
    (hfound : call host (canonicalize host arguments.project) w₁ = (some project, found))
    (hcopy : copyTree host project (copyText (temporaryText host w)) found = (result, copied)) :
    CopyDone host w₁.fs copied.fs proj (copyPath top) result := by
  obtain ⟨rfl, hfs⟩ := h.canonical_eq hb (hb.made.growsTo_of_none hb.free) hfound
  rw [← hfs]
  exact copyTree_spec (hfs ▸ h.ready hb) hcopy

/-- The path name of the candidate's file in the copy. -/
theorem childPath_relativePath (h : Admissible host arguments candidate w proj rel mode bytes) :
    childPath (copyText (temporaryText host w)) (relativePath (pathText proj) candidate.path) =
      copyText (temporaryText host w) ++ pathText rel := by
  have hlen := (h.fits rel h.visible (by simp [h.file])).2
  obtain ⟨name, rest, rfl⟩ := List.exists_cons_of_ne_nil h.rel_ne_nil
  rw [h.path, pathText_append, relativePath]
  simp only [List.drop_left, pathText_cons, List.head?_cons, if_true, List.tail_cons]
  rw [pathText_cons] at hlen
  exact cut_of_lt hlen

/-- The edit phase: the file system grows only below the copy, and a successful edit leaves the
mutant's image there. -/
theorem edited (h : Admissible host arguments candidate w proj rel mode bytes)
    (hb : Begun host w w₁ top) {copied edited : World} {result : Bool}
    (hdone : CopyDone host w₁.fs copied.fs proj (copyPath top) true)
    (hedit : applyCandidate host arguments candidate (copyText (temporaryText host w)) copied =
      (result, edited)) :
    copied.fs.ChangesUnder edited.fs (copyPath top) ∧ copied.fs.GrowsTo edited.fs ∧
      (result = true → candidate.fits bytes = true ∧
        ∀ rel', edited.fs.entry (copyPath top ++ rel') =
          mutantImage host candidate w.fs proj rel rel') := by
  have hready := h.ready hb
  have hgrow := hdone.1.growsTo hready.vacant
  have himage : ∀ rel', copied.fs.entry (copyPath top ++ rel') = copyImage host w.fs proj rel' := by
    intro rel'
    rw [hdone.2 rfl rel', copyImage, copyImage, h.sameTree_begun hb rel']
  unfold applyCandidate at hedit
  split at hedit
  · next w₂ hcall =>
    obtain ⟨rfl, rfl⟩ := Prod.mk.inj hedit
    exact ⟨.of_eq (call_none hcall).1, (call_none hcall).1 ▸ GrowsTo.refl _, by simp⟩
  next project w₂ hcall =>
  obtain ⟨rfl, hfs⟩ :=
    h.canonical_eq hb ((hb.made.growsTo_of_none hb.free).trans hgrow) hcall
  rw [h.childPath_relativePath] at hedit
  rw [if_pos (by rw [h.path, pathText_append]; simp)] at hedit
  have hfile : copied.fs.entry (copyPath top ++ rel) =
      some (.regular (createdMode host mode) bytes) := by
    simp [himage, copyImage, h.visible, h.file, copiedEntry]
  have hat : copied.fs.At (copyText (temporaryText host w) ++ pathText rel) (copyPath top ++ rel) :=
    (hready.destination_at.mono hgrow).descend_of_entry hfile
  have hlen := (h.fits rel h.visible (by simp [h.file])).2
  rw [← hfs] at hat hfile himage ⊢
  obtain ⟨bytes', hup, hall⟩ := editTarget_spec hedit hat hlen hfile
  refine ⟨hup.changesUnder (List.prefix_append _ rel), hup.growsTo hfile rfl, fun hresult => ?_⟩
  obtain ⟨hfits, rfl⟩ := hall hresult
  refine ⟨hfits, fun rel' => ?_⟩
  rw [hup (copyPath top ++ rel'), mutantImage, ← himage]
  rcases eq_or_ne rel' rel with rfl | hne
  · simp [hfile]
  · rw [if_neg (by simpa using hne)]
    split
    · next heq => simp [heq, hne]
    · rfl

end Admissible

/-! ### The phases before the compile check -/

/-- An execution that stops before the compile check has changed nothing outside the temporary
directory. -/
theorem Stopped.changesUnder {w₁ : World} {top : Path}
    (h : Stopped host arguments candidate (temporaryText host w) w₁ w')
    (hadm : Admissible host arguments candidate w proj rel mode bytes)
    (hb : Begun host w w₁ top) : w₁.fs.ChangesUnder w'.fs top := by
  have htop : top <+: copyPath top := List.prefix_append top _
  cases h with
  | notFound h => exact .of_eq (call_none h).1
  | notCopied hfound h => exact (hadm.copied hb hfound h).1.mono htop
  | notEdited hfound hcopied h =>
      have hdone := hadm.copied hb hfound hcopied
      exact (hdone.1.trans (hadm.edited hb hdone h).1).mono htop
  | @notBuilt project found copied edited _ hfound hcopied hedited h =>
      have hdone := hadm.copied hb hfound hcopied
      have hbuilt := buildCompileCommand_fs host arguments candidate
        (copyText (temporaryText host w)) edited
      rw [h] at hbuilt
      exact ((hdone.1.trans (hadm.edited hb hdone hedited).1).mono htop).trans (.of_eq hbuilt)

/-- What the compile check meets: the mutant's image in the copy, and everything outside the
temporary directory as it was. -/
theorem Prepared.image {w₁ found copied edited built : World} {top : Path} {project : Text}
    {command : CompileCommand}
    (h : Prepared host arguments candidate (temporaryText host w) w₁ project command found copied
      edited built)
    (hadm : Admissible host arguments candidate w proj rel mode bytes)
    (hb : Begun host w w₁ top) :
    candidate.fits bytes = true ∧
      built.fs.At (copyText (temporaryText host w)) (copyPath top) ∧
      (∀ rel', built.fs.entry (copyPath top ++ rel') =
        mutantImage host candidate w.fs proj rel rel') ∧
      w₁.fs.ChangesUnder built.fs top := by
  have hdone := hadm.copied hb h.found_eq h.copied_eq
  obtain ⟨hunder, hgrow, himage⟩ := hadm.edited hb hdone h.edited_eq
  obtain ⟨hfits, himage⟩ := himage rfl
  have hready := hadm.ready hb
  have hbuilt : built.fs = edited.fs := by
    have := buildCompileCommand_fs host arguments candidate
      (copyText (temporaryText host w)) edited
    rwa [h.built_eq] at this
  rw [hbuilt]
  exact ⟨hfits, (hready.destination_at.mono (hdone.1.growsTo hready.vacant)).mono hgrow, himage,
    (hdone.1.trans hunder).mono (List.prefix_append top _)⟩

/-! ### The law -/

/-- The tool's own part of a run leaves the project alone: between the start, the launches and the
end, the project's tree is at every launch as the previous launch left it. -/
def KeepsProject (proj : Path) : FileSystem → List Launch → FileSystem → Prop
  | fs, [], fs' => SameTree proj fs fs'
  | fs, launch :: rest, fs' => SameTree proj fs launch.fs ∧ KeepsProject proj launch.after rest fs'

/-- What the test command meets is what the compile check left. -/
theorem executeTest_launches {project copy : Text} {completed : Bool} {result : Result}
    (h : executeTest host arguments candidate project copy w = (completed, result, w')) :
    (w'.launches = w.launches ∧ w'.fs = w.fs) ∨
      ∃ test, w'.launches = w.launches ++ [test] ∧ test.fs = w.fs ∧ test.after = w'.fs := by
  unfold executeTest at h
  rcases hrewrite : rewriteAll host project copy arguments.testCommand w with ⟨command, w₁⟩
  have hlaunches : w₁.launches = w.launches := by
    simpa [hrewrite] using rewriteAll_launches host project copy arguments.testCommand w
  have hfs : w₁.fs = w.fs := by
    simpa [hrewrite] using rewriteAll_fs host project copy arguments.testCommand w
  simp only [hrewrite] at h
  split at h
  · simp only [Prod.mk.injEq] at h
    obtain ⟨-, -, rfl⟩ := h
    exact .inl ⟨hlaunches, hfs⟩
  · next herr =>
    obtain ⟨test, w₂, hrun, happend, hbefore, hafter, -⟩ :=
      runCommand_of_noError host command (some copy) (Bool.not_eq_true _ ▸ herr)
    simp only [hrun, Prod.mk.injEq] at h
    obtain ⟨-, -, rfl⟩ := h
    exact .inr ⟨test, hlaunches ▸ happend, hbefore.trans hfs, hafter⟩

/-- What an execution in a temporary directory launches, and on which file systems. -/
theorem executeIn_launches {w₁ : World} {top : Path} {completed : Bool} {result : Result}
    (h : executeIn host arguments candidate (temporaryText host w) w₁ = (completed, result, w'))
    (hadm : Admissible host arguments candidate w proj rel mode bytes) (hb : Begun host w w₁ top) :
    (w'.launches = w₁.launches ∧ w₁.fs.ChangesUnder w'.fs top) ∨
      ∃ compile rest, w'.launches = w₁.launches ++ compile :: rest ∧
        candidate.fits bytes = true ∧
        compile.fs.At (copyText (temporaryText host w)) (copyPath top) ∧
        (∀ rel', compile.fs.entry (copyPath top ++ rel') =
          mutantImage host candidate w.fs proj rel rel') ∧
        w₁.fs.ChangesUnder compile.fs top ∧
        ((rest = [] ∧ w'.fs = compile.after) ∨
          ∃ test, rest = [test] ∧ test.fs = compile.after ∧ test.after = w'.fs) := by
  rcases executeIn_cases host arguments candidate (temporaryText host w) w₁ with
    ⟨w₂, hstop, hstopped⟩ | ⟨project, command, found, copied, edited, built, hprepared, hgo⟩
  · rw [hstop] at h
    simp only [Prod.mk.injEq] at h
    obtain ⟨-, -, rfl⟩ := h
    exact .inl ⟨hstopped.launches, hstopped.changesUnder hadm hb⟩
  obtain ⟨compile, w₃, hrun, happend, hbefore, hafter, -⟩ := runCommand_of_noError host
    command.arguments (some command.directory) hprepared.hasError_built
  obtain ⟨hfits, hat, himage, hunder⟩ := hprepared.image hadm hb
  rw [← hbefore] at hat himage hunder
  rw [hprepared.launches] at happend
  rw [hgo] at h
  simp only [hrun] at h
  right
  split at h
  · simp only [Prod.mk.injEq] at h
    obtain ⟨-, -, rfl⟩ := h
    exact ⟨compile, [], happend, hfits, hat, himage, hunder, .inl ⟨rfl, hafter.symm⟩⟩
  · rcases executeTest_launches h with ⟨hlaunches, hfs⟩ | ⟨test, hlaunches, hfs, hend⟩
    · exact ⟨compile, [], hlaunches.trans happend, hfits, hat, himage, hunder,
        .inl ⟨rfl, hfs.trans hafter.symm⟩⟩
    · refine ⟨compile, [test], ?_, hfits, hat, himage, hunder,
        .inr ⟨test, rfl, hfs.trans hafter.symm, hend⟩⟩
      rw [hlaunches, happend]
      simp

/-- The launches an execution makes. -/
def launched (host : Host) (arguments : Arguments) (candidate : Candidate) (w : World) :
    List Launch :=
  (execute host arguments candidate w).2.2.launchedSince w

/-- **What one mutation is.** The compile check meets the copy with the candidate's span, which held
the original text, replaced; a candidate that does not fit its file launches nothing; and on every
path the tool itself leaves the project as it was. -/
structure OneMutation (host : Host) (arguments : Arguments) (candidate : Candidate) (w : World)
    (proj rel : Path) (bytes : Text) : Prop where
  compiled : ∀ compile, (launched host arguments candidate w).head? = some compile →
    candidate.fits bytes = true ∧ ∃ copy,
      compile.fs.locate host.cwd false (copyText (temporaryText host w)) = some copy ∧
      ∀ rel', compile.fs.entry (copy ++ rel') = mutantImage host candidate w.fs proj rel rel'
  rejected : candidate.fits bytes = false → launched host arguments candidate w = []
  kept : KeepsProject proj w.fs (launched host arguments candidate w)
    (execute host arguments candidate w).2.2.fs

/-- Without a temporary directory nothing is launched. -/
theorem oneMutation_of_unmade {w₁ : World} (htemp : makeTemporary host w = (none, w₁)) :
    OneMutation host arguments candidate w proj rel bytes := by
  have hw₁ : w₁.fs = w.fs ∧ w₁.launches = w.launches := by
    unfold makeTemporary at htemp
    split at htemp
    · next hcall =>
      obtain ⟨-, rfl⟩ := Prod.mk.inj htemp
      exact ⟨(call_none hcall).1, (call_none hcall).2.2⟩
    · exact absurd htemp (by simp)
  have hworld : (execute host arguments candidate w).2.2 = w₁ := by simp only [execute, htemp]
  have hnone : launched host arguments candidate w = [] := by
    rw [launched, hworld]
    exact World.launchedSince_of_append (by simp [hw₁.2])
  refine ⟨by simp [hnone], fun _ => hnone, ?_⟩
  rw [hnone, hworld]
  exact fun rel => by rw [hw₁.1]

/-- From the compile check on, it is the commands that keep the temporary directory out of the project. -/
theorem keepsProject_of_launches {compile : Launch} {rest : List Launch}
    (hsame : SameTree proj w.fs compile.fs)
    (hrest : (rest = [] ∧ w'.fs = compile.after) ∨
      ∃ test, rest = [test] ∧ test.fs = compile.after ∧ test.after = w'.fs)
    (hcommands : ∀ launch ∈ compile :: rest,
      TemporaryOutside host (temporaryText host w) proj launch.after) :
    KeepsProject proj w.fs (compile :: rest) (removeTree host (temporaryText host w) w').2.fs := by
  refine ⟨hsame, ?_⟩
  rcases hrest with ⟨rfl, hend⟩ | ⟨test, rfl, hbefore, hend⟩
  · have hout := hcommands compile (by simp)
    rw [← hend] at hout
    have hkeep := sameTree_removeTree host w hout
    rwa [hend] at hkeep
  · have hout := hcommands test (by simp)
    rw [hend] at hout
    have hkeep := sameTree_removeTree host w hout
    rw [← hend] at hkeep
    exact ⟨fun rel => by rw [hbefore], hkeep⟩

/-- **The single-mutation law.** It holds for every admissible candidate, whatever calls fail; the
launched commands may do anything except move the temporary directory into the project. -/
theorem single_mutation (hadm : Admissible host arguments candidate w proj rel mode bytes)
    (hcommands : ∀ launch ∈ launched host arguments candidate w,
      TemporaryOutside host (temporaryText host w) proj launch.after) :
    OneMutation host arguments candidate w proj rel bytes := by
  rcases htemp : makeTemporary host w with ⟨_ | temp, w₁⟩
  · exact oneMutation_of_unmade htemp
  obtain ⟨rfl, top, hloc, hfree, hmade⟩ := makeTemporary_spec htemp
  have hb : Begun host w w₁ top := ⟨hloc, hfree, hmade⟩
  have hlaunches₁ : w₁.launches = w.launches := by
    simpa [htemp] using makeTemporary_launches host w
  rcases hin : executeIn host arguments candidate (temporaryText host w) w₁ with
    ⟨completed, result, w₂⟩
  have hfinal : (execute host arguments candidate w).2.2 =
      (removeTree host (temporaryText host w) w₂).2 := by
    simp only [execute, htemp, hin]
  have hlaunched : ∀ launches, w₂.launches = w.launches ++ launches →
      launched host arguments candidate w = launches := fun launches h => by
    rw [launched, hfinal]
    exact World.launchedSince_of_append (by rw [removeTree_launches, h])
  rcases executeIn_launches hin hadm hb with ⟨hlaunches, hunder⟩ |
    ⟨compile, rest, hlaunches, hfits, hat, himage, hunder, hrest⟩
  · have hnone := hlaunched [] (by simp [hlaunches, hlaunches₁])
    refine ⟨by simp [hnone], fun _ => hnone, ?_⟩
    rw [hnone, hfinal]
    exact fun rel =>
      (sameTree_removeTree host w (hadm.temporaryOutside hb hunder) rel).trans (hadm.sameTree hb hunder rel)
  · rw [hlaunches₁] at hlaunches
    have hall := hlaunched _ hlaunches
    rw [hall] at hcommands
    refine ⟨fun compile' hhead => ?_, fun hno => by simp [hfits] at hno, ?_⟩
    · obtain rfl : compile = compile' := by simpa [hall] using hhead
      refine ⟨hfits, copyPath top, hat.locate ?_ host.cwd, himage⟩
      rw [copyText_temporaryText, List.length_append, length_temporaryText]
      decide
    · rw [hall, hfinal]
      exact keepsProject_of_launches (hadm.sameTree hb hunder) hrest hcommands

/-- The small project's candidate, with a test command that fails. -/
theorem single_mutation_small :
    Admissible (exiting [some 0, some 1]) smallArguments smallCandidate ⟨smallProject, none, 0, []⟩
      ["p".toList] ["a.c".toList] 0o644 "x<y".toList ∧
    OneMutation (exiting [some 0, some 1]) smallArguments smallCandidate ⟨smallProject, none, 0, []⟩
      ["p".toList] ["a.c".toList] "x<y".toList := by
  have hadm : Admissible (exiting [some 0, some 1]) smallArguments smallCandidate
      ⟨smallProject, none, 0, []⟩ ["p".toList] ["a.c".toList] 0o644 "x<y".toList := by
    refine ⟨by decide +kernel, by decide +kernel, by decide +kernel, by decide +kernel,
      by decide +kernel, fun rel _ => fits_of_keys (by decide) (by decide +kernel) rel,
      by decide +kernel⟩
  exact ⟨hadm, single_mutation hadm (by decide +kernel)⟩

end P101Test.Mutation
