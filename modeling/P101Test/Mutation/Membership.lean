import P101Test.Mutation.Redirect

/-!
# What is inside the project

Applying a candidate and rewriting a path decide separately what is inside the project. The first
compares texts only, the second also asks for a component boundary. The two agree exactly when a
candidate whose path extends the project's text extends it by a component, and the path in the copy fits
its buffer.

## Main definitions

* `candidateTarget`: the path name of the file a candidate is applied to.
* `Canonical`: a canonical project, and a canonical candidate that exists.
* `MembershipAgrees`: the two decisions and the two paths agree.
* `Separated`: where they do.

## Main results

* `membershipAgrees_iff`: when the two agree.
* `not_membershipAgrees_sibling`: a candidate of a sibling directory is applied to the copy.
-/

namespace P101Test.Mutation

open FileSystem Stdio

variable {host : Host} {arguments : Arguments} {candidate : Candidate} {copy path : Text} {proj q rel : Path}
  {w w' : World}

/-! ### The two decisions -/

/-- The path name of the file a candidate is applied to. -/
def candidateTarget (project copy path : Text) : Text := childPath copy (relativePath project path)

/-- Applying a candidate: the test of its path, and the edit of its target. -/
theorem applyCandidate_of_project {project : Text} {w₁ : World}
    (h : call host (canonicalize host arguments.project) w = (some project, w₁)) :
    applyCandidate host arguments candidate copy w =
      if project.isPrefixOf candidate.path then
        editTarget host candidate (candidateTarget project copy candidate.path) w₁
      else (false, w₁.raise outsideProject) := by
  rw [applyCandidate, h]
  rfl

/-- The project and the candidate have canonical path names, those of `proj` and of `q`; the candidate
exists where its path is rewritten, and no error is on record where it is applied. -/
structure Canonical (host : Host) (arguments : Arguments) (candidate : Candidate) (proj q : Path)
    (w w' : World) : Prop where
  project_ne : proj ≠ []
  project_valid : ∀ name ∈ proj, ValidName name
  path_valid : ∀ name ∈ q, ValidName name
  project_resolves : (call host (canonicalize host arguments.project) w).1 = some (pathText proj)
  path_eq : candidate.path = canonicalText q
  path_resolves : (callOptional host (canonicalize host candidate.path) w').1 = some candidate.path
  clear : w.hasError = false

/-- **Agreement.** A candidate is not reported to be outside the project exactly when the project is a
prefix of its components; exactly then its path is redirected, and applying the candidate edits the file
of the redirected path, by that very path name. Otherwise nothing is modified. -/
structure MembershipAgrees (host : Host) (arguments : Arguments) (candidate : Candidate) (copy : Text)
    (proj q : Path) (w w' : World) : Prop where
  member : (applyCandidate host arguments candidate copy w).2.err ≠ some outsideProject ↔ proj <+: q
  redirects : ∀ rel, q = proj ++ rel →
    (rewritePath host (pathText proj) copy candidate.path w').1 = copy ++ pathText rel
  leaves : ¬ proj <+: q → (rewritePath host (pathText proj) copy candidate.path w').1 = candidate.path
  target : proj <+: q → ∃ target,
    target = candidateTarget (pathText proj) copy candidate.path ∧
    applyCandidate host arguments candidate copy w =
      editTarget host candidate target (call host (canonicalize host arguments.project) w).2 ∧
    target = (rewritePath host (pathText proj) copy candidate.path w').1
  untouched : ¬ proj <+: q → (applyCandidate host arguments candidate copy w).2.fs = w.fs

/-- A path that extends the project's text extends it by a component, and the path in the copy fits its
buffer. The path of the project itself gets a slash, unless the buffer cuts it off. -/
def Separated (project copy path : Text) : Prop :=
  project.isPrefixOf path = true →
    (∃ rest, path = project ++ '/' :: rest ∧ (copy ++ '/' :: rest).length < pathSize) ∨
      (path = project ∧ copy.length + 1 = pathSize)

/-! ### The error of the test -/

/-- No candidate was reported to be outside the project. -/
def Unreported (w : World) : Prop := w.err ≠ some outsideProject

theorem Unreported.call (host : Host) {α : Type} (c : Call α) (h : Unreported w) :
    Unreported (call host c w).2 := by
  rcases hcall : Mutation.call host c w with ⟨_ | a, w₁⟩
  · rcases err_of_call_none hcall with ⟨code, herr⟩ | ⟨e, -, herr⟩
    · simp [Unreported, herr, outsideProject]
    · simp [Unreported, herr, outsideProject]
  · rw [Unreported, (call_some hcall).2.1]
    exact h

theorem Unreported.attempt (host : Host) (h : Unreported w) : Unreported (attempt host w).2 := by
  unfold Mutation.attempt
  split
  · simp [Unreported, outsideProject]
  · exact h

theorem Unreported.fwrite (host : Host) (output : Path) (data : Text) (h : Unreported w) :
    Unreported (fwrite host output data w).2 := by
  unfold Mutation.fwrite
  split
  · exact h.call host _
  · split <;> simp [Unreported, outsideProject]

theorem Unreported.fwriteAll (host : Host) (output : Path) (pieces : List Text) (h : Unreported w) :
    Unreported (fwriteAll host output pieces w).2 := by
  induction pieces generalizing w with
  | nil => exact h
  | cons data rest ih =>
      have hwrite := h.fwrite host output data
      rw [Mutation.fwriteAll]
      generalize Mutation.fwrite host output data w = run at hwrite ⊢
      rcases run with ⟨_ | _, w₁⟩
      · exact hwrite
      · exact ih hwrite

theorem Unreported.readStream (host : Host) (input : Path) (h : Unreported w) :
    Unreported (readStream host input w).2 := by
  rw [Mutation.readStream]
  have hseek := h.attempt host
  generalize Mutation.attempt host w = run at hseek ⊢
  rcases run with ⟨_ | _, w₁⟩
  · exact hseek
  have htell := hseek.call host (tellEnd input)
  dsimp only
  generalize Mutation.call host (tellEnd input) w₁ = run at htell ⊢
  rcases run with ⟨_ | size, w₂⟩
  · exact htell
  have hrewind := htell.attempt host
  dsimp only
  generalize Mutation.attempt host w₂ = run at hrewind ⊢
  rcases run with ⟨_ | _, w₃⟩
  · exact hrewind
  · exact hrewind.call host _

/-- The edit does not report that a candidate is outside the project. -/
theorem Unreported.editTarget (host : Host) (candidate : Candidate) (target : Text) (h : Unreported w) :
    Unreported (editTarget host candidate target w).2 := by
  rw [Mutation.editTarget]
  have hopen := h.call host (openRead host.cwd target)
  generalize Mutation.call host (openRead host.cwd target) w = run at hopen ⊢
  rcases run with ⟨_ | input, w₁⟩
  · exact hopen
  have hread := hopen.readStream host input
  dsimp only
  generalize Mutation.readStream host input w₁ = run at hread ⊢
  rcases run with ⟨_ | contents, w₂⟩
  · exact hread
  have hclose := hread.attempt host
  dsimp only
  generalize Mutation.attempt host w₂ = run at hclose ⊢
  rcases run with ⟨closed, w₃⟩
  dsimp only
  split
  · have hcreate := hclose.call host (openWrite host.cwd target (createdMode host streamMode))
    generalize Mutation.call host (openWrite host.cwd target (createdMode host streamMode)) w₃ = run
      at hcreate ⊢
    rcases run with ⟨_ | output, w₄⟩
    · exact hcreate
    have hwrite := hcreate.fwriteAll host output (candidate.pieces contents)
    dsimp only
    generalize Mutation.fwriteAll host output (candidate.pieces contents) w₄ = run at hwrite ⊢
    rcases run with ⟨written, w₅⟩
    exact hwrite.attempt host
  · simp [Unreported, sourceChanged, outsideProject]

/-! ### When the two agree -/

theorem prefix_iff (h : Canonical host arguments candidate proj q w w') :
    proj <+: q ↔ ∃ rest, candidate.path = pathText proj ++ rest ∧ (rest = [] ∨ rest.head? = some '/') := by
  rw [← inProject_iff h.project_ne h.project_valid h.path_valid, ← h.path_eq, inProject, Bool.and_eq_true,
    List.isPrefixOf_iff_prefix, Bool.or_eq_true, beq_iff_eq, List.isEmpty_iff]
  constructor
  · rintro ⟨⟨rest, hrest⟩, hbound⟩
    rw [← hrest, List.drop_left] at hbound
    exact ⟨rest, hrest.symm, hbound.symm⟩
  · rintro ⟨rest, hrest, hbound⟩
    rw [hrest, List.drop_left]
    exact ⟨List.prefix_append _ _, hbound.symm⟩

theorem rewritePath_of_canonical (copy : Text) (h : Canonical host arguments candidate proj q w w') :
    (rewritePath host (pathText proj) copy candidate.path w').1 =
      if proj <+: q then copy ++ candidate.path.drop (pathText proj).length else candidate.path := by
  have habsolute : candidate.path.head? = some '/' := by
    rw [h.path_eq, canonicalText]
    split
    · rfl
    · next hne =>
      obtain ⟨name, rest, rfl⟩ := List.exists_cons_of_ne_nil hne
      simp
  have hin := inProject_iff h.project_ne h.project_valid h.path_valid
  rw [← h.path_eq] at hin
  have hresolves := h.path_resolves
  rw [rewritePath, if_pos habsolute]
  generalize callOptional host (canonicalize host candidate.path) w' = run at hresolves ⊢
  rcases run with ⟨canonical, w₁⟩
  obtain rfl : canonical = some candidate.path := hresolves
  dsimp only
  by_cases hfront : proj <+: q
  · rw [if_pos (hin.mpr hfront), if_pos hfront]
  · rw [if_neg fun htest => hfront (hin.mp htest), if_neg hfront]

/-- Where the texts have the prefix, applying the candidate edits its target. -/
theorem applyCandidate_of_prefix (copy : Text) (h : Canonical host arguments candidate proj q w w')
    (hfront : (pathText proj).isPrefixOf candidate.path = true) :
    applyCandidate host arguments candidate copy w =
      editTarget host candidate (candidateTarget (pathText proj) copy candidate.path)
        (call host (canonicalize host arguments.project) w).2 := by
  have hcall : call host (canonicalize host arguments.project) w =
      (some (pathText proj), (call host (canonicalize host arguments.project) w).2) :=
    Prod.ext h.project_resolves rfl
  rw [applyCandidate_of_project hcall, if_pos hfront]

/-- The test of a candidate: it is applied where the texts have the prefix, and reported otherwise. -/
theorem applyCandidate_of_canonical (copy : Text)
    (h : Canonical host arguments candidate proj q w w') :
    ((applyCandidate host arguments candidate copy w).2.err ≠ some outsideProject ↔
        (pathText proj).isPrefixOf candidate.path = true) ∧
      ((pathText proj).isPrefixOf candidate.path = false →
        (applyCandidate host arguments candidate copy w).2.fs = w.fs) := by
  rcases hcall : call host (canonicalize host arguments.project) w with ⟨project, w₁⟩
  obtain rfl : project = some (pathText proj) := by
    have hresolves := h.project_resolves
    rwa [hcall] at hresolves
  obtain ⟨hok, herr, -⟩ := call_some hcall
  have hclear : Unreported w₁ := by
    rw [Unreported, herr, World.hasError_eq_false_iff.mp h.clear]
    simp
  rw [applyCandidate_of_project hcall]
  split
  · next hfront =>
    have hedit := hclear.editTarget host candidate (candidateTarget (pathText proj) copy candidate.path)
    simp only [hfront, iff_true, Bool.true_eq_false, false_implies, and_true]
    exact hedit
  · next hfront =>
    simp [hfront, (canonicalize_eq_ok hok).1]

/-- The path a candidate below the project is applied to is the redirected one where it fits its buffer,
and where a slash does not fit. -/
theorem candidateTarget_eq_iff (project copy rest : Text) (hrest : rest = [] ∨ rest.head? = some '/') :
    candidateTarget project copy (project ++ rest) = copy ++ rest ↔
      (∃ tail, rest = '/' :: tail ∧ (copy ++ '/' :: tail).length < pathSize) ∨
        (rest = [] ∧ copy.length + 1 = pathSize) := by
  have hpos : pathSize - 1 + 1 = pathSize := rfl
  rw [candidateTarget, relativePath, List.drop_left, childPath]
  rcases hrest with rfl | hhead
  · -- The project itself: its path in the copy has a slash at its end.
    simp only [List.head?_nil, reduceCtorEq, if_false, false_and, exists_false, true_and, false_or,
      List.append_nil]
    constructor
    · intro heq
      have hlength := congrArg List.length heq
      rw [cut, List.length_take, List.length_append, List.length_singleton] at hlength
      omega
    · intro hlength
      rw [cut, show pathSize - 1 = copy.length by omega, List.take_left]
  · obtain ⟨tail, rfl⟩ : ∃ tail, rest = '/' :: tail := by
      cases rest with
      | nil => cases hhead
      | cons c tail => exact ⟨tail, by rw [Option.some.inj hhead]⟩
    rw [if_pos hhead, List.tail_cons]
    constructor
    · intro heq
      have hlength := congrArg List.length heq
      rw [cut, List.length_take] at hlength
      exact .inl ⟨tail, rfl, by omega⟩
    · rintro (⟨tail', heq, hlength⟩ | ⟨hnil, -⟩)
      · obtain rfl := List.tail_eq_of_cons_eq heq
        exact cut_of_lt hlength
      · cases hnil

/-- **When the two agree.** A candidate whose path extends the project's text must extend it by a
component, and its path in the copy must fit its buffer. -/
theorem membershipAgrees_iff (h : Canonical host arguments candidate proj q w w') :
    MembershipAgrees host arguments candidate copy proj q w w' ↔
      Separated (pathText proj) copy candidate.path := by
  have hfront := prefix_iff h
  have hrewrite := rewritePath_of_canonical copy h
  obtain ⟨hmember, huntouched⟩ := applyCandidate_of_canonical copy h
  constructor
  · intro hagrees htext
    have hinside : proj <+: q := hagrees.member.mp (hmember.mpr htext)
    obtain ⟨rest, hpath, hrest⟩ := hfront.mp hinside
    obtain ⟨_, rfl, -, htarget⟩ := hagrees.target hinside
    rw [hrewrite, if_pos hinside, hpath, List.drop_left, candidateTarget_eq_iff _ _ _ hrest] at htarget
    rcases htarget with ⟨tail, rfl, hlength⟩ | ⟨rfl, hlength⟩
    · exact .inl ⟨tail, hpath, hlength⟩
    · exact .inr ⟨by rw [hpath, List.append_nil], hlength⟩
  · intro hseparated
    have hinside : proj <+: q ↔ (pathText proj).isPrefixOf candidate.path = true := by
      rw [hfront]
      constructor
      · rintro ⟨rest, hpath, -⟩
        rw [hpath, List.isPrefixOf_iff_prefix]
        exact List.prefix_append _ _
      · intro htext
        rcases hseparated htext with ⟨rest, hpath, -⟩ | ⟨hpath, -⟩
        · exact ⟨_, hpath, .inr rfl⟩
        · exact ⟨[], by rw [hpath, List.append_nil], .inl rfl⟩
    refine ⟨hmember.trans hinside.symm, ?_, ?_, ?_, ?_⟩
    · rintro rel rfl
      rw [hrewrite, if_pos (List.prefix_append _ _), h.path_eq, canonicalText,
        if_neg (by simp [h.project_ne]), pathText_append, List.drop_left]
    · intro hout
      rw [hrewrite, if_neg hout]
    · intro hin
      obtain ⟨rest, hpath, hrest⟩ := hfront.mp hin
      refine ⟨_, rfl, applyCandidate_of_prefix copy h (hinside.mp hin), ?_⟩
      rw [hrewrite, if_pos hin, hpath, List.drop_left, candidateTarget_eq_iff _ _ _ hrest]
      rcases hseparated (hinside.mp hin) with ⟨tail, htail, hlength⟩ | ⟨hproject, hlength⟩
      · exact .inl ⟨tail, List.append_cancel_left (hpath.symm.trans htail), hlength⟩
      · exact .inr ⟨List.append_cancel_left (hpath.symm.trans (by rw [hproject, List.append_nil])), hlength⟩
    · intro hout
      exact huntouched (Bool.eq_false_iff.mpr fun htext => hout (hinside.mpr htext))

/-! ### A sibling directory -/

/-- The source file of the small project is inside for both. -/
theorem membershipAgrees_small :
    MembershipAgrees (exiting []) smallArguments smallCandidate "/tmp/c".toList ["p".toList]
      ["p".toList, "a.c".toList] ⟨smallProject, none, 0, []⟩ ⟨smallProject, none, 0, []⟩ := by
  have hcanonical : Canonical (exiting []) smallArguments smallCandidate ["p".toList]
      ["p".toList, "a.c".toList] ⟨smallProject, none, 0, []⟩ ⟨smallProject, none, 0, []⟩ :=
    ⟨by decide, by decide, by decide, by decide +kernel, by decide, by decide +kernel, rfl⟩
  exact (membershipAgrees_iff hcanonical).mpr fun _ => .inl ⟨"a.c".toList, by decide, by decide⟩

/-- A project, its copy, and a sibling directory whose name extends that of the project; the copy has a
directory with the rest of that name. -/
def siblingProject : FileSystem :=
  .ofEntries [(["tmp".toList], .directory 0o777), (["p".toList], .directory 0o755),
    (["p-x".toList], .directory 0o755), (["p-x".toList, "a.c".toList], .regular 0o644 "x<y".toList),
    (["tmp".toList, "c".toList], .directory 0o755),
    (["tmp".toList, "c".toList, "-x".toList], .directory 0o755),
    (["tmp".toList, "c".toList, "-x".toList, "a.c".toList], .regular 0o644 "x<y".toList)]

/-- A candidate in the sibling directory. -/
def siblingCandidate : Candidate := { smallCandidate with path := "/p-x/a.c".toList }

/-- **A sibling directory.** A candidate there is not reported to be outside the project, and a file of
the copy is modified. -/
theorem not_membershipAgrees_sibling :
    Canonical (exiting []) smallArguments siblingCandidate ["p".toList] ["p-x".toList, "a.c".toList]
        ⟨siblingProject, none, 0, []⟩ ⟨siblingProject, none, 0, []⟩ ∧
      (applyCandidate (exiting []) smallArguments siblingCandidate "/tmp/c".toList
        ⟨siblingProject, none, 0, []⟩).1 = true ∧
      (applyCandidate (exiting []) smallArguments siblingCandidate "/tmp/c".toList
        ⟨siblingProject, none, 0, []⟩).2.fs.entry
          ["tmp".toList, "c".toList, "-x".toList, "a.c".toList] =
        some (.regular 0o644 "x>y".toList) ∧
      ¬ MembershipAgrees (exiting []) smallArguments siblingCandidate "/tmp/c".toList ["p".toList]
        ["p-x".toList, "a.c".toList] ⟨siblingProject, none, 0, []⟩ ⟨siblingProject, none, 0, []⟩ := by
  refine ⟨⟨by decide, by decide, by decide, by decide +kernel, by decide, by decide +kernel, rfl⟩,
    by decide +kernel, by decide +kernel, fun hagrees => ?_⟩
  have hunreported : (applyCandidate (exiting []) smallArguments siblingCandidate "/tmp/c".toList
      ⟨siblingProject, none, 0, []⟩).2.err ≠ some outsideProject := by decide +kernel
  exact absurd (hagrees.member.mp hunreported) (by decide)

end P101Test.Mutation
