import P101Test.FileSystem.Naming
import P101Test.Mutation.Redirect

/-!
# What the compile check looks at

The command of the compile check is rewritten argument by argument. An absolute path name that can be
canonicalized comes back as one that names nothing inside the original project. Every other path name is
left as it is, and may still name something there: a relative one, and one that nothing exists under yet.

## Main definitions

* `NamesInside`: a path name that names a location of the project.
* `OnlyCopy`: a command that names nothing inside the project.
* `Placed`: a copy apart from its project, with links only where the project has them.
* `Redirected`: what rewriting makes of one path name.

## Main results

* `placed_of_copyTree`: a tree that was copied is placed.
* `buildCompileCommand_redirected`: what the command of the compile check consists of.
* `not_onlyCopy_missing`: a command that still names files of the project.
-/

namespace P101Test.Mutation

open FileSystem Stdio

variable {host : Host} {arguments : Arguments} {candidate : Candidate} {copy value value' : Text}
  {proj dst rel : Path} {w w' : World} {fs : FileSystem} {cwd : Path}

/-! ### What a command names -/

/-- The path name names a location of the project, whether or not anything exists there. -/
def NamesInside (fs : FileSystem) (cwd proj : Path) (text : Text) : Prop :=
  text ≠ [] ∧ ∃ p, fs.Names cwd text p ∧ proj <+: p

/-- A path name against a working directory. -/
def against (directory path : Text) : Text :=
  if isAbsolute path = true ∨ directory = [] then path else directory ++ '/' :: path

/-- The path names in an argument: what is joined to one of the options that take a path, or the whole
argument when it is no option. -/
def pathsOf (options : List Text) (argument : Text) : List Text :=
  if argument.head? = some '-' then
    (options.filter fun option => option.isPrefixOf argument && argument ≠ option).map fun option =>
      argument.drop option.length
  else [argument]

/-- Neither the working directory nor an argument names a location of the project. -/
def OnlyCopy (options : List Text) (fs : FileSystem) (cwd proj : Path) (command : CompileCommand) : Prop :=
  ¬ NamesInside fs cwd proj command.directory ∧
    ∀ argument ∈ command.arguments, ∀ path ∈ pathsOf options argument,
      ¬ NamesInside fs cwd proj (against command.directory path)

/-! ### The copy -/

/-- A copy apart from its project, with links only where the project has them. -/
structure Placed (fs : FileSystem) (proj : Path) (copy : Text) (dst : Path) : Prop where
  copy_at : fs.At copy dst
  outside : ¬ proj <+: dst
  apart : ¬ dst <+: proj
  links : ∀ rel target, fs.entry (dst ++ rel) = some (.link target) →
    ∃ target', fs.entry (proj ++ rel) = some (.link target')

theorem Placed.not_prefix (h : Placed fs proj copy dst) (rel : Path) : ¬ proj <+: dst ++ rel := by
  intro hfront
  rcases List.prefix_or_prefix_of_prefix hfront (List.prefix_append dst rel) with hpd | hdp
  · exact h.outside hpd
  · exact h.apart hdp

theorem Placed.proj_ne_nil (h : Placed fs proj copy dst) : proj ≠ [] := by
  rintro rfl
  exact h.outside List.nil_prefix

/-- A tree that was copied is placed. -/
theorem placed_of_copyTree (hready : CopyReady w.fs (pathText proj) copy proj dst)
    (hcopy : copyTree host (pathText proj) copy w = (true, w')) : Placed w'.fs proj copy dst := by
  have hdone := copyTree_spec hready hcopy
  refine ⟨hready.destination_at.mono (hdone.1.growsTo hready.vacant), hready.outside, ?_, ?_⟩
  · simpa using hready.not_under []
  · intro rel target hlink
    rw [hdone.2 rfl, copyImage] at hlink
    split at hlink
    · cases hlink
    · obtain ⟨e, he, hcopied⟩ := Option.bind_eq_some_iff.mp hlink
      refine ⟨target, ?_⟩
      rw [hready.entry_eq hdone.1, he]
      cases e <;> simp_all [copiedEntry]

/-- An edit of a file leaves the copy placed. -/
theorem Placed.updatedAt {fs' : FileSystem} {p : Path} {mode : ℕ} {bytes bytes' : Text}
    (h : Placed fs proj copy dst) (hp : fs.entry p = some (.regular mode bytes))
    (hup : fs.UpdatedAt fs' p (some (.regular mode bytes'))) : Placed fs' proj copy dst where
  copy_at := h.copy_at.mono (hup.growsTo hp rfl)
  outside := h.outside
  apart := h.apart
  links rel target hlink := by
    have hne : dst ++ rel ≠ p := by
      intro heq
      rw [heq, hup.same] at hlink
      cases hlink
    rw [hup.other hne] at hlink
    obtain ⟨target', htarget'⟩ := h.links rel target hlink
    refine ⟨target', ?_⟩
    rw [hup.other, htarget']
    intro heq
    rw [heq, hp] at htarget'
    cases htarget'

/-! ### One path name -/

/-- The path name is absolute, and it is canonicalized in this world. -/
def Canonicalizes (host : Host) (value : Text) (w : World) : Prop :=
  isAbsolute value = true ∧ (callOptional host (canonicalize host value) w).1.isSome = true

/-- The text is an option that a path name is joined to. -/
def JoinsPath (value : Text) : Prop := value.head? = some '-' ∧ '/' ∈ value

/-- What rewriting makes of a path name: one that is canonicalized goes to its counterpart in the copy, or
stays when it leads elsewhere, and names nothing inside the project; anything else stays. -/
structure Redirected (host : Host) (proj : Path) (copy : Text) (w : World) (value value' : Text) : Prop where
  moved : Canonicalizes host value w → ∀ rel, w.fs.realpath host.cwd value = some (proj ++ rel) →
    value' = copy ++ pathText rel
  kept : Canonicalizes host value w → (∀ rel, w.fs.realpath host.cwd value ≠ some (proj ++ rel)) →
    value' = value
  clear : Canonicalizes host value w → ¬ NamesInside w.fs host.cwd proj value'
  left : ¬ Canonicalizes host value w → ¬ JoinsPath value → value' = value

/-- What follows the project in a canonical location is reached along no link of the copy. -/
theorem Placed.names_below (h : Placed fs proj copy dst) (habs : isAbsolute value = true)
    (hvalue : fs.realpath cwd value = some (proj ++ rel)) {p : Path}
    (hnames : fs.Names cwd (copy ++ pathText rel) p) : p = dst ++ rel := by
  obtain ⟨e, he, hlink, -⟩ := kindOf_eq_of_realpath hvalue habs
  refine FileSystem.names_below h.copy_at (fun name hname => valid_of_entry he name (by simp [hname]))
    (fun a b hab target htarget => ?_) hnames
  obtain ⟨target', htarget'⟩ := h.links a target htarget
  by_cases hb : b = []
  · rw [hb, List.append_nil] at hab
    rw [hab, htarget', Option.some.injEq] at he
    exact hlink (he ▸ rfl)
  · rw [hab, ← List.append_assoc] at he
    obtain ⟨mode, hmode⟩ := fs.isDirectory_iff.mp (isDirectory_of_entry_append he hb)
    rw [htarget'] at hmode
    cases hmode

theorem rewritePath_of_not (project copy : Text) (h : ¬ Canonicalizes host value w) :
    (rewritePath host project copy value w).1 = value := by
  rw [rewritePath]
  split
  · next hhead =>
    have habs : isAbsolute value = true := by simp [isAbsolute, hhead]
    split
    · rfl
    · next canonical w₁ hcall => exact absurd ⟨habs, by rw [hcall]; rfl⟩ h
  · rfl

/-- A path name that is canonicalized goes to its counterpart in the copy, or it leads elsewhere and
stays. -/
theorem rewritePath_of_canonicalizes (copy : Text) (hne : proj ≠ [])
    (hproj : ∀ name ∈ proj, ValidName name) (h : Canonicalizes host value w) :
    ∃ q, w.fs.realpath host.cwd value = some q ∧
      ((∃ rel, q = proj ++ rel ∧
          (rewritePath host (pathText proj) copy value w).1 = copy ++ pathText rel) ∨
        (¬ proj <+: q ∧ (rewritePath host (pathText proj) copy value w).1 = value)) := by
  obtain ⟨habs, hsome⟩ := h
  have hhead : value.head? = some '/' := by simpa [isAbsolute] using habs
  obtain ⟨canonical, hcanonical⟩ := Option.isSome_iff_exists.mp hsome
  rcases hcall : callOptional host (canonicalize host value) w with ⟨result, w₁⟩
  obtain rfl : result = some canonical := by rwa [hcall] at hcanonical
  obtain ⟨-, q, hq, rfl, -⟩ := canonicalize_eq_ok (callOptional_some hcall).1
  obtain ⟨e, he, -, -⟩ := kindOf_eq_of_realpath hq habs
  have hin := inProject_iff hne hproj (valid_of_entry he)
  refine ⟨q, hq, ?_⟩
  rw [rewritePath, if_pos hhead, hcall]
  dsimp only
  by_cases hfront : proj <+: q
  · obtain ⟨rel, rfl⟩ := hfront
    rw [if_pos (hin.mpr (List.prefix_append _ _)), canonicalText, if_neg (by simp [hne]), pathText_append,
      List.drop_left]
    exact .inl ⟨rel, rfl, rfl⟩
  · rw [if_neg fun htest => hfront (hin.mp htest)]
    exact .inr ⟨hfront, rfl⟩

/-- **One path name.** What rewriting makes of it. -/
theorem redirected_rewritePath (h : Placed w.fs proj copy dst) (hproj : ∀ name ∈ proj, ValidName name)
    (value : Text) :
    Redirected host proj copy w value (rewritePath host (pathText proj) copy value w).1 := by
  refine ⟨fun hcan rel hrel => ?_, fun hcan helse => ?_, fun hcan hinside => ?_,
    fun hnot _ => rewritePath_of_not _ _ hnot⟩
  all_goals obtain ⟨q, hq, hcases⟩ := rewritePath_of_canonicalizes copy h.proj_ne_nil hproj hcan
  · obtain rfl : q = proj ++ rel := Option.some.inj (hq.symm.trans hrel)
    rcases hcases with ⟨rel', heq, hvalue⟩ | ⟨hout, -⟩
    · rw [List.append_cancel_left heq, hvalue]
    · exact absurd (List.prefix_append _ _) hout
  · rcases hcases with ⟨rel, rfl, -⟩ | ⟨-, hvalue⟩
    · exact absurd hq (helse rel)
    · exact hvalue
  · obtain ⟨-, p, hnames, hfront⟩ := hinside
    rcases hcases with ⟨rel, rfl, hvalue⟩ | ⟨hout, hvalue⟩
    · rw [hvalue] at hnames
      exact h.not_prefix rel (h.names_below hcan.1 hq hnames ▸ hfront)
    · rw [hvalue] at hnames
      exact hout (names_of_realpath hq hcan.1 hnames ▸ hfront)

/-! ### The command -/

/-- The arguments of the database that are kept: all but `-c` and the options about outputs. -/
def keptArguments : List Text → List Text
  | [] => []
  | value :: rest =>
    if value = "-c".toList then keptArguments rest
    else if compileOptionTakesValue value then
      match rest with
      | [] => []
      | _ :: rest => keptArguments rest
    else if isCompileOutputOption value then keptArguments rest
    else value :: keptArguments rest

/-- The kept arguments are rewritten one after the other. -/
theorem compileArguments_eq (host : Host) (project copy : Text) (values : List Text) (w : World) :
    compileArguments host project copy values w = rewriteAll host project copy (keptArguments values) w := by
  fun_induction keptArguments values generalizing w with
  | case1 => rfl
  | case2 rest ih =>
      rw [compileArguments.eq_def]
      exact (if_pos rfl).trans (ih w)
  | case3 value hc htakes =>
      rw [compileArguments.eq_def]
      exact (if_neg hc).trans (if_pos htakes)
  | case4 value hc htakes skipped rest ih =>
      rw [compileArguments.eq_def]
      exact ((if_neg hc).trans (if_pos htakes)).trans (ih w)
  | case5 value rest hc htakes houtput ih =>
      rw [compileArguments.eq_def]
      exact ((if_neg hc).trans ((if_neg htakes).trans (if_pos houtput))).trans (ih w)
  | case6 value rest hc htakes houtput ih =>
      rw [compileArguments.eq_def, rewriteAll]
      simp only [hc, htakes, houtput, if_false, ih, Bool.false_eq_true]

/-- What rewriting makes of path names one after the other. -/
def AllRedirected (host : Host) (proj : Path) (copy : Text) : World → List Text → List Text → Prop
  | _, [], [] => True
  | w, value :: rest, value' :: rest' =>
    Redirected host proj copy w value value' ∧
      AllRedirected host proj copy (rewritePath host (pathText proj) copy value w).2 rest rest'
  | _, _, _ => False

theorem allRedirected_rewriteAll (h : Placed w.fs proj copy dst)
    (hproj : ∀ name ∈ proj, ValidName name) (values : List Text) :
    AllRedirected host proj copy w values (rewriteAll host (pathText proj) copy values w).1 := by
  induction values generalizing w with
  | nil => trivial
  | cons value rest ih =>
      have hfs := rewritePath_fs host (pathText proj) copy value w
      rw [rewriteAll]
      exact ⟨redirected_rewritePath h hproj value, ih (hfs.symm ▸ h)⟩

theorem world_of_call {α : Type} {c : Call α} {a : α} (h : call host c w = (some a, w'))
    (hfs : w'.fs = w.fs) : w' = w.tick := by
  unfold call at h
  split at h
  · cases h
  · split at h
    · cases h
    · obtain ⟨-, rfl⟩ := Prod.mk.inj h
      exact congrArg (fun fs => { w.tick with fs := fs }) hfs

/-- **The command of the compile check.** It consists of the rewritten working directory, of the kept
arguments, each of them rewritten in its place, and of the option for the check; and of each path name
rewriting makes what it should. -/
theorem buildCompileCommand_redirected {source command : CompileCommand}
    (hplaced : Placed w.fs proj copy dst)
    (hproject : w.fs.realpath host.cwd arguments.project = some proj)
    (hsource : host.compileCommand w.fs arguments.compileDatabase candidate.path = some source)
    (hbuild : buildCompileCommand host arguments candidate copy w = (some command, w')) :
    ∃ values w₁, rewritePath host (pathText proj) copy source.directory w.tick.tick =
        (command.directory, w₁) ∧
      values = (rewriteAll host (pathText proj) copy (keptArguments source.arguments) w₁).1 ∧
      command.arguments = values ++ [syntaxOnly] ∧
      Redirected host proj copy w.tick.tick source.directory command.directory ∧
      AllRedirected host proj copy w₁ (keptArguments source.arguments) values := by
  rw [buildCompileCommand] at hbuild
  have hkeep := @call_sourceCommand_fs host arguments candidate w
  rcases hfirst : call host (sourceCommand host arguments candidate) w with ⟨_ | found, w₁⟩
  · simp [hfirst] at hbuild
  rw [hfirst] at hbuild hkeep
  obtain rfl := world_of_call hfirst hkeep
  obtain rfl : found = source := by
    have hok := (call_some hfirst).1
    rw [sourceCommand, hsource] at hok
    exact (Prod.mk.inj (Except.ok.inj hok)).1.symm
  dsimp only at hbuild
  split at hbuild
  · cases hbuild
  have hkeep := @call_canonicalize_fs host arguments.project w.tick
  rcases hsecond : call host (canonicalize host arguments.project) w.tick with ⟨_ | project, w₂⟩
  · simp [hsecond] at hbuild
  rw [hsecond] at hbuild hkeep
  obtain rfl := world_of_call hsecond hkeep
  obtain rfl : project = pathText proj := by
    obtain ⟨-, p, hp, rfl, -⟩ := canonicalize_eq_ok (call_some hsecond).1
    obtain rfl : p = proj := Option.some.inj (hp.symm.trans hproject)
    rw [canonicalText, if_neg hplaced.proj_ne_nil]
  obtain ⟨e, he⟩ := entry_of_realpath hproject
  have hvalid := valid_of_entry he
  have hplaced' : Placed w.tick.tick.fs proj copy dst := hplaced
  have hfs := rewritePath_fs host (pathText proj) copy found.directory w.tick.tick
  have hdirectory : Redirected host proj copy w.tick.tick found.directory
      (rewritePath host (pathText proj) copy found.directory w.tick.tick).1 :=
    redirected_rewritePath hplaced' hvalid found.directory
  have harguments : AllRedirected host proj copy
      (rewritePath host (pathText proj) copy found.directory w.tick.tick).2
      (keptArguments found.arguments) (rewriteAll host (pathText proj) copy
        (keptArguments found.arguments)
        (rewritePath host (pathText proj) copy found.directory w.tick.tick).2).1 :=
    allRedirected_rewriteAll (hfs.symm ▸ hplaced') hvalid (keptArguments found.arguments)
  dsimp only at hbuild
  rw [compileArguments_eq] at hbuild
  split at hbuild
  · cases hbuild
  · obtain ⟨hcommand, -⟩ := Prod.mk.inj hbuild
    obtain rfl := Option.some.inj hcommand
    exact ⟨_, _, rfl, rfl, rfl, hdirectory, harguments⟩

/-! ### Path names that stay -/

theorem entry_ne_link_of_keys (h : ∀ q ∈ fs.table.keys, (fs.entry q).map Entry.kind ≠ some .link)
    (p : Path) (target : Text) : fs.entry p ≠ some (.link target) := by
  intro hlink
  by_cases hp : p = []
  · subst hp
    rw [entry_nil] at hlink
    cases hlink
  · exact h p (AList.mem_keys.mp (mem_table_of_entry hp hlink)) (by rw [hlink]; rfl)

/-- A project with its copy, and a build directory outside both. -/
def builtProject : FileSystem :=
  .ofEntries [(["tmp".toList], .directory 0o777), (["b".toList], .directory 0o755),
    (["p".toList], .directory 0o755), (["p".toList, "inc".toList], .directory 0o755),
    (["p".toList, "a.c".toList], .regular 0o644 "x<y".toList),
    (["tmp".toList, "c".toList], .directory 0o755),
    (["tmp".toList, "c".toList, "inc".toList], .directory 0o755),
    (["tmp".toList, "c".toList, "a.c".toList], .regular 0o644 "x>y".toList)]

/-- A command that is run in the build directory. It names the source file from there, a header that is
yet to be generated, and a directory joined to an option. -/
def builtCommand : CompileCommand where
  directory := "/b".toList
  arguments := ["cc".toList, "-I/p/inc".toList, "../p/a.c".toList, "-include".toList, "/p/gen.h".toList]

/-- A host whose compile database answers that command. -/
def buildingHost : Host :=
  .granting (fun _ _ _ => some builtCommand) fun _ _ _ fs => (.refused 11, fs)

/-- What the compile check makes of it. -/
def checkedCommand : CompileCommand :=
  { builtCommand with arguments := builtCommand.arguments ++ [syntaxOnly] }

theorem placed_builtProject : Placed builtProject ["p".toList] "/tmp/c".toList ["tmp".toList, "c".toList] where
  copy_at := at_pathText (p := ["tmp".toList, "c".toList]) (e := .directory 0o755) (by decide)
    (by decide +kernel)
  outside := by decide
  apart := by decide
  links rel target hlink := absurd hlink (entry_ne_link_of_keys (by decide +kernel) _ _)

/-- The project with its copy, and a link to the project. -/
def linkedProject : FileSystem :=
  .ofEntries [(["tmp".toList], .directory 0o777), (["p".toList], .directory 0o755),
    (["l".toList], .link "/p".toList), (["p".toList, "a.c".toList], .regular 0o644 "x<y".toList),
    (["tmp".toList, "c".toList], .directory 0o755),
    (["tmp".toList, "c".toList, "a.c".toList], .regular 0o644 "x>y".toList)]

/-- A command that is run in the project. It names the source file, the same file by way of the link, and
an object file. -/
def linkedCommand : CompileCommand where
  directory := "/p".toList
  arguments := ["cc".toList, "-Wall".toList, "-c".toList, "/p/a.c".toList, "/l/a.c".toList, "-o".toList,
    "/p/a.o".toList]

/-- A host whose compile database answers that command. -/
def linkingHost : Host :=
  .granting (fun _ _ _ => some linkedCommand) fun _ _ _ fs => (.refused 11, fs)

/-- What the compile check makes of it. -/
def movedCommand : CompileCommand where
  directory := "/tmp/c".toList
  arguments := ["cc".toList, "-Wall".toList, "/tmp/c/a.c".toList, "/tmp/c/a.c".toList, syntaxOnly]

theorem placed_linkedProject : Placed linkedProject ["p".toList] "/tmp/c".toList ["tmp".toList, "c".toList] where
  copy_at := at_pathText (p := ["tmp".toList, "c".toList]) (e := .directory 0o755) (by decide)
    (by decide +kernel)
  outside := by decide
  apart := by decide
  links rel target hlink := by
    have hkeys : ∀ q ∈ linkedProject.table.keys, (linkedProject.entry q).map Entry.kind = some .link →
        ¬ ["tmp".toList, "c".toList] <+: q := by decide +kernel
    have hmem := AList.mem_keys.mp (mem_table_of_entry (by simp) hlink)
    exact absurd (List.prefix_append _ rel) (hkeys _ hmem (by rw [hlink]; rfl))

/-- The source file of the project comes back as that of the copy, by whichever name the command has it. -/
theorem buildCompileCommand_redirected_built :
    (buildCompileCommand linkingHost smallArguments smallCandidate "/tmp/c".toList
        ⟨linkedProject, none, 0, []⟩).1 = some movedCommand ∧
      ∃ values w₁, rewritePath linkingHost (pathText ["p".toList]) "/tmp/c".toList linkedCommand.directory
          (World.tick (World.tick ⟨linkedProject, none, 0, []⟩)) = (movedCommand.directory, w₁) ∧
        values = (rewriteAll linkingHost (pathText ["p".toList]) "/tmp/c".toList
          (keptArguments linkedCommand.arguments) w₁).1 ∧
        movedCommand.arguments = values ++ [syntaxOnly] ∧
        Redirected linkingHost ["p".toList] "/tmp/c".toList
          (World.tick (World.tick ⟨linkedProject, none, 0, []⟩)) linkedCommand.directory
          movedCommand.directory ∧
        AllRedirected linkingHost ["p".toList] "/tmp/c".toList w₁ (keptArguments linkedCommand.arguments)
          values := by
  have hbuilt : (buildCompileCommand linkingHost smallArguments smallCandidate "/tmp/c".toList
      ⟨linkedProject, none, 0, []⟩).1 = some movedCommand := by decide +kernel
  exact ⟨hbuilt, buildCompileCommand_redirected placed_linkedProject (by decide +kernel) rfl
    (Prod.ext hbuilt rfl)⟩

/-- **Path names that stay.** The check is run in the build directory, on the source file of the original
project, with its header and its directory. -/
theorem not_onlyCopy_missing :
    Placed builtProject ["p".toList] "/tmp/c".toList ["tmp".toList, "c".toList] ∧
      (buildCompileCommand buildingHost smallArguments smallCandidate "/tmp/c".toList
        ⟨builtProject, none, 0, []⟩).1 = some checkedCommand ∧
      NamesInside builtProject [] ["p".toList] "/p/gen.h".toList ∧
      NamesInside builtProject [] ["p".toList] (against "/b".toList "../p/a.c".toList) ∧
      NamesInside builtProject [] ["p".toList] "/p/inc".toList ∧
      ¬ OnlyCopy ["-I".toList, "-isystem".toList, "-include".toList] builtProject [] ["p".toList]
        checkedCommand := by
  have hheader : NamesInside builtProject [] ["p".toList] "/p/gen.h".toList :=
    ⟨by decide, ["p".toList, "gen.h".toList],
      ⟨["p".toList, "gen.h".toList], [], _, by decide, by decide +kernel, .inl rfl, rfl⟩, by decide⟩
  refine ⟨placed_builtProject, by decide +kernel, hheader, ?_, ?_, fun honly => ?_⟩
  · exact ⟨by decide, ["p".toList, "a.c".toList],
      ⟨["b".toList, "..".toList, "p".toList, "a.c".toList], [], _, by decide, by decide +kernel, .inl rfl,
        rfl⟩, by decide⟩
  · exact ⟨by decide, ["p".toList, "inc".toList],
      ⟨["p".toList, "inc".toList], [], _, by decide, by decide +kernel, .inl rfl, rfl⟩, by decide⟩
  · exact honly.2 "/p/gen.h".toList (by decide) "/p/gen.h".toList (by decide) hheader

end P101Test.Mutation
