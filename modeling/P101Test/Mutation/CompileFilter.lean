import P101Test.Mutation.CommandCopy

/-!
# What the compile check leaves out

The compile check leaves out the options about outputs, with the values of those that stand by themselves.
Any other option may have its value behind it as well, and the value may be any text. The loop does not know
these options: a value that looks like an option about outputs is left out.

## Main definitions

* `outputOptions`, `Removable`: the options about outputs, and the arguments that look like one.
* `withoutOutputs`, `otherValues`: what should be left of a command, and the values of its other options.
* `OnlyOutputsRemoved`: the compile check leaves out nothing else.

## Main results

* `keptArguments_eq_withoutOutputs`: where the loop leaves out nothing else.
* `onlyOutputsRemoved_iff`: when the compile check leaves out nothing else.
-/

namespace P101Test.Mutation

open FileSystem Stdio Pointers

/-! ### Options -/

/-- The options about outputs that take a value. -/
def outputOptions : List Text := ["-o".toList, "-MF".toList, "-MT".toList, "-MQ".toList]

instance : DecidablePred (· ∈ outputOptions) := fun argument =>
  decidable_of_iff (outputOptions.contains argument = true) List.contains_iff_mem

/-- An argument looks like one that is left out: it is `-c`, or starts with an option about outputs. -/
def Removable (argument : Text) : Prop :=
  argument = "-c".toList ∨ ∃ option ∈ outputOptions, option <+: argument

instance (argument : Text) : Decidable (Removable argument) :=
  inferInstanceAs (Decidable (_ ∨ ∃ option ∈ outputOptions, _))

variable (twoWord : Text → Bool)

/-- What should be left of a command, given which other options have their value behind them: all but `-c`,
the options about outputs, and the values of those of them that stand by themselves. -/
def withoutOutputs : List Text → List Text
  | [] => []
  | argument :: rest =>
    if argument ∈ outputOptions then
      match rest with
      | [] => []
      | _ :: rest => withoutOutputs rest
    else if Removable argument then withoutOutputs rest
    else if twoWord argument then
      match rest with
      | [] => [argument]
      | value :: rest => argument :: value :: withoutOutputs rest
    else argument :: withoutOutputs rest

/-- The values of the other options of a command. -/
def otherValues : List Text → List Text
  | [] => []
  | argument :: rest =>
    if argument ∈ outputOptions then
      match rest with
      | [] => []
      | _ :: rest => otherValues rest
    else if Removable argument then otherValues rest
    else if twoWord argument then
      match rest with
      | [] => []
      | value :: rest => value :: otherValues rest
    else otherValues rest

example : withoutOutputs (· = "-mllvm".toList)
    ["cc".toList, "-MFd".toList, "-mllvm".toList, "-opt".toList, "-o".toList, "a.o".toList] =
      ["cc".toList, "-mllvm".toList, "-opt".toList] := by decide

variable {twoWord} {argument : Text} {values : List Text}

/-- The options that the loop leaves out with their values are those about outputs. -/
theorem compileOptionTakesValue_iff : compileOptionTakesValue argument = true ↔ argument ∈ outputOptions := by
  simp [compileOptionTakesValue, outputOptions, or_assoc]

/-- The arguments that the loop leaves out are those that look like it. -/
theorem removable_iff :
    Removable argument ↔ argument = "-c".toList ∨ isCompileOutputOption argument = true := by
  have hobjc : "-o".toList <+: argument → argument ≠ "-ObjC".toList := by
    rintro hprefix rfl
    revert hprefix
    decide
  simp only [Removable, outputOptions, isCompileOutputOption, List.mem_cons, List.not_mem_nil, or_false,
    exists_eq_or_imp, exists_eq_left, Bool.or_eq_true, Bool.and_eq_true, List.isPrefixOf_iff_prefix,
    decide_eq_true_eq, or_assoc]
  constructor
  · rintro (hc | ho | hrest)
    · exact .inl hc
    · exact .inr (.inl ⟨ho, hobjc ho⟩)
    · exact .inr (.inr hrest)
  · rintro (hc | ⟨ho, -⟩ | hrest)
    · exact .inl hc
    · exact .inr (.inl ho)
    · exact .inr (.inr hrest)

theorem removable_of_mem (h : argument ∈ outputOptions) : Removable argument :=
  .inr ⟨argument, h, List.prefix_rfl⟩

theorem Removable.head_eq (h : Removable argument) : argument.head? = some '-' := by
  rcases h with rfl | ⟨option, hoption, rest, rfl⟩
  · decide
  · have hhead : ∀ option ∈ outputOptions, option.head? = some '-' := by decide
    rw [List.head?_append, hhead option hoption]
    rfl

theorem keptArguments_cons (argument : Text) (rest : List Text) :
    keptArguments (argument :: rest) =
      if argument ∈ outputOptions then keptArguments (rest.drop 1)
      else if Removable argument then keptArguments rest
      else argument :: keptArguments rest := by
  by_cases hmem : argument ∈ outputOptions
  · have hc : argument ≠ "-c".toList := by
      rintro rfl
      revert hmem
      decide
    rw [keptArguments.eq_def]
    dsimp only
    rw [if_neg hc, if_pos (compileOptionTakesValue_iff.mpr hmem), if_pos hmem]
    cases rest <;> rfl
  · rw [keptArguments.eq_def]
    dsimp only
    rw [if_neg (mt compileOptionTakesValue_iff.mp hmem), if_neg hmem]
    by_cases hc : argument = "-c".toList
    · rw [if_pos hc, if_pos (.inl hc)]
    · rw [if_neg hc]
      exact if_congr (by rw [removable_iff, or_iff_right hc]) rfl rfl

theorem not_removable_of_mem_kept (h : argument ∈ keptArguments values) : ¬Removable argument := by
  fun_induction keptArguments values with
  | case1 => cases h
  | case2 rest ih => exact ih h
  | case3 => cases h
  | case4 value hc htakes skipped rest ih => exact ih h
  | case5 value rest hc htakes houtput ih => exact ih h
  | case6 value rest hc htakes houtput ih =>
      rcases List.mem_cons.mp h with rfl | hrest
      · rw [removable_iff]
        exact not_or.mpr ⟨hc, houtput⟩
      · exact ih hrest

theorem withoutOutputs_cons (argument : Text) (rest : List Text) :
    withoutOutputs twoWord (argument :: rest) =
      if argument ∈ outputOptions then withoutOutputs twoWord (rest.drop 1)
      else if Removable argument then withoutOutputs twoWord rest
      else if twoWord argument then argument :: (rest.take 1 ++ withoutOutputs twoWord (rest.drop 1))
      else argument :: withoutOutputs twoWord rest := by
  rw [withoutOutputs.eq_def]
  cases rest <;> rfl

theorem mem_withoutOutputs (h : argument ∈ otherValues twoWord values) :
    argument ∈ withoutOutputs twoWord values := by
  fun_induction otherValues twoWord values with
  | case1 => cases h
  | case2 => cases h
  | case3 option hmem skipped rest ih =>
      rw [withoutOutputs_cons, if_pos hmem]
      exact ih h
  | case4 option rest hmem hremovable ih =>
      rw [withoutOutputs_cons, if_neg hmem, if_pos hremovable]
      exact ih h
  | case5 => cases h
  | case6 option hmem hremovable htwo value rest ih =>
      rw [withoutOutputs_cons, if_neg hmem, if_neg hremovable, if_pos htwo]
      rcases List.mem_cons.mp h with rfl | hrest
      · exact List.mem_cons_of_mem _ List.mem_cons_self
      · exact List.mem_cons_of_mem _ (List.mem_cons_of_mem _ (ih hrest))
  | case7 option rest hmem hremovable htwo ih =>
      rw [withoutOutputs_cons, if_neg hmem, if_neg hremovable, if_neg htwo]
      exact List.mem_cons_of_mem _ (ih h)

/-- Where no value of another option looks like an argument that is left out, the loop leaves out nothing
else. -/
theorem keptArguments_eq_withoutOutputs (h : ∀ value ∈ otherValues twoWord values, ¬Removable value) :
    keptArguments values = withoutOutputs twoWord values := by
  fun_induction otherValues twoWord values with
  | case1 => rfl
  | case2 option hmem => rw [keptArguments_cons, withoutOutputs_cons, if_pos hmem, if_pos hmem]; rfl
  | case3 option hmem skipped rest ih =>
      rw [keptArguments_cons, withoutOutputs_cons, if_pos hmem, if_pos hmem]
      exact ih h
  | case4 option rest hmem hremovable ih =>
      rw [keptArguments_cons, withoutOutputs_cons, if_neg hmem, if_neg hmem, if_pos hremovable,
        if_pos hremovable]
      exact ih h
  | case5 option hmem hremovable htwo =>
      rw [keptArguments_cons, withoutOutputs_cons, if_neg hmem, if_neg hmem, if_neg hremovable,
        if_neg hremovable, if_pos htwo]
      rfl
  | case6 option hmem hremovable htwo value rest ih =>
      rw [List.forall_mem_cons] at h
      rw [keptArguments_cons, withoutOutputs_cons, if_neg hmem, if_neg hmem, if_neg hremovable,
        if_neg hremovable, if_pos htwo, keptArguments_cons, if_neg (mt removable_of_mem h.1), if_neg h.1,
        ih h.2]
      rfl
  | case7 option rest hmem hremovable htwo ih =>
      rw [keptArguments_cons, withoutOutputs_cons, if_neg hmem, if_neg hmem, if_neg hremovable,
        if_neg hremovable, if_neg htwo, ih h]

/-! ### Rewriting -/

variable {host : Host} {project copy : Text} {w : World}

theorem rewritePath_head (host : Host) (project : Text) (hcopy : copy.head? = some '/') (value : Text)
    (w : World) :
    (rewritePath host project copy value w).1 = value ∨
      value.head? = some '/' ∧ (rewritePath host project copy value w).1.head? = some '/' := by
  unfold rewritePath
  split
  · next hvalue =>
    rcases callOptional host (canonicalize host value) w with ⟨_ | canonical, w'⟩
    · exact .inl rfl
    · dsimp only
      split
      · exact .inr ⟨hvalue, by rw [List.head?_append, hcopy]; rfl⟩
      · exact .inl rfl
  · exact .inl rfl

theorem mem_rewriteAll_iff (host : Host) (project : Text) (hcopy : copy.head? = some '/')
    (hargument : argument.head? = some '-') (values : List Text) (w : World) :
    argument ∈ (rewriteAll host project copy values w).1 ↔ argument ∈ values := by
  induction values generalizing w with
  | nil => rfl
  | cons value rest ih =>
      rw [rewriteAll]
      dsimp only
      rw [List.mem_cons, List.mem_cons, ih]
      refine or_congr_left ?_
      rcases rewritePath_head host project hcopy value w with heq | ⟨hvalue, hrewritten⟩
      · rw [heq]
      · constructor
        · rintro rfl
          rw [hargument] at hrewritten
          cases hrewritten
        · rintro rfl
          rw [hargument] at hvalue
          cases hvalue

/-! ### The compile check -/

variable (host twoWord) (denied : ℕ → Bool) (arguments : Arguments) (candidate : Candidate) (copy : Text)
  (heap : Heap)

/-- The compile check leaves out only the options about outputs: what is left of the command, rewritten, and
the option of the check are written to an array with room for two more entries than the command has, with
null pointers behind them. -/
def OnlyOutputsRemoved (found : CompileCommand) (project : Text) (w : World) : Prop :=
  ∃ directory heap',
    buildCommandCopy host denied arguments candidate copy heap =
      .ok (true,
        ⟨some directory,
          filled ((rewriteAll host project copy (withoutOutputs twoWord found.arguments)
            (rewritePath host project copy found.directory w).2).1 ++ [syntaxOnly])
            (found.arguments.length + 1 - (withoutOutputs twoWord found.arguments).length),
          (withoutOutputs twoWord found.arguments).length + 1⟩, heap') ∧
    (withoutOutputs twoWord found.arguments).length + 1 ≤ found.arguments.length + 1

variable {host twoWord denied arguments candidate copy heap}

/-- **What the compile check leaves out.** Where no allocation fails and the copy has an absolute path name,
the compile check leaves out only the options about outputs, if and only if no value of another option looks
like an argument that is left out. -/
theorem onlyOutputsRemoved_iff {found : CompileCommand} {project : Text} {w₁ w₂ : World}
    (hgrants : ∀ k, denied k = false) (hclean : heap.hasError = false) (hcopy : copy.head? = some '/')
    (hfound : call host (sourceCommand host arguments candidate) heap.world = (some found, w₁))
    (hproject : call host (canonicalize host arguments.project) w₁ = (some project, w₂)) :
    OnlyOutputsRemoved twoWord host denied arguments candidate copy heap found project w₂ ↔
      ∀ value ∈ otherValues twoWord found.arguments, ¬Removable value := by
  obtain ⟨allocations, hbuilt⟩ := buildCommandCopy_of_project copy hgrants hclean hfound hproject
  constructor
  · rintro ⟨directory, heap', hbuilt', -⟩ value hvalue hremovable
    rw [hbuilt] at hbuilt'
    have hslots := (CommandCopy.mk.inj (Prod.mk.inj (Prod.mk.inj (Except.ok.inj hbuilt')).2).1).2.1
    have htexts := congrArg untilNull hslots
    rw [untilNull_filled, untilNull_filled] at htexts
    have hmem := (mem_rewriteAll_iff host project hcopy hremovable.head_eq
      (withoutOutputs twoWord found.arguments) (rewritePath host project copy found.directory w₂).2).mpr
      (mem_withoutOutputs hvalue)
    rw [← List.append_cancel_right htexts, mem_rewriteAll_iff host project hcopy hremovable.head_eq] at hmem
    exact not_removable_of_mem_kept hmem hremovable
  · intro h
    have hkept := keptArguments_eq_withoutOutputs h
    rw [hkept] at hbuilt
    refine ⟨_, _, hbuilt, ?_⟩
    rw [← hkept]
    exact Nat.succ_le_succ (length_keptArguments_le _)

/-- A host whose compile database answers with given arguments, in the build directory. -/
def answering (values : List Text) : Host :=
  .granting (fun _ _ _ => some ⟨"/b".toList, values⟩) fun _ _ _ fs => (.refused 11, fs)

/-- Without failing allocations, a run begins with the project and its copy. -/
def builtHeap : Heap := ⟨⟨builtProject, none, 0, []⟩, 0⟩

/-- The world of that run once the project is canonicalized. -/
def builtWorld (values : List Text) : World :=
  (call (answering values) (canonicalize (answering values) smallArguments.project) builtHeap.world.tick).2

theorem call_answering (values : List Text) :
    call (answering values) (sourceCommand (answering values) smallArguments smallCandidate) builtHeap.world =
        (some ⟨"/b".toList, values⟩, builtHeap.world.tick) ∧
      call (answering values) (canonicalize (answering values) smallArguments.project) builtHeap.world.tick =
        (some "/p".toList, builtWorld values) :=
  ⟨rfl, Prod.ext (by
    have hproject : (call (answering []) (canonicalize (answering []) smallArguments.project)
        builtHeap.world.tick).1 = some "/p".toList := by
      decide +kernel
    exact hproject) rfl⟩

/-- A command with two options about outputs, whose other option has an ordinary value. -/
def includingCommand : List Text :=
  ["cc".toList, "-include".toList, "a.h".toList, "-c".toList, "-o".toList, "a.o".toList]

/-- Its include is kept, and the options about outputs are left out. -/
theorem onlyOutputsRemoved_include :
    withoutOutputs (· = "-include".toList) includingCommand =
        ["cc".toList, "-include".toList, "a.h".toList] ∧
      OnlyOutputsRemoved (· = "-include".toList) (answering includingCommand) (fun _ => false)
        smallArguments smallCandidate "/tmp/c".toList builtHeap ⟨"/b".toList, includingCommand⟩ "/p".toList
        (builtWorld includingCommand) :=
  ⟨by decide, (onlyOutputsRemoved_iff (fun _ => rfl) rfl (by decide) (call_answering _).1
    (call_answering _).2).mpr (by decide)⟩

/-- A value of another option that looks like an option about outputs is left out. -/
theorem not_onlyOutputsRemoved_mllvm :
    ¬OnlyOutputsRemoved (· = "-mllvm".toList)
      (answering ["cc".toList, "-mllvm".toList, "-opt-bisect-limit=5".toList, "a.c".toList])
      (fun _ => false) smallArguments smallCandidate "/tmp/c".toList builtHeap
      ⟨"/b".toList, ["cc".toList, "-mllvm".toList, "-opt-bisect-limit=5".toList, "a.c".toList]⟩ "/p".toList
      (builtWorld ["cc".toList, "-mllvm".toList, "-opt-bisect-limit=5".toList, "a.c".toList]) := by
  rintro ⟨directory, heap', hbuilt, -⟩
  obtain ⟨allocations, hbuilt'⟩ := buildCommandCopy_of_project "/tmp/c".toList
    (fun _ => rfl) (show builtHeap.hasError = false from rfl) (call_answering _).1
    (call_answering ["cc".toList, "-mllvm".toList, "-opt-bisect-limit=5".toList, "a.c".toList]).2
  rw [hbuilt] at hbuilt'
  have hcount := (CommandCopy.mk.inj (Prod.mk.inj (Prod.mk.inj (Except.ok.inj hbuilt')).2).1).2.2
  revert hcount
  decide

end P101Test.Mutation
