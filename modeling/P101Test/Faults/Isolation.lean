import P101Test.Faults.Walk

/-!
# The environment of the pipeline

The walker shares its environment with every pipeline it launches. Each case first removes all fault
variables and then sets its own, so that a launch sees those of its case and no others, whatever the
environment was before; a change that fails keeps the pipeline from being launched. Between two
launches every step of the walker `Adjusts` the world: it logs changes of variables only, and an
error stays on record.

## Main definitions

* `caseEnvironment`: the fault variables of a case.
* `Adjusts`: a step without a launch.
* `Isolated`: the isolation of the cases of a walk.

## Main results

* `unsetAll_spec`, `environment_setCaseEnvironment`: what clearing and setting the variables does.
* `guarded_runOneCase`: one case keeps the invariant.
* `walk_world`: an invariant of the steps is one of the walk.
* `run_isolated`: the cases of every walk are isolated.
-/

namespace P101Test.Faults

open Stdio

variable {host : Host} {arguments : Arguments} {index : ℕ} {w w' w'' : World} {name : Variable}

/-- The fault variables of a case: none of the parent's, and the child's for this case. -/
def caseEnvironment (pid : ℕ) (arguments : Arguments) (index : ℕ) : Environment
  | .childFaultCall => if 0 < index then some (decimal index) else none
  | .childFaultErrno => arguments.faultErrno.map fun errno => signedDecimal errno.toInt
  | .childFaultLog => some (faultLogText pid arguments index)
  | .childFaultName => arguments.faultName
  | .childFaultMode => some arguments.faultMode
  | .childFaultAmount => some (decimal arguments.faultAmount.toNat)
  | .childFaultRepeat => some (decimal arguments.faultRepeat.toNat)
  | _ => none

/-- **Isolation.** Every launch sees the fault variables of its case; after a failed change nothing is
launched and the walk ends in trouble; and unless a removal failed, no fault variable is left. -/
structure Isolated (host : Host) (arguments : Arguments) (walk : Walk) : Prop where
  launches : ∀ launch, .launched launch ∈ walk.world.events →
    ∀ name ∈ Variable.parentSide ++ Variable.childSide,
      launch.environment name = caseEnvironment host.pid arguments launch.index name
  blocks : ∀ before e after, walk.world.events = before ++ e :: after → e.Failed →
    (∀ launch, .launched launch ∉ after) ∧ walk.status = exitTrouble
  clears : (∀ e ∈ walk.world.events, ¬ e.FailedUnset) →
    ∀ name ∈ Variable.parentSide ++ Variable.childSide ++ [.resourceLog],
      walk.world.environment name = none

/-! ### Steps without a launch -/

/-- A step that launches nothing: it logs changes of variables, a failed one leaves an error on record,
and no error is cleared. -/
def Adjusts (w w' : World) : Prop :=
  ∃ changes, w'.events = w.events ++ changes ∧ (∀ launch, .launched launch ∉ changes) ∧
    ((∃ e ∈ changes, e.Failed) → w'.hasError = true) ∧ (w.hasError = true → w'.hasError = true)

theorem Adjusts.of_events (hevents : w'.events = w.events)
    (herr : w.hasError = true → w'.hasError = true) : Adjusts w w' :=
  ⟨[], by simp [hevents], by simp, by simp, herr⟩

theorem Adjusts.refl (w : World) : Adjusts w w := .of_events rfl id

theorem Adjusts.trans (h : Adjusts w w') (h' : Adjusts w' w'') : Adjusts w w'' := by
  obtain ⟨changes, hevents, hlaunch, hfailed, herr⟩ := h
  obtain ⟨changes', hevents', hlaunch', hfailed', herr'⟩ := h'
  refine ⟨changes ++ changes', by rw [hevents', hevents, List.append_assoc], ?_, ?_, herr' ∘ herr⟩
  · intro launch hmem
    rcases List.mem_append.mp hmem with hmem | hmem
    · exact hlaunch launch hmem
    · exact hlaunch' launch hmem
  · rintro ⟨e, he, hf⟩
    rcases List.mem_append.mp he with he | he
    · exact herr' (hfailed ⟨e, he, hf⟩)
    · exact hfailed' ⟨e, he, hf⟩

theorem Adjusts.hasError (h : Adjusts w w') (herr : w'.hasError = false) : w.hasError = false := by
  obtain ⟨-, -, -, -, hmono⟩ := h
  by_contra hne
  rw [hmono (by simpa using hne)] at herr
  exact absurd herr (by decide)

theorem Adjusts.raise (w : World) (fault : Fault) : Adjusts w (w.raise fault) :=
  .of_events rfl fun _ => rfl

theorem Adjusts.foldl {α : Type} {f : World → α → World} (h : ∀ w a, Adjusts w (f w a))
    (l : List α) (w : World) : Adjusts w (l.foldl f w) := by
  induction l generalizing w with
  | nil => exact .refl w
  | cons a rest ih => exact (h w a).trans (ih (f w a))

theorem adjusts_attempt (host : Host) (w : World) : Adjusts w (attempt host w).2 := by
  unfold attempt
  split
  · exact .of_events rfl fun _ => rfl
  · exact .of_events rfl id

theorem adjusts_put (host : Host) (text : Text) (w : World) : Adjusts w (put host text w) := by
  have h := adjusts_attempt host w
  unfold put
  rcases hattempt : attempt host w with ⟨_ | _, w₁⟩
  · rwa [hattempt] at h
  · rw [hattempt] at h
    exact h.trans (.of_events rfl id)

theorem adjusts_closeStream (stream : Stream) (w : World) : Adjusts w (closeStream stream w) := by
  unfold closeStream
  split
  · exact .refl w
  · exact .raise w _

/-! ### Reading and printing -/

theorem adjusts_fileExists (host : Host) (path : Text) (w : World) : Adjusts w (fileExists host path w).2 := by
  unfold fileExists attemptOptional openStream
  rcases (host.failure w.calls).isNone with _ | _
  · exact .of_events rfl id
  · exact .of_events rfl id

theorem adjusts_readFaultHit (host : Host) (path : Text) (w : World) :
    Adjusts w (readFaultHit host path w).2.2 := by
  unfold readFaultHit attemptOptional openStream
  rcases hopen : (host.failure w.calls).isNone with _ | _
  · exact .of_events rfl fun _ => rfl
  · simp only
    have hstart : Adjusts w { w.tick with opened := w.tick.opened + 1 } := .of_events rfl id
    split
    · exact hstart
    · split
      · refine hstart.trans (.trans ?_ (adjusts_closeStream _ _))
        split
        · exact .raise _ _
        · exact .refl _
      · exact hstart.trans ((Adjusts.raise _ _).trans (adjusts_closeStream _ _))
      · exact hstart.trans (adjusts_closeStream _ _)

theorem adjusts_growBuffer (host : Host) (used capacity : ℕ) (w : World) :
    Adjusts w (growBuffer host used capacity w).2 := by
  have h := adjusts_attempt host w
  unfold growBuffer
  split
  · rcases hattempt : attempt host w with ⟨_ | _, w₁⟩ <;> rwa [hattempt] at h
  · exact .refl w

theorem adjusts_fread (host : Host) (count : ℕ) (rest : Text) (w : World) :
    Adjusts w (fread host count rest w).2.2 := by
  have h := adjusts_attempt host w
  unfold fread
  rcases hattempt : attempt host w with ⟨_ | _, w₁⟩ <;> rwa [hattempt] at h

theorem adjusts_fillBuffer (host : Host) (buffer rest : Text) (capacity : ℕ) (w : World) :
    Adjusts w (fillBuffer host buffer rest capacity w).2 := by
  fun_induction fillBuffer host buffer rest capacity w with
  | case1 => exact .refl _
  | case2 buffer rest capacity w hroom w₁ hgrow =>
      have h := adjusts_growBuffer host buffer.length capacity w
      rwa [hgrow] at h
  | case3 buffer rest capacity w hroom capacity₁ w₁ hgrow data rest₁ w₂ hread hstop =>
      have h := adjusts_growBuffer host buffer.length capacity w
      have h' := adjusts_fread host (capacity₁ - buffer.length - 1) rest w₁
      rw [hgrow] at h
      rw [hread] at h'
      exact h.trans h'
  | case4 buffer rest capacity w hroom capacity₁ w₁ hgrow data rest₁ w₂ hread hstop ih =>
      have h := adjusts_growBuffer host buffer.length capacity w
      have h' := adjusts_fread host (capacity₁ - buffer.length - 1) rest w₁
      rw [hgrow] at h
      rw [hread] at h'
      exact (h.trans h').trans ih

theorem adjusts_readPolicyJson (host : Host) (path schema : Text) (w : World) :
    Adjusts w (readPolicyJson host path schema w).2 := by
  unfold readPolicyJson openStream
  have hstart : Adjusts w { w with opened := w.opened + 1 } := .of_events rfl id
  simp only
  split
  · exact hstart.trans (.raise _ _)
  · have h := adjusts_attempt host { w with opened := w.opened + 1 }
    split
    · next w₁ hattempt =>
      rw [hattempt] at h
      exact hstart.trans (h.trans (adjusts_closeStream _ _))
    · next w₁ hattempt =>
      rw [hattempt] at h
      have h' := adjusts_fillBuffer host [] (host.stream w.opened path).content
        policyInitialCapacity w₁
      split
      · next hfill =>
        rw [hfill] at h'
        exact hstart.trans (h.trans (h'.trans (adjusts_closeStream _ _)))
      · next hfill =>
        rw [hfill] at h'
        exact hstart.trans (h.trans (h'.trans (adjusts_closeStream _ _)))

theorem adjusts_readSummaries (result : RunResult) (w : World) :
    Adjusts w (readSummaries host result w).2 := by
  unfold readSummaries
  rcases hlog : fileExists host result.resourceLogPath w with ⟨present, w₁⟩
  have h₁ : Adjusts w w₁ := by
    simpa [hlog] using adjusts_fileExists host result.resourceLogPath w
  simp only
  rcases hjson : (if present then fileExists host result.resourceJsonPath w₁ else (false, w₁)) with
    ⟨json, w₂⟩
  have h₂ : Adjusts w₁ w₂ := by
    split at hjson
    · simpa [hjson] using adjusts_fileExists host result.resourceJsonPath w₁
    · obtain ⟨-, rfl⟩ := Prod.mk.inj hjson
      exact .refl _
  simp only
  rcases hread : (if json then readPolicyJson host result.resourceJsonPath resourcePolicySchema w₂
    else (result.resources, w₂)) with ⟨resources, w₃⟩
  have h₃ : Adjusts w₂ w₃ := by
    split at hread
    · simpa [hread] using adjusts_readPolicyJson host result.resourceJsonPath
        resourcePolicySchema w₂
    · obtain ⟨-, rfl⟩ := Prod.mk.inj hread
      exact .refl _
  simp only
  rcases hjson' : fileExists host result.analysisJsonPath w₃ with ⟨json', w₄⟩
  have h₄ : Adjusts w₃ w₄ := by
    simpa [hjson'] using adjusts_fileExists host result.analysisJsonPath w₃
  simp only
  rcases hread' : (if json' then readPolicyJson host result.analysisJsonPath analysisPolicySchema w₄
    else (result.analysis, w₄)) with ⟨analysis, w₅⟩
  have h₅ : Adjusts w₄ w₅ := by
    split at hread'
    · simpa [hread'] using adjusts_readPolicyJson host result.analysisJsonPath
        analysisPolicySchema w₄
    · obtain ⟨-, rfl⟩ := Prod.mk.inj hread'
      exact .refl _
  exact h₁.trans (h₂.trans (h₃.trans (h₄.trans h₅)))

theorem adjusts_printStatusText (status : WaitStatus) (w : World) :
    Adjusts w (printStatusText host status w) := by
  unfold printStatusText
  split <;> exact adjusts_put host _ _

theorem adjusts_printCase (result : RunResult) (w : World) : Adjusts w (printCase host result w) := by
  unfold printCase
  dsimp only
  split
  · exact adjusts_put host _ _
  · split <;> exact (adjusts_put host _ _).trans (adjusts_put host _ _)

theorem adjusts_printSummaries (result : RunResult) (w : World) :
    Adjusts w (printSummaries host result w) := by
  unfold printSummaries
  dsimp only
  split <;> split <;> exact (adjusts_put host _ _).trans (adjusts_put host _ _)

theorem adjusts_printRunResult (host : Host) (result : RunResult) (w : World) :
    Adjusts w (printRunResult host result w) :=
  (adjusts_printCase _ _).trans <| (adjusts_put host _ _).trans <| (adjusts_printStatusText _ _).trans <|
    (adjusts_printSummaries _ _).trans (adjusts_put host _ _)

theorem adjusts_printTotals (p : Progress) : Adjusts p.world (printTotals host p).world := by
  refine (adjusts_put host (totalText p) p.world).trans ?_
  simp only [printTotals, printFaultGroups]
  split
  · exact .refl _
  · exact (adjusts_put host _ _).trans (.foldl (fun _ _ => adjusts_put host _ _) _ _)

theorem adjusts_joinPath (dir name : Text) (w : World) : Adjusts w (joinPath dir name w).2 := by
  unfold joinPath
  dsimp only
  split
  · exact .raise _ _
  · exact .refl _

theorem adjusts_makeLogPaths (host : Host) (arguments : Arguments) (index : ℕ) (result : RunResult) (w : World) :
    Adjusts w (makeLogPaths host arguments index result w).2 :=
  (adjusts_joinPath _ _ _).trans <| (adjusts_joinPath _ _ _).trans <|
    (adjusts_joinPath _ _ _).trans <| (adjusts_joinPath _ _ _).trans <|
    (adjusts_joinPath _ _ _).trans <| (adjusts_joinPath _ _ _).trans <|
    (adjusts_joinPath _ _ _).trans (adjusts_joinPath _ _ _)

/-! ### Setting and removing variables -/

theorem adjusts_setenv (name : Variable) (value : Text) (w : World) :
    Adjusts w (setenv host name value w) := by
  unfold setenv attempt
  split
  · next heq =>
    split at heq
    · obtain ⟨-, rfl⟩ := Prod.mk.inj heq
      exact ⟨[.set name false], rfl, by simp, fun _ => rfl, fun _ => rfl⟩
    · simp at heq
  · next heq =>
    split at heq
    · simp at heq
    · obtain ⟨-, rfl⟩ := Prod.mk.inj heq
      exact ⟨[.set name true], rfl, by simp, by simp [Event.Failed], id⟩

/-- A variable that was set without an error has its value; the others keep theirs. -/
theorem environment_setenv {value : Text} (h : (setenv host name value w).hasError = false) :
    (setenv host name value w).environment = Function.update w.environment name (some value) := by
  unfold setenv attempt at h ⊢
  split
  · next heq =>
    split at heq
    · obtain ⟨-, rfl⟩ := Prod.mk.inj heq
      next hfailure => simp [hfailure] at h
    · simp at heq
  · next heq =>
    split at heq
    · simp at heq
    · obtain ⟨-, rfl⟩ := Prod.mk.inj heq
      rfl

theorem adjusts_setenvIfGiven (w : World) (setting : Variable × Option Text) :
    Adjusts w (setenvIfGiven host w setting) := by
  rcases setting with ⟨name, _ | value⟩
  · exact .refl w
  · exact adjusts_setenv name value w

/-- An environment in which a variable has the value given, if one is. -/
def assign (environment : Environment) (setting : Variable × Option Text) : Environment :=
  match setting.2 with
  | none => environment
  | some value => Function.update environment setting.1 (some value)

/-- **Setting variables.** Without an error, every variable that is given a value has it. -/
theorem environment_setAll {settings : List (Variable × Option Text)}
    (h : (settings.foldl (setenvIfGiven host) w).hasError = false) :
    (settings.foldl (setenvIfGiven host) w).environment = settings.foldl assign w.environment := by
  induction settings generalizing w with
  | nil => rfl
  | cons setting rest ih =>
      have hfirst := (Adjusts.foldl adjusts_setenvIfGiven rest _).hasError h
      have henvironment : (setenvIfGiven host w setting).environment =
          assign w.environment setting := by
        rcases setting with ⟨name, _ | value⟩
        · rfl
        · exact environment_setenv hfirst
      rw [List.foldl_cons, List.foldl_cons, ih h, henvironment]

theorem foldl_assign_of_notMem {settings : List (Variable × Option Text)} {environment : Environment}
    (h : name ∉ settings.map Prod.fst) : settings.foldl assign environment name = environment name := by
  induction settings generalizing environment with
  | nil => rfl
  | cons setting rest ih =>
      simp only [List.map_cons, List.mem_cons, not_or] at h
      rw [List.foldl_cons, ih h.2]
      rcases setting with ⟨name', _ | value⟩
      · rfl
      · exact Function.update_of_ne h.1 _ _

/-- Assigning to distinct variables of a cleared environment gives each its own value. -/
theorem foldl_assign {settings : List (Variable × Option Text)} {environment : Environment}
    (hnodup : (settings.map Prod.fst).Nodup) (hname : environment name = none) :
    settings.foldl assign environment name = (settings.lookup name).join := by
  induction settings generalizing environment with
  | nil => exact hname
  | cons setting rest ih =>
      rw [List.map_cons, List.nodup_cons] at hnodup
      rw [List.foldl_cons, List.lookup_cons]
      by_cases heq : name = setting.1
      · subst heq
        rw [foldl_assign_of_notMem hnodup.1, beq_self_eq_true]
        rcases setting with ⟨name, _ | value⟩
        · exact hname
        · exact Function.update_self _ _ _
      · rw [beq_false_of_ne heq]
        refine ih hnodup.2 ?_
        rcases setting with ⟨name', _ | value⟩
        · exact hname
        · exact (Function.update_of_ne heq _ _).trans hname

/-- What removing one variable does, as the log tells. -/
theorem unsetenv_spec (host : Host) (w : World) (name : Variable) :
    ∃ done, (unsetenv host w name).events = w.events ++ [.unset name done] ∧
      (unsetenv host w name).environment =
        (if done then Function.update w.environment name none else w.environment) ∧
      (unsetenv host w name).hasError = (w.hasError || !done) := by
  unfold unsetenv attempt
  rcases host.failure w.calls with _ | code
  · exact ⟨true, rfl, rfl, (Bool.or_false _).symm⟩
  · exact ⟨false, rfl, rfl, (Bool.or_true _).symm⟩

theorem adjusts_unsetenv (w : World) (name : Variable) : Adjusts w (unsetenv host w name) := by
  obtain ⟨done, hevents, -, herr⟩ := unsetenv_spec host w name
  refine ⟨_, hevents, by simp, ?_, by simp_all⟩
  rintro ⟨e, he, hfailed⟩
  obtain rfl := List.mem_singleton.mp he
  obtain rfl : done = false := hfailed
  simp [herr]

/-- **Removing variables.** Unless a removal fails, the variables are gone and the others are as they
were. -/
theorem unsetAll_spec (host : Host) (names : List Variable) (w : World) :
    ∃ changes, (names.foldl (unsetenv host) w).events = w.events ++ changes ∧
      ((names.foldl (unsetenv host) w).hasError = false → ∀ e ∈ changes, ¬ e.FailedUnset) ∧
      ((∀ e ∈ changes, ¬ e.FailedUnset) → ∀ name,
        (names.foldl (unsetenv host) w).environment name =
          if name ∈ names then none else w.environment name) := by
  induction names generalizing w with
  | nil => exact ⟨[], by simp, by simp, by simp⟩
  | cons name rest ih =>
      obtain ⟨done, hevents, henvironment, herr⟩ := unsetenv_spec host w name
      obtain ⟨changes, hevents', hclean, hgone⟩ := ih (unsetenv host w name)
      refine ⟨.unset name done :: changes, ?_, ?_, ?_⟩
      · rw [List.foldl_cons, hevents', hevents, List.append_assoc, List.singleton_append]
      · intro hclear
        have hdone := (Adjusts.foldl adjusts_unsetenv rest _).hasError hclear
        simp only [herr, Bool.or_eq_false_iff, Bool.not_eq_eq_eq_not, Bool.not_false] at hdone
        simp only [List.forall_mem_cons]
        exact ⟨by simp [Event.FailedUnset, hdone.2], hclean hclear⟩
      · intro hnone name'
        simp only [List.forall_mem_cons] at hnone
        obtain rfl : done = true := by simpa [Event.FailedUnset] using hnone.1
        rw [List.foldl_cons, hgone hnone.2, henvironment]
        by_cases heq : name' = name
        · simp [heq]
        · simp [heq]

theorem adjusts_clearFaultEnvironment (host : Host) (w : World) : Adjusts w (clearFaultEnvironment host w) :=
  .foldl adjusts_unsetenv _ w

/-- Clearing without an error removes every fault variable. -/
theorem environment_clearFaultEnvironment (h : (clearFaultEnvironment host w).hasError = false)
    (hname : name ∈ Variable.parentSide ++ Variable.childSide) :
    (clearFaultEnvironment host w).environment name = none := by
  obtain ⟨changes, -, hclean, hgone⟩ :=
    unsetAll_spec host (Variable.parentSide ++ Variable.childSide) w
  rw [clearFaultEnvironment, hgone (hclean h), if_pos hname]

theorem adjusts_setCaseEnvironment (host : Host) (arguments : Arguments) (index : ℕ) (path : Text) (w : World) :
    Adjusts w (setCaseEnvironment host arguments index path w) :=
  .foldl adjusts_setenvIfGiven _ w

/-- A 32-bit number fits the buffer it is printed to. -/
theorem cut_decimal {n : ℕ} (h : n < 2 ^ 32) : cut faultLength (decimal n) = decimal n := by
  refine cut_of_lt (lt_of_le_of_lt (length_decimal_le (k := 10) (by decide) (by omega)) (by decide))

theorem cut_signedDecimal (n : Int32) :
    cut faultLength (signedDecimal n.toInt) = signedDecimal n.toInt := by
  have hlt := n.toInt_lt
  have hle := n.le_toInt
  rcases hn : n.toInt with m | m <;> rw [hn] at hlt hle
  · simp only [Int.ofNat_eq_natCast] at hlt
    exact cut_decimal (by omega)
  · refine cut_of_lt ?_
    have := length_decimal_le (n := m + 1) (k := 10) (by decide) (by omega)
    simp only [signedDecimal, List.length_cons]
    exact lt_of_le_of_lt (Nat.add_le_add_right this 1) (by decide)

/-- **Setting the variables of a case.** On a cleared environment, and without an error, it leaves
exactly the variables of the case. -/
theorem environment_setCaseEnvironment {path : Text} (hindex : index < 2 ^ 32)
    (hpath : path = faultLogText host.pid arguments index)
    (hcleared : ∀ name ∈ Variable.parentSide ++ Variable.childSide, w.environment name = none)
    (h : (setCaseEnvironment host arguments index path w).hasError = false)
    (hname : name ∈ Variable.parentSide ++ Variable.childSide) :
    (setCaseEnvironment host arguments index path w).environment name =
      caseEnvironment host.pid arguments index name := by
  have hnames : ((caseSettings arguments index path).map Prod.fst).Nodup := by
    rw [show (caseSettings arguments index path).map Prod.fst =
      [.childFaultLog, .childFaultName, .childFaultMode, .childFaultAmount, .childFaultRepeat,
        .childFaultErrno, .childFaultCall] from rfl]
    decide
  rw [setCaseEnvironment, environment_setAll h, foldl_assign hnames (hcleared name hname)]
  simp only [caseSettings, cut_decimal (UInt32.toNat_lt _), cut_signedDecimal, cut_decimal hindex,
    hpath]
  simp only [Variable.parentSide, Variable.childSide, List.cons_append, List.nil_append,
    List.mem_cons, List.not_mem_nil, or_false] at hname
  rcases hname with rfl | rfl | rfl | rfl | rfl | rfl | rfl | rfl | rfl | rfl | rfl | rfl | rfl |
    rfl | rfl | rfl | rfl
  all_goals rfl

/-! ### One case -/

/-- What holds of the log at every moment: the launches so far saw the variables of their cases, a
failed change is an error on record, and nothing was launched after one. -/
structure Guarded (host : Host) (arguments : Arguments) (w : World) : Prop where
  launches : ∀ launch, .launched launch ∈ w.events →
    ∀ name ∈ Variable.parentSide ++ Variable.childSide,
      launch.environment name = caseEnvironment host.pid arguments launch.index name
  failed : ∀ e ∈ w.events, e.Failed → w.hasError = true
  blocks : ∀ before e after, w.events = before ++ e :: after → e.Failed →
    ∀ launch, .launched launch ∉ after

theorem Guarded.adjusts (h : Guarded host arguments w) (hstep : Adjusts w w') :
    Guarded host arguments w' := by
  obtain ⟨changes, hevents, hlaunch, hfailed, herr⟩ := hstep
  refine ⟨?_, ?_, ?_⟩
  · intro launch hmem
    rw [hevents, List.mem_append] at hmem
    exact h.launches launch (hmem.resolve_right (hlaunch launch))
  · intro e he hf
    rw [hevents, List.mem_append] at he
    rcases he with he | he
    · exact herr (h.failed e he hf)
    · exact hfailed ⟨e, he, hf⟩
  · intro before e after hsplit hf launch hmem
    rw [hevents, List.append_eq_append_iff] at hsplit
    rcases hsplit with ⟨middle, -, hchanges⟩ | ⟨middle, hbefore, hrest⟩
    · exact hlaunch launch
        (hchanges ▸ List.mem_append_right _ (List.mem_cons_of_mem _ hmem))
    · rcases middle with _ | ⟨e', middle⟩
      · rw [List.nil_append] at hrest
        exact hlaunch launch (hrest ▸ List.mem_cons_of_mem _ hmem)
      · obtain ⟨rfl, rfl⟩ := List.cons.inj hrest
        rcases List.mem_append.mp hmem with hmem | hmem
        · exact h.blocks before e middle hbefore hf launch hmem
        · exact hlaunch launch hmem

/-- A launch while no error is on record, with the variables of its case. -/
theorem Guarded.launch {launch : Launch} (h : Guarded host arguments w) (hclear : w.hasError = false)
    (hseen : ∀ name ∈ Variable.parentSide ++ Variable.childSide,
      launch.environment name = caseEnvironment host.pid arguments launch.index name) :
    Guarded host arguments (w.log (.launched launch)) := by
  have hnone : ∀ e ∈ (w.log (.launched launch)).events, ¬ e.Failed := by
    intro e he hf
    rw [World.events_log, List.mem_append, List.mem_singleton] at he
    rcases he with he | rfl
    · rw [h.failed e he hf] at hclear
      exact absurd hclear (by decide)
    · exact hf
  refine ⟨?_, fun e he hf => absurd hf (hnone e he), ?_⟩
  · intro launch' hmem
    rw [World.events_log, List.mem_append, List.mem_singleton] at hmem
    rcases hmem with hmem | heq
    · exact h.launches launch' hmem
    · obtain rfl : launch' = launch := by simpa using heq
      exact hseen
  · intro before e after hsplit hf
    exact absurd hf (hnone e (by rw [hsplit]; simp))

theorem joinPath_of_noError {dir name : Text} (h : (joinPath dir name w).2.hasError = false) :
    (dir ++ '/' :: name).length < pathLength ∧ (joinPath dir name w).1 = dir ++ '/' :: name := by
  unfold joinPath at h ⊢
  dsimp only at h ⊢
  split at h
  · simp at h
  · next hfits => exact ⟨by omega, cut_of_lt (by omega)⟩

/-- Without an error the fault log has its full path name. -/
theorem makeLogPaths_of_noError (host : Host) {result : RunResult}
    (h : (makeLogPaths host arguments index result w).2.hasError = false) :
    (makeLogPaths host arguments index result w).1.faultLogPath =
        faultLogText host.pid arguments index ∧
      (makeLogPaths host arguments index result w).1.faultIndex = result.faultIndex := by
  refine ⟨?_, rfl⟩
  have hreport := (adjusts_joinPath _ _ _).hasError h
  have hanalysis := (adjusts_joinPath _ _ _).hasError hreport
  have hresource := (adjusts_joinPath _ _ _).hasError hanalysis
  obtain ⟨-, hfault⟩ := joinPath_of_noError hresource
  have hcalls := (adjusts_joinPath _ _ _).hasError hresource
  have hlog := (adjusts_joinPath _ _ _).hasError hcalls
  have hdir := (adjusts_joinPath _ _ _).hasError hlog
  have hcapture := (adjusts_joinPath _ _ _).hasError hdir
  obtain ⟨hlength, hjoin⟩ := joinPath_of_noError hcapture
  have hdirectory : cut pathLength (cut pathLength (runName host.pid arguments index) ++
      '/' :: "capture".toList) = _ := hjoin
  -- A run directory that was cut leaves no room for the names below it.
  have hname : (runName host.pid arguments index).length < pathLength := by
    by_contra hlong
    rw [cut, List.length_append, List.length_take, min_eq_left (by omega)] at hlength
    simp only [pathLength, List.length_cons] at hlength
    omega
  refine hfault.trans ?_
  rw [hdirectory, cut_of_lt hname, faultLogText, List.append_assoc]
  rfl

theorem guarded_runPipeline {result : RunResult} (h : Guarded host arguments w)
    (hclear : w.hasError = false)
    (hseen : ∀ name ∈ Variable.parentSide ++ Variable.childSide,
      w.environment name = caseEnvironment host.pid arguments result.faultIndex name) :
    Guarded host arguments (runPipeline host arguments result w).2 := by
  unfold runPipeline
  split
  · exact h.adjusts (.raise _ _)
  · have htick : Guarded host arguments w.tick := h.adjusts (.of_events rfl id)
    dsimp only
    split
    · exact htick.launch hclear hseen
    · exact (htick.launch hclear hseen).adjusts (.raise _ _)

theorem guarded_observeCase {result : RunResult} (h : Guarded host arguments w)
    (hclear : w.hasError = false)
    (hseen : ∀ name ∈ Variable.parentSide ++ Variable.childSide,
      w.environment name = caseEnvironment host.pid arguments result.faultIndex name) :
    Guarded host arguments (observeCase host arguments result w).2 := by
  have hrun := guarded_runPipeline h hclear hseen
  unfold observeCase
  rcases hpipeline : runPipeline host arguments result w with ⟨status, w₁⟩
  rw [hpipeline] at hrun
  have hread := adjusts_readFaultHit host result.faultLogPath w₁
  simp only
  split
  · exact hrun.adjusts hread
  · exact hrun.adjusts (hread.trans (adjusts_readSummaries _ _))

theorem guarded_prepareCase (hindex : index < 2 ^ 32) (h : Guarded host arguments w) :
    Guarded host arguments (prepareCase host arguments index w).2 := by
  unfold prepareCase
  rcases hpaths : makeLogPaths host arguments index { RunResult.zero with faultIndex := index } w with
    ⟨result, w₁⟩
  have hmake := adjusts_makeLogPaths host arguments index
    { RunResult.zero with faultIndex := index } w
  rw [hpaths] at hmake
  simp only
  split
  · exact h.adjusts hmake
  next herr =>
  have hclear : (makeLogPaths host arguments index
      { RunResult.zero with faultIndex := index } w).2.hasError = false := by
    rw [hpaths]
    simpa using herr
  obtain ⟨hpath, hresult⟩ := makeLogPaths_of_noError host hclear
  rw [hpaths] at hpath hresult
  have hcleared := hmake.trans (adjusts_clearFaultEnvironment host w₁)
  split
  · exact h.adjusts hcleared
  next hclear =>
  have hset := hcleared.trans
    (adjusts_setCaseEnvironment host arguments index result.faultLogPath _)
  split
  · exact h.adjusts hset
  next hdone =>
  refine guarded_observeCase (h.adjusts hset) (by simpa using hdone) fun name hname => ?_
  rw [show result.faultIndex = index from hresult]
  exact environment_setCaseEnvironment hindex hpath
    (fun name hname => environment_clearFaultEnvironment (by simpa using hclear) hname)
    (by simpa using hdone) hname

/-- **One case.** It keeps the invariant. -/
theorem guarded_runOneCase (hindex : index < 2 ^ 32) (h : Guarded host arguments w) :
    Guarded host arguments (runOneCase host arguments index w).2.2 :=
  (guarded_prepareCase hindex h).adjusts (adjusts_clearFaultEnvironment host _)

/-! ### The whole walk -/

section Invariant

variable {runCase : CaseRunner} {maxFailures remaining : ℕ} {p : Progress} {holds : World → Prop}

/-- An invariant that every case and every step without a launch keeps is one of the loop. -/
theorem walkFrom_world (host : Host) (hadjusts : ∀ w w', Adjusts w w' → holds w → holds w')
    (hcase : ∀ index w, index ≤ maxFailures → holds w → holds (runCase index w).2.2)
    (hmax : index + remaining = maxFailures + 1) (h : holds p.world) :
    holds (walkFrom host runCase remaining index p).2.world := by
  induction remaining generalizing index p with
  | zero => exact h
  | succ remaining ih =>
      rw [walkFrom]
      split
      · exact h
      have hrun := hcase index p.world (by omega) h
      rcases hresult : runCase index p.world with ⟨status, result, w⟩
      rw [hresult] at hrun
      have hprint := hadjusts _ _ (adjusts_printRunResult host result w) hrun
      simp only
      split
      · exact hrun
      · split
        · exact hadjusts _ _ (adjusts_put host _ _) hprint
        · exact ih (by omega) hprint

/-- An invariant that every case and every step without a launch keeps is one of the walk, up to the
final removal of the variables. -/
theorem walk_world (host : Host) (hadjusts : ∀ w w', Adjusts w w' → holds w → holds w')
    (hcase : ∀ index w, index ≤ maxFailures → holds w → holds (runCase index w).2.2)
    (h : holds w) :
    ∃ p, walk host runCase maxFailures w = finish host p ∧ holds p.world := by
  have hrun := hcase 0 w (Nat.zero_le _) h
  rcases hresult : runCase 0 w with ⟨status, result, w₁⟩
  rw [hresult] at hrun
  have hprint := hadjusts _ _ (adjusts_printRunResult host result w₁) hrun
  simp only [walk, hresult]
  split
  · exact ⟨_, rfl, hrun⟩
  · split
    · next p hloop =>
      have hend := walkFrom_world host hadjusts hcase (Nat.add_comm 1 maxFailures)
        (p := { (Progress.print ⟨0, 0, [], false, [], w⟩ 0 status result w₁
          (printRunResult host result w₁)).count result with trouble := baselineTrouble result }) hprint
      rw [hloop] at hend
      exact ⟨_, rfl, hadjusts _ _ (adjusts_printTotals p) hend⟩
    · next p hloop =>
      have hend := walkFrom_world host hadjusts hcase (Nat.add_comm 1 maxFailures)
        (p := { (Progress.print ⟨0, 0, [], false, [], w⟩ 0 status result w₁
          (printRunResult host result w₁)).count result with trouble := baselineTrouble result }) hprint
      rw [hloop] at hend
      exact ⟨_, rfl, hend⟩

end Invariant

theorem adjusts_resetRunEnvironment (w : World) : Adjusts w (resetRunEnvironment host w) :=
  (adjusts_clearFaultEnvironment host w).trans (adjusts_unsetenv _ _)

/-- Unless a removal failed, the final removal leaves no fault variable. -/
theorem environment_resetRunEnvironment
    (hnone : ∀ e ∈ (resetRunEnvironment host w).events, ¬ e.FailedUnset)
    (hname : name ∈ Variable.parentSide ++ Variable.childSide ++ [.resourceLog]) :
    (resetRunEnvironment host w).environment name = none := by
  obtain ⟨changes, hevents, -, hgone⟩ := unsetAll_spec host
    (Variable.parentSide ++ Variable.childSide ++ [.resourceLog]) w
  rw [List.foldl_append] at hevents hgone
  have h := hgone (fun e he => hnone e (by
    show e ∈ (unsetenv host (clearFaultEnvironment host w) .resourceLog).events
    exact hevents ▸ List.mem_append_right _ he)) name
  rw [if_pos hname] at h
  exact h

/-- **The isolation of the cases.** It holds of every walk from every environment. -/
theorem run_isolated (host : Host) (arguments : Arguments) (environment : Environment) :
    Isolated host arguments (run host arguments (.initial environment)) := by
  obtain ⟨p, hrun, hguarded⟩ : ∃ p, walk host (runOneCase host arguments) arguments.maxFailures
      (.initial environment) = finish host p ∧ Guarded host arguments p.world :=
    walk_world host (fun _ _ hstep h => h.adjusts hstep)
    (fun index w hle h => guarded_runOneCase (by
      have := arguments.admitted
      simp only [maxFailuresLimit] at this
      omega) h)
    ⟨by simp [World.initial], by simp [World.initial], by simp [World.initial]⟩
  rw [run, hrun]
  have hend : Guarded host arguments (finish host p).world :=
    hguarded.adjusts (adjusts_resetRunEnvironment p.world)
  refine ⟨hend.launches, fun before e after hsplit hf => ⟨hend.blocks before e after hsplit hf, ?_⟩,
    fun hnone name hname => environment_resetRunEnvironment hnone hname⟩
  have herr := hend.failed e (by simp [hsplit]) hf
  simp only [finish] at herr ⊢
  simp [herr]

end P101Test.Faults
