import P101Test.Faults.Runner

/-!
# The verdict of a walk

Whatever way the cases are run, a walk executes an initial stretch of them without gap or repeat, and
its exit status is determined by what was seen of the executed cases and by the error record at its
end. The loop carries `Sound` from one case to the next; where the loop ends, `Sound` and the case
that ended it give `Complete`.

## Main definitions

* `Executed.Stops`, `Executed.Troubled`, `Executed.Counts`: what one executed case means to the walk.
* `Chained`: each case starts where the one before it, and the printing of its result, ended.
* `Lawful`: the law of a walk.

## Main results

* `complete_walkFrom`: the loop keeps the account of the cases.
* `walk_lawful`: every walk obeys the law, as long as the findings of a case are bounded.
-/

namespace P101Test.Faults

variable {host : Host} {runCase : CaseRunner} {maxFailures index remaining : ℕ} {p p' : Progress}
  {e new : Executed} {start : World}

/-! ### The law -/

namespace Executed

/-- The walk ends with this case: it failed, it met no fault, it is the last one allowed, or an error
is on record after it. -/
def Stops (maxFailures : ℕ) (e : Executed) : Prop :=
  e.status ≠ exitSuccess ∨ (1 ≤ e.index ∧ e.result.faultHit = false) ∨ e.index = maxFailures ∨
    e.errorAfter = true

/-- The case is trouble: it failed, the pipeline ended badly, a summary is missing, or the baseline was
unsuccessful without a finding. -/
def Troubled (e : Executed) : Prop :=
  e.status ≠ exitSuccess ∨ e.result.pipelineOk = false ∨
    analysisSummaryUnavailable e.result = true ∨
    (e.index = 0 ∧ statusIsSuccess e.result.status = false ∧ analysisFindingCount e.result = 0)

/-- The findings of the case count: it is the baseline or a case that hit a fault. -/
def Counts (e : Executed) : Prop :=
  e.status = exitSuccess ∧ (e.index = 0 ∨ e.result.faultHit = true)

instance : Decidable e.Counts := inferInstanceAs (Decidable (_ ∧ _))

/-- What the case adds to the total. -/
def found (e : Executed) : ℕ := if e.Counts then analysisFindingCount e.result else 0

end Executed

/-- The findings of a list of cases. -/
def totalFound (executed : List Executed) : ℕ := (executed.map Executed.found).sum

/-- The cases ran one after the other, from one world to another, and the result of each was printed before
the next one ran. -/
def Chained (host : Host) : World → List Executed → World → Prop
  | w, [], w' => w' = w
  | w, e :: rest, w' => e.before = w ∧ Chained host (printRunResult host e.result e.after) rest w'

/-- **The law of a walk.** The executed cases are those from 0 up to the first that stops the walk, each
run as the case of its index, one after the other. The status is that of trouble exactly when an error
is on record at the end or some case was trouble, else that of findings exactly when some finding
counts, else that of success. The total does not wrap. -/
structure Lawful (host : Host) (runCase : CaseRunner) (maxFailures : ℕ) (start : World) (walk : Walk) :
    Prop where
  executes : walk.executed ≠ []
  order : walk.executed.map Executed.index = List.range walk.executed.length
  ran : ∀ e ∈ walk.executed, runCase e.index e.before = (e.status, e.result, e.after)
  chained : ∃ w, Chained host start walk.executed w
  stops : ∀ e ∈ walk.executed, e.Stops maxFailures ↔ e.index + 1 = walk.executed.length
  trouble : walk.status = exitTrouble ↔
    walk.world.hasError = true ∨ ∃ e ∈ walk.executed, e.Troubled
  findings : walk.status ≠ exitTrouble →
    (walk.status = exitFindings ↔
      ∃ e ∈ walk.executed, e.Counts ∧ 0 < analysisFindingCount e.result)
  success : walk.status ≠ exitTrouble → walk.status ≠ exitFindings → walk.status = exitSuccess
  total : walk.findings = totalFound walk.executed

/-! ### The account of the cases -/

/-- What the loop knows when it is about to run the case `index`: every case so far succeeded and its
findings count, and an error is on record only after the last. -/
structure Sound (host : Host) (runCase : CaseRunner) (start : World) (index : ℕ) (p : Progress) :
    Prop where
  order : p.executed.map Executed.index = List.range index
  ran : ∀ e ∈ p.executed, runCase e.index e.before = (e.status, e.result, e.after)
  chained : Chained host start p.executed p.world
  counts : ∀ e ∈ p.executed, e.Counts
  errorAfter : ∀ e ∈ p.executed, e.errorAfter = (p.world.hasError && (e.index + 1 == index))
  trouble : p.trouble = true ↔ ∃ e ∈ p.executed, e.Troubled
  findings : p.findings = totalFound p.executed % sizeRange

/-- What is known where the loop has ended. -/
structure Complete (host : Host) (runCase : CaseRunner) (maxFailures : ℕ) (start : World) (p : Progress) :
    Prop where
  executes : p.executed ≠ []
  order : p.executed.map Executed.index = List.range p.executed.length
  ran : ∀ e ∈ p.executed, runCase e.index e.before = (e.status, e.result, e.after)
  chained : ∃ w, Chained host start p.executed w
  stops : ∀ e ∈ p.executed, e.Stops maxFailures ↔ e.index + 1 = p.executed.length
  trouble : p.trouble = true ↔ ∃ e ∈ p.executed, e.Troubled
  findings : p.findings = totalFound p.executed % sizeRange

/-- One more case starts where the others ended. -/
theorem Chained.concat {w : World} {executed : List Executed} (h : Chained host start executed w)
    (hbefore : e.before = w) :
    Chained host start (executed ++ [e]) (printRunResult host e.result e.after) := by
  induction executed generalizing start with
  | nil => exact ⟨hbefore.trans h, rfl⟩
  | cons first rest ih => exact ⟨h.1, ih h.2⟩

theorem Sound.length_executed (h : Sound host runCase start index p) : p.executed.length = index := by
  simpa using congrArg List.length h.order

theorem Sound.index_lt (h : Sound host runCase start index p) (he : e ∈ p.executed) : e.index < index := by
  rw [← List.mem_range, ← h.order]
  exact List.mem_map_of_mem he

/-- A case the loop went on from stops the walk only when it is the last one allowed or left an
error. -/
theorem Sound.stops_iff (h : Sound host runCase start index p) (he : e ∈ p.executed) :
    e.Stops maxFailures ↔ e.index = maxFailures ∨ (p.world.hasError = true ∧ e.index + 1 = index) := by
  obtain ⟨hstatus, hhit⟩ := h.counts e he
  rw [Executed.Stops, h.errorAfter e he, Bool.and_eq_true, beq_iff_eq]
  rcases hhit with hhit | hhit <;> simp [hstatus, hhit]

theorem Sound.complete (h : Sound host runCase start index p) (hpos : 1 ≤ index)
    (hend : index = maxFailures + 1 ∨ (index ≤ maxFailures ∧ p.world.hasError = true)) :
    Complete host runCase maxFailures start p where
  executes hnil := by
    have := h.length_executed
    simp only [hnil, List.length_nil] at this
    omega
  order := by rw [h.length_executed, h.order]
  ran := h.ran
  chained := ⟨_, h.chained⟩
  stops e he := by
    have hlt := h.index_lt he
    rw [h.stops_iff he, h.length_executed]
    rcases hend with rfl | ⟨hle, herr⟩
    · constructor
      · rintro (heq | ⟨-, heq⟩) <;> omega
      · intro heq
        exact .inl (by omega)
    · simp only [herr, true_and]
      omega
  trouble := h.trouble
  findings := h.findings

theorem totalFound_append (executed : List Executed) (e : Executed) :
    totalFound (executed ++ [e]) = totalFound executed + e.found := by
  simp [totalFound]

/-- The loop ends with one more case, whose findings do not count. -/
theorem Sound.complete_append (h : Sound host runCase start index p) (hclear : p.world.hasError = false)
    (hle : index ≤ maxFailures) (hindex : new.index = index) (hbefore : new.before = p.world)
    (hran : runCase new.index new.before = (new.status, new.result, new.after))
    (hstops : new.Stops maxFailures) (hcounts : ¬ new.Counts)
    (hexecuted : p'.executed = p.executed ++ [new])
    (htrouble : p'.trouble = true ↔ p.trouble = true ∨ new.Troubled)
    (hfindings : p'.findings = p.findings) : Complete host runCase maxFailures start p' where
  executes := by simp [hexecuted]
  order := by
    rw [hexecuted, List.map_append, h.order, List.map_singleton, hindex, List.length_append,
      h.length_executed, List.length_singleton, List.range_succ]
  ran e he := by
    rw [hexecuted, List.mem_append, List.mem_singleton] at he
    rcases he with he | rfl
    · exact h.ran e he
    · exact hran
  chained := ⟨_, hexecuted ▸ h.chained.concat hbefore⟩
  stops e he := by
    rw [hexecuted, List.mem_append, List.mem_singleton] at he
    rw [hexecuted, List.length_append, h.length_executed, List.length_singleton]
    rcases he with he | rfl
    · have hlt := h.index_lt he
      simp only [h.stops_iff he, hclear, Bool.false_eq_true, false_and, or_false]
      omega
    · simp [hstops, hindex]
  trouble := by
    rw [htrouble, h.trouble, hexecuted]
    simp [or_and_right, exists_or]
  findings := by
    rw [hfindings, h.findings, hexecuted, totalFound_append, Executed.found, if_neg hcounts,
      Nat.add_zero]

/-- The loop goes on after a case whose findings count. -/
theorem Sound.append (h : Sound host runCase start index p) (hclear : p.world.hasError = false)
    (hindex : new.index = index) (hbefore : new.before = p.world)
    (hran : runCase new.index new.before = (new.status, new.result, new.after))
    (hworld : p'.world = printRunResult host new.result new.after)
    (hcounts : new.Counts) (herror : new.errorAfter = p'.world.hasError)
    (hexecuted : p'.executed = p.executed ++ [new])
    (htrouble : p'.trouble = true ↔ p.trouble = true ∨ new.Troubled)
    (hfindings : p'.findings = addSize p.findings (analysisFindingCount new.result)) :
    Sound host runCase start (index + 1) p' where
  order := by
    rw [hexecuted, List.map_append, h.order, List.map_singleton, hindex, List.range_succ]
  ran e he := by
    rw [hexecuted, List.mem_append, List.mem_singleton] at he
    rcases he with he | rfl
    · exact h.ran e he
    · exact hran
  chained := by
    rw [hexecuted, hworld]
    exact h.chained.concat hbefore
  counts e he := by
    rw [hexecuted, List.mem_append, List.mem_singleton] at he
    rcases he with he | rfl
    · exact h.counts e he
    · exact hcounts
  errorAfter e he := by
    rw [hexecuted, List.mem_append, List.mem_singleton] at he
    rcases he with he | rfl
    · have hlt := h.index_lt he
      have hne : (e.index + 1 == index + 1) = false := by simp; omega
      rw [h.errorAfter e he, hclear, hne, Bool.false_and, Bool.and_false]
    · simp [herror, hindex]
  trouble := by
    rw [htrouble, h.trouble, hexecuted]
    simp [or_and_right, exists_or]
  findings := by
    rw [hfindings, h.findings, hexecuted, totalFound_append, Executed.found, if_pos hcounts,
      addSize, Nat.mod_add_mod]

theorem caseTrouble_iff {result : RunResult} : caseTrouble result = true ↔
    result.pipelineOk = false ∨ analysisSummaryUnavailable result = true := by
  simp [caseTrouble]

/-- **The loop.** From a sound account it reaches a complete one. -/
theorem complete_walkFrom (host : Host) (hpos : 1 ≤ index) (hmax : index + remaining = maxFailures + 1)
    (h : Sound host runCase start index p) :
    Complete host runCase maxFailures start (walkFrom host runCase remaining index p).2 := by
  induction remaining generalizing index p with
  | zero => exact h.complete hpos (.inl (by omega))
  | succ remaining ih =>
      rw [walkFrom]
      split
      · next herr => exact h.complete hpos (.inr ⟨by omega, herr⟩)
      next hclear =>
      rw [Bool.not_eq_true] at hclear
      rcases hrun : runCase index p.world with ⟨status, result, w⟩
      simp only
      split
      · next hstatus =>
        exact h.complete_append hclear (by omega) rfl rfl hrun (.inl hstatus)
          (fun hcounts => hstatus hcounts.1) rfl (by simp [Progress.fail, Executed.Troubled, hstatus])
          rfl
      next hstatus =>
      rw [ne_eq, not_not] at hstatus
      have htroubled : ∀ w', (⟨index, p.world, status, result, w, w'⟩ : Executed).Troubled ↔
          caseTrouble result = true := by
        intro w'
        have hne : index ≠ 0 := by omega
        simp [Executed.Troubled, caseTrouble_iff, hstatus, hne]
      split
      · next hhit =>
        exact h.complete_append hclear (by omega) rfl rfl hrun (.inr (.inl ⟨hpos, hhit⟩))
          (by simp [Executed.Counts, hhit]; omega) rfl
          (by rw [htroubled]; simp [Progress.print]) rfl
      · next hhit =>
        rw [Bool.not_eq_false] at hhit
        exact ih (by omega) (by omega) (h.append hclear rfl rfl hrun rfl ⟨hstatus, .inr hhit⟩ rfl rfl
          (by rw [htroubled]; simp [Progress.print, Progress.count]) rfl)

/-! ### The whole walk -/

theorem sound_baseline {w w₀ : World} {result : RunResult} (host : Host)
    (hrun : runCase 0 w₀ = (exitSuccess, result, w)) :
    Sound host runCase w₀ 1 { (Progress.print ⟨0, 0, [], false, [], w₀⟩ 0 exitSuccess result w
      (printRunResult host result w)).count result with trouble := baselineTrouble result } where
  order := rfl
  ran e he := by
    obtain rfl : e = _ := by simpa [Progress.print, Progress.count] using he
    exact hrun
  chained := ⟨rfl, rfl⟩
  counts e he := by
    obtain rfl : e = _ := by simpa [Progress.print, Progress.count] using he
    exact ⟨rfl, .inl rfl⟩
  errorAfter e he := by
    obtain rfl : e = _ := by simpa [Progress.print, Progress.count] using he
    simp [Progress.print, Progress.count]
  trouble := by
    simp [Progress.print, Progress.count, Executed.Troubled, baselineTrouble, caseTrouble_iff,
      or_assoc]
  findings := by
    simp [Progress.print, Progress.count, totalFound, Executed.found, Executed.Counts, addSize]

theorem complete_fail {w w₀ : World} {status : ℕ} {result : RunResult} (host : Host)
    (hrun : runCase 0 w₀ = (status, result, w)) (hstatus : status ≠ exitSuccess) :
    Complete host runCase maxFailures w₀ (Progress.fail ⟨0, 0, [], false, [], w₀⟩ 0 status result w) where
  executes := by simp [Progress.fail]
  order := rfl
  ran e he := by
    obtain rfl : e = _ := by simpa [Progress.fail] using he
    exact hrun
  chained := ⟨_, rfl, rfl⟩
  stops e he := by
    obtain rfl : e = _ := by simpa [Progress.fail] using he
    simp [Executed.Stops, hstatus, Progress.fail]
  trouble := by simp [Progress.fail, Executed.Troubled, hstatus]
  findings := by
    simp [Progress.fail, totalFound, Executed.found, Executed.Counts, hstatus]

theorem walk_complete (host : Host) (runCase : CaseRunner) (maxFailures : ℕ) (w : World) :
    ∃ p, walk host runCase maxFailures w = finish host p ∧
      Complete host runCase maxFailures w p := by
  rcases hrun : runCase 0 w with ⟨status, result, w₁⟩
  by_cases hstatus : status = exitSuccess
  · subst hstatus
    have hsound := sound_baseline host hrun
    have hcomplete := complete_walkFrom host le_rfl
      (Nat.add_comm 1 maxFailures) hsound
    simp only [walk, hrun, ne_eq, not_true_eq_false, if_false]
    split
    · next p hloop =>
      rw [hloop] at hcomplete
      exact ⟨_, rfl, hcomplete.executes, hcomplete.order, hcomplete.ran, hcomplete.chained,
        hcomplete.stops, hcomplete.trouble, hcomplete.findings⟩
    · next p hloop =>
      rw [hloop] at hcomplete
      exact ⟨_, rfl, hcomplete⟩
  · exact ⟨_, by simp only [walk, hrun, if_pos hstatus], complete_fail host hrun hstatus⟩

/-- At most `maxFailures + 1` cases are executed. -/
theorem Complete.length_le (h : Complete host runCase maxFailures start p) :
    p.executed.length ≤ maxFailures + 1 := by
  by_contra hlong
  have hmem : maxFailures ∈ p.executed.map Executed.index := by
    rw [h.order, List.mem_range]
    omega
  obtain ⟨e, he, rfl⟩ := List.mem_map.mp hmem
  have := (h.stops e he).mp (.inr (.inr (.inl rfl)))
  omega

theorem totalFound_le {executed : List Executed} {bound : ℕ}
    (h : ∀ e ∈ executed, analysisFindingCount e.result ≤ bound) :
    totalFound executed ≤ executed.length * bound := by
  induction executed with
  | nil => exact Nat.zero_le _
  | cons e rest ih =>
      simp only [List.forall_mem_cons] at h
      have hfound : e.found ≤ bound := by
        rw [Executed.found]
        split
        · exact h.1
        · exact Nat.zero_le _
      calc totalFound (e :: rest)
        _ = totalFound rest + e.found := by simp [totalFound, Nat.add_comm]
        _ ≤ rest.length * bound + bound := Nat.add_le_add (ih h.2) hfound
        _ = (e :: rest).length * bound := (Nat.succ_mul _ _).symm

theorem totalFound_pos {executed : List Executed} : 0 < totalFound executed ↔
    ∃ e ∈ executed, e.Counts ∧ 0 < analysisFindingCount e.result := by
  have hfound : ∀ e : Executed, 0 < e.found ↔ e.Counts ∧ 0 < analysisFindingCount e.result := by
    intro e
    by_cases h : e.Counts <;> simp [Executed.found, h]
  induction executed with
  | nil => simp [totalFound]
  | cons e rest ih =>
      have hcons : totalFound (e :: rest) = e.found + totalFound rest := by simp [totalFound]
      simp only [hcons, Nat.add_pos_iff_pos_or_pos, hfound, ih, List.exists_mem_cons_iff]

/-- **The verdict of a walk.** -/
theorem walk_lawful (host : Host) (runCase : CaseRunner) (arguments : Arguments) (w : World)
    (hbound : ∀ e ∈ (walk host runCase arguments.maxFailures w).executed,
      analysisFindingCount e.result ≤ (sizeRange - 1) / (maxFailuresLimit + 1)) :
    Lawful host runCase arguments.maxFailures w (walk host runCase arguments.maxFailures w) := by
  obtain ⟨p, hwalk, hcomplete⟩ := walk_complete host runCase arguments.maxFailures w
  rw [hwalk] at hbound ⊢
  have htotal : p.findings = totalFound p.executed := by
    have hle := totalFound_le hbound
    have hlen := hcomplete.length_le
    have hadmitted := arguments.admitted
    have hlt : totalFound p.executed < sizeRange :=
      calc totalFound p.executed
        _ ≤ p.executed.length * ((sizeRange - 1) / (maxFailuresLimit + 1)) := hle
        _ ≤ (maxFailuresLimit + 1) * ((sizeRange - 1) / (maxFailuresLimit + 1)) :=
            Nat.mul_le_mul_right _ (by omega)
        _ ≤ sizeRange - 1 := Nat.mul_div_le _ _
        _ < sizeRange := by decide
    rw [hcomplete.findings, Nat.mod_eq_of_lt hlt]
  have htrouble : ((finish host p).world.hasError || p.trouble) = true ↔
      (finish host p).world.hasError = true ∨ ∃ e ∈ p.executed, e.Troubled := by
    rw [Bool.or_eq_true, hcomplete.trouble]
  have hstatus : (finish host p).status =
      if ((finish host p).world.hasError || p.trouble) = true then exitTrouble
      else if 0 < p.findings then exitFindings else exitSuccess := rfl
  refine ⟨hcomplete.executes, hcomplete.order, hcomplete.ran, hcomplete.chained, hcomplete.stops,
    ?_, ?_, ?_, htotal⟩
  · show _ ↔ (finish host p).world.hasError = true ∨ ∃ e ∈ p.executed, e.Troubled
    rw [← htrouble, hstatus]
    split
    · next h => simp [h]
    · next h => split <;> simp [h, exitTrouble, exitFindings, exitSuccess]
  · intro hne
    show _ ↔ ∃ e ∈ p.executed, e.Counts ∧ 0 < analysisFindingCount e.result
    rw [hstatus] at hne ⊢
    rw [← totalFound_pos, ← htotal]
    split
    · next h => simp [h] at hne
    · split <;> simp_all [exitFindings, exitSuccess]
  · intro hne hne'
    rw [hstatus] at hne hne' ⊢
    split
    · next h => simp [h] at hne
    · next h =>
      split
      · next h' => simp [h, h'] at hne'
      · rfl

/-! ### A walk over one fault -/

/-- A host that grants every call, and whose files do not exist. -/
def quietHost : Host where
  failure _ := none
  pid := 1
  stream _ _ := .missing
  transfer _ := readBufferLength
  capture _ _ := (.exited 0, none)
  faultLogTag := "P101FAULT".toList
  faultLogVersion := "3".toList
  faultDefaults := modeDefaults
  unescape := id
  parsePolicy _ _ := ⟨false, 0, 0⟩

/-- The options the walker has when none is given. -/
def defaultArguments : Arguments where
  maxFailures := 1024
  admitted := by decide
  faultErrno := none
  faultName := none
  faultMode := "error".toList
  faultAmount := 1
  faultRepeat := 1
  logPrefix := none
  p101Run := "p101-inspect".toList
  p101Observe := "inspect-capture".toList
  command := ["c".toList]

/-- Cases that find one policy finding each; the first ones hit a fault. -/
def hitting (hits : ℕ) : CaseRunner := fun index w =>
  (exitSuccess,
    { RunResult.zero with
      faultIndex := index
      pipelineOk := true
      faultHit := decide (1 ≤ index ∧ index ≤ hits)
      resourceLogPresent := true
      resources := ⟨true, 1, 0⟩
      analysis := ⟨true, 1, 1⟩ }, w)

/-- A walk with one fault. -/
theorem walk_lawful_hitting :
    (∀ e ∈ (walk quietHost (hitting 1) defaultArguments.maxFailures
        (.initial fun _ => none)).executed,
      analysisFindingCount e.result ≤ (sizeRange - 1) / (maxFailuresLimit + 1)) ∧
    Lawful quietHost (hitting 1) defaultArguments.maxFailures (.initial fun _ => none)
      (walk quietHost (hitting 1) defaultArguments.maxFailures (.initial fun _ => none)) :=
  ⟨by decide +kernel, walk_lawful _ _ _ _ (by decide +kernel)⟩

end P101Test.Faults
