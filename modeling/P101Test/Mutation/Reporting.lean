import P101Test.Mutation.Verdict

/-!
# The report and the exit status

The report of a campaign and the process state the same exit status, unless an error comes on record
before the process ends and the report does not already say that there was trouble. One such error is
the report's own: the text of a finding that does not fit its buffer.

## Main definitions

* `ReportSucceeds`: the calls of the report stream succeed.
* `Reported`: what the report says, and that the process agrees.

## Main results

* `countResults_eq`: the counters count.
* `emitResults_eq`: the findings are those of the surviving mutants.
* `reported_iff`: when the report and the process agree.
-/

namespace P101Test.Mutation

open Stdio

variable {host : Host}

/-- The candidates of the surviving mutants. -/
def survivors (results : List Result) : List Candidate :=
  (results.filter (·.outcome = .survived)).map Result.candidate

/-- The text of a finding before it is cut. -/
def findingText (candidate : Candidate) : Text :=
  "surviving ".toList ++ candidate.kind ++ " mutation: ".toList ++ candidate.original ++
    " -> ".toList ++ candidate.replacement

/-- The finding about a surviving mutant. -/
def findingOf (candidate : Candidate) : Diagnostic :=
  ⟨candidate.path, candidate.line, cut messageSize (findingText candidate)⟩

/-- The text of the finding fits its buffer. -/
def Fits (candidate : Candidate) : Prop := (findingText candidate).length < messageSize

instance (candidate : Candidate) : Decidable (Fits candidate) := inferInstanceAs (Decidable (_ < _))

/-! ### Counters -/

/-- **Counting.** The counters are the numbers of the results and of each outcome among them. -/
theorem countResults_eq (results : List Result) :
    countResults results =
      ⟨results.length, results.countP (·.outcome = .killed), results.countP (·.outcome = .survived),
        results.countP (·.outcome = .inconclusive)⟩ := by
  have general : ∀ counters : Counters, results.foldl Counters.add counters =
      ⟨counters.selected, counters.killed + results.countP (·.outcome = .killed),
        counters.survived + results.countP (·.outcome = .survived),
        counters.inconclusive + results.countP (·.outcome = .inconclusive)⟩ := by
    induction results with
    | nil => exact fun _ => rfl
    | cons result rest ih =>
        intro counters
        rw [List.foldl_cons, ih]
        cases hout : result.outcome <;> simp [Counters.add, hout] <;> omega
  simpa [countResults] using general ⟨results.length, 0, 0, 0⟩

/-- Every result is counted once. -/
theorem selected_countResults (results : List Result) :
    (countResults results).selected = (countResults results).killed + (countResults results).survived +
      (countResults results).inconclusive := by
  rw [countResults_eq]
  induction results with
  | nil => rfl
  | cons result rest ih =>
      cases hout : result.outcome <;> simp [hout] at ih ⊢ <;> omega

/-- The outcome in the report and the verdict loop come to the same status. -/
theorem exitStatus_outcome (results : List Result) :
    (countResults results).outcome.exitStatus = verdictStatus results := by
  rw [verdictStatus_eq, countResults_eq]
  unfold Counters.outcome
  simp only [gt_iff_lt, List.countP_pos_iff, decide_eq_true_eq]
  split
  · rfl
  · split <;> rfl

/-! ### Findings -/

theorem attempt_of_granted {w : World} (h : host.failure w.calls = none) :
    attempt host w = (true, w.tick) := by
  rw [attempt, h]

theorem calls_tick (w : World) : w.tick.calls = w.calls + 1 := rfl

theorem hasError_tick (w : World) : w.tick.hasError = w.hasError := rfl

theorem mutationMessage_eq (candidate : Candidate) (w : World) :
    ∃ w', mutationMessage candidate w = ((findingOf candidate).message, w') ∧ w'.calls = w.calls ∧
      (w'.hasError = false ↔ w.hasError = false ∧ Fits candidate) := by
  refine ⟨_, rfl, ?_, ?_⟩
  · split <;> rfl
  · change (World.hasError (if messageSize ≤ (findingText candidate).length then _ else _) = false ↔ _)
    unfold Fits
    split
    · next hlong => simp [hlong]
    · next hfits => simp [Nat.lt_of_not_le hfits]

/-- **Findings.** When its calls succeed, the emitting loop emits one finding for each surviving mutant,
and it records an error if the text of one of them does not fit. -/
theorem emitResults_eq (results : List Result) (w : World)
    (hcalls : ∀ k < 2 * (survivors results).length, host.failure (w.calls + k) = none) :
    ∃ w', emitResults host results w = ((survivors results).map findingOf, true, w') ∧
      w'.calls = w.calls + 2 * (survivors results).length ∧
      (w'.hasError = false ↔ w.hasError = false ∧ ∀ candidate ∈ survivors results, Fits candidate) := by
  induction results generalizing w with
  | nil => exact ⟨w, rfl, rfl, by simp [survivors]⟩
  | cons result rest ih =>
      by_cases hsurvived : result.outcome = .survived
      · have hcons : survivors (result :: rest) = result.candidate :: survivors rest := by
          simp [survivors, hsurvived]
        rw [hcons] at hcalls ⊢
        rw [List.length_cons] at hcalls ⊢
        obtain ⟨w₁, hmessage, hw₁, herr₁⟩ := mutationMessage_eq result.candidate w
        have hfirst : attempt host w₁ = (true, w₁.tick) :=
          attempt_of_granted (hw₁ ▸ hcalls 0 (by omega))
        have hsecond : attempt host w₁.tick = (true, w₁.tick.tick) :=
          attempt_of_granted (by rw [calls_tick, hw₁]; exact hcalls 1 (by omega))
        obtain ⟨w₂, hrest, hw₂, herr₂⟩ := ih w₁.tick.tick fun k hk => by
          rw [calls_tick, calls_tick, hw₁, Nat.add_assoc, Nat.add_assoc]
          exact hcalls _ (by omega)
        refine ⟨w₂, ?_, ?_, ?_⟩
        · rw [emitResults, if_neg (by simpa using hsurvived)]
          simp only [hmessage, hfirst, hsecond, hrest]
          rfl
        · rw [hw₂, calls_tick, calls_tick, hw₁]
          omega
        · rw [herr₂, hasError_tick, hasError_tick, herr₁, List.forall_mem_cons, and_assoc]
      · have hskip : survivors (result :: rest) = survivors rest := by
          simp [survivors, hsurvived]
        rw [hskip] at hcalls ⊢
        obtain ⟨w', hrest, hw', herr⟩ := ih w hcalls
        exact ⟨w', by rw [emitResults, if_pos hsurvived, hrest], hw', herr⟩

/-! ### Agreement -/

variable (host) (arguments : Arguments) (results : List Result) (w : World)

/-- The calls of the report stream succeed: its beginning, two calls for each finding, and its end. -/
def ReportSucceeds : Prop :=
  ∀ k < 2 * (survivors results).length + 2, host.failure (w.calls + k) = none

/-- The report counts every result, has one finding for each surviving mutant, and records the exit
status the process returns. -/
def Reported : Prop :=
  ∃ report outcome status counters, (reportResults host arguments results w).1 = some report ∧
    report.ending = some (outcome, status, counters) ∧
    counters = ⟨results.length, results.countP (·.outcome = .killed),
      results.countP (·.outcome = .survived), results.countP (·.outcome = .inconclusive)⟩ ∧
    counters.selected = counters.killed + counters.survived + counters.inconclusive ∧
    report.emitted = (survivors results).map findingOf ∧
    status = (done host (verdictStatus results) (some report)
      (reportResults host arguments results w).2).status

variable {host results w}

/-- What the report says when its calls succeed. -/
theorem reportResults_eq (hcalls : ReportSucceeds host results w) :
    ∃ w', reportResults host arguments results w =
        (some ⟨reportOptions arguments, (survivors results).map findingOf,
          some ((countResults results).outcome, verdictStatus results, countResults results)⟩, w') ∧
      (w'.hasError = false ↔ w.hasError = false ∧ ∀ candidate ∈ survivors results, Fits candidate) := by
  have hbegin : attempt host w = (true, w.tick) := attempt_of_granted (hcalls 0 (by omega))
  obtain ⟨w', hemit, hw', herr⟩ := @emitResults_eq host results w.tick fun k hk => by
    rw [calls_tick, Nat.add_assoc]
    exact hcalls _ (by omega)
  have hend : attempt host w' = (true, w'.tick) := attempt_of_granted (by
    rw [hw', calls_tick, Nat.add_assoc]
    exact hcalls _ (by omega))
  refine ⟨w'.tick, ?_, by rw [hasError_tick, herr, hasError_tick]⟩
  simp only [reportResults, hbegin, hemit, hend, exitStatus_outcome]

theorem status_done (host : Host) (status : ℕ) (report : Option Report) (w : World) :
    (done host status report w).status = if w.hasError then exitTrouble else status := by
  unfold done
  split <;> rfl

/-- An error that comes on record makes the process disagree with a report of no trouble. -/
theorem not_reported (hcalls : ReportSucceeds host results w)
    (hdecided : ∀ result ∈ results, result.outcome ≠ .inconclusive)
    (herror : ¬(w.hasError = false ∧ ∀ candidate ∈ survivors results, Fits candidate)) :
    ¬Reported host arguments results w := by
  obtain ⟨w', hreport, herr⟩ := reportResults_eq arguments hcalls
  rintro ⟨report, outcome, status, counters, hsome, hending, -, -, -, hstatus⟩
  rw [hreport] at hsome hstatus
  obtain rfl := Option.some.inj hsome
  obtain ⟨-, rfl, -⟩ : _ ∧ verdictStatus results = status ∧ _ := by simpa using hending
  have hw' : w'.hasError = true := by
    rw [← Bool.not_eq_false, herr]
    exact herror
  have hundecided : ¬∃ result ∈ results, result.outcome = .inconclusive := by simpa using hdecided
  rw [status_done, if_pos hw', verdictStatus_eq, if_neg hundecided] at hstatus
  split at hstatus <;> exact absurd hstatus (by decide)

/-- **Agreement.** When the calls of the report stream succeed, the report counts every result, has one
finding for each surviving mutant, and records the exit status of the process, exactly if some mutant is
inconclusive, or no error is on record before and the text of every finding fits. -/
theorem reported_iff (host : Host) (arguments : Arguments) (results : List Result) (w : World)
    (hcalls : ReportSucceeds host results w) :
    Reported host arguments results w ↔
      (∃ result ∈ results, result.outcome = .inconclusive) ∨
        w.hasError = false ∧ ∀ candidate ∈ survivors results, Fits candidate := by
  constructor
  · intro hreported
    by_contra hnot
    rw [not_or] at hnot
    exact not_reported arguments hcalls (by simpa using hnot.1) hnot.2 hreported
  · intro h
    obtain ⟨w', hreport, herr⟩ := reportResults_eq arguments hcalls
    rw [← herr] at h
    refine ⟨_, _, _, _, congrArg Prod.fst hreport, rfl, countResults_eq results,
      selected_countResults results, rfl, ?_⟩
    rw [hreport, status_done]
    rcases h with hinconclusive | hw'
    · have htrouble : verdictStatus results = exitTrouble := by
        rw [verdictStatus_eq, if_pos hinconclusive]
      rw [htrouble, ite_self]
    · rw [hw']
      rfl

theorem length_replacement_le (candidate : Candidate) :
    candidate.replacement.length ≤ (findingText candidate).length :=
  List.IsSuffix.length_le ⟨_, rfl⟩

/-- A surviving mutant with a given replacement. -/
def survivingWith (replacement : Text) : Result :=
  ⟨{ smallCandidate with replacement := replacement }, .survived, 0, false⟩

theorem survivors_survivingWith (replacement : Text) : survivors [survivingWith replacement] =
    [{ smallCandidate with replacement := replacement }] := rfl

theorem reported_survivor :
    Reported (exiting []) smallArguments [survivingWith ">".toList] ⟨smallProject, none, 0, []⟩ :=
  (reported_iff _ _ _ _ fun _ _ => rfl).mpr (.inr (by decide))

theorem not_fits_of_le {candidate : Candidate} (h : messageSize ≤ candidate.replacement.length) :
    ¬Fits candidate :=
  Nat.not_lt.mpr (h.trans (length_replacement_le candidate))

/-- **The long replacement.** The text of the only finding does not fit: the report records the status 1,
and the process returns 2. -/
theorem not_reported_long : ¬Reported (exiting []) smallArguments
    [survivingWith (List.replicate messageSize 'x')] ⟨smallProject, none, 0, []⟩ := by
  refine not_reported smallArguments (fun _ _ => rfl) (by simp [survivingWith]) fun h => ?_
  have hfits := h.2
  rw [survivors_survivingWith, List.forall_mem_singleton] at hfits
  exact not_fits_of_le List.length_replicate.ge hfits

end P101Test.Mutation
