import P101Test.Conformance.Law

/-!
# The receipt and the exit status

Whether a run has passed is tracked twice: by the answers of the loaders, which decide about the receipt,
and by the error record, which has the last word on the exit status. The two come apart where a failure
is recorded that no answer reports: the read that ends the loop over a table, and a macro lookup.

## Main definitions

* `claimsPassed`: a receipt says that the library passed.
* `Agrees`: a run exits with status 0 exactly if it has left such a receipt.
* `Accepted`: the evidence loads and conforms, and the receipt is printed.

## Main results

* `agrees_iff`: receipt and status agree, unless a failure is swallowed in a run that is accepted.
* `not_agrees_missing_macros`: a run without its macros file.
-/

namespace P101Test.Conformance

open Stdio

/-- The end of a receipt that says that the library passed. -/
def passedTail : Text := ",\"passed\":true\x7d\n".toList

/-- The end of a receipt that says that the library did not pass. -/
def failedTail : Text := ",\"passed\":false\x7d\n".toList

/-- A receipt says that the library passed. -/
def claimsPassed (receipt : Text) : Bool := passedTail.isSuffixOf receipt

/-- A run exits with status 0 exactly if it has left a receipt that says that the library passed. -/
def Agrees (ended : Ended) : Prop :=
  (∃ receipt, ended.receipt = some receipt ∧ claimsPassed receipt = true) ↔ ended.status = 0

/-- The evidence of a run loads and conforms, and its receipt can be opened and printed. -/
def Accepted (json : JsonLibrary) (inputs : Inputs) (arguments : Arguments) : Prop :=
  (∃ s, load json inputs arguments .zero = .ok s) ∧ (evidence json inputs arguments).Conforms ∧
    inputs.receipt.opens = true ∧ inputs.receipt.prints = true

/-! ### Receipts -/

section Receipts

variable {json : JsonLibrary} {inputs : Inputs} {arguments : Arguments} {s : Session}

/-- A receipt says that the library passed exactly if there are no findings. -/
theorem claimsPassed_receiptText {state : State} :
    claimsPassed (receiptText arguments state) = true ↔ state.findings = [] := by
  have htail : ∃ front, receiptText arguments state =
      front ++ if state.findings.length = 0 then passedTail else failedTail := by
    unfold receiptText
    split
    · exact ⟨_, by rw [List.append_assoc, List.append_assoc]; rfl⟩
    · exact ⟨_, by rw [List.append_assoc, List.append_assoc]; rfl⟩
  obtain ⟨front, hreceipt⟩ := htail
  rw [claimsPassed, hreceipt, List.isSuffixOf_iff_suffix, ← List.length_eq_zero_iff]
  split
  · next hnone => exact ⟨fun _ => hnone, fun _ => List.suffix_append front passedTail⟩
  · next hsome =>
    refine ⟨fun h => ?_, fun h => absurd h hsome⟩
    have hsuffix := List.suffix_of_suffix_length_le h (List.suffix_append front failedTail)
      (by decide)
    exact absurd hsuffix (by decide)

theorem status_done {status : ℕ} {receipt : Option Text} :
    (done status receipt s).status = 0 ↔ s.hasError = false ∧ status = 0 := by
  unfold done
  cases s.hasError <;> simp

theorem agrees_of_error (h : load json inputs arguments .zero = .error s) :
    Agrees (check json inputs arguments) := by
  rw [check, h, Agrees, status_done]
  refine ⟨fun ⟨receipt, hreceipt, _⟩ => ?_, fun ⟨_, h⟩ => absurd h (by decide)⟩
  cases hreceipt

theorem writeReceipt_eq (inputs : Inputs) (arguments : Arguments) (s : Session) :
    (writeReceipt inputs arguments s).1 =
        (inputs.receipt.opens && inputs.receipt.prints && inputs.receipt.closes) ∧
      (writeReceipt inputs arguments s).2.1 =
        (if inputs.receipt.opens && inputs.receipt.prints then some (receiptText arguments s.state)
        else none) ∧
      (writeReceipt inputs arguments s).2.2.hasError =
        (s.hasError || !(inputs.receipt.opens && inputs.receipt.prints && inputs.receipt.closes)) := by
  unfold writeReceipt
  cases inputs.receipt.opens <;> cases inputs.receipt.prints <;> cases inputs.receipt.closes <;> simp

theorem check_of_ok (h : load json inputs arguments .zero = .ok s) :
    check json inputs arguments =
      done
        (if (writeReceipt inputs arguments (validateConformance arguments s).2).1 then
          if (validateConformance arguments s).1 then 0 else 1
        else 2)
        (writeReceipt inputs arguments (validateConformance arguments s).2).2.1
        (writeReceipt inputs arguments (validateConformance arguments s).2).2.2 := by
  rw [check, h]
  dsimp only
  rcases validateConformance arguments s with ⟨valid, s₁⟩
  dsimp only
  rcases writeReceipt inputs arguments s₁ with ⟨_ | _, receipt, s₂⟩ <;> rfl

/-- Where the evidence loads, the receipt says that the library passed if it is printed and validation
succeeds, whatever error is recorded. -/
theorem claims_of_ok (h : load json inputs arguments .zero = .ok s) :
    (∃ receipt, (check json inputs arguments).receipt = some receipt ∧ claimsPassed receipt = true) ↔
      inputs.receipt.opens = true ∧ inputs.receipt.prints = true ∧
        (validateConformance arguments s).1 = true := by
  have hclaims : claimsPassed (receiptText arguments (validateConformance arguments s).2.state) = true ↔
      (validateConformance arguments s).1 = true :=
    claimsPassed_receiptText.trans List.isEmpty_iff.symm
  rw [check_of_ok h, done]
  dsimp only
  rw [(writeReceipt_eq ..).2.1, ← hclaims, ← and_assoc, ← Bool.and_eq_true]
  split
  · next hprinted => simp [hprinted]
  · next hprinted => simp [hprinted]

/-- Where the evidence loads, the status is 0 if the receipt is written, validation succeeds, and no
error is recorded. -/
theorem status_of_ok (h : load json inputs arguments .zero = .ok s) :
    (check json inputs arguments).status = 0 ↔
      (inputs.receipt.opens = true ∧ inputs.receipt.prints = true ∧
        (validateConformance arguments s).1 = true) ∧
        s.hasError = false ∧ inputs.receipt.closes = true := by
  have herr : (validateConformance arguments s).2.hasError = s.hasError := rfl
  rw [check_of_ok h, status_done, (writeReceipt_eq ..).1, (writeReceipt_eq ..).2.2, herr]
  cases inputs.receipt.opens <;> cases inputs.receipt.prints <;> cases inputs.receipt.closes <;>
    cases (validateConformance arguments s).1 <;> cases s.hasError <;> simp

end Receipts

/-! ### Agreement -/

/-- **The receipt and the exit status.** In a run of the program on given arguments, the two agree
exactly if no failure is swallowed and the receipt can be closed, or the run is not accepted. -/
theorem agrees_iff {json : JsonLibrary} {inputs : Inputs} {arguments : Arguments} {argv : List Text}
    (hparsed : parseArguments argv .none = .run arguments) :
    Agrees (main json inputs argv) ↔
      (swallowed inputs arguments = false ∧ inputs.receipt.closes = true) ∨
        ¬Accepted json inputs arguments := by
  rw [main, hparsed]
  dsimp only
  cases hload : load json inputs arguments .zero with
  | error s =>
    have hrefused : ¬Accepted json inputs arguments := by
      rintro ⟨⟨s', hs'⟩, -⟩
      rw [hload] at hs'
      cases hs'
    exact iff_of_true (agrees_of_error hload) (.inr hrefused)
  | ok s =>
    have haccepted : Accepted json inputs arguments ↔
        inputs.receipt.opens = true ∧ inputs.receipt.prints = true ∧
          (validateConformance arguments s).1 = true := by
      rw [validateConformance_iff hload]
      exact ⟨fun ⟨_, hconforms, hopens, hprints⟩ => ⟨hopens, hprints, hconforms⟩,
        fun ⟨hopens, hprints, hconforms⟩ => ⟨⟨s, hload⟩, hconforms, hopens, hprints⟩⟩
    rw [Agrees, claims_of_ok hload, status_of_ok hload, ← haccepted, (load_ok hload).2]
    tauto

/-! ### A missing macros file -/

/-- The command line of a small run. -/
def smallCommandLine : List Text :=
  ["--library", "c", "--repo", "repo", "--instrumentation", "receipt.json", "--model", "model.json",
    "--outcomes", "outcomes.tsv", "--platform", "linux", "--macros", "macros.h", "--receipt",
    "out.json"].map String.toList

theorem agrees_small : Agrees (main valueLibrary smallRun smallCommandLine) := by
  have hparsed : parseArguments smallCommandLine .none = .run smallArguments := by decide
  exact (agrees_iff hparsed).mpr (.inl ⟨by decide +kernel, rfl⟩)

/-- **A missing macros file.** Where the macros file cannot be opened, a symbol that needs its macro is
not expected; the receipt of a run without an outcome for it says that the library passed, although the
run exits with status 2. -/
theorem not_agrees_missing_macros :
    ¬Agrees (main valueLibrary (smallInputs .missing (smallOutcome "EINTR".toList))
      smallCommandLine) := by
  intro h
  have hended : (main valueLibrary (smallInputs .missing (smallOutcome "EINTR".toList))
        smallCommandLine).receipt.any claimsPassed = true ∧
      (main valueLibrary (smallInputs .missing (smallOutcome "EINTR".toList))
        smallCommandLine).status = 2 := by
    decide +kernel
  obtain ⟨hreceipt, hstatus⟩ := hended
  rw [Option.any_eq_true] at hreceipt
  exact absurd (hstatus.symm.trans (h.mp hreceipt)) (by decide)

end P101Test.Conformance
