import P101Test.Conformance.Law
import P101Test.Json.Reading

/-!
# The receipt of the conformance check

What the receipt says, read as a JSON text, about the state it reports. The receipt prints the number of
expected faults and the number of those observed in each other's place, and the name of the library as it
was given; so it says what it should exactly for a plain name and a state without missing outcomes.

## Main definitions

* `Reports`: a JSON value says about a state what the receipt should say.
* `Decodes`: a text reads as such a value.

## Main results

* `parse_receiptText`: what the receipt reads as for a plain name.
* `decodes_iff`: when the receipt decodes to the state it reports.
* `not_decodes_missing_outcome`: a receipt with a missing outcome.
-/

namespace P101Test.Conformance

open Stdio Json

/-- A JSON value says about a state what the receipt should say. -/
structure Reports (arguments : Arguments) (state : State) (receipt : Value) : Prop where
  object : ∃ members, receipt = .object members
  library : (receipt.get "library".toList).bind Value.text? = some arguments.library
  apis : (receipt.get "apis".toList).bind Value.natural? = some state.apis.length
  traceApplicable : (receipt.get "trace_applicable".toList).bind Value.natural? = some (traced state)
  invoked : (receipt.get "invoked".toList).bind Value.natural? = some (invoked state)
  faultCases : (receipt.get "fault_cases".toList).bind Value.natural? = some state.faults.length
  faultOutcomesObserved : (receipt.get "fault_outcomes_observed".toList).bind Value.natural? =
    some (state.faults.countP ExpectedFault.observed)
  findings : (receipt.get "findings".toList).bind Value.natural? = some state.findings.length
  passed : (receipt.get "passed".toList).bind Value.bool? = some (state.findings.length = 0 : Bool)

/-- A text reads as a JSON object that says about a state what the receipt should say. -/
def Decodes (arguments : Arguments) (state : State) (text : Text) : Prop :=
  ∃ receipt, parse text = some receipt ∧ Reports arguments state receipt

/-! ### The text of the receipt -/

/-- The schema of the receipt. -/
def schema : Text := "p101-wrapper-conformance-library-v1".toList

/-- The numbers of the receipt, under the names it prints them with. -/
def numbers (state : State) : List (Text × ℕ) :=
  [("apis".toList, state.apis.length), ("trace_applicable".toList, traced state),
    ("invoked".toList, invoked state), ("fault_cases".toList, state.faultOutcomesObserved),
    ("fault_outcomes_observed".toList, state.faults.length),
    ("findings".toList, state.findings.length)]

/-- The last member of the receipt. -/
def passedMember (state : State) : Text :=
  '"' :: "passed".toList ++ '"' :: ':' ::
    ((if (state.findings.length = 0 : Bool) then "true".toList else "false".toList) ++ "\x7d\n".toList)

/-- The members of the receipt from the library on. -/
def libraryMembers (arguments : Arguments) (state : State) : Text :=
  '"' :: "library".toList ++ '"' :: ':' :: '"' ::
    (arguments.library ++ '"' :: ',' :: (numberMembers (numbers state) ++ passedMember state))

/-- The members of the receipt. -/
def receiptMembers (arguments : Arguments) (state : State) : Text :=
  '"' :: "schema".toList ++ '"' :: ':' :: '"' ::
    (schema ++ '"' :: ',' :: libraryMembers arguments state)

section Text

variable {arguments : Arguments} {state : State} {fuel : ℕ}

theorem receiptText_eq : receiptText arguments state = '\x7b' :: receiptMembers arguments state := by
  have hpassed : (if state.findings.length = 0 then "true".toList else "false".toList) =
      if (state.findings.length = 0 : Bool) then "true".toList else "false".toList := by
    simp only [decide_eq_true_eq]
  rw [receiptText, hpassed, receiptMembers, libraryMembers, passedMember]
  simp only [numbers, numberMembers, List.append_assoc, List.cons_append, List.nil_append]
  rfl

theorem length_receiptText (arguments : Arguments) (state : State) :
    ∃ fuel, (receiptText arguments state).length = fuel + 10 := by
  refine ⟨(receiptText arguments state).length - 10, ?_⟩
  have hhead : 10 ≤ receiptHead.length := by decide
  simp only [receiptText, List.length_append]
  omega

/-- The members behind the library, read. -/
def lastValues (state : State) : List (Text × Value) :=
  numberValues (numbers state) ++ [("passed".toList, .bool (state.findings.length = 0 : Bool))]

theorem members_numbers : members (fuel + 8) (numberMembers (numbers state) ++ passedMember state) =
    some (lastValues state, "\n".toList) := by
  have hpassed : members (fuel + 1 + 1) (passedMember state) =
      some ([("passed".toList, .bool (state.findings.length = 0 : Bool))], "\n".toList) :=
    members_last (by decide) (value_bool _)
  have hnames : ∀ key ∈ ["apis", "trace_applicable", "invoked", "fault_cases",
      "fault_outcomes_observed", "findings"].map String.toList, Plain key := by
    decide
  have hnumbers := members_numberMembers (fuel + 1) (passedMember state) (numbers state) fun member hmember =>
    hnames member.1 (List.mem_map_of_mem hmember : _ ∈ (numbers state).map Prod.fst)
  rw [show fuel + 8 = fuel + 1 + 1 + (numbers state).length from rfl, hnumbers, hpassed]
  rfl

theorem parse_receiptText_eq {fuel : ℕ} (hfuel : (receiptText arguments state).length = fuel + 10) :
    parse (receiptText arguments state) =
      (members (fuel + 10) (receiptMembers arguments state)).bind fun read =>
        if skip read.2 = [] then some (.object read.1) else none := by
  have hobject : value (fuel + 10 + 1) ('\x7b' :: receiptMembers arguments state) =
      (members (fuel + 10) (receiptMembers arguments state)).map fun read => (.object read.1, read.2) :=
    value_object
  rw [parse, hfuel, receiptText_eq, hobject]
  cases members (fuel + 10) (receiptMembers arguments state) <;> rfl

/-- The schema is read, whatever the name of the library. -/
theorem members_receiptMembers : members (fuel + 10) (receiptMembers arguments state) =
    (members (fuel + 9) (libraryMembers arguments state)).map fun read =>
      (("schema".toList, .string schema) :: read.1, read.2) :=
  members_cons (by decide) (value_string (stringBody_plain (by decide)))

theorem members_libraryMembers (hplain : Plain arguments.library) :
    members (fuel + 9) (libraryMembers arguments state) =
      some (("library".toList, .string arguments.library) :: lastValues state, "\n".toList) := by
  rw [libraryMembers, members_cons (by decide) (value_string (stringBody_plain hplain)),
    members_numbers]
  rfl

/-- **The receipt, read.** For a plain name the receipt is an object with the members printed. -/
theorem parse_receiptText (hplain : Plain arguments.library) :
    parse (receiptText arguments state) =
      some (.object (("schema".toList, .string schema) ::
        ("library".toList, .string arguments.library) :: lastValues state)) := by
  obtain ⟨fuel, hfuel⟩ := length_receiptText arguments state
  rw [parse_receiptText_eq hfuel, members_receiptMembers, members_libraryMembers hplain]
  rfl

/-- Where the receipt is read as an object with the library as it was given, its name is plain. -/
theorem plain_of_parse {receipt : Value} (hparse : parse (receiptText arguments state) = some receipt)
    (hlibrary : (receipt.get "library".toList).bind Value.text? = some arguments.library) :
    Plain arguments.library := by
  obtain ⟨fuel, hfuel⟩ := length_receiptText arguments state
  rw [parse_receiptText_eq hfuel, members_receiptMembers, Option.bind_eq_some_iff] at hparse
  obtain ⟨read, hread, hreceipt⟩ := hparse
  rw [Option.map_eq_some_iff] at hread
  obtain ⟨behind, hbehind, rfl⟩ := hread
  obtain ⟨member, rest, hvalue, hhead, c, rest', hskip, hc⟩ := members_inv (by decide) hbehind
  obtain ⟨text, rest'', hbody, hmember⟩ := value_quote hvalue
  obtain ⟨rfl, rfl⟩ := Prod.mk.inj hmember
  have htext : text = arguments.library := by
    obtain ⟨others, hothers⟩ := List.head?_eq_some_iff.mp hhead
    split at hreceipt
    · obtain rfl := Option.some.inj hreceipt
      rw [hothers] at hlibrary
      exact Option.some.inj hlibrary
    · cases hreceipt
  -- What follows the name starts with a quote and a letter, so no closing quote was swallowed.
  obtain ⟨more, hmore⟩ : ∃ more, numberMembers (numbers state) ++ passedMember state =
      '"' :: 'a' :: more := ⟨_, rfl⟩
  rw [hmore] at hbody
  rcases stringBody_quoted arguments.library hbody with ⟨hplain, -⟩ | hshort | hrest
  · exact hplain
  · exact absurd (congrArg List.length htext) hshort.ne
  · rw [hrest, skip_of_not (by decide)] at hskip
    obtain ⟨rfl, -⟩ := List.cons.inj hskip
    exact absurd hc (by decide)

end Text

/-! ### Decoding -/

/-- What the receipt says, if its name is plain, is what it should say exactly if the number of observed
faults is that of the expected faults. -/
theorem reports_iff {arguments : Arguments} {state : State}
    (hcounted : state.faultOutcomesObserved = state.faults.countP ExpectedFault.observed) :
    Reports arguments state (.object (("schema".toList, .string schema) ::
        ("library".toList, .string arguments.library) :: lastValues state)) ↔
      ∀ fault ∈ state.faults, fault.observed = true := by
  have hcases : ((Value.object (("schema".toList, .string schema) ::
      ("library".toList, .string arguments.library) :: lastValues state)).get
        "fault_cases".toList).bind Value.natural? = some state.faultOutcomesObserved :=
    natural?_decimal _
  have hobserved : ((Value.object (("schema".toList, .string schema) ::
      ("library".toList, .string arguments.library) :: lastValues state)).get
        "fault_outcomes_observed".toList).bind Value.natural? = some state.faults.length :=
    natural?_decimal _
  rw [← List.countP_eq_length, ← hcounted]
  constructor
  · intro h
    exact Option.some.inj (hcases.symm.trans h.faultCases)
  · intro h
    exact {
      object := ⟨_, rfl⟩
      library := rfl
      apis := natural?_decimal _
      traceApplicable := natural?_decimal _
      invoked := natural?_decimal _
      faultCases := by rw [hcases, h]
      faultOutcomesObserved := by rw [hobserved, ← hcounted, h]
      findings := natural?_decimal _
      passed := rfl }

/-- When the receipt of a state decodes to that state. -/
theorem decodes_receiptText {arguments : Arguments} {state : State}
    (hcounted : state.faultOutcomesObserved = state.faults.countP ExpectedFault.observed) :
    Decodes arguments state (receiptText arguments state) ↔
      Plain arguments.library ∧ ∀ fault ∈ state.faults, fault.observed = true := by
  constructor
  · rintro ⟨receipt, hparse, hreport⟩
    have hplain := plain_of_parse hparse hreport.library
    rw [parse_receiptText hplain, Option.some.injEq] at hparse
    exact ⟨hplain, (reports_iff hcounted).mp (hparse ▸ hreport)⟩
  · rintro ⟨hplain, hobserved⟩
    exact ⟨_, parse_receiptText hplain, (reports_iff hcounted).mpr hobserved⟩

/-- **The receipt and the state.** The receipt of a validated state decodes to that state exactly if the
name of the library is plain and every expected fault was observed. -/
theorem decodes_iff {json : JsonLibrary} {inputs : Inputs} {arguments : Arguments} {s : Session}
    (h : load json inputs arguments .zero = .ok s) :
    Decodes arguments (validateConformance arguments s).2.state
        (receiptText arguments (validateConformance arguments s).2.state) ↔
      Plain arguments.library ∧ ∀ fault ∈ s.state.faults, fault.observed = true :=
  have hcounted : (validateConformance arguments s).2.state.faultOutcomesObserved =
      (validateConformance arguments s).2.state.faults.countP ExpectedFault.observed :=
    (load_ok h).1.counted
  decodes_receiptText hcounted

theorem decodes_small : ∃ s, load valueLibrary smallRun smallArguments .zero = .ok s ∧
    Decodes smallArguments (validateConformance smallArguments s).2.state
      (receiptText smallArguments (validateConformance smallArguments s).2.state) := by
  obtain ⟨s, hload, -, hobserved⟩ := load_smallRun
  exact ⟨s, hload, (decodes_iff hload).mpr ⟨by decide, hobserved⟩⟩

/-- **A missing outcome.** Where one of two expected faults has no outcome, the receipt says that there is
one fault and that two outcomes were observed. -/
theorem not_decodes_missing_outcome : ∃ s,
    load valueLibrary (smallInputs smallMacros (smallOutcome "EINTR".toList)) smallArguments .zero =
      .ok s ∧
    ¬Decodes smallArguments (validateConformance smallArguments s).2.state
      (receiptText smallArguments (validateConformance smallArguments s).2.state) := by
  have hmissing : (load valueLibrary (smallInputs smallMacros (smallOutcome "EINTR".toList))
      smallArguments .zero).toOption.any (fun s => !s.state.faults.all ExpectedFault.observed) =
        true := by
    decide +kernel
  cases hload : load valueLibrary (smallInputs smallMacros (smallOutcome "EINTR".toList))
      smallArguments .zero with
  | error s =>
    rw [hload] at hmissing
    cases hmissing
  | ok s =>
    rw [hload] at hmissing
    refine ⟨s, rfl, fun h => ?_⟩
    have hcounted : (validateConformance smallArguments s).2.state.faultOutcomesObserved =
        (validateConformance smallArguments s).2.state.faults.countP ExpectedFault.observed :=
      (load_ok hload).1.counted
    have hobserved : s.state.faults.all ExpectedFault.observed = true :=
      List.all_eq_true.mpr ((decodes_receiptText hcounted).mp h).2
    have hlost : (!s.state.faults.all ExpectedFault.observed) = true := hmissing
    rw [hobserved] at hlost
    exact absurd hlost (by decide)

end P101Test.Conformance
