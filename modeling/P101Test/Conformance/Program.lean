import P101Test.Conformance.Loaders

/-!
# The conformance program

What the check does with the evidence it has loaded (`main.c`): the validation, the receipt, the
options and `main`.

## Main definitions

* `apiFindings`, `validateConformance`: the findings about the records.
* `receiptText`, `writeReceipt`: the receipt.
* `parseArguments`, `main`: the program.
-/

namespace P101Test.Conformance

open Stdio

variable (json : JsonLibrary) (inputs : Inputs) (arguments : Arguments)

/-! ### Validation -/

/-- The findings of `validate_conformance` about one API, in its order. -/
def apiFindings (api : ApiRecord) : List Finding :=
  (if !api.tested then
    [⟨arguments.repo, "public API has no unit-test identity".toList, api.usr⟩] else []) ++
  (if !api.conformanceSeen then
    [⟨arguments.repo, "public API has no generated conformance contract".toList, api.usr⟩] else []) ++
  (if !api.instrumentationSeen then
    [⟨arguments.instrumentation, "public API has no instrumentation identity".toList, api.usr⟩]
    else []) ++
  (if api.traceApplicable && api.enters = 0 then
    [⟨arguments.model, "traced API has no runtime invocation".toList, api.name⟩] else []) ++
  (if api.traceApplicable && api.enters ≠ api.exits then
    [⟨arguments.model, "runtime ENTER/EXIT counts are unbalanced".toList, api.name⟩] else []) ++
  (if api.faultTest && api.enters = 0 then
    [⟨arguments.model, "fault test emitted no call".toList, api.name⟩] else []) ++
  (if api.requireArguments && !api.arguments then
    [⟨arguments.model, "required arguments were not logged".toList, api.name⟩] else []) ++
  (if api.requireResult && !api.result then
    [⟨arguments.model, "required result was not logged".toList, api.name⟩] else [])

/-- The finding of `validate_conformance` about one expected fault. -/
def faultFindings (fault : ExpectedFault) : List Finding :=
  if !fault.observed then
    [⟨arguments.outcomes, "missing direct platform fault outcome".toList, fault.key.wrapper⟩]
  else []

/-- `validate_conformance`: whether there is no finding at all, and the state with all of them. -/
def validateConformance (s : Session) : Bool × Session :=
  let findings := s.state.findings ++ s.state.apis.flatMap (apiFindings arguments) ++
    s.state.faults.flatMap (faultFindings arguments)
  (findings.isEmpty, { s with state := { s.state with findings := findings } })

/-! ### The receipt -/

/-- The APIs that are traced. -/
def traced (state : State) : ℕ := state.apis.countP (·.traceApplicable)

/-- The traced APIs that were invoked. -/
def invoked (state : State) : ℕ := state.apis.countP fun api => api.traceApplicable && 0 < api.enters

/-- The pieces of the receipt's format. -/
def receiptHead : Text :=
  "\x7b\"schema\":\"p101-wrapper-conformance-library-v1\",\"library\":\"".toList

/-- The text `write_receipt` prints. -/
def receiptText (state : State) : Text :=
  receiptHead ++ arguments.library ++ "\",\"apis\":".toList ++ decimal state.apis.length ++
    ",\"trace_applicable\":".toList ++ decimal (traced state) ++
    ",\"invoked\":".toList ++ decimal (invoked state) ++
    ",\"fault_cases\":".toList ++ decimal state.faultOutcomesObserved ++
    ",\"fault_outcomes_observed\":".toList ++ decimal state.faults.length ++
    ",\"findings\":".toList ++ decimal state.findings.length ++
    ",\"passed\":".toList ++ (if state.findings.length = 0 then "true".toList else "false".toList) ++
    "\x7d\n".toList

/-- `write_receipt`: whether it succeeded, and the receipt left behind, if it was opened and
printed. -/
def writeReceipt (s : Session) : Bool × Option Text × Session :=
  if inputs.receipt.opens = false then (false, none, s.raise .call)
  else
    let text := if inputs.receipt.prints then some (receiptText arguments s.state) else none
    let s := if inputs.receipt.prints then s else s.raise .call
    if inputs.receipt.closes then (inputs.receipt.prints, text, s) else (false, text, s.raise .call)

/-! ### The program -/

/-- `struct arguments` while it is filled. -/
structure Options where
  library : Option Text
  repo : Option Text
  instrumentation : Option Text
  model : Option Text
  outcomes : Option Text
  platform : Option Text
  macros : Option Text
  receipt : Option Text
  deriving DecidableEq, Repr

/-- The options before any is given. -/
def Options.none : Options := ⟨.none, .none, .none, .none, .none, .none, .none, .none⟩

/-- The destination of an option, with its value in place. -/
def Options.set (options : Options) (name value : Text) : Option Options :=
  if name = "--library".toList then some { options with library := value }
  else if name = "--repo".toList then some { options with repo := value }
  else if name = "--instrumentation".toList then some { options with instrumentation := value }
  else if name = "--model".toList then some { options with model := value }
  else if name = "--outcomes".toList then some { options with outcomes := value }
  else if name = "--platform".toList then some { options with platform := value }
  else if name = "--macros".toList then some { options with macros := value }
  else if name = "--receipt".toList then some { options with receipt := value }
  else .none

/-- The arguments of a run, if all were given. -/
def Options.complete (options : Options) : Option Arguments := do
  some ⟨← options.library, ← options.repo, ← options.instrumentation, ← options.model,
    ← options.outcomes, ← options.platform, ← options.macros, ← options.receipt⟩

/-- What the command line asks for. -/
inductive Parsed
  | help
  | wrong (message : Text)
  | run (arguments : Arguments)
  deriving DecidableEq, Repr

/-- `parse_arguments`, on the arguments behind the program name. -/
def parseArguments : List Text → Options → Parsed
  | [], options =>
    match options.complete with
    | some arguments => .run arguments
    | none => .wrong "all conformance inputs are required".toList
  | [name], _ =>
    if name = "--help".toList then .help
    else .wrong "unknown or incomplete conformance option".toList
  | name :: value :: rest, options =>
    if name = "--help".toList then .help
    else
      match options.set name value with
      | some options => parseArguments rest options
      | none => .wrong "unknown or incomplete conformance option".toList

/-- What a run leaves: its exit status, and the receipt it wrote, if it wrote one. -/
structure Ended where
  status : ℕ
  receipt : Option Text
  deriving DecidableEq, Repr

/-- The end of `main`, from the label `done` on: a recorded error makes the status 2. -/
def done (status : ℕ) (receipt : Option Text) (s : Session) : Ended :=
  ⟨if s.hasError then 2 else status, receipt⟩

/-- `main` after the options were parsed. -/
def check : Ended :=
  match load json inputs arguments .zero with
  | .error s => done 2 none s
  | .ok s =>
    match validateConformance arguments s with
    | (valid, s) =>
      match writeReceipt inputs arguments s with
      | (true, receipt, s) => done (if valid then 0 else 1) receipt s
      | (false, receipt, s) => done 2 receipt s

/-- `main`, on the arguments behind the program name. -/
def main (argv : List Text) : Ended :=
  match parseArguments argv .none with
  | .help => done 0 none .zero
  | .wrong message => done 2 none (Session.zero.raise (.user message))
  | .run arguments => check json inputs arguments

end P101Test.Conformance
