import P101Test.Conformance.State

/-!
# Loading the evidence

The loaders of the conformance check (`main.c`): the four tables of the repository, the instrumentation
receipt, the run model and the outcome file. Each is a fold of the step for one row over the rows as
they are delivered; a step that answers false ends the fold.

## Main definitions

* `readTable`: the loop over the lines of a table.
* `loadApiManifest`, `loadTestManifest`, `loadConformanceManifest`, `loadFaultManifest`: the tables.
* `loadInstrumentation`, `loadModel`: the JSON documents.
* `loadOutcomes`: the outcomes.
* `load`: all of them, in the order of `main`.
-/

namespace P101Test.Conformance

open Stdio Table

variable (json : JsonLibrary) (inputs : Inputs) (arguments : Arguments)

/-! ### Tables -/

/-- The rows of a table as they are delivered, without its header if it has one. -/
def deliveredRows (stream : Stream) (header : Bool) : List Text :=
  if header then (stream.delivered maxLine).drop 1 else stream.delivered maxLine

/-- The end of the loop over a table that was not left early: a failed read only records an error. -/
def endOfTable (stream : Stream) (s : Session) : Loading :=
  let s := if stream.breaks maxLine then s.raise .call else s
  if stream.closes then .ok s else .error (s.raise .call)

/-- The loop over the lines of a table, between opening and closing it. -/
def readTable (stream : Stream) (header : Bool) (step : Session → Text → Loading) (s : Session) :
    Loading :=
  if stream.opens = false then .error (s.raise .call)
  else
    match (deliveredRows stream header).foldlM step s with
    | .error s => .error (if stream.closes then s else s.raise .call)
    | .ok s => endOfTable stream s

/-- A table of the repository, whose path name must fit its buffer. -/
def repoTable (file : Text) (stream : Stream) (step : Session → Text → Loading) (s : Session) :
    Loading :=
  if pathSize ≤ (arguments.repo ++ file).length then .error s else readTable stream true step s

/-- The step of `load_api_manifest`. -/
def apiStep (s : Session) (line : Text) : Loading :=
  match splitFields 5 (cString line) with
  | [name, usr, _, _, _] =>
    if maxApis ≤ s.state.apis.length then .error (s.raise (.user "malformed API manifest".toList))
    else
      match copyText maxName name s with
      | .error s => .error s
      | .ok name =>
        match copyText maxUsr usr s with
        | .error s => .error s
        | .ok usr =>
          .ok { s with state := { s.state with apis := s.state.apis ++ [.new name usr] } }
  | _ => .error (s.raise (.user "malformed API manifest".toList))

/-- `load_api_manifest`. -/
def loadApiManifest : Session → Loading :=
  repoTable arguments "/api-manifest.tsv".toList inputs.apiManifest apiStep

/-- `find_api`. -/
def findApi (usr : Text) (s : Session) : Option ApiRecord := s.state.apis.find? (·.usr = usr)

/-- `find_api_name`. -/
def findApiName (name : Text) (s : Session) : Option ApiRecord := s.state.apis.find? (·.name = name)

/-- A change of the record that `find_api` finds. -/
def updateApi (usr : Text) (f : ApiRecord → ApiRecord) (s : Session) : Session :=
  { s with state := { s.state with apis := modifyFirst (·.usr = usr) f s.state.apis } }

/-- A change of the record that `find_api_name` finds. -/
def updateApiName (name : Text) (f : ApiRecord → ApiRecord) (s : Session) : Session :=
  { s with state := { s.state with apis := modifyFirst (·.name = name) f s.state.apis } }

/-- A row of the unit-test manifest: the identity and the kind of the test. -/
structure TestRow where
  usr : Text
  kind : Text
  deriving DecidableEq, Repr

/-- What a unit-test row does to its record. -/
def TestRow.update (row : TestRow) (api : ApiRecord) : ApiRecord :=
  { api with tested := true, faultTest := api.faultTest || row.kind = "fault".toList }

/-- The step of `load_test_manifest`. -/
def testStep (s : Session) (line : Text) : Loading :=
  match splitFields 4 (cString line) with
  | [_, usr, kind, _] =>
    match findApi usr s with
    | none => .error (s.raise (.user "unit-test manifest identity mismatch".toList))
    | some api =>
      if api.tested then .error (s.raise (.user "unit-test manifest identity mismatch".toList))
      else .ok (updateApi usr (TestRow.update ⟨usr, kind⟩) s)
  | _ => .error (s.raise (.user "malformed unit-test manifest".toList))

/-- `load_test_manifest`. -/
def loadTestManifest : Session → Loading :=
  repoTable arguments "/test/unit-test-manifest.tsv".toList inputs.testManifest testStep

/-- A row of the conformance manifest: the identity, and whether arguments and a result are
required. -/
structure ContractRow where
  usr : Text
  arguments : Bool
  result : Bool
  deriving DecidableEq, Repr

/-- What a conformance row does to its record. -/
def ContractRow.update (row : ContractRow) (api : ApiRecord) : ApiRecord :=
  { api with
    conformanceSeen := true
    requireArguments := row.arguments
    requireResult := row.result }

/-- The step of `load_conformance_manifest`. -/
def contractStep (s : Session) (line : Text) : Loading :=
  match splitFields 4 (cString line) with
  | [_, usr, arguments, result] =>
    match findApi usr s with
    | none => .error (s.raise (.user "conformance manifest identity mismatch".toList))
    | some api =>
      if api.conformanceSeen then
        .error (s.raise (.user "conformance manifest identity mismatch".toList))
      else .ok (updateApi usr
        (ContractRow.update ⟨usr, arguments = "true".toList, result = "true".toList⟩) s)
  | _ => .error (s.raise (.user "malformed conformance manifest".toList))

/-- `load_conformance_manifest`. -/
def loadConformanceManifest : Session → Loading :=
  repoTable arguments "/test/conformance-manifest.tsv".toList inputs.conformanceManifest contractStep

/-! ### Expected faults -/

/-- A line of the macros file defines a symbol. -/
def definesSymbol (symbol line : Text) : Bool :=
  ("#define ".toList ++ symbol).isPrefixOf (cString line) &&
    match (cString line).drop ("#define ".toList ++ symbol).length with
    | c :: _ => c = ' ' || c = '\t' || c = '\n'
    | [] => false

/-- `macro_present`: a lookup that fails records an error and answers false. -/
def macroPresent (symbol : Text) (s : Session) : Bool × Session :=
  if maxName + macroExtra ≤ ("#define ".toList ++ symbol).length then (false, s)
  else
    let stream := inputs.macros s.lookups
    let s := { s with lookups := s.lookups + 1 }
    if stream.opens = false then (false, s.raise .call)
    else
      let found := (stream.delivered maxLine).any (definesSymbol symbol)
      let s := if !found && stream.breaks maxLine then s.raise .call else s
      if stream.closes then (found, s) else (false, s.raise .call)

/-- The platform and the conditional column of a platform. -/
def platformColumns (platform : Text) : Option (ℕ × ℕ) :=
  if platform = "linux".toList then some (4, 8)
  else if platform = "macos".toList then some (5, 9)
  else if platform = "freebsd".toList then some (6, 10)
  else none

/-- One more expected fault. -/
def addFault (wrapper domain symbol : Text) (s : Session) : Loading :=
  if maxFaults ≤ s.state.faults.length then
    .error (s.raise (.user "too many expected fault outcomes".toList))
  else
    match copyText maxName wrapper s with
    | .error s => .error s
    | .ok wrapper =>
      match copyText maxName domain s with
      | .error s => .error s
      | .ok domain =>
        match copyText maxName symbol s with
        | .error s => .error s
        | .ok symbol =>
          .ok { s with state :=
            { s.state with faults := s.state.faults ++ [⟨⟨wrapper, domain, symbol⟩, false⟩] } }

/-- One symbol of a row of the fault manifest. -/
def symbolStep (wrapper domain conditional : Text) (s : Session) (symbol : Text) : Loading :=
  if listContains conditional symbol then
    match macroPresent inputs symbol s with
    | (true, s) => addFault wrapper domain symbol s
    | (false, s) => .ok s
  else addFault wrapper domain symbol s

/-- The step of `load_fault_manifest`. -/
def faultStep (columns : ℕ × ℕ) (s : Session) (line : Text) : Loading :=
  let fields := splitFields 11 (cString line)
  if fields.length ≠ 11 then .error (s.raise (.user "malformed fault-outcome manifest".toList))
  else
    match findApi (fields.getD 1 []) s with
    | none => .error (s.raise (.user "fault-outcome manifest identity mismatch".toList))
    | some api =>
      if api.faultTest = false then
        .error (s.raise (.user "fault-outcome manifest identity mismatch".toList))
      else
        match copyText maxLine (fields.getD columns.1 []) s with
        | .error s => .error s
        | .ok faults =>
          (listItems faults).foldlM
            (symbolStep inputs (fields.getD 0 []) (fields.getD 2 []) (fields.getD columns.2 [])) s

/-- `load_fault_manifest`. -/
def loadFaultManifest (s : Session) : Loading :=
  match platformColumns arguments.platform with
  | none => .error (s.raise (.user "unsupported conformance platform".toList))
  | some columns =>
    repoTable arguments "/test/fault-outcome-manifest.tsv".toList inputs.faultManifest
      (faultStep inputs columns) s

/-! ### Documents -/

/-- `read_json_file`: every failure records an error. -/
def readJsonFile (file : WholeFile) : Option json.Document :=
  match file.failsAt with
  | some _ => none
  | none => if maxJson < file.content.length then none else json.parse file.content

variable {json} in
/-- `token_text` with the error object of the run: a missing member is no error, a member that cannot
be copied is. -/
def tokenText (document : json.Document) (object : json.Token) (key : Text) (size : ℕ) (s : Session) :
    Except Session Text :=
  match json.objectGet document object key with
  | none => .error s
  | some token =>
    match json.tokenCopy document token size with
    | none => .error (s.raise .call)
    | some text => .ok text

variable {json} in
/-- `token_text` without an error object. -/
def optionalText (document : json.Document) (object : json.Token) (key : Text) (size : ℕ) :
    Option Text :=
  (json.objectGet document object key).bind fun token => json.tokenCopy document token size

variable {json} in
/-- `token_boolean`. -/
def tokenBoolean (document : json.Document) (object : json.Token) (key : Text) : Option Bool :=
  (json.objectGet document object key).map fun token =>
    json.tokenEquals document token "true".toList

variable {json} in
/-- The array that is a member of the root of a document. -/
def rootArray (document : json.Document) (key : Text) : Option json.Token :=
  (json.objectGet document (json.root document) key).filter (json.isArray document)

/-- The record of a function capability: the identity, and whether it takes an environment. -/
structure Capability where
  usr : Text
  hasEnv : Bool
  deriving DecidableEq, Repr

/-- What a capability does to its record. -/
def Capability.update (row : Capability) (api : ApiRecord) : ApiRecord :=
  { api with instrumentationSeen := true, traceApplicable := row.hasEnv }

variable {json} in
/-- The body of the loop of `load_instrumentation` on one row. -/
def capabilityRow (library : Text) (document : json.Document) (row : json.Token) (s : Session) :
    Loading :=
  match tokenText document row "library".toList maxName s with
  | .error s => .error s
  | .ok name =>
    if name ≠ library then .ok s
    else
      match tokenText document row "usr".toList maxUsr s with
      | .error s => .error s
      | .ok usr =>
        match findApi usr s with
        | none =>
          .error (s.raise (.user "instrumentation receipt has unknown API identity".toList))
        | some _ =>
          match tokenBoolean document row "has_env".toList with
          | none => .error (updateApi usr (fun api => { api with instrumentationSeen := true }) s)
          | some hasEnv => .ok (updateApi usr (Capability.update ⟨usr, hasEnv⟩) s)

variable {json} in
/-- The loop over the rows of an array. -/
def forRows (document : json.Document) (array : json.Token)
    (body : json.Token → Session → Loading) (s : Session) : Loading :=
  (List.range (json.childCount document array)).foldlM (fun s index =>
    match json.arrayGet document array index with
    | none => .error s
    | some row => body row s) s

/-- `load_instrumentation`. -/
def loadInstrumentation (s : Session) : Loading :=
  match readJsonFile json inputs.instrumentation with
  | none => .error (s.raise .call)
  | some document =>
    match tokenText document (json.root document) "schema".toList maxName s with
    | .error s => .error (s.raise (.user "unsupported instrumentation receipt".toList))
    | .ok schema =>
      if schema ≠ "p101-instrumentation-platform-receipt-v1".toList then
        .error (s.raise (.user "unsupported instrumentation receipt".toList))
      else if tokenBoolean document (json.root document) "passed".toList ≠ some true then
        .error (s.raise (.user "instrumentation audit did not pass".toList))
      else
        match rootArray document "function_capabilities".toList with
        | none => .error (s.raise (.user "instrumentation receipt lacks capabilities".toList))
        | some capabilities =>
          forRows document capabilities (capabilityRow arguments.library document) s

/-- A call node of the run model: its name and kind, and the values it carries. -/
structure CallNode where
  name : Text
  kind : Text
  arguments : Option Text
  result : Option Text
  deriving DecidableEq, Repr

/-- A value was logged. -/
def logged (value : Text) : Bool := value ≠ [] && value ≠ "-".toList

/-- What a call node does to its record. -/
def CallNode.update (node : CallNode) (api : ApiRecord) : ApiRecord :=
  if node.kind = "call-enter".toList then
    { api with
      enters := api.enters + 1
      arguments := (node.arguments.map logged).getD api.arguments }
  else if node.kind = "call-exit".toList then
    { api with
      exits := api.exits + 1
      result := (node.result.map logged).getD api.result }
  else api

variable {json} in
/-- The body of the loop of `load_model` on one row. -/
def modelRow (document : json.Document) (row : json.Token) (s : Session) : Loading :=
  match tokenText document row "domain".toList maxName s with
  | .error s => .error s
  | .ok domain =>
    if domain ≠ "call".toList then .ok s
    else
      match tokenText document row "name".toList maxName s with
      | .error s => .error s
      | .ok name =>
        match tokenText document row "kind".toList maxName s with
        | .error s => .error s
        | .ok kind =>
          match findApiName name s with
          | none => .ok s
          | some _ =>
            .ok (updateApiName name
              (CallNode.update ⟨name, kind, optionalText document row "arguments".toList maxLine,
                optionalText document row "result".toList maxLine⟩) s)

/-- `load_model`. -/
def loadModel (s : Session) : Loading :=
  match readJsonFile json inputs.model with
  | none => .error (s.raise .call)
  | some document =>
    match tokenText document (json.root document) "schema".toList maxName s with
    | .error s => .error (s.raise (.user "unsupported run model".toList))
    | .ok schema =>
      if schema ≠ "p101-run-model-v1".toList then
        .error (s.raise (.user "unsupported run model".toList))
      else
        match rootArray document "nodes".toList with
        | none => .error (s.raise (.user "run model lacks nodes".toList))
        | some nodes => forRows document nodes (modelRow document) s

/-! ### Outcomes -/

/-- `find_fault`. -/
def findFault (key : FaultKey) (s : Session) : Option ExpectedFault :=
  s.state.faults.find? (·.key = key)

/-- `finding`. -/
def addFinding (path message identity : Text) (s : Session) : Session :=
  { s with state :=
    { s.state with findings := s.state.findings ++ [⟨path, message, identity⟩] } }

/-- A fault is observed. -/
def ExpectedFault.observe (fault : ExpectedFault) : ExpectedFault := { fault with observed := true }

/-- The record that `find_fault` finds is observed, and counted. -/
def observeFault (key : FaultKey) (s : Session) : Session :=
  { s with state :=
    { s.state with
      faults := modifyFirst (·.key = key) ExpectedFault.observe s.state.faults
      faultOutcomesObserved := s.state.faultOutcomesObserved + 1 } }

/-- The outcome of a wrapper: its fault and its status. -/
structure OutcomeRow where
  key : FaultKey
  status : Text
  deriving DecidableEq, Repr

/-- The part of the loop of `load_outcomes` behind the checks of the format. -/
def outcomeRow (row : OutcomeRow) (s : Session) : Session :=
  match findFault row.key s with
  | none =>
    addFinding arguments.outcomes "unexpected or duplicate fault outcome".toList row.key.wrapper s
  | some fault =>
    if fault.observed then
      addFinding arguments.outcomes "unexpected or duplicate fault outcome".toList row.key.wrapper s
    else
      observeFault row.key
        (if row.status ≠ "PASS".toList then
          addFinding arguments.outcomes "fault outcome failed".toList row.key.wrapper s
        else s)

/-- The step of `load_outcomes`. -/
def outcomeStep (s : Session) (line : Text) : Loading :=
  match splitFields 10 (cString line) with
  | [tag, _, _, _, _, wrapper, domain, symbol, _, status] =>
    if tag ≠ "P101WRAPPER".toList then
      .error (s.raise (.user "unsupported wrapper outcome record".toList))
    else .ok (outcomeRow arguments ⟨⟨wrapper, domain, symbol⟩, status⟩ s)
  | _ => .error (s.raise (.user "malformed wrapper outcome record".toList))

/-- `load_outcomes`. -/
def loadOutcomes : Session → Loading :=
  readTable inputs.outcomes false (outcomeStep arguments)

/-! ### All of them -/

/-- The loaders of `main`, one after the other. -/
def load (s : Session) : Loading := do
  let s ← loadApiManifest inputs arguments s
  let s ← loadTestManifest inputs arguments s
  let s ← loadConformanceManifest inputs arguments s
  let s ← loadFaultManifest inputs arguments s
  let s ← loadInstrumentation json inputs arguments s
  let s ← loadModel json inputs s
  loadOutcomes inputs arguments s

end P101Test.Conformance
