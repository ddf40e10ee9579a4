import P101Test.Conformance.Program
import P101Test.Conformance.Evidence
import P101Test.Json.Basic

/-!
# The verdict law of the conformance check

What it means that evidence conforms, said of the lists of its rows alone, and that the check decides
exactly this.

## Main definitions

* `Evidence.nodes`: the call nodes that count for an API.
* `Evidence.Conforms`: what the check is about.

## Main results

* `getElem?_records`: the record of one API.
* `validateConformance_iff`: validation succeeds exactly on evidence that conforms.
-/

namespace P101Test.Conformance

open Stdio Table

/-! ### Conforming evidence -/

/-- A call node that enters. -/
def CallNode.enters (node : CallNode) : Bool := node.kind = "call-enter".toList

/-- A call node that exits. -/
def CallNode.exits (node : CallNode) : Bool := node.kind = "call-exit".toList

/-- A unit test that is a fault test. -/
def TestRow.isFault (row : TestRow) : Bool := row.kind = "fault".toList

/-- The last row of a table with an identity. -/
def lastRow {ρ : Type} (rowUsr : ρ → Text) (rows : List ρ) (usr : Text) : Option ρ :=
  (rows.filter fun row => rowUsr row = usr).getLast?

namespace Evidence

variable (e : Evidence) (i : ℕ) (api : Api)

/-- An API is traced if its last capability takes an environment. -/
def traced : Bool := (lastRow Capability.usr e.capabilities api.usr).any (·.hasEnv)

/-- The contract of an API requires arguments. -/
def requiresArguments : Bool := (lastRow ContractRow.usr e.contracts api.usr).any (·.arguments)

/-- The contract of an API requires a result. -/
def requiresResult : Bool := (lastRow ContractRow.usr e.contracts api.usr).any (·.result)

/-- The call nodes that count for the API at a place: those of its name, unless an earlier API has that
name. -/
def nodes : List CallNode :=
  reaching CallNode.name e.calls ((e.apis.map Api.name).take i) api.name

/-- The number of nodes that enter an API. -/
def enters : ℕ := (e.nodes i api).countP CallNode.enters

/-- The number of nodes that exit an API. -/
def exits : ℕ := (e.nodes i api).countP CallNode.exits

/-- The last arguments that a node entering an API carries. -/
def lastArguments : Option Text :=
  (((e.nodes i api).filter CallNode.enters).filterMap CallNode.arguments).getLast?

/-- The last result that a node exiting an API carries. -/
def lastResult : Option Text :=
  (((e.nodes i api).filter CallNode.exits).filterMap CallNode.result).getLast?

/-- The API at a place has a row in every table, and what the rows say about it is borne out by its
call nodes. -/
structure ApiConforms : Prop where
  tested : ∃ row ∈ e.tests, row.usr = api.usr
  contracted : ∃ row ∈ e.contracts, row.usr = api.usr
  instrumented : ∃ row ∈ e.capabilities, row.usr = api.usr
  invoked : e.traced api = true → 0 < e.enters i api ∧ e.enters i api = e.exits i api
  faultInvoked : (∃ row ∈ e.tests, row.usr = api.usr ∧ row.isFault = true) → 0 < e.enters i api
  argumentsLogged : e.requiresArguments api = true →
    ∃ value, e.lastArguments i api = some value ∧ logged value = true
  resultLogged : e.requiresResult api = true →
    ∃ value, e.lastResult i api = some value ∧ logged value = true

/-- **Conforming evidence.** The identities of the APIs are distinct, each API conforms, and the outcomes
are those of the expected faults, each once and passed. -/
structure Conforms : Prop where
  distinct : (e.apis.map Api.usr).Nodup
  apis : ∀ i api, e.apis[i]? = some api → e.ApiConforms i api
  reported : (e.outcomes.map OutcomeRow.key).Perm e.expected
  expectedOnce : e.expected.Nodup
  passed : ∀ row ∈ e.outcomes, row.passed = true

end Evidence

/-! ### Rows on a record -/

section Identity

variable (api : ApiRecord)

@[simp] theorem TestRow.usr_update (row : TestRow) : (row.update api).usr = api.usr := rfl
@[simp] theorem TestRow.name_update (row : TestRow) : (row.update api).name = api.name := rfl
@[simp] theorem ContractRow.usr_update (row : ContractRow) : (row.update api).usr = api.usr := rfl
@[simp] theorem ContractRow.name_update (row : ContractRow) : (row.update api).name = api.name := rfl
@[simp] theorem Capability.usr_update (row : Capability) : (row.update api).usr = api.usr := rfl
@[simp] theorem Capability.name_update (row : Capability) : (row.update api).name = api.name := rfl

theorem ContractRow.update_update (row row' : ContractRow) (api : ApiRecord) :
    row.update (row'.update api) = row.update api := rfl

theorem Capability.update_update (row row' : Capability) (api : ApiRecord) :
    row.update (row'.update api) = row.update api := rfl

@[simp] theorem CallNode.name_update (node : CallNode) : (node.update api).name = api.name := by
  unfold CallNode.update
  split
  · rfl
  · split <;> rfl

end Identity

theorem foldl_tests (rows : List TestRow) (api : ApiRecord) :
    rows.foldl (fun api row => row.update api) api =
      { api with
        tested := api.tested || !rows.isEmpty
        faultTest := api.faultTest || rows.any TestRow.isFault } := by
  induction rows generalizing api with
  | nil => simp
  | cons row rest ih =>
      rw [List.foldl_cons, ih]
      simp [TestRow.update, TestRow.isFault, Bool.or_assoc]

theorem foldl_contracts (rows : List ContractRow) (api : ApiRecord) :
    rows.foldl (fun api row => row.update api) api =
      { api with
        conformanceSeen := api.conformanceSeen || rows.getLast?.isSome
        requireArguments := (rows.getLast?.map ContractRow.arguments).getD api.requireArguments
        requireResult := (rows.getLast?.map ContractRow.result).getD api.requireResult } := by
  rw [foldl_of_replace ContractRow.update_update]
  cases rows.getLast? <;> simp [ContractRow.update]

theorem foldl_capabilities (rows : List Capability) (api : ApiRecord) :
    rows.foldl (fun api row => row.update api) api =
      { api with
        instrumentationSeen := api.instrumentationSeen || rows.getLast?.isSome
        traceApplicable := (rows.getLast?.map Capability.hasEnv).getD api.traceApplicable } := by
  rw [foldl_of_replace Capability.update_update]
  cases rows.getLast? <;> simp [Capability.update]

theorem CallNode.update_eq (node : CallNode) (api : ApiRecord) :
    node.update api =
      { api with
        enters := api.enters + if node.enters then 1 else 0
        exits := api.exits + if node.exits then 1 else 0
        arguments :=
          if node.enters then (node.arguments.map logged).getD api.arguments else api.arguments
        result := if node.exits then (node.result.map logged).getD api.result else api.result } := by
  by_cases henter : node.kind = "call-enter".toList
  · have hexit : ¬node.kind = "call-exit".toList := by
      rw [henter]
      decide
    have henters : node.enters = true := decide_eq_true henter
    have hexits : node.exits = false := decide_eq_false hexit
    rw [CallNode.update, if_pos henter, henters, hexits]
    rfl
  · have henters : node.enters = false := decide_eq_false henter
    rw [CallNode.update, if_neg henter, henters]
    by_cases hexit : node.kind = "call-exit".toList
    · have hexits : node.exits = true := decide_eq_true hexit
      rw [if_pos hexit, hexits]
      rfl
    · have hexits : node.exits = false := decide_eq_false hexit
      rw [if_neg hexit, hexits]
      rfl

/-- The last value among one more node and others. -/
private theorem last_value_cons (p : CallNode → Bool) (value : CallNode → Option Text)
    (node : CallNode) (rest : List CallNode) (known : Bool) :
    ((((node :: rest).filter p).filterMap value).getLast?.map logged).getD known =
      (((rest.filter p).filterMap value).getLast?.map logged).getD
        (if p node then ((value node).map logged).getD known else known) := by
  by_cases hp : p node = true
  · rw [List.filter_cons_of_pos hp, List.filterMap_cons, if_pos hp]
    cases value node with
    | none => rfl
    | some text =>
      dsimp only
      rw [List.getLast?_cons]
      cases ((rest.filter p).filterMap value).getLast? <;> rfl
  · rw [List.filter_cons_of_neg hp, if_neg hp]

/-- What call nodes do to a record: they are counted, and the last value carried counts. -/
theorem foldl_nodes (nodes : List CallNode) (api : ApiRecord) :
    nodes.foldl (fun api node => node.update api) api =
      { api with
        enters := api.enters + nodes.countP CallNode.enters
        exits := api.exits + nodes.countP CallNode.exits
        arguments := (((nodes.filter CallNode.enters).filterMap CallNode.arguments).getLast?.map
          logged).getD api.arguments
        result := (((nodes.filter CallNode.exits).filterMap CallNode.result).getLast?.map
          logged).getD api.result } := by
  induction nodes generalizing api with
  | nil => simp
  | cons node rest ih =>
      rw [List.foldl_cons, ih, CallNode.update_eq, last_value_cons, last_value_cons, List.countP_cons,
        List.countP_cons]
      simp only [ApiRecord.mk.injEq, true_and, and_true]
      constructor <;> omega

/-! ### Records -/

namespace Evidence

variable {e : Evidence} {i : ℕ} {api : Api}

/-- The rows of a table that reach the API at a place. -/
def rowsOf {ρ : Type} (e : Evidence) (rowUsr : ρ → Text) (rows : List ρ) (i : ℕ) (api : Api) :
    List ρ :=
  reaching rowUsr rows ((e.apis.map Api.usr).take i) api.usr

/-- The record the evidence makes of the API at a place. -/
def record (e : Evidence) (i : ℕ) (api : Api) : ApiRecord where
  name := api.name
  usr := api.usr
  tested := !(e.rowsOf TestRow.usr e.tests i api).isEmpty
  faultTest := (e.rowsOf TestRow.usr e.tests i api).any TestRow.isFault
  conformanceSeen := (e.rowsOf ContractRow.usr e.contracts i api).getLast?.isSome
  instrumentationSeen := (e.rowsOf Capability.usr e.capabilities i api).getLast?.isSome
  traceApplicable := (e.rowsOf Capability.usr e.capabilities i api).getLast?.any (·.hasEnv)
  requireArguments := (e.rowsOf ContractRow.usr e.contracts i api).getLast?.any (·.arguments)
  requireResult := (e.rowsOf ContractRow.usr e.contracts i api).getLast?.any (·.result)
  enters := e.enters i api
  exits := e.exits i api
  arguments := (e.lastArguments i api).any logged
  result := (e.lastResult i api).any logged

private theorem getD_map_false {α : Type} (known : Option α) (p : α → Bool) :
    (known.map p).getD false = known.any p := by
  cases known <;> rfl

/-- **One record.** What the evidence makes of one API. -/
theorem getElem?_records (i : ℕ) : e.records[i]? = e.apis[i]?.map (e.record i) := by
  unfold records
  rw [getElem?_updateAll fun node api => CallNode.name_update api node,
    map_updateAll fun row api => Capability.name_update api row,
    map_updateAll fun row api => ContractRow.name_update api row,
    map_updateAll fun row api => TestRow.name_update api row,
    getElem?_updateAll fun row api => Capability.usr_update api row,
    map_updateAll fun row api => ContractRow.usr_update api row,
    map_updateAll fun row api => TestRow.usr_update api row,
    getElem?_updateAll fun row api => ContractRow.usr_update api row,
    map_updateAll fun row api => TestRow.usr_update api row,
    getElem?_updateAll fun row api => TestRow.usr_update api row,
    List.getElem?_map, List.map_map, List.map_map, Option.map_map, Option.map_map, Option.map_map,
    Option.map_map]
  congr 1
  funext api
  simp only [Function.comp_apply, foldl_nodes, foldl_capabilities, foldl_contracts, foldl_tests]
  simp only [record, rowsOf, enters, exits, lastArguments, lastResult, nodes, Api.record, ApiRecord.new,
    Bool.false_or, Nat.zero_add, getD_map_false]
  rfl

/-- An identity that an earlier API has leaves the record untested. -/
theorem tested_record (htested : (e.record i api).tested = true) :
    api.usr ∉ (e.apis.map Api.usr).take i := by
  intro hmem
  simp [record, rowsOf, reaching, hmem] at htested

end Evidence

/-! ### Findings -/

/-- What validation asks of a record. -/
structure ApiRecord.Sound (api : ApiRecord) : Prop where
  tested : api.tested = true
  contracted : api.conformanceSeen = true
  instrumented : api.instrumentationSeen = true
  invoked : api.traceApplicable = true → 0 < api.enters ∧ api.enters = api.exits
  faultInvoked : api.faultTest = true → 0 < api.enters
  argumentsLogged : api.requireArguments = true → api.arguments = true
  resultLogged : api.requireResult = true → api.result = true

section Findings

variable {arguments : Arguments} {s : Session}

private theorem ite_finding_eq_nil {c : Prop} [Decidable c] {finding : Finding} :
    (if c then [finding] else []) = [] ↔ ¬c := by
  simp

/-- There is no finding about a record exactly when it is sound. -/
theorem apiFindings_eq_nil {api : ApiRecord} : apiFindings arguments api = [] ↔ api.Sound := by
  rw [apiFindings]
  iterate 7 rw [List.append_eq_nil_iff]
  iterate 8 rw [ite_finding_eq_nil]
  simp only [Bool.and_eq_true, decide_eq_true_eq, Bool.not_eq_true', Bool.not_eq_false, not_and, ne_eq,
    not_not]
  constructor
  · rintro ⟨⟨⟨⟨⟨⟨⟨htested, hcontracted⟩, hinstrumented⟩, hinvoked⟩, hbalanced⟩, hfault⟩, harguments⟩,
      hresult⟩
    exact ⟨htested, hcontracted, hinstrumented,
      fun h => ⟨Nat.pos_of_ne_zero (hinvoked h), hbalanced h⟩,
      fun h => Nat.pos_of_ne_zero (hfault h), harguments, hresult⟩
  · intro h
    exact ⟨⟨⟨⟨⟨⟨⟨h.tested, h.contracted⟩, h.instrumented⟩, fun ht => (h.invoked ht).1.ne'⟩,
      fun ht => (h.invoked ht).2⟩, fun hf => (h.faultInvoked hf).ne'⟩, h.argumentsLogged⟩,
      h.resultLogged⟩

theorem faultFindings_eq_nil {fault : ExpectedFault} :
    faultFindings arguments fault = [] ↔ fault.observed = true := by
  rw [faultFindings, ite_finding_eq_nil, Bool.not_eq_true', Bool.not_eq_false]

/-- Validation succeeds exactly when nothing was found before, every record is sound and every expected
fault was observed. -/
theorem validateConformance_fst : (validateConformance arguments s).1 = true ↔
    s.state.findings = [] ∧ (∀ api ∈ s.state.apis, api.Sound) ∧
      ∀ fault ∈ s.state.faults, fault.observed = true := by
  rw [validateConformance]
  simp only [List.isEmpty_iff, List.append_eq_nil_iff, List.flatMap_eq_nil_iff, apiFindings_eq_nil,
    faultFindings_eq_nil, and_assoc]

end Findings

/-! ### The law -/

namespace Evidence

variable {e : Evidence} {i : ℕ} {api : Api}

/-- The record of the first API with an identity is sound exactly when the API conforms. -/
theorem sound_record_iff (hfirst : api.usr ∉ (e.apis.map Api.usr).take i) :
    (e.record i api).Sound ↔ e.ApiConforms i api := by
  have hrows {ρ : Type} (rowUsr : ρ → Text) (rows : List ρ) :
      e.rowsOf rowUsr rows i api = rows.filter fun row => rowUsr row = api.usr :=
    reaching_of_notMem hfirst
  have htested : (e.record i api).tested = true ↔ ∃ row ∈ e.tests, row.usr = api.usr := by
    simp [record, hrows]
  have hcontracted : (e.record i api).conformanceSeen = true ↔
      ∃ row ∈ e.contracts, row.usr = api.usr := by
    simp [record, hrows]
  have hinstrumented : (e.record i api).instrumentationSeen = true ↔
      ∃ row ∈ e.capabilities, row.usr = api.usr := by
    simp [record, hrows]
  have hfault : (e.record i api).faultTest = true ↔
      ∃ row ∈ e.tests, row.usr = api.usr ∧ row.isFault = true := by
    simp [record, hrows]
  have htraced : (e.record i api).traceApplicable = e.traced api := by
    simp only [record, hrows]
    rfl
  have hrequiresArguments : (e.record i api).requireArguments = e.requiresArguments api := by
    simp only [record, hrows]
    rfl
  have hrequiresResult : (e.record i api).requireResult = e.requiresResult api := by
    simp only [record, hrows]
    rfl
  have harguments : (e.record i api).arguments = true ↔
      ∃ value, e.lastArguments i api = some value ∧ logged value = true := by
    simp [record, Option.any_eq_true]
  have hresult : (e.record i api).result = true ↔
      ∃ value, e.lastResult i api = some value ∧ logged value = true := by
    simp [record, Option.any_eq_true]
  constructor
  · intro h
    exact ⟨htested.mp h.tested, hcontracted.mp h.contracted, hinstrumented.mp h.instrumented,
      fun ht => h.invoked (htraced ▸ ht), fun hf => h.faultInvoked (hfault.mpr hf),
      fun ha => harguments.mp (h.argumentsLogged (hrequiresArguments ▸ ha)),
      fun hr => hresult.mp (h.resultLogged (hrequiresResult ▸ hr))⟩
  · intro h
    exact ⟨htested.mpr h.tested, hcontracted.mpr h.contracted, hinstrumented.mpr h.instrumented,
      fun ht => h.invoked (htraced ▸ ht), fun hf => h.faultInvoked (hfault.mp hf),
      fun ha => harguments.mpr (h.argumentsLogged (hrequiresArguments ▸ ha)),
      fun hr => hresult.mpr (h.resultLogged (hrequiresResult ▸ hr))⟩

/-- All records are sound exactly when the identities are distinct and every API conforms. -/
theorem sound_records_iff : (∀ record ∈ e.records, record.Sound) ↔
    (e.apis.map Api.usr).Nodup ∧ ∀ i api, e.apis[i]? = some api → e.ApiConforms i api := by
  have hall : (∀ record ∈ e.records, record.Sound) ↔
      ∀ i api, e.apis[i]? = some api → (e.record i api).Sound := by
    constructor
    · intro h i api hapi
      refine h _ (List.mem_of_getElem? (i := i) ?_)
      rw [getElem?_records, hapi, Option.map_some]
    · intro h record hrecord
      obtain ⟨i, hi⟩ := List.mem_iff_getElem?.mp hrecord
      rw [getElem?_records, Option.map_eq_some_iff] at hi
      obtain ⟨api, hapi, rfl⟩ := hi
      exact h i api hapi
  rw [hall, nodup_iff_notMem_take]
  constructor
  · intro h
    refine ⟨fun i usr husr => ?_, fun i api hapi => ?_⟩
    · rw [List.getElem?_map, Option.map_eq_some_iff] at husr
      obtain ⟨api, hapi, rfl⟩ := husr
      exact tested_record (h i api hapi).tested
    · exact (sound_record_iff (tested_record (h i api hapi).tested)).mp (h i api hapi)
  · rintro ⟨hdistinct, hapis⟩ i api hapi
    refine (sound_record_iff (hdistinct i _ ?_)).mpr (hapis i api hapi)
    rw [List.getElem?_map, hapi, Option.map_some]

/-- All expected faults are observed, and every outcome observes one, exactly when the outcomes are the
expected faults and these are distinct. -/
theorem marked_complete_iff :
    ((∀ fault ∈ e.marked.1, fault.observed = true) ∧ e.marked.2 = 0) ↔
      (e.outcomes.map OutcomeRow.key).Perm e.expected ∧ e.expected.Nodup := by
  have hkeys : (e.expected.map FaultKey.unobserved).map ExpectedFault.key = e.expected := by
    rw [List.map_map]
    exact List.map_id _
  have hkey (fault : ExpectedFault) : fault.observe.key = fault.key := rfl
  have hmark (fault : ExpectedFault) : fault.observe.observed = true := rfl
  have hmarked (fault : ExpectedFault) (h : fault.observed = true) : fault.observe = fault := by
    rw [ExpectedFault.observe, ← h]
  have hnone : ∀ fault ∈ e.expected.map FaultKey.unobserved, fault.observed = false := by
    simp [FaultKey.unobserved]
  rw [marked, markAll_complete_iff hkey hmark hmarked hnone, hkeys]

end Evidence

/-- **The verdict law.** Whenever all evidence loads, validation succeeds exactly when the evidence
conforms. -/
theorem validateConformance_iff {json : JsonLibrary} {inputs : Inputs} {arguments : Arguments}
    {s : Session} (h : load json inputs arguments .zero = .ok s) :
    (validateConformance arguments s).1 = true ↔ (evidence json inputs arguments).Conforms := by
  obtain ⟨hmade, -⟩ := load_ok h
  rw [validateConformance_fst, hmade.apis_eq, hmade.faults_eq, hmade.nothing_found,
    Evidence.sound_records_iff]
  constructor
  · rintro ⟨⟨hnone, hpassed⟩, ⟨hdistinct, hapis⟩, hobserved⟩
    obtain ⟨hreported, honce⟩ := Evidence.marked_complete_iff.mp ⟨hobserved, hnone⟩
    exact ⟨hdistinct, hapis, hreported, honce, hpassed⟩
  · intro h
    obtain ⟨hobserved, hnone⟩ := Evidence.marked_complete_iff.mpr ⟨h.reported, h.expectedOnce⟩
    exact ⟨⟨hnone, h.passed⟩, ⟨h.distinct, h.apis⟩, hobserved⟩

/-! ### A small library -/

/-- The JSON library over values. -/
def valueLibrary : JsonLibrary where
  Document := Json.Value
  Token := Json.Value
  parse := Json.parse
  root document := document
  objectGet _ object key := object.get key
  arrayGet _ array index := array.rows[index]?
  isArray _ token := token matches .array _
  childCount _ array := array.rows.length
  tokenCopy _ token size := token.text?.filter fun text => text.length < size
  tokenEquals _ token text := token.bool? = some true && text = "true".toList

/-- The arguments of a run on a library with one API. -/
def smallArguments : Arguments where
  library := "c".toList
  repo := "repo".toList
  instrumentation := "receipt.json".toList
  model := "model.json".toList
  outcomes := "outcomes.tsv".toList
  platform := "linux".toList
  macros := "macros.h".toList
  receipt := "out.json".toList

/-- The receipt of the instrumentation. -/
def smallInstrumentation : Text :=
  ("\x7b\"schema\":\"p101-instrumentation-platform-receipt-v1\",\"passed\":true," ++
    "\"function_capabilities\":[\x7b\"library\":\"c\",\"usr\":\"u1\",\"has_env\":true\x7d]\x7d").toList

/-- A run model with one call. -/
def smallModel : Text :=
  ("\x7b\"schema\":\"p101-run-model-v1\",\"nodes\":[" ++
    "\x7b\"domain\":\"call\",\"name\":\"read\",\"kind\":\"call-enter\",\"arguments\":\"3\"\x7d," ++
    "\x7b\"domain\":\"call\",\"name\":\"read\",\"kind\":\"call-exit\",\"result\":\"-\"\x7d]\x7d").toList

/-- The outcome of a fault test that passed. -/
def smallOutcome (symbol : Text) : Text :=
  "P101WRAPPER\t-\t-\t-\t-\tread\tposix\t".toList ++ symbol ++ "\t-\tPASS\n".toList

/-- The inputs of that run; `EBADF` is expected only where the macro is present. -/
def smallInputs (macros : Stream) (outcomes : Text) : Inputs where
  apiManifest := .whole "name\tusr\t-\t-\t-\nread\tu1\t-\t-\t-\n".toList
  testManifest := .whole "test\tusr\tkind\t-\nread\tu1\tfault\t-\n".toList
  conformanceManifest := .whole "name\tusr\targuments\tresult\nread\tu1\ttrue\tfalse\n".toList
  faultManifest := .whole
    "h\th\th\th\th\th\th\th\th\th\th\nread\tu1\tposix\t-\tEINTR,EBADF\t\t\t-\tEBADF\t\t\n".toList
  macros _ := macros
  instrumentation := ⟨smallInstrumentation, none⟩
  model := ⟨smallModel, none⟩
  outcomes := .whole outcomes
  receipt := ⟨true, true, true⟩

/-- The macros file of that run. -/
def smallMacros : Stream := .whole "#define EBADF 9\n".toList

/-- A run with an outcome for each expected fault, in another order than they are expected. -/
def smallRun : Inputs :=
  smallInputs smallMacros (smallOutcome "EBADF".toList ++ smallOutcome "EINTR".toList)

/-- The evidence of that run loads, validation succeeds and every expected fault is observed. -/
theorem load_smallRun : ∃ s, load valueLibrary smallRun smallArguments .zero = .ok s ∧
    (validateConformance smallArguments s).1 = true ∧
      ∀ fault ∈ s.state.faults, fault.observed = true := by
  have hrun : (load valueLibrary smallRun smallArguments .zero).toOption.any (fun s =>
      (validateConformance smallArguments s).1 && s.state.faults.all ExpectedFault.observed) =
        true := by
    decide +kernel
  cases hload : load valueLibrary smallRun smallArguments .zero with
  | error s =>
    rw [hload] at hrun
    cases hrun
  | ok s =>
    rw [hload] at hrun
    obtain ⟨hvalid, hobserved⟩ := Bool.and_eq_true_iff.mp hrun
    exact ⟨s, rfl, hvalid, List.all_eq_true.mp hobserved⟩

/-- The evidence of that run conforms. -/
theorem conforms_small : (evidence valueLibrary smallRun smallArguments).Conforms := by
  obtain ⟨s, hload, hvalid, -⟩ := load_smallRun
  exact (validateConformance_iff hload).mp hvalid

end P101Test.Conformance
