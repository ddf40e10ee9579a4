import P101Test.Conformance.Law
import P101Test.Conformance.Reordering
import Mathlib.Data.Set.Basic

/-!
# The order of the evidence

Whether the findings of the validation depend on the order of the function capabilities and of the call
nodes. The counters do not; the flags do, since every row that carries a flag overwrites it. Four kinds of
findings rest on such a flag, and the findings are the same in every order exactly when each finding of
these kinds that some order reports is reported, about the same name, in every order.

## Main definitions

* `Flagged`: the kinds of findings that rest on a flag.
* `Evidence.Steady`: a finding of these kinds is reported in every order or in none.
* `reported`, `verdict`: what the validation reports, if all evidence loads.
* `OrderIndependent`: the report is the same in every order.

## Main results

* `Evidence.Steady.raises_iff`, `Evidence.steady_of_favour`: steadiness is reporting the same findings in
  every order.
* `orderIndependent_iff`: the exact condition for a run.
-/

namespace P101Test.Conformance

open Stdio Table

/-! ### Flags -/

/-- The flag that a call node entering an API carries. -/
def CallNode.argumentsFlag (node : CallNode) : Option Bool :=
  if node.enters then node.arguments.map logged else none

/-- The flag that a call node exiting an API carries. -/
def CallNode.resultFlag (node : CallNode) : Option Bool :=
  if node.exits then node.result.map logged else none

/-- A call node carries a flag with a value. -/
def CallNode.carries (b : Bool) (node : CallNode) : Bool :=
  node.argumentsFlag = some b || node.resultFlag = some b

theorem CallNode.exits_of_enters {node : CallNode} (h : node.enters = true) : node.exits = false := by
  refine decide_eq_false ?_
  rw [of_decide_eq_true h]
  decide

theorem CallNode.carries_of_argumentsFlag {b flag : Bool} {node : CallNode}
    (h : node.argumentsFlag = some flag) : node.carries b = decide (flag = b) := by
  have henters : node.enters = true := by
    by_contra hne
    rw [argumentsFlag, if_neg hne] at h
    cases h
  have hresult : node.resultFlag = none := by
    rw [resultFlag, exits_of_enters henters, if_neg (by decide)]
  rw [carries, h, hresult]
  simp

theorem CallNode.carries_of_resultFlag {b flag : Bool} {node : CallNode}
    (h : node.resultFlag = some flag) : node.carries b = decide (flag = b) := by
  have harguments : node.argumentsFlag = none := by
    rw [argumentsFlag]
    refine if_neg fun henters => ?_
    rw [resultFlag, exits_of_enters henters, if_neg (by decide)] at h
    cases h
  rw [carries, h, harguments]
  simp

/-- The findings that rest on a flag. -/
inductive Flagged
  | uninvoked
  | unbalanced
  | argumentsMissing
  | resultMissing
  deriving DecidableEq, Repr

namespace Flagged

/-- The message of a finding. -/
def message : Flagged → Text
  | uninvoked => "traced API has no runtime invocation".toList
  | unbalanced => "runtime ENTER/EXIT counts are unbalanced".toList
  | argumentsMissing => "required arguments were not logged".toList
  | resultMissing => "required result was not logged".toList

/-- The flag with which the finding is reported. -/
def raised : Flagged → Bool
  | uninvoked => true
  | unbalanced => true
  | argumentsMissing => false
  | resultMissing => false

/-- What else it takes for the finding to be reported. -/
def Due (e : Evidence) (i : ℕ) (api : Api) : Flagged → Prop
  | uninvoked => e.enters i api = 0
  | unbalanced => e.enters i api ≠ e.exits i api
  | argumentsMissing => (e.record i api).requireArguments = true
  | resultMissing => (e.record i api).requireResult = true

/-- The values that the rows of an API write to the flag. -/
def values (e : Evidence) (i : ℕ) (api : Api) : Flagged → List Bool
  | uninvoked => (e.rowsOf Capability.usr e.capabilities i api).map Capability.hasEnv
  | unbalanced => (e.rowsOf Capability.usr e.capabilities i api).map Capability.hasEnv
  | argumentsMissing => (e.nodes i api).filterMap CallNode.argumentsFlag
  | resultMissing => (e.nodes i api).filterMap CallNode.resultFlag

theorem message_injective : Function.Injective message := by
  intro kind kind' h
  cases kind <;> cases kind' <;> first | rfl | exact absurd h (by decide)

end Flagged

namespace Evidence

/-- The evidence reports a finding about a name. -/
def Raises (e : Evidence) (kind : Flagged) (name : Text) : Prop :=
  ∃ i api, e.apis[i]? = some api ∧ api.name = name ∧ kind.Due e i api ∧
    written false (kind.values e i api) = kind.raised

/-- **Steady evidence.** If some order of the rows of an API leaves the flag with which a finding is
reported, then no order of the rows of some API with its name leaves the other. -/
def Steady (e : Evidence) : Prop :=
  ∀ (kind : Flagged) (i : ℕ) (api : Api), e.apis[i]? = some api → kind.Due e i api →
    CanLeave false (kind.values e i api) kind.raised →
      ∃ j other, e.apis[j]? = some other ∧ other.name = api.name ∧ kind.Due e j other ∧
        ¬CanLeave false (kind.values e j other) !kind.raised

/-! ### Reordered evidence -/

section Reorders

variable {e e' : Evidence}

private theorem reaching_perm {ρ : Type} {key : ρ → Text} {rows rows' : List ρ}
    (h : rows.Perm rows') (earlier : List Text) (k : Text) :
    (reaching key rows earlier k).Perm (reaching key rows' earlier k) := by
  unfold reaching
  split
  · exact .nil
  · exact h.filter _

theorem Reorders.apis_eq (h : e.Reorders e') : e'.apis = e.apis := by rw [h.others]

theorem Reorders.nodes_perm (h : e.Reorders e') (i : ℕ) (api : Api) :
    (e.nodes i api).Perm (e'.nodes i api) := by
  rw [nodes, nodes, h.apis_eq]
  exact reaching_perm h.calls _ _

theorem Reorders.capabilities_perm (h : e.Reorders e') (i : ℕ) (api : Api) :
    (e.rowsOf Capability.usr e.capabilities i api).Perm
      (e'.rowsOf Capability.usr e'.capabilities i api) := by
  rw [rowsOf, rowsOf, h.apis_eq]
  exact reaching_perm h.capabilities _ _

theorem Reorders.enters_eq (h : e.Reorders e') (i : ℕ) (api : Api) :
    e'.enters i api = e.enters i api :=
  ((h.nodes_perm i api).countP_eq _).symm

theorem Reorders.exits_eq (h : e.Reorders e') (i : ℕ) (api : Api) : e'.exits i api = e.exits i api :=
  ((h.nodes_perm i api).countP_eq _).symm

/-- The values written to a flag are the same in another order. -/
theorem Reorders.values_perm (h : e.Reorders e') (kind : Flagged) (i : ℕ) (api : Api) :
    (kind.values e i api).Perm (kind.values e' i api) := by
  cases kind with
  | uninvoked => exact (h.capabilities_perm i api).map _
  | unbalanced => exact (h.capabilities_perm i api).map _
  | argumentsMissing => exact (h.nodes_perm i api).filterMap _
  | resultMissing => exact (h.nodes_perm i api).filterMap _

/-- What else it takes for a finding does not depend on the order. -/
theorem Reorders.due_iff (h : e.Reorders e') (kind : Flagged) (i : ℕ) (api : Api) :
    kind.Due e' i api ↔ kind.Due e i api := by
  have hcontracts : e'.rowsOf ContractRow.usr e'.contracts i api =
      e.rowsOf ContractRow.usr e.contracts i api := by
    rw [h.others]
    rfl
  cases kind with
  | uninvoked => rw [Flagged.Due, Flagged.Due, h.enters_eq]
  | unbalanced => rw [Flagged.Due, Flagged.Due, h.enters_eq, h.exits_eq]
  | argumentsMissing =>
    rw [Flagged.Due, Flagged.Due, record, record]
    dsimp only
    rw [hcontracts]
  | resultMissing =>
    rw [Flagged.Due, Flagged.Due, record, record]
    dsimp only
    rw [hcontracts]

theorem Reorders.symm (h : e.Reorders e') : e'.Reorders e where
  others := by rw [h.others]
  capabilities := h.capabilities.symm
  calls := h.calls.symm

/-- A finding that steady evidence reports is reported in every order. -/
theorem Steady.raises (hsteady : e.Steady) (h : e.Reorders e') {kind : Flagged} {name : Text} :
    (∃ i api, e.apis[i]? = some api ∧ api.name = name ∧ kind.Due e i api ∧
      CanLeave false (kind.values e i api) kind.raised) → e'.Raises kind name := by
  rintro ⟨i, api, hapi, rfl, hdue, hcan⟩
  obtain ⟨j, other, hother, hname, hdue', hmust⟩ := hsteady kind i api hapi hdue hcan
  refine ⟨j, other, h.apis_eq ▸ hother, hname, (h.due_iff kind j other).mpr hdue', ?_⟩
  by_contra hne
  refine hmust ((canLeave_perm (h.values_perm kind j other)).mpr ?_)
  rw [← Bool.eq_not_of_ne hne]
  exact canLeave_written

end Reorders

/-! ### Favoured evidence -/

section Favour

variable (e : Evidence)

/-- The evidence in the order that favours a value of the flags. -/
def favour (b : Bool) : Evidence :=
  { e with
    capabilities := Table.favour (fun row => row.hasEnv = b) e.capabilities
    calls := Table.favour (CallNode.carries b) e.calls }

theorem reorders_favour (b : Bool) : e.Reorders (e.favour b) :=
  ⟨rfl, favour_perm.symm, favour_perm.symm⟩

private theorem reaching_favour {ρ : Type} {key : ρ → Text} {rows : List ρ} (p : ρ → Bool)
    (earlier : List Text) (k : Text) :
    reaching key (Table.favour p rows) earlier k = Table.favour p (reaching key rows earlier k) := by
  unfold reaching
  split
  · rfl
  · exact filter_favour _

/-- Favouring a value of the flags favours it for every API. -/
theorem values_favour (b : Bool) (kind : Flagged) (i : ℕ) (api : Api) :
    kind.values (e.favour b) i api =
      Table.favour (fun value => value = b) (kind.values e i api) := by
  have henv : ((e.favour b).rowsOf Capability.usr (e.favour b).capabilities i api).map
      Capability.hasEnv = Table.favour (fun value => value = b)
        ((e.rowsOf Capability.usr e.capabilities i api).map Capability.hasEnv) := by
    have hrows : (e.favour b).rowsOf Capability.usr (e.favour b).capabilities i api =
        Table.favour (fun row => row.hasEnv = b) (e.rowsOf Capability.usr e.capabilities i api) :=
      reaching_favour _ _ _
    rw [hrows, ← List.filterMap_eq_map]
    refine filterMap_favour ?_
    rintro row flag h
    obtain rfl := Option.some.inj h
    rfl
  have hnodes : (e.favour b).nodes i api = Table.favour (CallNode.carries b) (e.nodes i api) :=
    reaching_favour _ _ _
  cases kind with
  | uninvoked => exact henv
  | unbalanced => exact henv
  | argumentsMissing =>
    rw [Flagged.values, hnodes]
    exact filterMap_favour fun node flag => CallNode.carries_of_argumentsFlag
  | resultMissing =>
    rw [Flagged.values, hnodes]
    exact filterMap_favour fun node flag => CallNode.carries_of_resultFlag

/-- Evidence in the order that favours a value of the flags reports a finding if some order does, or if
every order does. -/
theorem raises_favour {b : Bool} {kind : Flagged} {name : Text} :
    (e.favour b).Raises kind name ↔ ∃ i api, e.apis[i]? = some api ∧ api.name = name ∧
      kind.Due e i api ∧ (CanLeave false (kind.values e i api) b ↔ b = kind.raised) := by
  have hwritten (i : ℕ) (api : Api) : written false (kind.values (e.favour b) i api) = kind.raised ↔
      (CanLeave false (kind.values e i api) b ↔ b = kind.raised) := by
    rw [values_favour, ← written_favour]
    cases b <;> cases kind.raised <;> simp
  simp only [Raises, (e.reorders_favour b).due_iff, hwritten]
  rfl

end Favour

/-- Steady evidence reports the same findings in every order. -/
theorem Steady.raises_iff {e e' : Evidence} (hsteady : e.Steady) (h : e.Reorders e') (kind : Flagged)
    (name : Text) : e'.Raises kind name ↔ e.Raises kind name := by
  have hself : e.Reorders e := ⟨rfl, .refl _, .refl _⟩
  constructor
  · rintro ⟨i, api, hapi, hname, hdue, hraised⟩
    refine hsteady.raises hself ⟨i, api, h.apis_eq ▸ hapi, hname, (h.due_iff kind i api).mp hdue, ?_⟩
    rw [canLeave_perm (h.values_perm kind i api), ← hraised]
    exact canLeave_written
  · rintro ⟨i, api, hapi, hname, hdue, hraised⟩
    refine hsteady.raises h ⟨i, api, hapi, hname, hdue, ?_⟩
    rw [← hraised]
    exact canLeave_written

/-- Evidence that reports the same findings in the two orders that favour a value of the flags is
steady. -/
theorem steady_of_favour {e : Evidence}
    (h : ∀ b kind name, (e.favour b).Raises kind name ↔ e.Raises kind name) : e.Steady := by
  intro kind i api hapi hdue hcan
  have hraises : (e.favour kind.raised).Raises kind api.name :=
    e.raises_favour.mpr ⟨i, api, hapi, rfl, hdue, by simpa using hcan⟩
  rw [h, ← h (!kind.raised), raises_favour] at hraises
  obtain ⟨j, other, hother, hname, hdue', hmust⟩ := hraises
  exact ⟨j, other, hother, hname, hdue', by simpa using hmust⟩

end Evidence

/-! ### The report -/

section Report

variable {json json' : JsonLibrary} {inputs inputs' : Inputs} {arguments : Arguments}

/-- The findings about a record that do not rest on a flag. -/
def plainFindings (arguments : Arguments) (api : ApiRecord) : List Finding :=
  (if !api.tested then
    [⟨arguments.repo, "public API has no unit-test identity".toList, api.usr⟩] else []) ++
  (if !api.conformanceSeen then
    [⟨arguments.repo, "public API has no generated conformance contract".toList, api.usr⟩] else []) ++
  (if !api.instrumentationSeen then
    [⟨arguments.instrumentation, "public API has no instrumentation identity".toList, api.usr⟩]
    else []) ++
  (if api.faultTest && api.enters = 0 then
    [⟨arguments.model, "fault test emitted no call".toList, api.name⟩] else [])

/-- The finding that rests on a flag, about a name. -/
def Flagged.finding (kind : Flagged) (arguments : Arguments) (name : Text) : Finding :=
  ⟨arguments.model, kind.message, name⟩

/-- What the record of an API holds in its flags. -/
theorem Evidence.flags_record (e : Evidence) (i : ℕ) (api : Api) :
    (e.record i api).traceApplicable = written false (Flagged.uninvoked.values e i api) ∧
      (e.record i api).arguments = written false (Flagged.argumentsMissing.values e i api) ∧
        (e.record i api).result = written false (Flagged.resultMissing.values e i api) := by
  have hany {α : Type} (rows : List α) (flag : α → Bool) :
      rows.getLast?.any flag = written false (rows.map flag) := by
    rw [written, List.getLast?_map]
    cases rows.getLast? <;> rfl
  have hflags (p : CallNode → Bool) (value : CallNode → Option Text) (nodes : List CallNode) :
      ((nodes.filter p).filterMap value).map logged =
        nodes.filterMap fun node => if p node then (value node).map logged else none := by
    rw [List.map_filterMap, List.filterMap_filter]
  refine ⟨hany _ _, (hany _ _).trans ?_, (hany _ _).trans ?_⟩
  · rw [hflags]
    rfl
  · rw [hflags]
    rfl

private theorem mem_lists {α : Type} (finding : α) (a b c d e f g h : List α) :
    finding ∈ a ++ b ++ c ++ d ++ e ++ f ++ g ++ h ↔
      finding ∈ a ++ b ++ c ++ f ∨ finding ∈ d ∨ finding ∈ e ∨ finding ∈ g ∨ finding ∈ h := by
  simp only [List.mem_append]
  grind

private theorem mem_item {α : Type} {c : Prop} [Decidable c] {item finding : α} :
    finding ∈ (if c then [item] else []) ↔ c ∧ finding = item := by
  split <;> simp [*]

/-- The findings about a record: those that do not rest on a flag, and those that do. -/
theorem mem_apiFindings_iff {api : ApiRecord} {finding : Finding} :
    finding ∈ apiFindings arguments api ↔ finding ∈ plainFindings arguments api ∨
      (api.traceApplicable && api.enters = 0) = true ∧
          finding = Flagged.uninvoked.finding arguments api.name ∨
        (api.traceApplicable && api.enters ≠ api.exits) = true ∧
            finding = Flagged.unbalanced.finding arguments api.name ∨
          (api.requireArguments && !api.arguments) = true ∧
              finding = Flagged.argumentsMissing.finding arguments api.name ∨
            (api.requireResult && !api.result) = true ∧
              finding = Flagged.resultMissing.finding arguments api.name := by
  rw [apiFindings, mem_lists, mem_item, mem_item, mem_item, mem_item]
  rfl

private theorem exists_flagged {p : Flagged → Prop} : (∃ kind, p kind) ↔
    p .uninvoked ∨ p .unbalanced ∨ p .argumentsMissing ∨ p .resultMissing := by
  constructor
  · rintro ⟨kind, h⟩
    cases kind
    · exact .inl h
    · exact .inr (.inl h)
    · exact .inr (.inr (.inl h))
    · exact .inr (.inr (.inr h))
  · rintro (h | h | h | h) <;> exact ⟨_, h⟩

/-- The findings about one API, by what the evidence says of it. -/
theorem mem_apiFindings {e : Evidence} {i : ℕ} {api : Api} {finding : Finding} :
    finding ∈ apiFindings arguments (e.record i api) ↔
      finding ∈ plainFindings arguments (e.record i api) ∨ ∃ kind : Flagged, (kind.Due e i api ∧
        written false (kind.values e i api) = kind.raised) ∧
          finding = kind.finding arguments api.name := by
  obtain ⟨htrace, harguments, hresult⟩ := e.flags_record i api
  have huninvoked : ((e.record i api).traceApplicable && (e.record i api).enters = 0) = true ↔
      Flagged.uninvoked.Due e i api ∧ written false (Flagged.uninvoked.values e i api) = true := by
    rw [Bool.and_eq_true, decide_eq_true_eq, htrace, and_comm]
    rfl
  have hunbalanced :
      ((e.record i api).traceApplicable && (e.record i api).enters ≠ (e.record i api).exits) = true ↔
        Flagged.unbalanced.Due e i api ∧
          written false (Flagged.unbalanced.values e i api) = true := by
    rw [Bool.and_eq_true, decide_eq_true_eq, htrace, and_comm]
    rfl
  have hargumentsMissing :
      ((e.record i api).requireArguments && !(e.record i api).arguments) = true ↔
        Flagged.argumentsMissing.Due e i api ∧
          written false (Flagged.argumentsMissing.values e i api) = false := by
    rw [Bool.and_eq_true, Bool.not_eq_true', harguments]
    rfl
  have hresultMissing : ((e.record i api).requireResult && !(e.record i api).result) = true ↔
      Flagged.resultMissing.Due e i api ∧
        written false (Flagged.resultMissing.values e i api) = false := by
    rw [Bool.and_eq_true, Bool.not_eq_true', hresult]
    rfl
  rw [mem_apiFindings_iff, exists_flagged, huninvoked, hunbalanced, hargumentsMissing, hresultMissing]
  rfl

/-- The messages of the findings that do not rest on a flag. -/
def plainMessages : List Text :=
  ["unexpected or duplicate fault outcome".toList, "fault outcome failed".toList,
    "public API has no unit-test identity".toList,
    "public API has no generated conformance contract".toList,
    "public API has no instrumentation identity".toList, "fault test emitted no call".toList,
    "missing direct platform fault outcome".toList]

theorem Flagged.message_notMem (kind : Flagged) : kind.message ∉ plainMessages := by
  cases kind <;> decide

/-- The findings that the evidence reports whatever the flags are. -/
def Evidence.Plain (e : Evidence) (arguments : Arguments) (finding : Finding) : Prop :=
  finding ∈ e.outcomeFindings arguments ∨
    (∃ i api, e.apis[i]? = some api ∧ finding ∈ plainFindings arguments (e.record i api)) ∨
      finding ∈ e.marked.1.flatMap (faultFindings arguments)

theorem Evidence.Plain.ne_finding {e : Evidence} {finding : Finding} (h : e.Plain arguments finding)
    (kind : Flagged) (name : Text) : finding ≠ kind.finding arguments name := by
  have hmessage : finding.message ∈ plainMessages := by
    rcases h with houtcome | ⟨i, api, -, hplain⟩ | hfault
    · rcases message_of_mem_outcomeFindings houtcome with heq | heq <;> rw [heq] <;> decide
    · rw [plainFindings, List.mem_append, List.mem_append, List.mem_append, mem_item, mem_item,
        mem_item, mem_item] at hplain
      rcases hplain with ((⟨-, rfl⟩ | ⟨-, rfl⟩) | ⟨-, rfl⟩) | ⟨-, rfl⟩ <;> dsimp only <;> decide
    · obtain ⟨fault, -, hfault⟩ := List.mem_flatMap.mp hfault
      rw [faultFindings, mem_item] at hfault
      rw [hfault.2]
      dsimp only
      decide
  rintro rfl
  exact kind.message_notMem hmessage

/-- The findings that rest on no flag are the same in another order. -/
theorem Evidence.Reorders.plain_iff {e e' : Evidence} (h : e.Reorders e') {finding : Finding} :
    e'.Plain arguments finding ↔ e.Plain arguments finding := by
  have hrecord (i : ℕ) (api : Api) :
      plainFindings arguments (e'.record i api) = plainFindings arguments (e.record i api) := by
    have htests : e'.rowsOf TestRow.usr e'.tests i api = e.rowsOf TestRow.usr e.tests i api := by
      rw [h.others]
      rfl
    have hcontracts : e'.rowsOf ContractRow.usr e'.contracts i api =
        e.rowsOf ContractRow.usr e.contracts i api := by
      rw [h.others]
      rfl
    have hseen : (e'.rowsOf Capability.usr e'.capabilities i api).getLast?.isSome =
        (e.rowsOf Capability.usr e.capabilities i api).getLast?.isSome := by
      rw [Bool.eq_iff_iff, List.getLast?_isSome, List.getLast?_isSome, ne_eq, ne_eq,
        ← List.length_eq_zero_iff, ← List.length_eq_zero_iff, (h.capabilities_perm i api).length_eq]
    simp only [plainFindings, Evidence.record, htests, hcontracts, hseen, h.enters_eq]
    rfl
  have houtcomes : e'.outcomeFindings arguments = e.outcomeFindings arguments := by
    rw [h.others]
    rfl
  have hmarked : e'.marked = e.marked := by
    rw [h.others]
    rfl
  rw [Evidence.Plain, Evidence.Plain, houtcomes, hmarked, h.apis_eq]
  simp only [hrecord]

/-- What the validation reports of a state that was loaded. -/
theorem mem_findings_iff {s : Session} (h : load json inputs arguments .zero = .ok s)
    {finding : Finding} :
    finding ∈ (validateConformance arguments s).2.state.findings ↔
      (evidence json inputs arguments).Plain arguments finding ∨
        ∃ kind name, (evidence json inputs arguments).Raises kind name ∧
          finding = Flagged.finding kind arguments name := by
  have hmade := (load_ok h).1
  have hfindings : (validateConformance arguments s).2.state.findings =
      (evidence json inputs arguments).outcomeFindings arguments ++
        (evidence json inputs arguments).records.flatMap (apiFindings arguments) ++
          (evidence json inputs arguments).marked.1.flatMap (faultFindings arguments) := by
    rw [← findings_load h, ← hmade.apis_eq, ← hmade.faults_eq]
    rfl
  generalize evidence json inputs arguments = e at hfindings ⊢
  have hrecords : finding ∈ e.records.flatMap (apiFindings arguments) ↔
      (∃ i api, e.apis[i]? = some api ∧ finding ∈ plainFindings arguments (e.record i api)) ∨
        ∃ kind name, e.Raises kind name ∧ finding = Flagged.finding kind arguments name := by
    rw [List.mem_flatMap]
    constructor
    · rintro ⟨record, hrecord, hmem⟩
      obtain ⟨i, hi⟩ := List.mem_iff_getElem?.mp hrecord
      rw [Evidence.getElem?_records, Option.map_eq_some_iff] at hi
      obtain ⟨api, hapi, rfl⟩ := hi
      rcases mem_apiFindings.mp hmem with hplain | ⟨kind, ⟨hdue, hraised⟩, heq⟩
      · exact .inl ⟨i, api, hapi, hplain⟩
      · exact .inr ⟨kind, api.name, ⟨i, api, hapi, rfl, hdue, hraised⟩, heq⟩
    · have hmem {i : ℕ} {api : Api} (hapi : e.apis[i]? = some api) : e.record i api ∈ e.records := by
        refine List.mem_of_getElem? (i := i) ?_
        rw [Evidence.getElem?_records, hapi, Option.map_some]
      rintro (⟨i, api, hapi, hplain⟩ | ⟨kind, name, ⟨i, api, hapi, rfl, hdue, hraised⟩, heq⟩)
      · exact ⟨_, hmem hapi, mem_apiFindings.mpr (.inl hplain)⟩
      · exact ⟨_, hmem hapi, mem_apiFindings.mpr (.inr ⟨kind, ⟨hdue, hraised⟩, heq⟩)⟩
  rw [hfindings, List.mem_append, List.mem_append, hrecords, Evidence.Plain]
  constructor
  · rintro ((houtcome | hplain | hraised) | hfault)
    · exact .inl (.inl houtcome)
    · exact .inl (.inr (.inl hplain))
    · exact .inr hraised
    · exact .inl (.inr (.inr hfault))
  · rintro ((houtcome | hplain | hfault) | hraised)
    · exact .inl (.inl houtcome)
    · exact .inl (.inr (.inl hplain))
    · exact .inr hfault
    · exact .inl (.inr (.inr hraised))

/-- Two runs report the same findings exactly when their evidence raises the same flags, if one is the
other in another order. -/
theorem findings_eq_iff {s s' : Session} (h : load json inputs arguments .zero = .ok s)
    (h' : load json' inputs' arguments .zero = .ok s')
    (hreorders : (evidence json inputs arguments).Reorders (evidence json' inputs' arguments)) :
    (∀ finding, finding ∈ (validateConformance arguments s').2.state.findings ↔
        finding ∈ (validateConformance arguments s).2.state.findings) ↔
      ∀ kind name, (evidence json' inputs' arguments).Raises kind name ↔
        (evidence json inputs arguments).Raises kind name := by
  simp only [mem_findings_iff h, mem_findings_iff h', hreorders.plain_iff]
  generalize evidence json inputs arguments = e, evidence json' inputs' arguments = e'
  constructor
  · intro hsame kind name
    have hraised (e₁ e₂ : Evidence) (hsub : (∃ kind' name', e₁.Raises kind' name' ∧
        kind.finding arguments name = Flagged.finding kind' arguments name')) : e₁.Raises kind name := by
      obtain ⟨kind', name', hraises, heq⟩ := hsub
      rw [Flagged.finding, Flagged.finding, Finding.mk.injEq] at heq
      obtain rfl := Flagged.message_injective heq.2.1
      obtain rfl := heq.2.2
      exact hraises
    have hfinding := hsame (kind.finding arguments name)
    constructor
    · intro hraises
      rcases hfinding.mp (.inr ⟨kind, name, hraises, rfl⟩) with hplain | hsub
      · exact absurd rfl (hplain.ne_finding kind name)
      · exact hraised e e' hsub
    · intro hraises
      rcases hfinding.mpr (.inr ⟨kind, name, hraises, rfl⟩) with hplain | hsub
      · exact absurd rfl (hplain.ne_finding kind name)
      · exact hraised e' e hsub
  · intro hsame finding
    simp only [hsame]

/-- The findings that `validate_conformance` reports, if all evidence loads. -/
def reported (json : JsonLibrary) (inputs : Inputs) (arguments : Arguments) : Option (Set Finding) :=
  match load json inputs arguments .zero with
  | .error _ => none
  | .ok s => some {finding | finding ∈ (validateConformance arguments s).2.state.findings}

/-- The verdict of `validate_conformance`, if all evidence loads. -/
def verdict (json : JsonLibrary) (inputs : Inputs) (arguments : Arguments) : Option Bool :=
  match load json inputs arguments .zero with
  | .error _ => none
  | .ok s => some (validateConformance arguments s).1

/-- **Order independence.** The findings that are reported and the verdict are the same for the function
capabilities and the nodes of the run model in every order. -/
def OrderIndependent (json : JsonLibrary) (inputs : Inputs) (arguments : Arguments) : Prop :=
  ∀ json' inputs', Reorders json inputs json' inputs' →
    reported json' inputs' arguments = reported json inputs arguments ∧
      verdict json' inputs' arguments = verdict json inputs arguments

theorem reported_of_load {s : Session} (h : load json inputs arguments .zero = .ok s) :
    reported json inputs arguments =
      some {finding | finding ∈ (validateConformance arguments s).2.state.findings} := by
  rw [reported, h]

/-- What is reported in another order is the same exactly when the same flags are raised. -/
theorem reported_eq_iff {s : Session} (h : load json inputs arguments .zero = .ok s)
    (hreorders : Reorders json inputs json' inputs') :
    reported json' inputs' arguments = reported json inputs arguments ↔
      ∀ kind name, (evidence json' inputs' arguments).Raises kind name ↔
        (evidence json inputs arguments).Raises kind name := by
  obtain ⟨s', h'⟩ := hreorders.load ⟨s, h⟩
  rw [reported_of_load h, reported_of_load h', Option.some.injEq, Set.ext_iff,
    ← findings_eq_iff h h' hreorders.evidence]
  rfl

/-- The verdict is that nothing is reported. -/
theorem verdict_of_reported (h : reported json' inputs' arguments = reported json inputs arguments) :
    verdict json' inputs' arguments = verdict json inputs arguments := by
  have hempty (s : Session) : (validateConformance arguments s).1 = true ↔
      {finding | finding ∈ (validateConformance arguments s).2.state.findings} = ∅ := by
    rw [Set.eq_empty_iff_forall_notMem]
    exact List.isEmpty_iff.trans List.eq_nil_iff_forall_not_mem
  unfold reported at h
  unfold verdict
  cases hload : load json inputs arguments .zero with
  | error s =>
    cases hload' : load json' inputs' arguments .zero with
    | error s' => rfl
    | ok s' =>
      rw [hload, hload'] at h
      cases h
  | ok s =>
    cases hload' : load json' inputs' arguments .zero with
    | error s' =>
      rw [hload, hload'] at h
      cases h
    | ok s' =>
      rw [hload, hload'] at h
      dsimp only
      rw [Option.some.injEq, Bool.eq_iff_iff, hempty, hempty, Option.some.inj h]

/-- Rows that are lifted by the flags they write. -/
def liftsFlag (library : Text) (b : Bool) (document : json.Document) (row : json.Token) : Bool :=
  if (view document (json.root document)).text "schema".toList maxName =
      some "p101-run-model-v1".toList then
    (callOf document row).any (CallNode.carries b)
  else (capabilityOf library document row).any fun capability => capability.hasEnv = b

theorem evidence_lifting {s : Session} (h : load json inputs arguments .zero = .ok s) (b : Bool) :
    evidence (json.lifting (liftsFlag arguments.library b)) inputs arguments =
      (evidence json inputs arguments).favour b := by
  obtain ⟨s₁, -, h⟩ := bind_ok h
  obtain ⟨s₂, -, h⟩ := bind_ok h
  obtain ⟨s₃, -, h⟩ := bind_ok h
  obtain ⟨s₄, -, h⟩ := bind_ok h
  obtain ⟨s₅, h₅, h⟩ := bind_ok h
  obtain ⟨s₆, h₆, -⟩ := bind_ok h
  obtain ⟨receipt, hreceipt, hreceiptLoads⟩ := loadInstrumentation_ok_iff.mp ⟨s₅, h₅⟩
  obtain ⟨model, hmodel, hmodelLoads⟩ := loadModel_ok_iff.mp ⟨s₆, h₆⟩
  have hcapabilities : rootRows (json.lifting (liftsFlag arguments.library b)) inputs.instrumentation
      "function_capabilities".toList (capabilityOf arguments.library) =
        ((evidence json inputs arguments).favour b).capabilities := by
    refine rootRows_lifting hreceipt fun row capability hrow => ?_
    have hrow : @capabilityOf json arguments.library receipt row = some capability := hrow
    rw [liftsFlag, hreceiptLoads.schema, if_neg (by decide), hrow]
    rfl
  have hcalls : rootRows (json.lifting (liftsFlag arguments.library b)) inputs.model "nodes".toList
      callOf = ((evidence json inputs arguments).favour b).calls := by
    refine rootRows_lifting hmodel fun row node hrow => ?_
    have hrow : @callOf json model row = some node := hrow
    rw [liftsFlag, hmodelLoads.schema, if_pos rfl, hrow]
    rfl
  unfold evidence
  rw [hcapabilities, hcalls]
  rfl

/-- **The order of the evidence.** A run is independent of the order of its evidence exactly when the
evidence is steady, if it loads at all. -/
theorem orderIndependent_iff : OrderIndependent json inputs arguments ↔
    ∀ s, load json inputs arguments .zero = .ok s → (evidence json inputs arguments).Steady := by
  constructor
  · intro hindependent s h
    refine Evidence.steady_of_favour fun b kind name => ?_
    rw [← evidence_lifting h b]
    exact (reported_eq_iff h reorders_lifting).mp (hindependent _ _ reorders_lifting).1 kind name
  · intro hsteady json' inputs' hreorders
    have hreported : reported json' inputs' arguments = reported json inputs arguments := by
      cases h : load json inputs arguments .zero with
      | ok s =>
        exact (reported_eq_iff h hreorders).mpr ((hsteady s h).raises_iff hreorders.evidence)
      | error e =>
        have hfails : reported json inputs arguments = none := by rw [reported, h]
        rw [hfails, reported]
        cases h' : load json' inputs' arguments .zero with
        | error e' => rfl
        | ok s' =>
          obtain ⟨s, hs⟩ := hreorders.symm.load ⟨s', h'⟩
          rw [h] at hs
          cases hs
    exact ⟨hreported, verdict_of_reported hreported⟩

end Report

/-! ### Two calls in two orders -/

/-- The text of a call of `read`. -/
def callText (kind member value : Text) : Text :=
  "\x7b\"domain\":\"call\",\"name\":\"read\",\"kind\":\"".toList ++ kind ++ "\",\"".toList ++ member ++
    "\":\"".toList ++ value ++ "\"\x7d".toList

/-- The value of a call of `read`. -/
def callValue (kind member value : Text) : Json.Value :=
  .object [("domain".toList, .string "call".toList), ("name".toList, .string "read".toList),
    ("kind".toList, .string kind), (member, .string value)]

/-- A run model with two calls, which log different arguments. -/
def twoCalls (first second : Text) : Text :=
  "\x7b\"schema\":\"p101-run-model-v1\",\"nodes\":[".toList ++
    callText "call-enter".toList "arguments".toList first ++ ",".toList ++
      callText "call-enter".toList "arguments".toList second ++ ",".toList ++
        callText "call-exit".toList "result".toList "0".toList ++ ",".toList ++
          callText "call-exit".toList "result".toList "0".toList ++ "]\x7d".toList

/-- What that run model says. -/
def twoCallsValue (first second : Text) : Json.Value :=
  .object [("schema".toList, .string "p101-run-model-v1".toList),
    ("nodes".toList, .array [callValue "call-enter".toList "arguments".toList first,
      callValue "call-enter".toList "arguments".toList second,
      callValue "call-exit".toList "result".toList "0".toList,
      callValue "call-exit".toList "result".toList "0".toList])]

/-- The inputs of a run with that run model. -/
def twoCallsInputs (first second : Text) : Inputs :=
  { smallRun with model := ⟨twoCalls first second, none⟩ }

theorem readJsonFile_whole {json : JsonLibrary} {content : Text} {document : json.Document}
    (hlength : content.length ≤ maxJson) (hparse : json.parse content = some document) :
    readJsonFile json ⟨content, none⟩ = some document := by
  unfold readJsonFile
  dsimp only
  rw [if_neg (Nat.not_lt.mpr hlength), hparse]

/-- That run model reads as its value. -/
def ReadsTwoCalls (first second : Text) : Prop :=
  @readJsonFile valueLibrary ⟨twoCalls first second, none⟩ = some (twoCallsValue first second)

theorem documentReorders_twoCalls (first second : Text) :
    @DocumentReorders valueLibrary valueLibrary "nodes".toList (twoCallsValue first second)
      (twoCallsValue second first) where
  members other hother := by
    have hget : (twoCallsValue second first).get other = (twoCallsValue first second).get other := by
      rw [twoCallsValue, twoCallsValue, Json.Value.get, Json.Value.get, List.lookup_cons,
        List.lookup_cons, List.lookup_cons, List.lookup_cons, beq_false_of_ne hother]
    exact congrArg (Option.map _) hget
  rows := .some (.swap _ _ _)

theorem reorders_twoCalls {first second : Text} (h : ReadsTwoCalls first second)
    (h' : ReadsTwoCalls second first) :
    Reorders valueLibrary (twoCallsInputs first second) valueLibrary
      (twoCallsInputs second first) where
  others := rfl
  instrumentation := by
    have hself (read : Option valueLibrary.Document) :
        Option.Rel (DocumentReorders "function_capabilities".toList) read read := by
      cases read with
      | none => exact .none
      | some document => exact .some .refl
    exact hself _
  model := by
    have hmodels : Option.Rel (DocumentReorders "nodes".toList)
        (readJsonFile valueLibrary ⟨twoCalls first second, none⟩)
        (readJsonFile valueLibrary ⟨twoCalls second first, none⟩) := by
      rw [h, h']
      exact .some (documentReorders_twoCalls first second)
    exact hmodels

private theorem reads_twoCalls : ReadsTwoCalls "3".toList "-".toList ∧
    ReadsTwoCalls "-".toList "3".toList :=
  ⟨readJsonFile_whole (by decide +kernel) (Json.parse_of_same (by decide +kernel)),
    readJsonFile_whole (by decide +kernel) (Json.parse_of_same (by decide +kernel))⟩

private theorem verdict_twoCalls :
    verdict valueLibrary (twoCallsInputs "-".toList "3".toList) smallArguments ≠
      verdict valueLibrary (twoCallsInputs "3".toList "-".toList) smallArguments := by
  decide +kernel

/-- Two calls of which one logs its arguments: the check passes if that one is last, and not in the
order at hand. -/
theorem not_orderIndependent :
    ¬OrderIndependent valueLibrary (twoCallsInputs "3".toList "-".toList) smallArguments := by
  intro h
  exact verdict_twoCalls (h _ _ (reorders_twoCalls reads_twoCalls.1 reads_twoCalls.2)).2

end P101Test.Conformance
