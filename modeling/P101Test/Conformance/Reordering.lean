import P101Test.Conformance.Views

/-!
# Runs on evidence in another order

Two runs whose documents have the same rows in another order load together or fail together. The findings
about the outcomes are the same in both, since they depend on the expected faults and the outcomes alone.

## Main definitions

* `DocumentReorders`, `Reorders`: the same rows in another order.
* `Evidence.Reorders`: the same for evidence.
* `Evidence.outcomeFindings`: the findings about the outcomes.
* `JsonLibrary.lifting`: the library that reads some rows of every array behind the others.

## Main results

* `Reorders.load`, `Reorders.evidence`: what another order does to a run.
* `findings_load`: what loading finds.
* `reorders_lifting`: lifting rows is another order.
-/

namespace P101Test.Conformance

open Stdio Table

variable {json json' : JsonLibrary} {inputs inputs' : Inputs} {arguments : Arguments} {s s' t : Session}

/-! ### Outcomes -/

/-- Two sessions expect the same faults and have found the same. -/
structure Session.Agrees (s t : Session) : Prop where
  faults_eq : s.state.faults = t.state.faults
  findings_eq : s.state.findings = t.state.findings

/-- An outcome looks at the expected faults and adds to the findings, and does no more. -/
theorem Session.Agrees.outcomeRow (h : s.Agrees t) (row : OutcomeRow) :
    (outcomeRow arguments row s).Agrees (outcomeRow arguments row t) := by
  have hfind : findFault row.key s = findFault row.key t := by rw [findFault, findFault, h.faults_eq]
  have hadd (path message identity : Text) :
      (addFinding path message identity s).Agrees (addFinding path message identity t) :=
    ⟨h.faults_eq, congrArg (fun found => found ++ [Finding.mk path message identity]) h.findings_eq⟩
  have hobserve {s t : Session} (h : s.Agrees t) : (observeFault row.key s).Agrees
      (observeFault row.key t) :=
    ⟨congrArg (modifyFirst (fun fault : ExpectedFault => fault.key = row.key)
      ExpectedFault.observe) h.faults_eq,
      h.findings_eq⟩
  rw [Conformance.outcomeRow, Conformance.outcomeRow, hfind]
  cases findFault row.key t with
  | none => exact hadd _ _ _
  | some fault =>
    dsimp only
    split
    · exact hadd _ _ _
    · split
      · exact hobserve (hadd _ _ _)
      · exact hobserve h

theorem simulates_agrees : Simulates Session.Agrees outcomeOf
    (fun t row => outcomeRow arguments row t) (outcomeStep arguments) := by
  intro s t line s' hs h
  unfold outcomeStep at h
  split at h
  · next hfields =>
    split at h
    · cases h
    · obtain rfl := Except.ok.inj h
      rw [outcomeOf, hfields]
      exact hs.outcomeRow _
  · cases h

/-- Whether a line of the outcomes is accepted does not depend on what was loaded. -/
theorem outcomeStep_ok_iff (s t : Session) (line : Text) :
    (∃ s', outcomeStep arguments s line = .ok s') ↔ ∃ t', outcomeStep arguments t line = .ok t' := by
  unfold outcomeStep
  split
  · split <;> simp
  · simp

/-- A table loads exactly when it is opened and closed and its loop ends well. -/
theorem readTable_ok_iff {stream : Stream} {header : Bool} {step : Session → Text → Loading} :
    (∃ s', readTable stream header step s = .ok s') ↔ stream.opens = true ∧ stream.closes = true ∧
      ∃ s', (deliveredRows stream header).foldlM step s = .ok s' := by
  unfold readTable
  cases hopens : stream.opens with
  | false => simp
  | true =>
    rw [if_neg (by decide)]
    cases (deliveredRows stream header).foldlM step s with
    | error e => simp
    | ok next =>
      unfold endOfTable
      cases hcloses : stream.closes <;> simp

theorem loadOutcomes_ok_iff (s t : Session) :
    (∃ s', loadOutcomes inputs arguments s = .ok s') ↔
      ∃ t', loadOutcomes inputs arguments t = .ok t' := by
  have hloop (s t : Session) :
      (∃ s', (deliveredRows inputs.outcomes false).foldlM (outcomeStep arguments) s = .ok s') ↔
        ∀ line ∈ deliveredRows inputs.outcomes false,
          ∃ t', outcomeStep arguments t line = .ok t' :=
    @foldlM_ok_iff _ _ _ _ (fun _ => True) _ (fun s line _ => outcomeStep_ok_iff s t line)
      (fun _ _ _ _ _ => trivial) _ s trivial
  rw [loadOutcomes, readTable_ok_iff, readTable_ok_iff, hloop s t, hloop t t]

/-- The findings about the outcomes. -/
def Evidence.outcomeFindings (e : Evidence) (arguments : Arguments) : List Finding :=
  (e.outcomes.foldl (fun s row => outcomeRow arguments row s)
    ⟨⟨[], e.expected.map FaultKey.unobserved, 0, []⟩, none, 0⟩).state.findings

/-- What loading finds is what it finds about the outcomes. -/
theorem findings_load (h : load json inputs arguments .zero = .ok s) :
    s.state.findings = (evidence json inputs arguments).outcomeFindings arguments := by
  obtain ⟨before, hbefore, h⟩ := load_before_outcomes h
  have hstart : before.Agrees
      ⟨⟨[], (evidence json inputs arguments).expected.map FaultKey.unobserved, 0, []⟩, none, 0⟩ := by
    constructor <;> rw [hbefore.state_eq]
  obtain ⟨next, hnext, rfl⟩ := readTable_ok simulates_agrees hstart h
  rw [state_endOfRows, hnext.findings_eq]
  rfl

/-- The messages of the findings about the outcomes. -/
theorem message_of_mem_outcomeFindings {e : Evidence} {finding : Finding}
    (h : finding ∈ e.outcomeFindings arguments) :
    finding.message = "unexpected or duplicate fault outcome".toList ∨
      finding.message = "fault outcome failed".toList := by
  let fine (s : Session) : Prop := ∀ finding ∈ s.state.findings,
    finding.message = "unexpected or duplicate fault outcome".toList ∨
      finding.message = "fault outcome failed".toList
  have hrow (s : Session) (row : OutcomeRow) (hs : fine s) : fine (outcomeRow arguments row s) := by
    have hadd {path message identity : Text}
        (hmessage : message = "unexpected or duplicate fault outcome".toList ∨
          message = "fault outcome failed".toList) : fine (addFinding path message identity s) := by
      intro finding hmem
      rcases List.mem_append.mp hmem with hold | hnew
      · exact hs finding hold
      · obtain rfl := List.mem_singleton.mp hnew
        exact hmessage
    unfold outcomeRow
    split
    · exact hadd (.inl rfl)
    · split
      · exact hadd (.inl rfl)
      · split
        · exact hadd (.inr rfl)
        · exact hs
  have hall : ∀ (rows : List OutcomeRow) (s : Session), fine s →
      fine (rows.foldl (fun s row => outcomeRow arguments row s) s) := by
    intro rows
    induction rows with
    | nil => exact fun _ hs => hs
    | cons row rest ih => exact fun s hs => ih _ (hrow s row hs)
  exact hall e.outcomes _ (fun _ hmem => absurd hmem List.not_mem_nil) finding h

/-! ### Another order -/

/-- Two documents have the same members, but for one, which in both is an array or in neither, and an
array of the same rows in some order. -/
structure DocumentReorders (key : Text) (document : json.Document) (document' : json'.Document) :
    Prop where
  members : ∀ other ≠ key, view document' (json'.root document') other =
    view document (json.root document) other
  rows : Option.Rel List.Perm (rootViews document key) (rootViews document' key)

/-- **Another order.** The inputs of two runs are the same but for the instrumentation receipts and the
run models: of these, both or neither can be read, and they differ in the order of the function
capabilities and of the nodes. -/
structure Reorders (json : JsonLibrary) (inputs : Inputs) (json' : JsonLibrary) (inputs' : Inputs) :
    Prop where
  others : inputs' =
    { inputs with instrumentation := inputs'.instrumentation, model := inputs'.model }
  instrumentation : Option.Rel (DocumentReorders "function_capabilities".toList)
    (readJsonFile json inputs.instrumentation) (readJsonFile json' inputs'.instrumentation)
  model : Option.Rel (DocumentReorders "nodes".toList)
    (readJsonFile json inputs.model) (readJsonFile json' inputs'.model)

/-- Evidence with the same function capabilities and calls in another order. -/
structure Evidence.Reorders (e e' : Evidence) : Prop where
  others : e' = { e with capabilities := e'.capabilities, calls := e'.calls }
  capabilities : e.capabilities.Perm e'.capabilities
  calls : e.calls.Perm e'.calls

private theorem rel_symm {α β : Type} {r : α → β → Prop} {r' : β → α → Prop}
    (h : ∀ a b, r a b → r' b a) {a : Option α} {b : Option β} (hrel : Option.Rel r a b) :
    Option.Rel r' b a := by
  cases hrel with
  | some hab => exact .some (h _ _ hab)
  | none => exact .none

theorem DocumentReorders.refl {key : Text} {document : json.Document} :
    DocumentReorders key document document where
  members _ _ := rfl
  rows := by
    cases rootViews document key with
    | none => exact .none
    | some rows => exact .some (.refl rows)

theorem DocumentReorders.symm {key : Text} {document : json.Document} {document' : json'.Document}
    (h : DocumentReorders key document document') : DocumentReorders key document' document where
  members other hother := (h.members other hother).symm
  rows := rel_symm (fun _ _ => List.Perm.symm) h.rows

theorem Reorders.symm (h : Reorders json inputs json' inputs') :
    Reorders json' inputs' json inputs where
  others := by rw [h.others]
  instrumentation := rel_symm (fun _ _ => DocumentReorders.symm) h.instrumentation
  model := rel_symm (fun _ _ => DocumentReorders.symm) h.model

/-- Members of the root that are not reordered have the same texts and truth values. -/
theorem DocumentReorders.text_eq {key : Text} {document : json.Document} {document' : json'.Document}
    (h : DocumentReorders key document document') {other : Text} (hother : other ≠ key) (size : ℕ) :
    (view document' (json'.root document')).text other size =
      (view document (json.root document)).text other size := by
  rw [View.text, View.text, h.members other hother]

theorem DocumentReorders.boolean_eq {key : Text} {document : json.Document}
    {document' : json'.Document} (h : DocumentReorders key document document') {other : Text}
    (hother : other ≠ key) : (view document' (json'.root document')).boolean other =
      (view document (json.root document)).boolean other := by
  rw [View.boolean, View.boolean, h.members other hother]

/-- The rows of a reordered array all load if those of the array do. -/
theorem DocumentReorders.rows_load {key : Text} {document : json.Document}
    {document' : json'.Document} (h : DocumentReorders key document document') {loads : View → Prop}
    (hrows : ∃ rows, rootViews document key = some rows ∧
      ∀ entry ∈ rows, ∃ v, entry = some v ∧ loads v) :
    ∃ rows, rootViews document' key = some rows ∧ ∀ entry ∈ rows, ∃ v, entry = some v ∧ loads v := by
  obtain ⟨rows, heq, hall⟩ := hrows
  have hrel := h.rows
  rw [heq] at hrel
  generalize rootViews document' key = views at hrel ⊢
  cases hrel with
  | some hperm => exact ⟨_, rfl, fun entry hentry => hall entry (hperm.mem_iff.mpr hentry)⟩

theorem loadInstrumentation_reorders (h : Reorders json inputs json' inputs')
    (hload : ∃ s', loadInstrumentation json inputs arguments s = .ok s') :
    ∃ s', loadInstrumentation json' inputs' arguments s = .ok s' := by
  rw [loadInstrumentation_ok_iff] at hload ⊢
  obtain ⟨document, hread, hloads⟩ := hload
  have hrel := h.instrumentation
  rw [hread] at hrel
  generalize readJsonFile json' inputs'.instrumentation = read' at hrel ⊢
  cases hrel with
  | some hdocument =>
    refine ⟨_, rfl, ?_, ?_, hdocument.rows_load hloads.rows⟩
    · rw [hdocument.text_eq (by decide)]
      exact hloads.schema
    · rw [hdocument.boolean_eq (by decide)]
      exact hloads.passed

theorem loadModel_reorders (h : Reorders json inputs json' inputs') (s t : Session)
    (hload : ∃ s', loadModel json inputs s = .ok s') : ∃ t', loadModel json' inputs' t = .ok t' := by
  rw [loadModel_ok_iff] at hload ⊢
  obtain ⟨document, hread, hloads⟩ := hload
  have hrel := h.model
  rw [hread] at hrel
  generalize readJsonFile json' inputs'.model = read' at hrel ⊢
  cases hrel with
  | some hdocument =>
    refine ⟨_, rfl, ?_, hdocument.rows_load hloads.rows⟩
    rw [hdocument.text_eq (by decide)]
    exact hloads.schema

/-- Inputs in another order load if the inputs do. -/
theorem Reorders.load (h : Reorders json inputs json' inputs')
    (hload : ∃ s, load json inputs arguments .zero = .ok s) :
    ∃ s', Conformance.load json' inputs' arguments .zero = .ok s' := by
  obtain ⟨s, hload⟩ := hload
  obtain ⟨s₁, h₁, hload⟩ := bind_ok hload
  obtain ⟨s₂, h₂, hload⟩ := bind_ok hload
  obtain ⟨s₃, h₃, hload⟩ := bind_ok hload
  obtain ⟨s₄, h₄, hload⟩ := bind_ok hload
  obtain ⟨s₅, h₅, hload⟩ := bind_ok hload
  obtain ⟨s₆, h₆, hload⟩ := bind_ok hload
  obtain ⟨t₅, ht₅⟩ := loadInstrumentation_reorders h ⟨s₅, h₅⟩
  obtain ⟨t₆, ht₆⟩ := loadModel_reorders h s₅ t₅ ⟨s₆, h₆⟩
  obtain ⟨t, ht⟩ := (loadOutcomes_ok_iff s₆ t₆).mp ⟨s, hload⟩
  refine ⟨t, ?_⟩
  have hthen {run : Loading} {f : Session → Loading} {s : Session} (hrun : run = .ok s) :
      (run >>= f) = f s := by
    rw [hrun]
    rfl
  rw [h.others] at ht₅ ht₆ ⊢
  exact (hthen h₁).trans ((hthen h₂).trans ((hthen h₃).trans ((hthen h₄).trans
    ((hthen ht₅).trans ((hthen ht₆).trans ht)))))

/-- The rows that are read from reordered documents. -/
theorem rootRows_perm {ρ : Type} {key : Text} {file file' : WholeFile} {see : View → Option ρ}
    {read : (document : json.Document) → json.Token → Option ρ}
    {read' : (document : json'.Document) → json'.Token → Option ρ}
    (hread : ∀ document row, see (view document row) = read document row)
    (hread' : ∀ document row, see (view document row) = read' document row)
    (h : Option.Rel (DocumentReorders key) (readJsonFile json file) (readJsonFile json' file')) :
    (rootRows json file key read).Perm (rootRows json' file' key read') := by
  rw [rootRows, rootRows]
  generalize readJsonFile json file = document, readJsonFile json' file' = document' at h
  cases h with
  | none => exact .nil
  | some hdocument =>
    next document document' =>
    have hrows := hdocument.rows
    rw [rootViews, rootViews] at hrows
    dsimp only
    generalize rootArray document key = array, rootArray document' key = array' at hrows
    cases array with
    | none =>
      cases array' with
      | none => exact .nil
      | some array' => cases hrows
    | some array =>
      cases array' with
      | none => cases hrows
      | some array' =>
        cases hrows with
        | some hperm =>
          dsimp only
          rw [filterMap_arrayRows document array (hread document),
            filterMap_arrayRows document' array' (hread' document')]
          exact hperm.filterMap _

/-- The evidence of inputs in another order is the evidence in another order. -/
theorem Reorders.evidence (h : Reorders json inputs json' inputs') :
    (evidence json inputs arguments).Reorders (evidence json' inputs' arguments) where
  others := by
    rw [h.others]
    rfl
  capabilities := rootRows_perm (fun document row => capability_view document row arguments.library)
    (fun document row => capability_view document row arguments.library) h.instrumentation
  calls := rootRows_perm (fun document row => call_view document row)
    (fun document row => call_view document row) h.model

/-! ### Lifting rows -/

/-- The library that reads the rows of every array in another order: some behind the others. -/
def JsonLibrary.lifting (json : JsonLibrary) (lifts : (document : json.Document) → json.Token → Bool) :
    JsonLibrary :=
  { json with
    arrayGet := fun document array index =>
      ((favour (fun entry => entry.any (lifts document)) (arrayEntries document array))[index]?).join }

section Lifting

variable {lifts : (document : json.Document) → json.Token → Bool}

theorem arrayEntries_lifting (document : json.Document) (array : json.Token) :
    @arrayEntries (json.lifting lifts) document array =
      favour (fun entry => entry.any (lifts document)) (arrayEntries document array) := by
  generalize hentries : favour (fun entry => entry.any (lifts document))
    (arrayEntries document array) = entries
  have hlength : json.childCount document array = entries.length := by
    rw [← hentries, favour_perm.length_eq, arrayEntries, List.length_map, List.length_range]
  have hget : @arrayEntries (json.lifting lifts) document array =
      (List.range entries.length).map fun index => (entries[index]?).join := by
    rw [← hlength, ← hentries]
    rfl
  rw [hget]
  refine List.ext_getElem (by simp) fun i _ hi => ?_
  rw [List.getElem_map, List.getElem_range, List.getElem?_eq_getElem hi]
  rfl

theorem arrayRows_lifting (document : json.Document) (array : json.Token) :
    @arrayRows (json.lifting lifts) document array =
      favour (lifts document) (arrayRows document array) := by
  have hrows := @arrayRows_eq (json.lifting lifts) document array
  refine hrows.trans ?_
  refine (congrArg (List.filterMap id) (arrayEntries_lifting document array)).trans ?_
  rw [arrayRows_eq]
  refine filterMap_favour ?_
  rintro entry row rfl
  rfl

/-- Lifting rows is reading the documents in another order. -/
theorem reorders_lifting : Reorders json inputs (json.lifting lifts) inputs := by
  have hdocument (key : Text) (document : json.Document) :
      @DocumentReorders json (json.lifting lifts) key document document := by
    refine ⟨fun _ _ => rfl, ?_⟩
    change Option.Rel List.Perm ((rootArray document key).map (arrayViews document))
      ((rootArray document key).map (@arrayViews (json.lifting lifts) document))
    cases rootArray document key with
    | none => exact .none
    | some array =>
      have hentries := @arrayEntries_lifting json lifts document array
      exact .some ((hentries ▸ favour_perm.symm).map _)
  have hrel (key : Text) (read : Option json.Document) :
      Option.Rel (@DocumentReorders json (json.lifting lifts) key) read read := by
    cases read with
    | none => exact .none
    | some document => exact .some (hdocument key document)
  exact ⟨rfl, hrel _ _, hrel _ _⟩

/-- The rows that are read with rows lifted. -/
theorem rootRows_lifting {ρ : Type} {key : Text} {file : WholeFile} {document : json.Document}
    {read : (document : json.Document) → json.Token → Option ρ} {p : ρ → Bool}
    (hread : readJsonFile json file = some document)
    (hlifts : ∀ row record, read document row = some record → lifts document row = p record) :
    rootRows (json.lifting lifts) file key read = favour p (rootRows json file key read) := by
  have hread' : readJsonFile (json.lifting lifts) file = some document := hread
  have harray : @rootArray (json.lifting lifts) document key = rootArray document key := rfl
  unfold rootRows
  rw [hread, hread']
  dsimp only
  rw [harray]
  cases rootArray document key with
  | none => rfl
  | some array =>
    have hrows := @arrayRows_lifting json lifts document array
    exact (congrArg (List.filterMap (read document)) hrows).trans (filterMap_favour hlifts)

end Lifting

end P101Test.Conformance
