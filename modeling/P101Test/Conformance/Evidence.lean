import P101Test.Conformance.Loaders
import P101Test.Table.Rows

/-!
# The evidence

What the inputs of the conformance check say, row by row and without the records that the loaders keep:
lists of APIs, tests, contracts, expected faults, capabilities, calls and outcomes. A load that succeeds
has applied all of them to the records, in order.

## Main definitions

* `Evidence`: the lists.
* `evidence`: the evidence in the inputs of a run.
* `Evidence.records`, `Evidence.marked`: what the evidence makes of the APIs and the expected faults.
* `Evidence.Makes`: a state is the one that the evidence makes.

## Main results

* `load_ok`: a load that succeeds leaves the state that the evidence makes.
-/

namespace P101Test.Conformance

open Stdio Table

variable {json : JsonLibrary} {inputs : Inputs} {arguments : Arguments} {s s' : Session}

/-! ### Rows -/

/-- What a line of the API manifest says. -/
structure Api where
  name : Text
  usr : Text
  deriving DecidableEq, Repr

/-- The record of an API that nothing is known about. -/
def Api.record (api : Api) : ApiRecord := .new api.name api.usr

/-- A row of the API manifest. -/
def apiOf (line : Text) : Option Api :=
  match splitFields 5 (cString line) with
  | [name, usr, _, _, _] => some ⟨name, usr⟩
  | _ => none

/-- A row of the unit-test manifest. -/
def testOf (line : Text) : Option TestRow :=
  match splitFields 4 (cString line) with
  | [_, usr, kind, _] => some ⟨usr, kind⟩
  | _ => none

/-- A row of the conformance manifest. -/
def contractOf (line : Text) : Option ContractRow :=
  match splitFields 4 (cString line) with
  | [_, usr, arguments, result] =>
    some ⟨usr, arguments = "true".toList, result = "true".toList⟩
  | _ => none

/-- A symbol in a row of the fault manifest: the fault it stands for, and whether that fault is expected
only where the macro is present. -/
structure Candidate where
  key : FaultKey
  conditional : Bool
  deriving DecidableEq, Repr

/-- The symbols in a row of the fault manifest, in the columns of a platform. -/
def candidatesOf (columns : ℕ × ℕ) (line : Text) : List Candidate :=
  let fields := splitFields 11 (cString line)
  (listItems (fields.getD columns.1 [])).map fun symbol =>
    ⟨⟨fields.getD 0 [], fields.getD 2 [], symbol⟩, listContains (fields.getD columns.2 []) symbol⟩

/-- The state of the search for expected faults: those found, the number of macro lookups, and whether
one of these has recorded an error. -/
structure Search where
  found : List FaultKey
  lookups : ℕ
  failed : Bool
  deriving DecidableEq, Repr

/-- One more candidate: it is expected, unless its macro is looked up and not present. -/
def Search.take (inputs : Inputs) (search : Search) (candidate : Candidate) : Search :=
  if candidate.conditional then
    let answer := macroPresent inputs candidate.key.symbol ⟨.zero, none, search.lookups⟩
    { found := if answer.1 then search.found ++ [candidate.key] else search.found
      lookups := answer.2.lookups
      failed := search.failed || answer.2.hasError }
  else { search with found := search.found ++ [candidate.key] }

/-- The rows of an array. -/
def arrayRows (document : json.Document) (array : json.Token) : List json.Token :=
  (List.range (json.childCount document array)).filterMap (json.arrayGet document array)

/-- A row of the function capabilities that is about a library. -/
def capabilityOf (library : Text) (document : json.Document) (row : json.Token) :
    Option Capability :=
  if optionalText document row "library".toList maxName = some library then
    (optionalText document row "usr".toList maxUsr).bind fun usr =>
      (tokenBoolean document row "has_env".toList).map fun hasEnv => ⟨usr, hasEnv⟩
  else none

/-- A row of the run model that is a call node. -/
def callOf (document : json.Document) (row : json.Token) : Option CallNode :=
  if optionalText document row "domain".toList maxName = some "call".toList then
    (optionalText document row "name".toList maxName).bind fun name =>
      (optionalText document row "kind".toList maxName).map fun kind =>
        ⟨name, kind, optionalText document row "arguments".toList maxLine,
          optionalText document row "result".toList maxLine⟩
  else none

/-- An outcome. -/
def outcomeOf (line : Text) : Option OutcomeRow :=
  match splitFields 10 (cString line) with
  | [_, _, _, _, _, wrapper, domain, symbol, _, status] => some ⟨⟨wrapper, domain, symbol⟩, status⟩
  | _ => none

/-! ### Evidence -/

/-- The evidence of a run. -/
structure Evidence where
  apis : List Api
  tests : List TestRow
  contracts : List ContractRow
  expected : List FaultKey
  capabilities : List Capability
  calls : List CallNode
  outcomes : List OutcomeRow
  deriving DecidableEq, Repr

/-- The symbols of the fault manifest for the platform of a run. -/
def candidates (inputs : Inputs) (arguments : Arguments) : List Candidate :=
  match platformColumns arguments.platform with
  | none => []
  | some columns => (deliveredRows inputs.faultManifest true).flatMap (candidatesOf columns)

/-- The search through these symbols. -/
def search (inputs : Inputs) (arguments : Arguments) : Search :=
  (candidates inputs arguments).foldl (Search.take inputs) ⟨[], 0, false⟩

/-- The rows of an array that is a member of the root of a document. -/
def rootRows (json : JsonLibrary) (file : WholeFile) (key : Text)
    {ρ : Type} (read : (document : json.Document) → json.Token → Option ρ) : List ρ :=
  match readJsonFile json file with
  | none => []
  | some document =>
    match rootArray document key with
    | none => []
    | some array => (arrayRows document array).filterMap (read document)

/-- The evidence in the inputs of a run. -/
def evidence (json : JsonLibrary) (inputs : Inputs) (arguments : Arguments) : Evidence where
  apis := (deliveredRows inputs.apiManifest true).filterMap apiOf
  tests := (deliveredRows inputs.testManifest true).filterMap testOf
  contracts := (deliveredRows inputs.conformanceManifest true).filterMap contractOf
  expected := (search inputs arguments).found
  capabilities :=
    rootRows json inputs.instrumentation "function_capabilities".toList
      (capabilityOf arguments.library)
  calls := rootRows json inputs.model "nodes".toList callOf
  outcomes := (deliveredRows inputs.outcomes false).filterMap outcomeOf

/-- The records the evidence makes of the APIs. -/
def Evidence.records (e : Evidence) : List ApiRecord :=
  updateAll ApiRecord.name CallNode.name CallNode.update e.calls <|
    updateAll ApiRecord.usr Capability.usr Capability.update e.capabilities <|
      updateAll ApiRecord.usr ContractRow.usr ContractRow.update e.contracts <|
        updateAll ApiRecord.usr TestRow.usr TestRow.update e.tests (e.apis.map Api.record)

/-! ### Tables -/

/-- The session has given records, a given number of lookups behind it, and an error recorded or not. -/
structure Session.Has (s : Session) (state : State) (lookups : ℕ) (failed : Bool) : Prop where
  state_eq : s.state = state
  lookups_eq : s.lookups = lookups
  hasError_eq : s.hasError = failed

/-- The session behind a loop over a table, whose last read may have failed. -/
def endOfRows (stream : Stream) (s : Session) : Session :=
  if stream.breaks maxLine then s.raise .call else s

@[simp] theorem state_endOfRows (stream : Stream) : (endOfRows stream s).state = s.state := by
  unfold endOfRows
  split <;> rfl

@[simp] theorem hasError_endOfRows (stream : Stream) :
    (endOfRows stream s).hasError = (s.hasError || stream.breaks maxLine) := by
  unfold endOfRows
  split
  · next h => rw [h, Bool.or_true, Session.hasError_raise]
  · next h => rw [Bool.eq_false_iff.mpr h, Bool.or_false]

theorem Session.Has.endOfRows {state : State} {lookups : ℕ} {failed : Bool}
    (h : s.Has state lookups failed) (stream : Stream) :
    (endOfRows stream s).Has state lookups (failed || stream.breaks maxLine) := by
  refine ⟨(state_endOfRows stream).trans h.state_eq, ?_, ?_⟩
  · unfold Conformance.endOfRows
    split <;> exact h.lookups_eq
  · rw [hasError_endOfRows, h.hasError_eq]

theorem copyText_ok {size : ℕ} {input text : Text} (h : copyText size input s = .ok text) :
    text = input := by
  unfold copyText at h
  split at h
  · exact (Except.ok.inj h).symm
  · cases h

section Tables

variable {τ ρ : Type} {R : Session → τ → Prop} {read : Text → Option ρ} {apply : τ → ρ → τ}
  {step : Session → Text → Loading} {stream : Stream} {t : τ}

/-- A table that is loaded has applied the records of its rows. -/
theorem readTable_ok {header : Bool} (hstep : Simulates R read apply step) (hs : R s t)
    (h : readTable stream header step s = .ok s') :
    ∃ next, R next (((deliveredRows stream header).filterMap read).foldl apply t) ∧
      s' = endOfRows stream next := by
  unfold readTable at h
  split at h
  · cases h
  · split at h
    · cases h
    · next _ next hloop =>
      refine ⟨next, hstep.foldlM hs hloop, ?_⟩
      unfold endOfTable at h
      dsimp only at h
      split at h
      · exact (Except.ok.inj h).symm
      · cases h

theorem repoTable_ok {file : Text} (hstep : Simulates R read apply step) (hs : R s t)
    (h : repoTable arguments file stream step s = .ok s') :
    ∃ next, R next (((deliveredRows stream true).filterMap read).foldl apply t) ∧
      s' = endOfRows stream next := by
  unfold repoTable at h
  split at h
  · cases h
  · exact readTable_ok hstep hs h

end Tables

section Manifests

variable {state : State} {lookups : ℕ} {failed : Bool}

/-- A row of the API manifest is one more record. -/
theorem simulates_apiStep :
    Simulates (fun s apis => s.Has { state with apis := apis } lookups failed) apiOf
      (fun apis api => apis ++ [api.record]) apiStep := by
  rintro s apis line s' ⟨hstate, hlookups, hfailed⟩ h
  unfold apiStep at h
  split at h
  · next name usr _ _ _ hfields =>
    split at h
    · cases h
    · split at h
      · cases h
      · next name' hname =>
        split at h
        · cases h
        · next usr' husr =>
          obtain rfl := Except.ok.inj h
          obtain rfl := copyText_ok hname
          obtain rfl := copyText_ok husr
          rw [apiOf, hfields]
          refine ⟨?_, hlookups, hfailed⟩
          rw [hstate]
          rfl
  · cases h

theorem loadApiManifest_ok (hs : s.Has { state with apis := [] } lookups failed)
    (h : loadApiManifest inputs arguments s = .ok s') :
    s'.Has { state with
      apis := ((deliveredRows inputs.apiManifest true).filterMap apiOf).map Api.record } lookups
      (failed || inputs.apiManifest.breaks maxLine) := by
  obtain ⟨next, hnext, rfl⟩ := repoTable_ok simulates_apiStep hs h
  rw [List.foldl_append_eq_append, List.nil_append, ← List.flatMap_def, ← List.map_eq_flatMap] at hnext
  exact hnext.endOfRows _

/-- A row of the unit-test manifest updates the record of its identity. -/
theorem simulates_testStep :
    Simulates (fun s apis => s.Has { state with apis := apis } lookups failed) testOf
      (fun apis row => modifyFirst (fun api => api.usr = row.usr) row.update apis) testStep := by
  rintro s apis line s' ⟨hstate, hlookups, hfailed⟩ h
  unfold testStep at h
  split at h
  · next usr kind _ hfields =>
    split at h
    · cases h
    · split at h
      · cases h
      · obtain rfl := Except.ok.inj h
        rw [testOf, hfields]
        refine ⟨?_, hlookups, hfailed⟩
        rw [updateApi, hstate]
        rfl
  · cases h

theorem loadTestManifest_ok (hs : s.Has state lookups failed)
    (h : loadTestManifest inputs arguments s = .ok s') :
    s'.Has { state with
      apis := updateAll ApiRecord.usr TestRow.usr TestRow.update
        ((deliveredRows inputs.testManifest true).filterMap testOf) state.apis } lookups
      (failed || inputs.testManifest.breaks maxLine) := by
  obtain ⟨next, hnext, rfl⟩ := repoTable_ok (t := state.apis) simulates_testStep hs h
  exact Session.Has.endOfRows hnext _

/-- A row of the conformance manifest updates the record of its identity. -/
theorem simulates_contractStep :
    Simulates (fun s apis => s.Has { state with apis := apis } lookups failed) contractOf
      (fun apis row => modifyFirst (fun api => api.usr = row.usr) row.update apis) contractStep := by
  rintro s apis line s' ⟨hstate, hlookups, hfailed⟩ h
  unfold contractStep at h
  split at h
  · next usr required result hfields =>
    split at h
    · cases h
    · split at h
      · cases h
      · obtain rfl := Except.ok.inj h
        rw [contractOf, hfields]
        refine ⟨?_, hlookups, hfailed⟩
        rw [updateApi, hstate]
        rfl
  · cases h

theorem loadConformanceManifest_ok (hs : s.Has state lookups failed)
    (h : loadConformanceManifest inputs arguments s = .ok s') :
    s'.Has { state with
      apis := updateAll ApiRecord.usr ContractRow.usr ContractRow.update
        ((deliveredRows inputs.conformanceManifest true).filterMap contractOf) state.apis } lookups
      (failed || inputs.conformanceManifest.breaks maxLine) := by
  obtain ⟨next, hnext, rfl⟩ := repoTable_ok (t := state.apis) simulates_contractStep hs h
  exact Session.Has.endOfRows hnext _

end Manifests

/-! ### Expected faults -/

/-- The record of an expected fault that no outcome is known of. -/
def FaultKey.unobserved (key : FaultKey) : ExpectedFault := ⟨key, false⟩

/-- A lookup depends on nothing but the number of lookups before it, and leaves the records and a
recorded error alone. -/
theorem macroPresent_eq (inputs : Inputs) (symbol : Text) {state : State} {lookups : ℕ} {failed : Bool}
    (hs : s.Has state lookups failed) :
    (macroPresent inputs symbol s).1 = (macroPresent inputs symbol ⟨.zero, none, lookups⟩).1 ∧
      (macroPresent inputs symbol s).2.Has state
        (macroPresent inputs symbol ⟨.zero, none, lookups⟩).2.lookups
        (failed || (macroPresent inputs symbol ⟨.zero, none, lookups⟩).2.hasError) := by
  obtain ⟨rfl, rfl, rfl⟩ := hs
  unfold macroPresent
  split
  · exact ⟨rfl, rfl, rfl, (Bool.or_false _).symm⟩
  · dsimp only
    split
    · exact ⟨rfl, rfl, rfl, (Bool.or_true _).symm⟩
    · split <;> split
      · exact ⟨rfl, rfl, rfl, (Bool.or_true _).symm⟩
      · exact ⟨rfl, rfl, rfl, (Bool.or_false _).symm⟩
      · exact ⟨rfl, rfl, rfl, (Bool.or_true _).symm⟩
      · exact ⟨rfl, rfl, rfl, (Bool.or_true _).symm⟩

section Faults

variable {state : State}

/-- The session has the expected faults of a search. -/
def Session.Found (state : State) (failed : Bool) (s : Session) (search : Search) : Prop :=
  s.Has { state with faults := search.found.map FaultKey.unobserved } search.lookups
    (failed || search.failed)

variable {failed : Bool}

theorem addFault_ok {wrapper domain symbol : Text} {search : Search}
    (hs : s.Found state failed search) (h : addFault wrapper domain symbol s = .ok s') :
    s'.Found state failed { search with found := search.found ++ [⟨wrapper, domain, symbol⟩] } := by
  unfold addFault at h
  split at h
  · cases h
  · split at h
    · cases h
    · next wrapper' hwrapper =>
      split at h
      · cases h
      · next domain' hdomain =>
        split at h
        · cases h
        · next symbol' hsymbol =>
          obtain rfl := Except.ok.inj h
          obtain rfl := copyText_ok hwrapper
          obtain rfl := copyText_ok hdomain
          obtain rfl := copyText_ok hsymbol
          refine ⟨?_, hs.lookups_eq, hs.hasError_eq⟩
          rw [hs.state_eq, List.map_append]
          rfl

/-- A symbol of a row is one candidate. -/
theorem simulates_symbolStep (wrapper domain conditional : Text) :
    Simulates (Session.Found state failed)
      (fun symbol => some ⟨⟨wrapper, domain, symbol⟩, listContains conditional symbol⟩)
      (Search.take inputs) (symbolStep inputs wrapper domain conditional) := by
  intro s search symbol s' hs h
  unfold symbolStep at h
  show s'.Found state failed
    (search.take inputs ⟨⟨wrapper, domain, symbol⟩, listContains conditional symbol⟩)
  unfold Search.take
  split at h
  · next hconditional =>
    obtain ⟨hanswer, hnext⟩ := macroPresent_eq inputs symbol hs
    rw [if_pos hconditional]
    split at h
    · next next heq =>
      rw [heq] at hanswer hnext
      dsimp only at hanswer hnext ⊢
      rw [← hanswer, if_pos rfl]
      have hfound : next.Found state failed
          { found := search.found
            lookups := (macroPresent inputs symbol ⟨.zero, none, search.lookups⟩).2.lookups
            failed := search.failed ||
              (macroPresent inputs symbol ⟨.zero, none, search.lookups⟩).2.hasError } := by
        rw [Session.Found, ← Bool.or_assoc]
        exact hnext
      exact addFault_ok hfound h
    · next next heq =>
      rw [heq] at hanswer hnext
      obtain rfl := Except.ok.inj h
      dsimp only at hanswer hnext ⊢
      rw [← hanswer, if_neg Bool.false_ne_true, Session.Found, ← Bool.or_assoc]
      exact hnext
  · next hconditional =>
    rw [if_neg hconditional]
    exact addFault_ok hs h

/-- A row of the fault manifest is its candidates. -/
theorem simulates_faultStep (columns : ℕ × ℕ) :
    Simulates (Session.Found state failed) (fun line => some (candidatesOf columns line))
      (fun search row => row.foldl (Search.take inputs) search) (faultStep inputs columns) := by
  intro s search line s' hs h
  unfold faultStep at h
  dsimp only at h
  split at h
  · cases h
  · split at h
    · cases h
    · split at h
      · cases h
      · split at h
        · cases h
        · next faults hcopy =>
          obtain rfl := copyText_ok hcopy
          have hrow := (simulates_symbolStep _ _ _).foldlM hs h
          rwa [List.filterMap_eq_map'] at hrow

theorem loadFaultManifest_ok (hs : s.Has state 0 failed) (hnone : state.faults = [])
    (h : loadFaultManifest inputs arguments s = .ok s') :
    s'.Has { state with faults := (search inputs arguments).found.map FaultKey.unobserved }
      (search inputs arguments).lookups
      (failed || (search inputs arguments).failed || inputs.faultManifest.breaks maxLine) := by
  unfold loadFaultManifest at h
  split at h
  · cases h
  · next columns hcolumns =>
    have hstart : s.Found state failed ⟨[], 0, false⟩ :=
      ⟨by rw [hs.state_eq, List.map_nil, ← hnone], hs.lookups_eq, by rw [hs.hasError_eq, Bool.or_false]⟩
    obtain ⟨next, hnext, rfl⟩ := repoTable_ok (simulates_faultStep columns) hstart h
    rw [List.filterMap_eq_map', List.foldl_map, ← List.foldl_flatMap] at hnext
    rw [search, candidates, hcolumns]
    exact Session.Has.endOfRows hnext _

end Faults

/-! ### Documents -/

section Documents

variable {document : json.Document} {state : State} {lookups : ℕ} {failed : Bool}

theorem tokenText_eq_ok_iff {object : json.Token} {key text : Text} {size : ℕ} :
    tokenText document object key size s = .ok text ↔
      optionalText document object key size = some text := by
  unfold tokenText optionalText
  cases json.objectGet document object key with
  | none => simp
  | some token =>
    dsimp only [Option.bind_some]
    cases json.tokenCopy document token size <;> simp

/-- What a row of the function capabilities does that does not end the loop: nothing, if it is about
another library, and otherwise it updates the record of its identity. -/
theorem capabilityRow_eq_ok_iff {library : Text} {row : json.Token} :
    capabilityRow library document row s = .ok s' ↔
      (∃ name, optionalText document row "library".toList maxName = some name ∧ name ≠ library ∧
        s' = s) ∨
      ∃ usr hasEnv, optionalText document row "library".toList maxName = some library ∧
        optionalText document row "usr".toList maxUsr = some usr ∧ (findApi usr s).isSome = true ∧
          tokenBoolean document row "has_env".toList = some hasEnv ∧
            s' = updateApi usr (Capability.update ⟨usr, hasEnv⟩) s := by
  constructor
  · intro h
    unfold capabilityRow at h
    split at h
    · cases h
    · next name hname =>
      rw [tokenText_eq_ok_iff] at hname
      split at h
      · next hne => exact .inl ⟨name, hname, hne, (Except.ok.inj h).symm⟩
      · next heq =>
        obtain rfl := not_not.mp heq
        split at h
        · cases h
        · next usr husr =>
          split at h
          · cases h
          · next api hapi =>
            split at h
            · cases h
            · next hasEnv henv =>
              exact .inr ⟨usr, hasEnv, hname, tokenText_eq_ok_iff.mp husr, by rw [hapi]; rfl, henv,
                (Except.ok.inj h).symm⟩
  · rintro (⟨name, hname, hne, rfl⟩ | ⟨usr, hasEnv, hname, husr, hapi, henv, rfl⟩)
    · rw [capabilityRow, tokenText_eq_ok_iff.mpr hname]
      exact if_pos hne
    · obtain ⟨api, hapi⟩ := Option.isSome_iff_exists.mp hapi
      rw [capabilityRow, tokenText_eq_ok_iff.mpr hname]
      dsimp only
      rw [if_neg (not_not.mpr rfl), tokenText_eq_ok_iff.mpr husr]
      dsimp only
      rw [hapi, henv]

/-- What a node of the run model does that does not end the loop: nothing, if it is no call, and otherwise
it updates the record of its name, if there is one. -/
theorem modelRow_eq_ok_iff {row : json.Token} :
    modelRow document row s = .ok s' ↔
      (∃ domain, optionalText document row "domain".toList maxName = some domain ∧
        domain ≠ "call".toList ∧ s' = s) ∨
      ∃ name kind, optionalText document row "domain".toList maxName = some "call".toList ∧
        optionalText document row "name".toList maxName = some name ∧
          optionalText document row "kind".toList maxName = some kind ∧
            s' = if (findApiName name s).isSome then updateApiName name
              (CallNode.update ⟨name, kind, optionalText document row "arguments".toList maxLine,
                optionalText document row "result".toList maxLine⟩) s else s := by
  constructor
  · intro h
    unfold modelRow at h
    split at h
    · cases h
    · next domain hdomain =>
      rw [tokenText_eq_ok_iff] at hdomain
      split at h
      · next hne => exact .inl ⟨domain, hdomain, hne, (Except.ok.inj h).symm⟩
      · next heq =>
        obtain rfl := not_not.mp heq
        split at h
        · cases h
        · next name hname =>
          split at h
          · cases h
          · next kind hkind =>
            refine .inr ⟨name, kind, hdomain, tokenText_eq_ok_iff.mp hname,
              tokenText_eq_ok_iff.mp hkind, ?_⟩
            split at h
            · next hapi =>
              rw [hapi]
              exact (Except.ok.inj h).symm
            · next api hapi =>
              rw [hapi]
              exact (Except.ok.inj h).symm
  · rintro (⟨domain, hdomain, hne, rfl⟩ | ⟨name, kind, hdomain, hname, hkind, rfl⟩)
    · rw [modelRow, tokenText_eq_ok_iff.mpr hdomain]
      exact if_pos hne
    · rw [modelRow, tokenText_eq_ok_iff.mpr hdomain]
      dsimp only
      rw [if_neg (not_not.mpr rfl), tokenText_eq_ok_iff.mpr hname]
      dsimp only
      rw [tokenText_eq_ok_iff.mpr hkind]
      dsimp only
      cases findApiName name s <;> rfl

/-- A loop over an array that ends well has applied the records of its rows. -/
theorem forRows_ok {τ ρ : Type} {R : Session → τ → Prop} {read : json.Token → Option ρ}
    {apply : τ → ρ → τ} {body : json.Token → Session → Loading} {array : json.Token} {t : τ}
    (hbody : Simulates R read apply fun s row => body row s) (hs : R s t)
    (h : forRows document array body s = .ok s') :
    R s' (((arrayRows document array).filterMap read).foldl apply t) := by
  have hstep : Simulates R (fun index => (json.arrayGet document array index).bind read) apply
      fun s index =>
        match json.arrayGet document array index with
        | none => .error s
        | some row => body row s := by
    intro s t index s' hs h
    dsimp only at h ⊢
    split at h
    · cases h
    · next row hrow =>
      rw [hrow]
      exact hbody hs h
  have hrows := hstep.foldlM hs h
  rwa [arrayRows, List.filterMap_filterMap]

theorem simulates_capabilityRow (library : Text) :
    Simulates (fun s apis => s.Has { state with apis := apis } lookups failed)
      (capabilityOf library document)
      (fun apis row => modifyFirst (fun api => api.usr = row.usr) row.update apis)
      fun s row => capabilityRow library document row s := by
  rintro s apis row s' hs h
  rw [capabilityOf]
  rcases capabilityRow_eq_ok_iff.mp h with ⟨name, hname, hne, rfl⟩ |
    ⟨usr, hasEnv, hname, husr, -, henv, rfl⟩
  · rw [hname, if_neg fun heq => hne (Option.some.inj heq)]
    exact hs
  · rw [hname, if_pos rfl, husr, henv]
    refine ⟨?_, hs.lookups_eq, hs.hasError_eq⟩
    rw [updateApi, hs.state_eq]
    rfl

/-- Which instrumentation receipts end well, and with what. -/
theorem loadInstrumentation_eq_ok_iff : loadInstrumentation json inputs arguments s = .ok s' ↔
    ∃ document array, readJsonFile json inputs.instrumentation = some document ∧
      optionalText document (json.root document) "schema".toList maxName =
        some "p101-instrumentation-platform-receipt-v1".toList ∧
      tokenBoolean document (json.root document) "passed".toList = some true ∧
      rootArray document "function_capabilities".toList = some array ∧
      forRows document array (capabilityRow arguments.library document) s = .ok s' := by
  constructor
  · intro h
    unfold loadInstrumentation at h
    split at h
    · cases h
    · next document hdocument =>
      split at h
      · cases h
      · next schema hschema =>
        rw [tokenText_eq_ok_iff] at hschema
        split at h
        · cases h
        · next heq =>
          split at h
          · cases h
          · next hpassed =>
            split at h
            · cases h
            · next array harray =>
              exact ⟨document, array, hdocument, hschema.trans (congrArg some (not_not.mp heq)),
                not_not.mp hpassed, harray, h⟩
  · rintro ⟨document, array, hdocument, hschema, hpassed, harray, h⟩
    rw [loadInstrumentation, hdocument]
    dsimp only
    rw [tokenText_eq_ok_iff.mpr hschema]
    dsimp only
    rw [if_neg (not_not.mpr rfl), if_neg (not_not.mpr hpassed), harray]
    exact h

theorem loadInstrumentation_ok (hs : s.Has state lookups failed)
    (h : loadInstrumentation json inputs arguments s = .ok s') :
    s'.Has { state with
      apis := updateAll ApiRecord.usr Capability.usr Capability.update
        (rootRows json inputs.instrumentation "function_capabilities".toList
          (capabilityOf arguments.library)) state.apis } lookups failed := by
  obtain ⟨document, array, hdocument, -, -, harray, hloop⟩ := loadInstrumentation_eq_ok_iff.mp h
  have hrows := forRows_ok (t := state.apis) (simulates_capabilityRow arguments.library) hs hloop
  rw [rootRows, hdocument]
  dsimp only
  rw [harray]
  exact hrows

theorem simulates_modelRow :
    Simulates (fun s apis => s.Has { state with apis := apis } lookups failed) (callOf document)
      (fun apis node => modifyFirst (fun api => api.name = node.name) node.update apis)
      fun s row => modelRow document row s := by
  rintro s apis row s' hs h
  rw [callOf]
  rcases modelRow_eq_ok_iff.mp h with ⟨domain, hdomain, hne, rfl⟩ |
    ⟨name, kind, hdomain, hname, hkind, rfl⟩
  · rw [hdomain, if_neg fun heq => hne (Option.some.inj heq)]
    exact hs
  · rw [hdomain, if_pos rfl, hname, hkind]
    dsimp only [Option.bind_some, Option.map_some, Option.elim_some]
    cases hfind : findApiName name s with
    | none =>
      rw [findApiName, hs.state_eq] at hfind
      rw [modifyFirst_of_find?_eq_none hfind]
      exact hs
    | some api =>
      refine ⟨?_, hs.lookups_eq, hs.hasError_eq⟩
      rw [Option.isSome_some, if_pos rfl, updateApiName, hs.state_eq]

/-- Which run models end well, and with what. -/
theorem loadModel_eq_ok_iff : loadModel json inputs s = .ok s' ↔
    ∃ document array, readJsonFile json inputs.model = some document ∧
      optionalText document (json.root document) "schema".toList maxName =
        some "p101-run-model-v1".toList ∧
      rootArray document "nodes".toList = some array ∧
      forRows document array (modelRow document) s = .ok s' := by
  constructor
  · intro h
    unfold loadModel at h
    split at h
    · cases h
    · next document hdocument =>
      split at h
      · cases h
      · next schema hschema =>
        rw [tokenText_eq_ok_iff] at hschema
        split at h
        · cases h
        · next heq =>
          split at h
          · cases h
          · next array harray =>
            exact ⟨document, array, hdocument, hschema.trans (congrArg some (not_not.mp heq)), harray, h⟩
  · rintro ⟨document, array, hdocument, hschema, harray, h⟩
    rw [loadModel, hdocument]
    dsimp only
    rw [tokenText_eq_ok_iff.mpr hschema]
    dsimp only
    rw [if_neg (not_not.mpr rfl), harray]
    exact h

theorem loadModel_ok (hs : s.Has state lookups failed) (h : loadModel json inputs s = .ok s') :
    s'.Has { state with
      apis := updateAll ApiRecord.name CallNode.name CallNode.update
        (rootRows json inputs.model "nodes".toList callOf) state.apis } lookups failed := by
  obtain ⟨document, array, hdocument, -, harray, hloop⟩ := loadModel_eq_ok_iff.mp h
  have hrows := forRows_ok (t := state.apis) simulates_modelRow hs hloop
  rw [rootRows, hdocument]
  dsimp only
  rw [harray]
  exact hrows

end Documents

/-! ### Outcomes -/

/-- An outcome reports that the fault test passed. -/
def OutcomeRow.passed (row : OutcomeRow) : Bool := row.status = "PASS".toList

/-- What an outcome does to the expected faults, the count of outcomes that find none, and whether all
outcomes passed. -/
def settle (t : (List ExpectedFault × ℕ) × Bool) (row : OutcomeRow) :
    (List ExpectedFault × ℕ) × Bool :=
  (markOne ExpectedFault.key ExpectedFault.observed ExpectedFault.observe t.1 row.key,
    t.2 && row.passed)

theorem foldl_settle (rows : List OutcomeRow) (t : (List ExpectedFault × ℕ) × Bool) :
    rows.foldl settle t =
      ((rows.map OutcomeRow.key).foldl
        (markOne ExpectedFault.key ExpectedFault.observed ExpectedFault.observe) t.1,
        t.2 && rows.all OutcomeRow.passed) := by
  induction rows generalizing t with
  | nil => simp
  | cons row rest ih => simp [ih, settle, Bool.and_assoc]

/-- The outcomes so far have been settled: the counter counts the observed faults, and nothing was found
exactly when every outcome has marked a fault and passed. -/
structure Session.Settled (apis : List ApiRecord) (failed : Bool) (s : Session)
    (t : (List ExpectedFault × ℕ) × Bool) : Prop where
  hasError_eq : s.hasError = failed
  apis_eq : s.state.apis = apis
  faults_eq : s.state.faults = t.1.1
  counted : s.state.faultOutcomesObserved = t.1.1.countP ExpectedFault.observed
  nothing_found : s.state.findings = [] ↔ t.1.2 = 0 ∧ t.2 = true

section Outcomes

variable {apis : List ApiRecord} {failed : Bool} {t : (List ExpectedFault × ℕ) × Bool}

/-- An outcome that finds no unobserved fault is a finding. -/
theorem settled_addFinding {path message identity : Text} {t' : (List ExpectedFault × ℕ) × Bool}
    (hs : s.Settled apis failed t) (hfaults : t'.1.1 = t.1.1) (hwrong : ¬(t'.1.2 = 0 ∧ t'.2 = true)) :
    (addFinding path message identity s).Settled apis failed t' where
  hasError_eq := hs.hasError_eq
  apis_eq := hs.apis_eq
  faults_eq := hfaults ▸ hs.faults_eq
  counted := hfaults ▸ hs.counted
  nothing_found := by
    refine ⟨fun h => ?_, fun h => absurd h hwrong⟩
    exact absurd h (List.append_ne_nil_of_right_ne_nil _ (List.cons_ne_nil _ _))

theorem settled_outcomeRow (row : OutcomeRow) (hs : s.Settled apis failed t) :
    (outcomeRow arguments row s).Settled apis failed (settle t row) := by
  unfold outcomeRow
  cases hfind : findFault row.key s with
  | none =>
    rw [findFault, hs.faults_eq] at hfind
    refine settled_addFinding hs ?_ ?_ <;> simp [settle, markOne, hfind]
  | some fault =>
    rw [findFault, hs.faults_eq] at hfind
    dsimp only
    split
    · next hobserved => refine settled_addFinding hs ?_ ?_ <;> simp [settle, markOne, hfind, hobserved]
    · next hobserved =>
      have hmark : settle t row = ((modifyFirst (fun fault => fault.key = row.key)
          ExpectedFault.observe t.1.1, t.1.2), t.2 && row.passed) := by
        simp [settle, markOne, hfind, hobserved]
      rw [hmark]
      have hcount : (modifyFirst (fun fault => fault.key = row.key) ExpectedFault.observe
          t.1.1).countP ExpectedFault.observed = t.1.1.countP ExpectedFault.observed + 1 :=
        countP_modifyFirst hfind (Bool.not_eq_true _ ▸ hobserved) rfl
      split
      · next hstatus =>
        refine ⟨hs.hasError_eq, hs.apis_eq, ?_, ?_, ?_⟩
        · exact congrArg (modifyFirst _ ExpectedFault.observe) hs.faults_eq
        · exact (congrArg (· + 1) hs.counted).trans hcount.symm
        · have hfailed : row.passed = false := decide_eq_false hstatus
          simp [observeFault, addFinding, hfailed]
      · next hstatus =>
        refine ⟨hs.hasError_eq, hs.apis_eq, ?_, ?_, ?_⟩
        · exact congrArg (modifyFirst _ ExpectedFault.observe) hs.faults_eq
        · exact (congrArg (· + 1) hs.counted).trans hcount.symm
        · have hpassed : row.passed = true := decide_eq_true (not_not.mp hstatus)
          rw [hpassed, Bool.and_true]
          exact hs.nothing_found

theorem simulates_outcomeStep :
    Simulates (Session.Settled apis failed) outcomeOf settle (outcomeStep arguments) := by
  intro s t line s' hs h
  unfold outcomeStep at h
  split at h
  · next hfields =>
    split at h
    · cases h
    · obtain rfl := Except.ok.inj h
      rw [outcomeOf, hfields]
      exact settled_outcomeRow _ hs
  · cases h

end Outcomes

/-! ### Loading -/

namespace Evidence

/-- The expected faults behind all outcomes, and the number of outcomes that found none. -/
def marked (e : Evidence) : List ExpectedFault × ℕ :=
  markAll ExpectedFault.key ExpectedFault.observed ExpectedFault.observe
    (e.outcomes.map OutcomeRow.key) (e.expected.map FaultKey.unobserved)

/-- The state is the one that the evidence makes. -/
structure Makes (e : Evidence) (state : State) : Prop where
  apis_eq : state.apis = e.records
  faults_eq : state.faults = e.marked.1
  counted : state.faultOutcomesObserved = state.faults.countP ExpectedFault.observed
  nothing_found : state.findings = [] ↔ e.marked.2 = 0 ∧ ∀ row ∈ e.outcomes, row.passed = true

end Evidence

/-- A failure that no loader answers to: a read that ends the loop over a table, or a macro lookup that
records an error. -/
def swallowed (inputs : Inputs) (arguments : Arguments) : Bool :=
  inputs.apiManifest.breaks maxLine || inputs.testManifest.breaks maxLine ||
    inputs.conformanceManifest.breaks maxLine || (search inputs arguments).failed ||
    inputs.faultManifest.breaks maxLine || inputs.outcomes.breaks maxLine

theorem bind_ok {f : Session → Loading} {run : Loading} (h : (run >>= f) = .ok s') :
    ∃ s, run = .ok s ∧ f s = .ok s' := by
  cases run with
  | error s => cases h
  | ok s => exact ⟨s, rfl, h⟩

/-- Before the outcomes, a load that succeeds has made the records of the APIs and found nothing. -/
theorem load_before_outcomes (h : load json inputs arguments .zero = .ok s) :
    ∃ before, before.Has ⟨(evidence json inputs arguments).records,
          (evidence json inputs arguments).expected.map FaultKey.unobserved, 0, []⟩
        (search inputs arguments).lookups
        (inputs.apiManifest.breaks maxLine || inputs.testManifest.breaks maxLine ||
          inputs.conformanceManifest.breaks maxLine || (search inputs arguments).failed ||
          inputs.faultManifest.breaks maxLine) ∧
      loadOutcomes inputs arguments before = .ok s := by
  obtain ⟨s₁, h₁, h⟩ := bind_ok h
  obtain ⟨s₂, h₂, h⟩ := bind_ok h
  obtain ⟨s₃, h₃, h⟩ := bind_ok h
  obtain ⟨s₄, h₄, h⟩ := bind_ok h
  obtain ⟨s₅, h₅, h⟩ := bind_ok h
  obtain ⟨s₆, h₆, h⟩ := bind_ok h
  have hs₀ : Session.zero.Has { State.zero with apis := [] } 0 false := ⟨rfl, rfl, rfl⟩
  have hs₁ := loadApiManifest_ok hs₀ h₁
  have hs₂ := loadTestManifest_ok hs₁ h₂
  have hs₃ := loadConformanceManifest_ok hs₂ h₃
  have hs₄ := loadFaultManifest_ok hs₃ rfl h₄
  have hs₅ := loadInstrumentation_ok hs₄ h₅
  exact ⟨s₆, loadModel_ok hs₅ h₆, h⟩

/-- **Loading.** A load that succeeds leaves the state that the evidence makes, and an error recorded
exactly if a failure was swallowed. -/
theorem load_ok (h : load json inputs arguments .zero = .ok s) :
    (evidence json inputs arguments).Makes s.state ∧ s.hasError = swallowed inputs arguments := by
  obtain ⟨before, hbefore, h⟩ := load_before_outcomes h
  have hstart : before.Settled (evidence json inputs arguments).records before.hasError
      (((evidence json inputs arguments).expected.map FaultKey.unobserved, 0), true) := by
    have hnone : ((evidence json inputs arguments).expected.map FaultKey.unobserved).countP
        ExpectedFault.observed = 0 := by
      rw [List.countP_eq_zero]
      simp [FaultKey.unobserved]
    refine ⟨rfl, ?_, ?_, ?_, ?_⟩ <;> rw [hbefore.state_eq]
    · exact hnone.symm
    · exact ⟨fun _ => ⟨rfl, rfl⟩, fun _ => rfl⟩
  obtain ⟨next, hend, rfl⟩ := readTable_ok simulates_outcomeStep hstart h
  rw [foldl_settle] at hend
  refine ⟨⟨?_, ?_, ?_, ?_⟩, ?_⟩ <;> try rw [state_endOfRows]
  · exact hend.apis_eq
  · exact hend.faults_eq
  · rw [hend.counted, hend.faults_eq]
  · rw [hend.nothing_found]
    simp only [Bool.true_and, List.all_eq_true]
    rfl
  · rw [hasError_endOfRows, hend.hasError_eq, hbefore.hasError_eq]
    rfl

end P101Test.Conformance
