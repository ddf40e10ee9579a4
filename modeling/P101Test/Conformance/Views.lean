import P101Test.Conformance.Evidence
import P101Test.Table.Overwriting

/-!
# Documents as the loaders see them

The loaders look at a row of a JSON document through the copies of its members' texts and the texts these
equal. Seen that way a row is independent of the document it stands in, so that two documents can be
compared that have the same rows in another order. Whether a document loads depends on its rows and not on
their order.

## Main definitions

* `View`, `view`: what the loaders can see of a token.
* `arrayViews`, `rootViews`: the rows of a document as they are seen.
* `ReceiptLoads`, `ModelLoads`: what a document must hold to load.

## Main results

* `capability_view`, `call_view`: the records read are those of the views.
* `loadInstrumentation_ok_iff`, `loadModel_ok_iff`: which documents load.
-/

namespace P101Test.Conformance

open Stdio Table

/-! ### Views -/

/-- What the loaders can see of a token: of each of its members, the copies of its text into buffers, and
the texts it equals. -/
abbrev View := Text → Option ((ℕ → Option Text) × (Text → Bool))

section Views

variable {json : JsonLibrary}

/-- What the loaders can see of a token. -/
def view (document : json.Document) (token : json.Token) : View := fun key =>
  (json.objectGet document token key).map fun member =>
    (json.tokenCopy document member, json.tokenEquals document member)

/-- The text of a member. -/
def View.text (v : View) (key : Text) (size : ℕ) : Option Text := (v key).bind fun member => member.1 size

/-- The truth value of a member. -/
def View.boolean (v : View) (key : Text) : Option Bool :=
  (v key).map fun member => member.2 "true".toList

variable {document : json.Document} {token : json.Token} {key : Text} {size : ℕ}

theorem text_view : (view document token).text key size = optionalText document token key size := by
  rw [View.text, view, optionalText, Option.bind_map]
  rfl

theorem boolean_view : (view document token).boolean key = tokenBoolean document token key := by
  rw [View.boolean, view, tokenBoolean, Option.map_map]
  rfl

end Views

/-- A function capability that is about a library, as far as it can be seen. -/
def View.capability (library : Text) (v : View) : Option Capability :=
  if v.text "library".toList maxName = some library then
    (v.text "usr".toList maxUsr).bind fun usr =>
      (v.boolean "has_env".toList).map fun hasEnv => ⟨usr, hasEnv⟩
  else none

/-- A call node, as far as it can be seen. -/
def View.call (v : View) : Option CallNode :=
  if v.text "domain".toList maxName = some "call".toList then
    (v.text "name".toList maxName).bind fun name =>
      (v.text "kind".toList maxName).map fun kind =>
        ⟨name, kind, v.text "arguments".toList maxLine, v.text "result".toList maxLine⟩
  else none

/-- A function capability that does not end the loop: it has a library, and if that is the one of the run,
an identity that is known and a flag. -/
def View.CapabilityLoads (usrs : List Text) (library : Text) (v : View) : Prop :=
  ∃ name, v.text "library".toList maxName = some name ∧
    (name = library → ∃ usr, v.text "usr".toList maxUsr = some usr ∧ usr ∈ usrs ∧
      (v.boolean "has_env".toList).isSome)

/-- A node that does not end the loop: it has a domain, and if it is a call a name and a kind. -/
def View.NodeLoads (v : View) : Prop :=
  ∃ domain, v.text "domain".toList maxName = some domain ∧
    (domain = "call".toList → (v.text "name".toList maxName).isSome ∧
      (v.text "kind".toList maxName).isSome)

section Rows

variable {json : JsonLibrary} (document : json.Document) (array row : json.Token)

theorem capability_view (library : Text) :
    (view document row).capability library = capabilityOf library document row := by
  rw [View.capability, capabilityOf, text_view, text_view, boolean_view]

theorem call_view : (view document row).call = callOf document row := by
  simp only [View.call, callOf, text_view]

/-- The entries of an array, among them those that cannot be found. -/
def arrayEntries : List (Option json.Token) :=
  (List.range (json.childCount document array)).map (json.arrayGet document array)

/-- What can be seen of them. -/
def arrayViews : List (Option View) := (arrayEntries document array).map (Option.map (view document))

/-- What can be seen of the entries of an array that is a member of the root. -/
def rootViews (key : Text) : Option (List (Option View)) :=
  (rootArray document key).map (arrayViews document)

theorem arrayRows_eq : arrayRows document array = (arrayEntries document array).filterMap id := by
  rw [arrayRows, arrayEntries, List.filterMap_map]
  rfl

/-- Rows are read from what can be seen of them. -/
theorem filterMap_arrayRows {ρ : Type} {read : json.Token → Option ρ} {see : View → Option ρ}
    (h : ∀ row, see (view document row) = read row) :
    (arrayRows document array).filterMap read =
      (arrayViews document array).filterMap fun v => v.bind see := by
  rw [arrayRows_eq, arrayViews, List.filterMap_filterMap, List.filterMap_map]
  refine List.filterMap_congr fun entry _ => ?_
  cases entry with
  | none => rfl
  | some row => exact (h row).symm

/-- A loop over an array ends well exactly when every entry is found and accepted, where what can be seen
of a row decides whether it is accepted. -/
theorem forRows_ok_iff {body : json.Token → Session → Loading} {keeps : Session → Prop}
    {accepted : View → Prop}
    (hbody : ∀ s row, keeps s → ((∃ s', body row s = .ok s') ↔ accepted (view document row)))
    (hkeeps : ∀ s row s', keeps s → body row s = .ok s' → keeps s') {s : Session} (hs : keeps s) :
    (∃ s', forRows document array body s = .ok s') ↔
      ∀ entry ∈ arrayViews document array, ∃ v, entry = some v ∧ accepted v := by
  let found (index : ℕ) : Prop :=
    ∃ v, (json.arrayGet document array index).map (view document) = some v ∧ accepted v
  refine (@foldlM_ok_iff _ _ _ _ keeps found ?_ ?_ _ s hs).trans ?_
  · intro s index hs
    dsimp only [found]
    cases json.arrayGet document array index with
    | none => simp
    | some row => simpa using hbody s row hs
  · intro s index s' hs h
    split at h
    · cases h
    · next row _ => exact hkeeps s row s' hs h
  · rw [arrayViews, arrayEntries, List.map_map, List.forall_mem_map]
    rfl

end Rows

/-! ### Documents that load -/

section Loads

variable {json : JsonLibrary} {inputs : Inputs} {arguments : Arguments} {s : Session}

/-- An instrumentation receipt that loads. -/
structure ReceiptLoads (usrs : List Text) (library : Text) (document : json.Document) : Prop where
  schema : (view document (json.root document)).text "schema".toList maxName =
    some "p101-instrumentation-platform-receipt-v1".toList
  passed : (view document (json.root document)).boolean "passed".toList = some true
  rows : ∃ rows, rootViews document "function_capabilities".toList = some rows ∧
    ∀ entry ∈ rows, ∃ v, entry = some v ∧ v.CapabilityLoads usrs library

/-- A run model that loads. -/
structure ModelLoads (document : json.Document) : Prop where
  schema : (view document (json.root document)).text "schema".toList maxName =
    some "p101-run-model-v1".toList
  rows : ∃ rows, rootViews document "nodes".toList = some rows ∧
    ∀ entry ∈ rows, ∃ v, entry = some v ∧ v.NodeLoads

private theorem isSome_findApi {usr : Text} :
    (findApi usr s).isSome = true ↔ usr ∈ s.state.apis.map ApiRecord.usr := by
  rw [findApi, List.find?_isSome, List.mem_map]
  simp

theorem capabilityRow_ok_iff (library : Text) (document : json.Document) (row : json.Token) :
    (∃ s', capabilityRow library document row s = .ok s') ↔
      (view document row).CapabilityLoads (s.state.apis.map ApiRecord.usr) library := by
  simp only [capabilityRow_eq_ok_iff, View.CapabilityLoads, text_view, boolean_view]
  constructor
  · rintro ⟨s', ⟨name, hname, hne, -⟩ | ⟨usr, hasEnv, hname, husr, hapi, henv, -⟩⟩
    · exact ⟨name, hname, fun heq => absurd heq hne⟩
    · exact ⟨library, hname, fun _ => ⟨usr, husr, isSome_findApi.mp hapi, by rw [henv]; rfl⟩⟩
  · rintro ⟨name, hname, hloads⟩
    by_cases hlibrary : name = library
    · subst hlibrary
      obtain ⟨usr, husr, hmem, henv⟩ := hloads rfl
      obtain ⟨hasEnv, henv⟩ := Option.isSome_iff_exists.mp henv
      exact ⟨_, .inr ⟨usr, hasEnv, hname, husr, isSome_findApi.mpr hmem, henv, rfl⟩⟩
    · exact ⟨s, .inl ⟨name, hname, hlibrary, rfl⟩⟩

theorem modelRow_ok_iff (document : json.Document) (row : json.Token) :
    (∃ s', modelRow document row s = .ok s') ↔ (view document row).NodeLoads := by
  simp only [modelRow_eq_ok_iff, View.NodeLoads, text_view]
  constructor
  · rintro ⟨s', ⟨domain, hdomain, hne, -⟩ | ⟨name, kind, hdomain, hname, hkind, -⟩⟩
    · exact ⟨domain, hdomain, fun heq => absurd heq hne⟩
    · exact ⟨_, hdomain, fun _ => ⟨by rw [hname]; rfl, by rw [hkind]; rfl⟩⟩
  · rintro ⟨domain, hdomain, hloads⟩
    by_cases hcall : domain = "call".toList
    · subst hcall
      obtain ⟨hname, hkind⟩ := hloads rfl
      obtain ⟨name, hname⟩ := Option.isSome_iff_exists.mp hname
      obtain ⟨kind, hkind⟩ := Option.isSome_iff_exists.mp hkind
      exact ⟨_, .inr ⟨name, kind, hdomain, hname, hkind, rfl⟩⟩
    · exact ⟨s, .inl ⟨domain, hdomain, hcall, rfl⟩⟩

/-- A row of the function capabilities leaves the identities of the APIs alone. -/
theorem usrs_capabilityRow {library : Text} {document : json.Document} {row : json.Token}
    {s' : Session} (h : capabilityRow library document row s = .ok s') :
    s'.state.apis.map ApiRecord.usr = s.state.apis.map ApiRecord.usr := by
  obtain ⟨hstate, -, -⟩ := simulates_capabilityRow library
    (⟨rfl, rfl, rfl⟩ : s.Has { s.state with apis := s.state.apis } s.lookups s.hasError) h
  rw [hstate]
  cases capabilityOf library document row with
  | none => rfl
  | some capability => exact map_modifyFirst fun _ => rfl

theorem capabilities_ok_iff (library : Text) (document : json.Document) (array : json.Token) :
    (∃ s', forRows document array (capabilityRow library document) s = .ok s') ↔
      ∀ entry ∈ arrayViews document array,
        ∃ v, entry = some v ∧ v.CapabilityLoads (s.state.apis.map ApiRecord.usr) library := by
  let keeps (t : Session) : Prop := t.state.apis.map ApiRecord.usr = s.state.apis.map ApiRecord.usr
  refine @forRows_ok_iff _ document array _ keeps _ (fun t row ht => ?_) (fun t row t' ht h => ?_) s rfl
  · rw [capabilityRow_ok_iff, show t.state.apis.map ApiRecord.usr = _ from ht]
  · exact (usrs_capabilityRow h).trans ht

theorem nodes_ok_iff (document : json.Document) (array : json.Token) :
    (∃ s', forRows document array (modelRow document) s = .ok s') ↔
      ∀ entry ∈ arrayViews document array, ∃ v, entry = some v ∧ v.NodeLoads :=
  @forRows_ok_iff _ document array _ (fun _ => True) _ (fun _ row _ => modelRow_ok_iff document row)
    (fun _ _ _ _ _ => trivial) s trivial

private theorem rootViews_eq_some {document : json.Document} {key : Text}
    {rows : List (Option View)} (h : rootViews document key = some rows) :
    ∃ array, rootArray document key = some array ∧ arrayViews document array = rows :=
  Option.map_eq_some_iff.mp h

/-- Which instrumentation receipts load. -/
theorem loadInstrumentation_ok_iff :
    (∃ s', loadInstrumentation json inputs arguments s = .ok s') ↔
      ∃ document, readJsonFile json inputs.instrumentation = some document ∧
        ReceiptLoads (s.state.apis.map ApiRecord.usr) arguments.library document := by
  simp only [loadInstrumentation_eq_ok_iff]
  constructor
  · rintro ⟨s', document, array, hread, hschema, hpassed, harray, hloop⟩
    refine ⟨document, hread, text_view.trans hschema, boolean_view.trans hpassed,
      arrayViews document array, ?_, (capabilities_ok_iff _ _ _).mp ⟨s', hloop⟩⟩
    rw [rootViews, harray, Option.map_some]
  · rintro ⟨document, hread, hschema, hpassed, rows, hrows, hall⟩
    obtain ⟨array, harray, rfl⟩ := rootViews_eq_some hrows
    obtain ⟨s', hloop⟩ := (capabilities_ok_iff arguments.library document array).mpr hall
    exact ⟨s', document, array, hread, text_view.symm.trans hschema, boolean_view.symm.trans hpassed,
      harray, hloop⟩

/-- Which run models load. -/
theorem loadModel_ok_iff :
    (∃ s', loadModel json inputs s = .ok s') ↔
      ∃ document, readJsonFile json inputs.model = some document ∧ ModelLoads document := by
  simp only [loadModel_eq_ok_iff]
  constructor
  · rintro ⟨s', document, array, hread, hschema, harray, hloop⟩
    refine ⟨document, hread, text_view.trans hschema, arrayViews document array, ?_,
      (nodes_ok_iff _ _).mp ⟨s', hloop⟩⟩
    rw [rootViews, harray, Option.map_some]
  · rintro ⟨document, hread, hschema, rows, hrows, hall⟩
    obtain ⟨array, harray, rfl⟩ := rootViews_eq_some hrows
    obtain ⟨s', hloop⟩ := (nodes_ok_iff document array).mpr hall
    exact ⟨s', document, array, hread, text_view.symm.trans hschema, harray, hloop⟩

end Loads

end P101Test.Conformance
