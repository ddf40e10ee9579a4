import P101Test.Conformance.Columns

/-!
# The expected faults

The fault manifest names, in a column for each platform, the symbols whose faults are expected, and in
another column those of them that are expected only where a macro is present. The list of expected faults
is what these columns say, row by row and symbol by symbol.

## Main definitions

* `manifestItems`, `manifestRow`: what a row of the manifest says for a platform.
* `expectedFaults`: the faults it makes expected, macro by macro.
* `WellFormedRow`: a row whose lists have no empty items.

## Main results

* `delivered_lines`: the rows that are read are the lines of the manifest.
* `loadFaultManifest_expected`: a load that succeeds leaves the expected faults.
-/

namespace P101Test.Conformance

open Stdio Table

variable {inputs : Inputs} {arguments : Arguments} {s s' : Session} {line piece : Text}
  {columns : ℕ × ℕ}

/-! ### What the manifest says -/

/-- The items of a list separated by commas; an empty list has none. -/
def manifestItems (column : Text) : List Text := if column = [] then [] else column.splitOn ','

/-- The symbols of a row for a platform, each with the row's name and domain, and whether it is in the
platform's conditional column. -/
def manifestRow (columns : ℕ × ℕ) (line : Text) : List Candidate :=
  (manifestItems ((line.splitOn '\t').getD columns.1 [])).map fun symbol =>
    ⟨⟨(line.splitOn '\t').getD 0 [], (line.splitOn '\t').getD 2 [], symbol⟩,
      decide (symbol ∈ manifestItems ((line.splitOn '\t').getD columns.2 []))⟩

/-- The macro of a symbol is present, according to the lookup that follows a number of others. -/
def macroFound (inputs : Inputs) (lookups : ℕ) (symbol : Text) : Bool :=
  (macroPresent inputs symbol ⟨.zero, none, lookups⟩).1

/-- The number of lookups behind a symbol. -/
def lookupsAfter (inputs : Inputs) (lookups : ℕ) (candidate : Candidate) : ℕ :=
  if candidate.conditional then
    (macroPresent inputs candidate.key.symbol ⟨.zero, none, lookups⟩).2.lookups
  else lookups

/-- The faults that symbols make expected: those of the unconditional symbols, and those whose macro is
present. -/
def expectedFaults (inputs : Inputs) : ℕ → List Candidate → List FaultKey
  | _, [] => []
  | lookups, candidate :: rest =>
    if candidate.conditional = false ∨ macroFound inputs lookups candidate.key.symbol = true then
      candidate.key :: expectedFaults inputs (lookupsAfter inputs lookups candidate) rest
    else expectedFaults inputs (lookupsAfter inputs lookups candidate) rest

/-- A row without null characters whose lists for a platform have no empty items. -/
structure WellFormedRow (columns : ℕ × ℕ) (line : Text) : Prop where
  terminated : '\x00' ∉ line
  symbols : [] ∉ manifestItems ((line.splitOn '\t').getD columns.1 [])
  conditional : [] ∉ manifestItems ((line.splitOn '\t').getD columns.2 [])

instance (columns : ℕ × ℕ) (line : Text) : Decidable (WellFormedRow columns line) :=
  decidable_of_iff ('\x00' ∉ line ∧ [] ∉ manifestItems ((line.splitOn '\t').getD columns.1 []) ∧
      [] ∉ manifestItems ((line.splitOn '\t').getD columns.2 []))
    ⟨fun ⟨terminated, symbols, conditional⟩ => ⟨terminated, symbols, conditional⟩,
      fun ⟨terminated, symbols, conditional⟩ => ⟨terminated, symbols, conditional⟩⟩

/-- The columns of the symbols and of the conditional symbols of each platform. -/
def platforms : List (Text × ℕ × ℕ) :=
  [("linux".toList, 4, 8), ("macos".toList, 5, 9), ("freebsd".toList, 6, 10)]

/-! ### The search -/

/-- The search finds the expected faults. -/
theorem foldl_take_found (candidates : List Candidate) (search : Search) :
    (candidates.foldl (Search.take inputs) search).found =
      search.found ++ expectedFaults inputs search.lookups candidates := by
  induction candidates generalizing search with
  | nil => exact (List.append_nil _).symm
  | cons candidate rest ih =>
      have hlookups : (Search.take inputs search candidate).lookups =
          lookupsAfter inputs search.lookups candidate := by
        unfold Search.take lookupsAfter
        split <;> rfl
      rw [List.foldl_cons, ih, hlookups, expectedFaults]
      cases hconditional : candidate.conditional with
      | false =>
          rw [if_pos (.inl rfl), Search.take, if_neg (by simp [hconditional]), List.append_assoc]
          rfl
      | true =>
          rw [Search.take, if_pos hconditional]
          cases hfound : macroFound inputs search.lookups candidate.key.symbol with
          | false =>
              rw [macroFound] at hfound
              simp [hfound]
          | true =>
              rw [macroFound] at hfound
              simp [hfound]

/-- Where every lookup meets the same macros, a symbol is expected or not wherever it stands. -/
theorem expectedFaults_of_stable (hstable : ∀ lookups, inputs.macros lookups = inputs.macros 0)
    (lookups : ℕ) (candidates : List Candidate) :
    expectedFaults inputs lookups candidates =
      (candidates.filter fun candidate =>
        !candidate.conditional || macroFound inputs 0 candidate.key.symbol).map Candidate.key := by
  have hsame : ∀ lookups symbol, macroFound inputs lookups symbol = macroFound inputs 0 symbol := by
    intro lookups symbol
    unfold macroFound macroPresent
    split
    · rfl
    · simp only [hstable lookups]
      split
      · rfl
      · split <;> rfl
  induction candidates generalizing lookups with
  | nil => rfl
  | cons candidate rest ih =>
      rw [expectedFaults, hsame, ih]
      by_cases hkept : candidate.conditional = false ∨ macroFound inputs 0 candidate.key.symbol = true
      · rw [if_pos hkept, List.filter_cons_of_pos (by simpa using hkept), List.map_cons]
      · rw [if_neg hkept, List.filter_cons_of_neg (by simpa using hkept)]

/-! ### The rows -/

/-- The items of a list without empty items. -/
theorem listItems_eq {column : Text} (h : [] ∉ manifestItems column) :
    listItems column = manifestItems column := by
  unfold manifestItems at h ⊢
  split at h
  · next hempty =>
    subst hempty
    rfl
  · next hne =>
    rw [if_neg hne, listItems]
    exact if_neg fun hlast => h (List.mem_of_getLast? hlast)

/-- The candidates in a row that is read are what the row says. -/
theorem candidatesOf_eq (hfirst : columns.1 < 11) (hsecond : columns.2 < 11)
    (h : WellFormedRow columns (textOf piece)) :
    candidatesOf columns piece = manifestRow columns (textOf piece) := by
  have hfields : splitFields 11 (cString piece) = ((textOf piece).splitOn '\t').take 11 := by
    rw [splitFields_eq, columnsOf_cString h.terminated, columnsOf]
  have hget : ∀ i, i < 11 → (((textOf piece).splitOn '\t').take 11).getD i [] =
      ((textOf piece).splitOn '\t').getD i [] := by
    intro i hi
    rw [List.getD_eq_getElem?_getD, List.getD_eq_getElem?_getD, List.getElem?_take_of_lt hi]
  unfold candidatesOf manifestRow
  dsimp only
  rw [hfields, hget _ hfirst, hget _ hsecond, hget 0 (by omega), hget 2 (by omega),
    listItems_eq h.symbols]
  refine List.map_congr_left fun symbol _ => ?_
  rw [listContains, listItems_eq h.conditional, List.contains_eq_mem]

theorem platformColumns_of_mem (h : (arguments.platform, columns) ∈ platforms) :
    platformColumns arguments.platform = some columns ∧ columns.1 < 11 ∧ columns.2 < 11 := by
  simp only [platforms, List.mem_cons, Prod.mk.injEq, List.not_mem_nil, or_false] at h
  rcases h with ⟨hplatform, rfl⟩ | ⟨hplatform, rfl⟩ | ⟨hplatform, rfl⟩ <;>
    exact ⟨by rw [hplatform]; decide, by decide, by decide⟩

/-- A load that succeeds has read the lines of the manifest. -/
theorem delivered_lines (hshort : ∀ line ∈ lines (inputs.faultManifest.read maxLine), line.length < maxLine)
    (h : loadFaultManifest inputs arguments s = .ok s') :
    (deliveredRows inputs.faultManifest true).map textOf =
      (lines (inputs.faultManifest.read maxLine)).drop 1 := by
  rcases map_textOf_chunks (by decide) hshort with hlines | hbad
  · rw [deliveredRows, if_pos rfl, Stream.delivered_eq, List.map_drop, hlines]
  · -- A line that fills the buffer leaves a mere newline, which is malformed.
    have hpiece : ['\n'] ∈ (faultTable inputs arguments).rows := by
      rw [faultTable, deliveredRows, if_pos rfl, Stream.delivered_eq]
      exact hbad
    have hrejects := rejects_faultTable inputs arguments
    obtain ⟨s'', hfails⟩ := hrejects.fails _ hpiece
      (fun s => ⟨_, hrejects.reports s _ (by change (splitFields 11 _).length ≠ 11; decide)⟩) s
    rw [show (faultTable inputs arguments).load s = loadFaultManifest inputs arguments s from rfl, h] at hfails
    cases hfails

/-- **The expected faults.** For each platform, a load of the manifest that succeeds leaves the faults that
the rows of the manifest make expected, in their order, and none of them observed; where every lookup meets
the same macros, these are the faults of the symbols that are unconditional or whose macro is present. -/
theorem loadFaultManifest_expected (inputs : Inputs) (arguments : Arguments) (columns : ℕ × ℕ)
    (s s' : Session) (hplatform : (arguments.platform, columns) ∈ platforms)
    (hshort : ∀ line ∈ lines (inputs.faultManifest.read maxLine), line.length < maxLine)
    (hrows : ∀ line ∈ (lines (inputs.faultManifest.read maxLine)).drop 1, WellFormedRow columns line)
    (hnone : s.state.faults = []) (h : loadFaultManifest inputs arguments s = .ok s') :
    s'.state.faults =
        (expectedFaults inputs s.lookups
          (((lines (inputs.faultManifest.read maxLine)).drop 1).flatMap (manifestRow columns))).map
          (fun key => ⟨key, false⟩) ∧
      ((∀ lookups, inputs.macros lookups = inputs.macros 0) →
        s'.state.faults =
          ((((lines (inputs.faultManifest.read maxLine)).drop 1).flatMap (manifestRow columns)).filter
            fun candidate =>
              !candidate.conditional || macroFound inputs 0 candidate.key.symbol).map
            fun candidate => ⟨candidate.key, false⟩) := by
  obtain ⟨hcolumns, hfirst, hsecond⟩ := platformColumns_of_mem hplatform
  have hlines := delivered_lines hshort h
  have hfaults : s'.state.faults =
      (expectedFaults inputs s.lookups
        (((lines (inputs.faultManifest.read maxLine)).drop 1).flatMap (manifestRow columns))).map
        FaultKey.unobserved := by
    rw [loadFaultManifest, hcolumns] at h
    have hstart : s.Found s.state s.hasError ⟨[], s.lookups, false⟩ := by
      refine ⟨?_, rfl, (Bool.or_false _).symm⟩
      rw [List.map_nil, ← hnone]
    obtain ⟨next, hnext, rfl⟩ := repoTable_ok (simulates_faultStep columns) hstart h
    rw [state_endOfRows, hnext.state_eq, List.filterMap_eq_map', List.foldl_map, ← List.foldl_flatMap]
    dsimp only
    rw [foldl_take_found, List.nil_append, ← hlines, List.flatMap_map]
    congr 2
    refine List.flatMap_congr fun piece hpiece => candidatesOf_eq hfirst hsecond (hrows _ ?_)
    rw [← hlines]
    exact List.mem_map_of_mem hpiece
  refine ⟨hfaults, fun hstable => ?_⟩
  rw [hfaults, expectedFaults_of_stable hstable, List.map_map]
  rfl

/-! ### One row -/

/-- A run whose fault manifest has one row: three symbols on Linux, two of them conditional, and the macro
of one of these. -/
def faultInputs : Inputs :=
  { apiInputs [] with
    faultManifest := .whole ("header\n".toList ++
      "f\tu\td\tx\tEIO,ENOSYS,EPROTO\tEIO\tEIO\ty\tENOSYS,EPROTO\t\t\n".toList)
    macros := fun _ => .whole "#define EIO 5\n#define ENOSYS 38\n".toList }

/-- The session of that run when the manifest is loaded. -/
def faultSession : Session :=
  { Session.zero with
    state := { State.zero with apis := [{ ApiRecord.new "f".toList "u".toList with faultTest := true }] } }

/-- The records of that run behind the load. -/
def faultsLoaded : State :=
  { faultSession.state with
    faults := [⟨⟨"f".toList, "d".toList, "EIO".toList⟩, false⟩,
      ⟨⟨"f".toList, "d".toList, "ENOSYS".toList⟩, false⟩] }

theorem loadFaultManifest_expected_row :
    faultsLoaded.faults =
        (expectedFaults faultInputs faultSession.lookups
          (((lines (faultInputs.faultManifest.read maxLine)).drop 1).flatMap (manifestRow (4, 8)))).map
          (fun key => ⟨key, false⟩) ∧
      ((∀ lookups, faultInputs.macros lookups = faultInputs.macros 0) →
        faultsLoaded.faults =
          ((((lines (faultInputs.faultManifest.read maxLine)).drop 1).flatMap (manifestRow (4, 8))).filter
            fun candidate =>
              !candidate.conditional || macroFound faultInputs 0 candidate.key.symbol).map
            fun candidate => ⟨candidate.key, false⟩) :=
  loadFaultManifest_expected faultInputs apiArguments (4, 8) faultSession ⟨faultsLoaded, none, 2⟩
    (by decide) (by decide +kernel) (by decide +kernel) rfl (by decide +kernel)

end P101Test.Conformance
