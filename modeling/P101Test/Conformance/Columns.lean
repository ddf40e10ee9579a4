import Mathlib.Data.List.TakeWhile
import P101Test.Conformance.Evidence
import P101Test.Stdio.Lines

/-!
# Rows with exactly the declared columns

The five tables of the conformance check are split at tabs by one function, which stops at the number of
columns the table has. A row with fewer columns is malformed; the further columns of one with more are not
seen, and it is taken for a record.

## Main definitions

* `columnsOf`: the columns of a line.
* `TableKind`, `tables`: what distinguishes the five tables.
* `ExactColumns`: a table takes a line for a record only if it has the declared columns.

## Main results

* `splitFields_eq`: the fields are the first columns.
* `exactColumns_iff`: which lines a table takes for what they are.
* `not_exactColumns_api`: a row with a column too many is a record.
-/

namespace P101Test.Conformance

open Stdio Table

variable {inputs : Inputs} {arguments : Arguments} {s s' : Session} {limit : ℕ} {line piece : Text}

/-! ### Fields and columns -/

/-- The columns of a line. -/
def columnsOf (piece : Text) : List Text := (textOf piece).splitOn '\t'

theorem columnsOf_of_notMem {first : Text} (htab : '\t' ∉ first) (hnewline : '\n' ∉ first)
    {rest : Text} (hrest : textOf rest = []) : columnsOf (first ++ rest) = [first] := by
  rw [columnsOf, textOf_append hnewline, hrest, List.append_nil]
  exact List.splitOn_eq_singleton htab

theorem columnsOf_append {first : Text} (htab : '\t' ∉ first) (hnewline : '\n' ∉ first) (rest : Text) :
    columnsOf (first ++ '\t' :: rest) = first :: columnsOf rest := by
  have htext : textOf ('\t' :: rest) = '\t' :: textOf rest := rfl
  rw [columnsOf, textOf_append hnewline, htext]
  exact List.splitOn_append_cons_self_of_not_mem htab _

/-- The fields of a line are its first columns. -/
theorem splitFields_eq (limit : ℕ) (line : Text) :
    splitFields limit line = (columnsOf line).take limit := by
  induction limit generalizing line with
  | zero => rfl
  | succ limit ih =>
      have hnotMem : ∀ c, (c = '\t' ∨ c = '\n') → c ∉ line.takeWhile fun c => c ≠ '\t' && c ≠ '\n' := by
        intro c hc hmem
        have := List.mem_takeWhile_imp hmem
        rcases hc with rfl | rfl <;> simp at this
      have htab := hnotMem '\t' (.inl rfl)
      have hnewline := hnotMem '\n' (.inr rfl)
      have hsplit := List.takeWhile_append_dropWhile (p := fun c => c ≠ '\t' && c ≠ '\n') (l := line)
      have hstop := List.head?_dropWhile_not (fun c => c ≠ '\t' && c ≠ '\n') line
      rw [splitFields]
      generalize line.takeWhile (fun c => c ≠ '\t' && c ≠ '\n') = first at htab hnewline hsplit ⊢
      generalize line.dropWhile (fun c => c ≠ '\t' && c ≠ '\n') = tail at hsplit hstop ⊢
      subst hsplit
      rcases tail with _ | ⟨c, rest⟩
      · rw [columnsOf_of_notMem htab hnewline rfl, List.take_succ_cons, List.take_nil]
      · by_cases hc : c = '\t'
        · subst hc
          rw [columnsOf_append htab hnewline, List.take_succ_cons, ← ih]
          rfl
        · obtain rfl : c = '\n' := by simpa [hc] using hstop
          rw [columnsOf_of_notMem htab hnewline rfl, List.take_succ_cons, List.take_nil]
          rfl

/-! ### The five tables -/

/-- What distinguishes a table: the number of its columns, what a malformed row is reported as, its rows,
the step for one row, and its loader. -/
structure TableKind where
  columns : ℕ
  malformed : Text
  rows : List Text
  step : Session → Text → Loading
  load : Session → Loading

/-- The API manifest. -/
def apiTable (inputs : Inputs) (arguments : Arguments) : TableKind :=
  ⟨5, "malformed API manifest".toList, deliveredRows inputs.apiManifest true, apiStep,
    loadApiManifest inputs arguments⟩

/-- The unit-test manifest. -/
def testTable (inputs : Inputs) (arguments : Arguments) : TableKind :=
  ⟨4, "malformed unit-test manifest".toList, deliveredRows inputs.testManifest true, testStep,
    loadTestManifest inputs arguments⟩

/-- The conformance manifest. -/
def contractTable (inputs : Inputs) (arguments : Arguments) : TableKind :=
  ⟨4, "malformed conformance manifest".toList, deliveredRows inputs.conformanceManifest true,
    contractStep, loadConformanceManifest inputs arguments⟩

/-- The fault-outcome manifest, read for the columns of a platform. -/
def faultTable (inputs : Inputs) (arguments : Arguments) : TableKind :=
  ⟨11, "malformed fault-outcome manifest".toList, deliveredRows inputs.faultManifest true,
    faultStep inputs ((platformColumns arguments.platform).getD (0, 0)),
    loadFaultManifest inputs arguments⟩

/-- The outcomes of the wrappers. -/
def outcomeTable (inputs : Inputs) (arguments : Arguments) : TableKind :=
  ⟨10, "malformed wrapper outcome record".toList, deliveredRows inputs.outcomes false,
    outcomeStep arguments, loadOutcomes inputs arguments⟩

/-- The five tables. -/
def tables (inputs : Inputs) (arguments : Arguments) : List TableKind :=
  [apiTable inputs arguments, testTable inputs arguments, contractTable inputs arguments,
    faultTable inputs arguments, outcomeTable inputs arguments]

/-- A table takes a line for a record only if the line has the declared columns, and delivers these; any
other line is reported as malformed, and makes the load fail. -/
structure ExactColumns (table : TableKind) (piece : Text) : Prop where
  delivered : (splitFields table.columns (cString piece)).length = table.columns →
    splitFields table.columns (cString piece) = columnsOf piece
  reported : (columnsOf piece).length ≠ table.columns →
    ∀ s, table.step s piece = .error (s.raise (.user table.malformed))
  fails : (columnsOf piece).length ≠ table.columns → piece ∈ table.rows →
    ∀ s, ∃ s', table.load s = .error s'

/-- The line has the declared columns and no null character, or what stands before its first null character
has fewer columns. -/
def ColumnsFit (table : TableKind) (piece : Text) : Prop :=
  ((columnsOf piece).length = table.columns ∧ '\x00' ∉ textOf piece) ∨
    (columnsOf (cString piece)).length < table.columns

/-! ### Rejected rows -/

theorem readTable_error {stream : Stream} {header : Bool} {step : Session → Text → Loading}
    (hpiece : piece ∈ deliveredRows stream header) (hstep : ∀ s, ∃ s', step s piece = .error s')
    (s : Session) : ∃ s', readTable stream header step s = .error s' := by
  unfold readTable
  split
  · exact ⟨_, rfl⟩
  · obtain ⟨s', hloop⟩ := foldlM_error_of_mem hpiece hstep s
    rw [hloop]
    exact ⟨_, rfl⟩

theorem repoTable_error {file : Text} {stream : Stream} {step : Session → Text → Loading}
    (hpiece : piece ∈ deliveredRows stream true) (hstep : ∀ s, ∃ s', step s piece = .error s')
    (s : Session) : ∃ s', repoTable arguments file stream step s = .error s' := by
  unfold repoTable
  split
  · exact ⟨_, rfl⟩
  · exact readTable_error hpiece hstep s

/-- A table reports a line with a wrong number of fields, and a row that is always rejected makes its load
fail. -/
structure Rejects (table : TableKind) : Prop where
  reports : ∀ s piece, (splitFields table.columns (cString piece)).length ≠ table.columns →
    table.step s piece = .error (s.raise (.user table.malformed))
  fails : ∀ piece ∈ table.rows, (∀ s, ∃ s', table.step s piece = .error s') →
    ∀ s, ∃ s', table.load s = .error s'

/-- Four of the tables match a line on as many names as they have columns, and report what does not match. -/
theorem reports_of_length (inputs : Inputs) (arguments : Arguments) {table : TableKind}
    (h : table ∈ [apiTable inputs arguments, testTable inputs arguments, contractTable inputs arguments,
      outcomeTable inputs arguments]) (s : Session) (piece : Text)
    (hlength : (splitFields table.columns (cString piece)).length ≠ table.columns) :
    table.step s piece = .error (s.raise (.user table.malformed)) := by
  simp only [List.mem_cons, List.not_mem_nil, or_false] at h
  rcases h with rfl | rfl | rfl | rfl
  all_goals
    dsimp only [apiTable, testTable, contractTable, outcomeTable] at hlength ⊢
    simp only [apiStep, testStep, contractStep, outcomeStep]
    split
    · next hfields => exact absurd (congrArg List.length hfields) hlength
    · rfl

theorem rejects_faultTable (inputs : Inputs) (arguments : Arguments) :
    Rejects (faultTable inputs arguments) where
  reports s piece hlength := if_pos hlength
  fails piece hpiece hstep s := by
    change ∃ s', loadFaultManifest inputs arguments s = .error s'
    unfold loadFaultManifest
    split
    · exact ⟨_, rfl⟩
    · next columns hcolumns =>
      have hget : (platformColumns arguments.platform).getD (0, 0) = columns := by rw [hcolumns]; rfl
      exact repoTable_error hpiece (hget ▸ hstep) s

theorem rejects_of_mem {table : TableKind} (h : table ∈ tables inputs arguments) : Rejects table := by
  simp only [tables, List.mem_cons, List.not_mem_nil, or_false] at h
  rcases h with rfl | rfl | rfl | rfl | rfl
  · exact ⟨reports_of_length inputs arguments (by simp),
      fun piece hpiece hstep => repoTable_error hpiece hstep⟩
  · exact ⟨reports_of_length inputs arguments (by simp),
      fun piece hpiece hstep => repoTable_error hpiece hstep⟩
  · exact ⟨reports_of_length inputs arguments (by simp),
      fun piece hpiece hstep => repoTable_error hpiece hstep⟩
  · exact rejects_faultTable inputs arguments
  · exact ⟨reports_of_length inputs arguments (by simp),
      fun piece hpiece hstep => readTable_error hpiece hstep⟩

/-! ### When the columns are exact -/

theorem length_splitFields (limit : ℕ) (line : Text) :
    (splitFields limit line).length = min limit (columnsOf line).length := by
  rw [splitFields_eq, List.length_take]

/-- The text of a C string is the text of the buffer up to its first null character. -/
theorem textOf_cString (piece : Text) : textOf (cString piece) = cString (textOf piece) := by
  rw [textOf, cString, textOf, cString, List.takeWhile_takeWhile, List.takeWhile_takeWhile]
  simp only [and_comm]

theorem columnsOf_cString (h : '\x00' ∉ textOf piece) : columnsOf (cString piece) = columnsOf piece := by
  rw [columnsOf, textOf_cString, columnsOf, cString,
    List.takeWhile_eq_self_iff.mpr fun c hc => by simpa using fun heq : c = '\x00' => h (heq ▸ hc)]

theorem mem_intercalate_iff {c : Char} (hc : c ≠ '\t') (columns : List Text) :
    c ∈ ['\t'].intercalate columns ↔ ∃ column ∈ columns, c ∈ column := by
  induction columns with
  | nil => simp
  | cons first rest ih =>
      cases rest with
      | nil => simp
      | cons second rest =>
          rw [List.intercalate_cons_cons, List.mem_append, List.mem_append, ih, List.exists_mem_cons_iff]
          simp [hc]

/-- A character other than a tab is in a line exactly if it is in one of its columns. -/
theorem mem_textOf_iff {c : Char} (hc : c ≠ '\t') (piece : Text) :
    c ∈ textOf piece ↔ ∃ column ∈ columnsOf piece, c ∈ column := by
  have hjoin : ['\t'].intercalate (columnsOf piece) = textOf piece := List.intercalate_splitOn '\t'
  rw [← hjoin, mem_intercalate_iff hc]

theorem columnsOf_ne_take (h : '\x00' ∈ textOf piece) (limit : ℕ) :
    (columnsOf (cString piece)).take limit ≠ columnsOf piece := by
  intro heq
  obtain ⟨column, hcolumn, hnul⟩ := (mem_textOf_iff (by decide) piece).mp h
  rw [← heq] at hcolumn
  have hmem := (mem_textOf_iff (by decide) (cString piece)).mpr ⟨column, List.mem_of_mem_take hcolumn, hnul⟩
  rw [textOf_cString, cString] at hmem
  simpa using List.mem_takeWhile_imp hmem

/-- **When the columns are exact.** -/
theorem exactColumns_iff (inputs : Inputs) (arguments : Arguments) (table : TableKind)
    (h : table ∈ tables inputs arguments) (piece : Text) :
    ExactColumns table piece ↔ ColumnsFit table piece := by
  have hrejects := rejects_of_mem h
  have hlength := length_splitFields table.columns (cString piece)
  constructor
  · intro hexact
    rw [ColumnsFit, or_iff_not_imp_right, Nat.not_lt]
    intro hfull
    have hfields := hexact.delivered (by omega)
    have hnul : '\x00' ∉ textOf piece := by
      intro hmem
      rw [splitFields_eq] at hfields
      exact columnsOf_ne_take hmem _ hfields
    exact ⟨by rw [← hfields, hlength]; omega, hnul⟩
  · rintro (⟨hcount, hnul⟩ | hfew)
    · refine ⟨fun _ => ?_, fun hne => absurd hcount hne, fun hne => absurd hcount hne⟩
      rw [splitFields_eq, columnsOf_cString hnul, ← hcount, List.take_length]
    · have hreported : ∀ s, table.step s piece = .error (s.raise (.user table.malformed)) :=
        fun s => hrejects.reports s piece (by omega)
      exact ⟨fun hlong => by omega, fun _ => hreported,
        fun _ hpiece => hrejects.fails piece hpiece fun s => ⟨_, hreported s⟩⟩

/-! ### A column too many -/

/-- The files of a run whose API manifest has a header and one row. -/
def apiInputs (row : Text) : Inputs where
  apiManifest := .whole ("name\tusr\theader\tkind\tsince\n".toList ++ row)
  testManifest := .missing
  conformanceManifest := .missing
  faultManifest := .missing
  macros _ := .missing
  instrumentation := ⟨[], none⟩
  model := ⟨[], none⟩
  outcomes := .missing
  receipt := ⟨true, true, true⟩

/-- A run for a library on Linux. -/
def apiArguments : Arguments where
  library := "l".toList
  repo := "/r".toList
  instrumentation := "/i".toList
  model := "/m".toList
  outcomes := "/o".toList
  platform := "linux".toList
  macros := "/d".toList
  receipt := "/c".toList

/-- A row of the API manifest with the declared columns. -/
def exactRow : Text := "f\tu\th\tk\ts\n".toList

/-- The same row with a column too many. -/
def widerRow : Text := "f\tu\th\tk\ts\tx\n".toList

/-- The first row is taken for what it is. -/
theorem exactColumns_exactRow :
    (loadApiManifest (apiInputs exactRow) apiArguments .zero).toOption.map (fun s => s.state.apis) =
        some [.new "f".toList "u".toList] ∧
      ExactColumns (apiTable (apiInputs exactRow) apiArguments) exactRow := by
  refine ⟨by decide, (exactColumns_iff (apiInputs exactRow) apiArguments _ (by simp [tables])
    exactRow).mpr (.inl ⟨?_, ?_⟩)⟩
  · decide
  · decide

/-- **A column too many.** The manifest with the second row is loaded, and the row is a record. -/
theorem not_exactColumns_api :
    widerRow ∈ (apiTable (apiInputs widerRow) apiArguments).rows ∧
      (loadApiManifest (apiInputs widerRow) apiArguments .zero).toOption.map (fun s => s.state.apis) =
        some [.new "f".toList "u".toList] ∧
      (columnsOf widerRow).length = 6 ∧
      ¬ ExactColumns (apiTable (apiInputs widerRow) apiArguments) widerRow := by
  refine ⟨by decide, by decide, by decide, fun hexact => ?_⟩
  have hreported := hexact.reported (by decide) .zero
  exact absurd hreported (by decide)

end P101Test.Conformance
