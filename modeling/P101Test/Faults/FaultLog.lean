import P101Test.Faults.Logs
import P101Test.Stdio.Lines

/-!
# The grammar of the fault log

The reader of a fault log answers what the grammar of the log says: the first line that is over-long or
tagged decides, and a tagged line is a hit exactly if it is a complete record of a supported version with
the semantics of its mode.

## Main definitions

* `Overlong`, `Tagged`: the lines that decide.
* `Accepted`: a record that is a hit.

## Main results

* `scanPieces_chunks`: scanning the pieces that are read is scanning the lines.
* `readFaultHit_grammar`: what the reader answers.
-/

namespace P101Test.Faults

open Stdio

variable (host : Host)

/-! ### The grammar -/

/-- A line without the newline and the carriage returns at its end. -/
def trimmed (line : Text) : Text := line.rdropWhile fun c => c == '\n' || c == '\r'

/-- A line that does not fit the buffer together with a newline. -/
def Overlong (line : Text) : Prop := readBufferLength - 1 ≤ line.length

instance (line : Text) : Decidable (Overlong line) := inferInstanceAs (Decidable (_ ≤ _))

/-- A line whose first field is the tag. -/
def Tagged (line : Text) : Prop := ((trimmed line).splitOn '\t').head? = some host.faultLogTag

instance (line : Text) : Decidable (Tagged host line) := inferInstanceAs (Decidable (_ = _))

/-- A record that is a hit, with the name it reports: it has ten fields, its version is the supported
one, and its phase and its disposition are the defaults of its mode. -/
def Accepted (line name : Text) : Prop :=
  ∃ tag version pid calls call errno mode amount phase disposition : Text,
    (trimmed line).splitOn '\t' =
      [tag, version, pid, calls, call, errno, mode, amount, phase, disposition] ∧
    host.unescape version = host.faultLogVersion ∧
    host.faultDefaults (host.unescape mode) = some (host.unescape phase, host.unescape disposition) ∧
    name = (host.unescape call).take (nameLength - 1)

/-- A line that decides. -/
def decides (line : Text) : Bool := Overlong line || Tagged host line

/-- The first line that decides. -/
def deciding (content : Text) : Option Text := (lines content).find? (decides host)

/-- What the line that decides amounts to. -/
def scanLine (line : Text) : Scanned :=
  if Overlong line then .malformed overlongRecord
  else
    let fields := (trimmed line).splitOn '\t'
    if fields.head? ≠ some host.faultLogTag then .skipped else scanFields host fields

/-! ### Scanning -/

variable {host}

/-- The semantics of a record are valid exactly if its phase and its disposition are the defaults of its
mode. -/
theorem faultSemanticsValid_iff (mode phase disposition : Text) :
    faultSemanticsValid host mode phase disposition = true ↔
      host.faultDefaults mode = some (phase, disposition) := by
  unfold faultSemanticsValid
  split
  · next hnone => simp [hnone]
  · next phaseWord dispositionWord hsome =>
    rw [hsome, Bool.and_eq_true, beq_iff_eq, beq_iff_eq, Option.some.injEq, Prod.mk.injEq]
    exact and_congr eq_comm eq_comm

theorem scanFields_eq_hit (line name : Text) :
    scanFields host ((trimmed line).splitOn '\t') = .hit name ↔ Accepted host line name := by
  unfold scanFields Accepted
  generalize (trimmed line).splitOn '\t' = fields
  constructor
  · intro h
    split at h
    · next version _ _ call _ mode _ phase disposition hfields =>
      simp only [List.map_eq_cons_iff, List.map_eq_nil_iff] at hfields
      obtain ⟨tag, _, rfl, -, version, _, rfl, rfl, pid, _, rfl, -, calls, _, rfl, -, call, _, rfl, rfl,
        errno, _, rfl, -, mode, _, rfl, rfl, amount, _, rfl, -, phase, _, rfl, rfl, disposition, _, rfl,
        rfl, rfl⟩ := hfields
      split at h
      · cases h
      · next hversion =>
        split at h
        · next hvalid =>
          exact ⟨tag, version, pid, calls, call, errno, mode, amount, phase, disposition, rfl,
            not_not.mp hversion, (faultSemanticsValid_iff _ _ _).mp hvalid, (Scanned.hit.inj h).symm⟩
        · cases h
    · cases h
  · rintro ⟨tag, version, pid, calls, call, errno, mode, amount, phase, disposition, rfl, hversion,
      hdefaults, rfl⟩
    simp only [List.map_cons, List.map_nil]
    rw [if_neg (not_not.mpr hversion), if_pos ((faultSemanticsValid_iff _ _ _).mpr hdefaults)]
    rfl

theorem scanFields_ne_skipped (fields : List Text) : scanFields host fields ≠ .skipped := by
  unfold scanFields
  split
  · split
    · exact Scanned.noConfusion
    · split <;> exact Scanned.noConfusion
  · exact Scanned.noConfusion

theorem scanLine_eq_skipped (line : Text) :
    scanLine host line = .skipped ↔ ¬decides host line = true := by
  unfold scanLine decides Tagged
  split
  · next hlong => simp [hlong]
  · next hfits =>
    dsimp only
    split
    · next htag => simp [hfits, htag]
    · next htag => simp [hfits, not_not.mp htag, scanFields_ne_skipped]

theorem cString_of_notMem {buffer : Text} (hnul : '\x00' ∉ buffer) : cString buffer = buffer :=
  List.takeWhile_eq_self_iff.mpr fun c hc => by
    simpa using fun h : c = '\x00' => hnul (h ▸ hc)

/-- Scanning a line with its newline is scanning the line. -/
theorem scanPiece_newline {line : Text} (hnul : '\x00' ∉ line) (hfits : ¬Overlong line) :
    scanPiece host (line ++ ['\n']) = scanLine host line := by
  have htrim : (line ++ ['\n']).rdropWhile (fun c => c == '\n' || c == '\r') = trimmed line :=
    List.rdropWhile_concat_pos _ _ _ rfl
  unfold scanPiece scanLine
  rw [cString_of_notMem (by simpa using hnul)]
  dsimp only
  rw [if_neg (by simp), if_neg hfits, htrim]

/-- So is scanning a line that has no newline. -/
theorem scanPiece_last {line : Text} (hnul : '\x00' ∉ line) (hfits : ¬Overlong line) :
    scanPiece host line = scanLine host line := by
  unfold scanPiece scanLine
  rw [cString_of_notMem hnul]
  dsimp only
  rw [if_neg (by unfold Overlong at hfits; omega), if_neg hfits]
  rfl

/-- The first piece of a line that is too long is malformed. -/
theorem scanPiece_overlong {line : Text} (hline : '\n' ∉ line) (hnul : '\x00' ∉ line)
    (hlong : Overlong line) :
    scanPiece host (line.take (readBufferLength - 1)) = .malformed overlongRecord := by
  unfold scanPiece
  rw [cString_of_notMem fun hmem => hnul (List.mem_of_mem_take hmem)]
  dsimp only
  rw [if_pos ⟨List.length_take_of_le hlong, fun hmem => hline (List.mem_of_mem_take hmem)⟩]

/-- The first piece decides unless it is skipped. -/
theorem scanPieces_cons (piece : Text) (rest : List Text) :
    scanPieces host (piece :: rest) =
      if scanPiece host piece = .skipped then scanPieces host rest else scanPiece host piece := by
  rw [scanPieces]
  split
  · next h => rw [if_pos h]
  · next h => rw [if_neg h]

/-- What a list of lines amounts to. -/
def scanLines (others : List Text) : Scanned :=
  ((others.find? (decides host)).map (scanLine host)).getD .skipped

/-- The first line decides unless it is skipped. -/
theorem scanLines_cons (line : Text) (others : List Text) :
    @scanLines host (line :: others) =
      if scanLine host line = .skipped then @scanLines host others else scanLine host line := by
  unfold scanLines
  by_cases hdecides : decides host line = true
  · rw [List.find?_cons_of_pos hdecides, if_neg fun h => (scanLine_eq_skipped line).mp h hdecides]
    rfl
  · rw [List.find?_cons_of_neg hdecides, if_pos ((scanLine_eq_skipped line).mpr hdecides)]

/-- **Scanning.** Scanning the pieces that are read answers what the line says that decides. -/
theorem scanPieces_chunks (content : Text) (hnul : '\x00' ∉ content) :
    scanPieces host (chunks readBufferLength content) =
      ((deciding host content).map (scanLine host)).getD .skipped := by
  change _ = scanLines (lines content)
  have hscan : ∀ line, Overlong line → scanLine host line = .malformed overlongRecord :=
    fun line hlong => if_pos hlong
  have hroom : ∀ line, ¬Overlong line → line.length + 2 ≤ readBufferLength := fun line hfits => by
    unfold Overlong readBufferLength at hfits
    unfold readBufferLength
    omega
  induction content using lines_induction with
  | nil => rfl
  | last line hline hne =>
      rw [lines_of_notMem hline hne, scanLines_cons]
      by_cases hlong : Overlong line
      · obtain ⟨others, hpieces⟩ := chunks_of_long hline (by decide) (Nat.sub_le_iff_le_add.mp hlong) []
        rw [List.append_nil] at hpieces
        rw [hpieces, scanPieces_cons, scanPiece_overlong hline hnul hlong, hscan line hlong,
          if_neg (by decide), if_neg (by decide)]
      · rw [chunks_of_notMem hline hne (hroom line hlong), scanPieces_cons, scanPiece_last hnul hlong]
        rfl
  | cons line rest hline ih =>
      rw [List.mem_append, List.mem_cons, not_or, not_or] at hnul
      rw [lines_append hline, scanLines_cons]
      by_cases hlong : Overlong line
      · obtain ⟨others, hpieces⟩ := chunks_of_long hline (by decide) (Nat.sub_le_iff_le_add.mp hlong)
          ('\n' :: rest)
        rw [hpieces, scanPieces_cons, scanPiece_overlong hline hnul.1 hlong, hscan line hlong,
          if_neg (by decide), if_neg (by decide)]
      · rw [chunks_append hline (hroom line hlong), scanPieces_cons, scanPiece_newline hnul.1 hlong,
          ih hnul.2.2]

/-! ### Reading -/

/-- The file at a path name as the next opening meets it. -/
def nextStream (host : Host) (path : Text) (w : World) : Stream := host.stream w.opened path

/-- The reader can be set up, and the file is opened, read and closed without a failure. -/
structure Reads (host : Host) (path : Text) (w : World) : Prop where
  granted : host.failure w.calls = none
  opens : (nextStream host path w).opens = true
  unbroken : (nextStream host path w).breaksAt = none
  closes : (nextStream host path w).closes = true

theorem readFaultHit_eq {path : Text} {w : World} (h : Reads host path w) :
    ∃ w', (w'.err = w.err ∧ readFaultHit host path w =
      match scanPieces host (chunks readBufferLength (nextStream host path w).content) with
      | .skipped => (false, [], w')
      | .malformed message => (false, [], w'.raise (.usage message))
      | .hit name => (true, name, w')) := by
  obtain ⟨hgranted, hopens, hunbroken, hcloses⟩ := h
  unfold nextStream at *
  refine ⟨{ w.tick with opened := w.opened + 1 }, rfl, ?_⟩
  have hattempt : attemptOptional host w = (true, w.tick) := by rw [attemptOptional, hgranted]; rfl
  rw [readFaultHit, hattempt]
  dsimp only [openStream]
  rw [show w.tick.opened = w.opened from rfl]
  cases hscan : scanPieces host (chunks readBufferLength (host.stream w.opened path).content) <;>
    simp only [hopens, Bool.true_eq_false, if_false, closeStream, hcloses, if_true, Stream.delivered,
      Stream.breaks, hunbroken, Bool.false_eq_true, hscan]

/-- What the grammar says that the reader answers for a content, with an error record before it. -/
def Answers (host : Host) (content : Text) (before : Option Fault) (answer : Bool × Text × World) : Prop :=
  match deciding host content with
  | none => answer.1 = false ∧ answer.2.1 = [] ∧ answer.2.2.err = before
  | some line =>
    if Overlong line then answer.1 = false ∧ answer.2.1 = [] ∧ answer.2.2.hasError = true
    else
      (∀ name, Accepted host line name →
        answer.1 = true ∧ answer.2.1 = name ∧ answer.2.2.err = before) ∧
      ((∀ name, ¬Accepted host line name) →
        answer.1 = false ∧ answer.2.1 = [] ∧ answer.2.2.hasError = true)

theorem scanLine_of_tagged {line : Text} (hdecides : decides host line = true) (hfits : ¬Overlong line) :
    scanLine host line = scanFields host ((trimmed line).splitOn '\t') := by
  have htagged : Tagged host line := by simpa [decides, hfits] using hdecides
  unfold scanLine
  dsimp only
  rw [if_neg hfits]
  exact if_neg (not_not.mpr htagged)

/-- **The grammar.** The first line of the log that is over-long or tagged decides what the reader answers:
an error, or a hit exactly if the line is accepted. Without such a line there is no hit and no error. -/
theorem readFaultHit_grammar (host : Host) (path : Text) (w : World) (hreads : Reads host path w)
    (hnul : '\x00' ∉ (nextStream host path w).content) :
    Answers host (nextStream host path w).content w.err (readFaultHit host path w) := by
  obtain ⟨w', herr, hanswer⟩ := readFaultHit_eq hreads
  rw [hanswer, scanPieces_chunks _ hnul, Answers]
  cases hdeciding : deciding host (nextStream host path w).content with
  | none => exact ⟨rfl, rfl, herr⟩
  | some line =>
      have hdecides : decides host line = true := List.find?_some hdeciding
      dsimp only [Option.map_some, Option.getD_some]
      split
      · next hlong =>
        rw [show scanLine host line = .malformed overlongRecord from if_pos hlong]
        exact ⟨rfl, rfl, rfl⟩
      · next hfits =>
        rw [scanLine_of_tagged hdecides hfits]
        constructor
        · intro name haccepted
          rw [(scanFields_eq_hit line name).mpr haccepted]
          exact ⟨rfl, rfl, herr⟩
        · intro hrejected
          cases hscan : scanFields host ((trimmed line).splitOn '\t') with
          | skipped => exact absurd hscan (scanFields_ne_skipped _)
          | malformed message => exact ⟨rfl, rfl, rfl⟩
          | hit name => exact absurd ((scanFields_eq_hit line name).mp hscan) (hrejected name)

/-- A host whose fault log has a line that is no record, and a record of an injected error. -/
def loggingHost : Host where
  failure _ := none
  pid := 1
  stream _ _ :=
    .whole "noise\nP101FAULT\t3\t1\t2\topen\t5\terror\t1\tbefore-call\tretry-safe\n".toList
  transfer _ := readBufferLength
  capture _ _ := (.exited 0, none)
  faultLogTag := "P101FAULT".toList
  faultLogVersion := "3".toList
  faultDefaults := modeDefaults
  unescape := id
  parsePolicy _ _ := ⟨false, 0, 0⟩

/-- The record is a hit on the call it names. -/
theorem readFaultHit_grammar_logging :
    (readFaultHit loggingHost [] (.initial fun _ => none)).1 = true ∧
    (readFaultHit loggingHost [] (.initial fun _ => none)).2.1 = "open".toList ∧
    Answers loggingHost (nextStream loggingHost [] (.initial fun _ => none)).content none
      (readFaultHit loggingHost [] (.initial fun _ => none)) :=
  ⟨by decide +kernel, by decide +kernel,
    readFaultHit_grammar loggingHost [] (.initial fun _ => none) ⟨rfl, rfl, rfl, rfl⟩ (by decide)⟩

end P101Test.Faults
