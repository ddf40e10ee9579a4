import P101Test.RepositoryReceipt.Law
import P101Test.Stdio.Lines

/-!
# The grammar of a result file

A result file is one line of six fields, with or without a terminator, and its last field is a number of
seconds. The reader cuts that field at its first carriage return, wherever it stands: it reads the grammar
exactly where no number of seconds is read in spite of a carriage return in the field.

## Main definitions

* `Terminates`: a line with or without its terminator.
* `Framed`: the fields of a content.
* `Duration`: a text is a number of seconds.
* `Grammatical`: the grammar, together with the record a content stands for.
* `ReturnFree`: no carriage return in the duration matters.

## Main results

* `splitOn_append_of_notMem`: a text behind the last separator belongs to the last piece.
* `describes_iff`: what the reader accepts, in terms of the fields of the grammar.
* `grammatical_iff`: when the reader accepts exactly the grammar.
-/

namespace P101Test.RepositoryReceipt

open Stdio

/-! ### The grammar -/

/-- A content is a line, with or without its terminator and with nothing behind it. -/
def Terminates (line content : Text) : Prop :=
  '\n' ∉ line ∧
    (content = line ∨ content = line ++ "\r\n".toList ∨
      content = line ++ "\n".toList ∧ line.getLast? ≠ some '\r')

/-- The fields of a content: it is a line of fewer than `MAX_LINE` bytes, and all fields but the last one,
the duration, fit their buffers. -/
def Framed (content : Text) (fields : List Text) (duration : Text) : Prop :=
  ∃ line, Terminates line content ∧ content.length < maxLine ∧
    line.splitOn '|' = fields ++ [duration] ∧ ∀ field ∈ fields, field.length < maxPath

/-- A text is a number of seconds: `strtol` reads all of it as a number of the type `long` that is not
negative. -/
def Duration (text : Text) (seconds : ℕ) : Prop :=
  strtol text = some ((seconds : ℤ), []) ∧ (seconds : ℤ) ≤ longMax

/-- The grammar: a content has the fields of a record, and its duration is that of the record. -/
def Grammatical (content : Text) (record : Record) : Prop :=
  ∃ duration, Framed content record.fields duration ∧ Duration duration record.durationSeconds

/-- A text up to its first carriage return. -/
def untilReturn (text : Text) : Text := text.takeWhile (· ≠ '\r')

/-- No carriage return matters: a duration with one is no number of seconds, neither whole nor up to the
first carriage return. -/
def ReturnFree (content : Text) : Prop :=
  ∀ record : Record, ∀ duration, Framed content record.fields duration → '\r' ∈ duration →
    ¬Duration duration record.durationSeconds ∧ ¬Duration (untilReturn duration) record.durationSeconds

/-! ### Fields -/

variable {content line duration : Text} {fields : List Text}

/-- A text behind the last separator belongs to the last piece. -/
theorem splitOn_append_of_notMem {init : List Text} {last tail : Text} {c : Char} (htail : c ∉ tail)
    (h : line.splitOn c = init ++ [last]) : (line ++ tail).splitOn c = init ++ [last ++ tail] := by
  induction init generalizing line with
  | nil =>
      by_cases hmem : c ∈ line
      · obtain ⟨piece, rest, rfl, hpiece⟩ := List.eq_append_cons_of_mem hmem
        rw [List.splitOn_append_cons_self_of_not_mem hpiece, List.nil_append, List.cons.injEq] at h
        exact absurd h.2 (List.splitOn_ne_nil _ _)
      · rw [List.splitOn_eq_singleton hmem, List.nil_append, List.cons.injEq] at h
        rw [h.1, List.nil_append]
        refine List.splitOn_eq_singleton ?_
        rw [List.mem_append, not_or, ← h.1]
        exact ⟨hmem, htail⟩
  | cons piece init ih =>
      by_cases hmem : c ∈ line
      · obtain ⟨piece', rest, rfl, hpiece⟩ := List.eq_append_cons_of_mem hmem
        rw [List.splitOn_append_cons_self_of_not_mem hpiece, List.cons_append, List.cons.injEq] at h
        rw [List.append_assoc, List.cons_append, List.splitOn_append_cons_self_of_not_mem hpiece,
          ih h.2, h.1, List.cons_append]
      · rw [List.splitOn_eq_singleton hmem, List.cons_append, List.cons.injEq] at h
        exact absurd h.2.symm (by simp)

theorem notMem_of_mem_splitOn {piece : Text} {c d : Char} (hline : d ∉ line)
    (h : piece ∈ line.splitOn c) : d ∉ piece := by
  intro hd
  induction hlength : line.length using Nat.strong_induction_on generalizing line with
  | _ count ih =>
      by_cases hmem : c ∈ line
      · obtain ⟨first, rest, rfl, hfirst⟩ := List.eq_append_cons_of_mem hmem
        rw [List.splitOn_append_cons_self_of_not_mem hfirst, List.mem_cons] at h
        rw [List.mem_append, List.mem_cons, not_or, not_or] at hline
        rcases h with rfl | hrest
        · exact hline.1 hd
        · exact ih rest.length (by simp at hlength; omega) hline.2.2 hrest rfl
      · rw [List.splitOn_eq_singleton hmem, List.mem_singleton] at h
        exact hline (h ▸ hd)

/-! ### Terminators -/

theorem Terminates.exists_tail (h : Terminates line content) :
    ∃ tail, content = line ++ tail ∧ (tail = [] ∨ tail = "\n".toList ∨ tail = "\r\n".toList) := by
  rcases h.2 with rfl | rfl | ⟨rfl, -⟩
  · exact ⟨[], (List.append_nil _).symm, .inl rfl⟩
  · exact ⟨_, rfl, .inr (.inr rfl)⟩
  · exact ⟨_, rfl, .inr (.inl rfl)⟩

theorem Terminates.notMem (h : Terminates line content) : '\n' ∉ content.dropLast := by
  obtain ⟨tail, rfl, rfl | rfl | rfl⟩ := h.exists_tail
  · rw [List.append_nil]
    exact fun hmem => h.1 (List.mem_of_mem_dropLast hmem)
  · simpa using h.1
  · rw [show line ++ "\r\n".toList = (line ++ ['\r']) ++ ['\n'] by simp, List.dropLast_concat]
    simpa using h.1

/-- A content with at most a newline at its end is a line with or without its terminator. -/
theorem exists_terminates (h : '\n' ∉ content.dropLast) : ∃ line, Terminates line content := by
  by_cases hmem : '\n' ∈ content
  · rcases List.eq_nil_or_concat content with rfl | ⟨init, c, hconcat⟩
    · cases hmem
    · rw [List.concat_eq_append] at hconcat
      subst hconcat
      rw [List.dropLast_concat] at h
      have hc : c = '\n' := by simpa [h, eq_comm] using hmem
      subst hc
      rcases List.eq_nil_or_concat init with rfl | ⟨line, d, hconcat⟩
      · exact ⟨[], h, .inr (.inr ⟨rfl, by simp⟩)⟩
      · rw [List.concat_eq_append] at hconcat
        subst hconcat
        by_cases hd : d = '\r'
        · subst hd
          refine ⟨line, fun hline => h (List.mem_append_left _ hline), .inr (.inl ?_)⟩
          simp
        · exact ⟨line ++ [d], h, .inr (.inr ⟨rfl, by simpa using hd⟩)⟩
  · exact ⟨content, hmem, .inl rfl⟩

/-- The reader cuts a duration with its terminator where it cuts the duration. -/
theorem takeWhile_append_tail {tail : Text} (hline : '\n' ∉ duration)
    (htail : tail = [] ∨ tail = "\n".toList ∨ tail = "\r\n".toList) :
    (duration ++ tail).takeWhile (fun c => c ≠ '\r' && c ≠ '\n') = untilReturn duration := by
  induction duration with
  | nil => rcases htail with rfl | rfl | rfl <;> rfl
  | cons c duration ih =>
      rw [List.mem_cons, not_or] at hline
      rw [List.cons_append, List.takeWhile_cons, ih hline.2, untilReturn, untilReturn, List.takeWhile_cons]
      by_cases hc : c = '\r'
      · simp [hc]
      · simp [hc, Ne.symm hline.1]

/-! ### What the reader accepts -/

/-- The reader accepts the contents with the fields of the record whose duration is that of the record up
to the first carriage return. -/
theorem describes_iff (hnul : '\x00' ∉ content) (record : Record) :
    Describes content record ↔
      ∃ duration, Framed content record.fields duration ∧
        Duration (untilReturn duration) record.durationSeconds := by
  have hwhole : cString content = content :=
    List.takeWhile_eq_self_iff.mpr fun c hc => by simpa using fun heq : c = '\x00' => hnul (heq ▸ hc)
  constructor
  · rintro ⟨piece, hpiece, whole, hsplit, hfit, hnumber, hmax⟩
    obtain ⟨rfl, -, hroom, hline⟩ := (chunks_eq_singleton_iff (by decide)).mp hpiece
    rw [hwhole] at hsplit
    obtain ⟨line, hterminates⟩ := exists_terminates hline
    obtain ⟨tail, htail, hkinds⟩ := hterminates.exists_tail
    have hbar : '|' ∉ tail := by rcases hkinds with rfl | rfl | rfl <;> decide
    obtain ⟨init, duration, hinit⟩ : ∃ init duration, line.splitOn '|' = init ++ [duration] := by
      rcases List.eq_nil_or_concat (line.splitOn '|') with hnil | ⟨init, duration, hconcat⟩
      · exact absurd hnil (List.splitOn_ne_nil _ _)
      · exact ⟨init, duration, by rw [hconcat, List.concat_eq_append]⟩
    have hall : init ++ [duration ++ tail] = record.fields ++ [whole] := by
      rw [← splitOn_append_of_notMem hbar hinit, ← htail]
      exact hsplit
    obtain ⟨rfl, hlast⟩ := List.append_inj' hall rfl
    have hnewline : '\n' ∉ duration := notMem_of_mem_splitOn hterminates.1 (by rw [hinit]; simp)
    rw [List.singleton_inj] at hlast
    rw [← hlast, takeWhile_append_tail hnewline hkinds] at hnumber
    exact ⟨duration, ⟨line, hterminates, hroom, hinit, hfit⟩, hnumber, hmax⟩
  · rintro ⟨duration, ⟨line, hterminates, hroom, hinit, hfit⟩, hnumber, hmax⟩
    obtain ⟨tail, htail, hkinds⟩ := hterminates.exists_tail
    have hbar : '|' ∉ tail := by rcases hkinds with rfl | rfl | rfl <;> decide
    have hnewline : '\n' ∉ duration := notMem_of_mem_splitOn hterminates.1 (by rw [hinit]; simp)
    have hne : content ≠ [] := by
      rintro rfl
      have hnil : line = [] := (List.append_eq_nil_iff.mp htail.symm).1
      rw [hnil] at hinit
      simpa [Record.fields] using congrArg List.length hinit
    refine ⟨content, (chunks_eq_singleton_iff (by decide)).mpr ⟨rfl, hne, hroom, hterminates.notMem⟩,
      duration ++ tail, ?_, hfit, ?_, hmax⟩
    · rw [hwhole, htail]
      exact splitOn_append_of_notMem hbar hinit
    · rw [takeWhile_append_tail hnewline hkinds]
      exact hnumber

/-! ### The grammar and the reader -/

theorem Terminates.eq {line' : Text} (h : Terminates line content) (h' : Terminates line' content) :
    line = line' := by
  -- a line that ends with a carriage return has no bare newline as its terminator
  have hreturn {a b : Text} (hb : b.getLast? ≠ some '\r') (heq : a ++ "\r\n".toList = b ++ "\n".toList) :
      False := by
    rw [show a ++ "\r\n".toList = (a ++ ['\r']) ++ "\n".toList by simp] at heq
    rw [← List.append_cancel_right heq] at hb
    simp at hb
  have hnewline {a b tail : Text} (ha : '\n' ∉ a) (heq : a = b ++ tail) (htail : '\n' ∈ tail) : False :=
    ha (heq ▸ List.mem_append_right _ htail)
  obtain ⟨hline, rfl | rfl | ⟨rfl, hlast⟩⟩ := h
  · rcases h' with ⟨-, heq | heq | ⟨heq, -⟩⟩
    · exact heq
    · exact (hnewline hline heq (by decide)).elim
    · exact (hnewline hline heq (by decide)).elim
  · rcases h' with ⟨hline', heq | heq | ⟨heq, hlast'⟩⟩
    · exact (hnewline hline' heq.symm (by decide)).elim
    · exact List.append_cancel_right heq
    · exact (hreturn hlast' heq).elim
  · rcases h' with ⟨hline', heq | heq | ⟨heq, -⟩⟩
    · exact (hnewline hline' heq.symm (by decide)).elim
    · exact (hreturn hlast heq.symm).elim
    · exact List.append_cancel_right heq

theorem Framed.duration_eq {fields' : List Text} {duration' : Text} (h : Framed content fields duration)
    (h' : Framed content fields' duration') : duration = duration' := by
  obtain ⟨line, hterminates, -, hsplit, -⟩ := h
  obtain ⟨line', hterminates', -, hsplit', -⟩ := h'
  rw [hterminates.eq hterminates', hsplit'] at hsplit
  exact List.singleton_inj.mp (List.append_inj' hsplit rfl).2.symm

/-- A number ends at a carriage return: a duration with one is not read both whole and up to it. -/
theorem not_duration_untilReturn (h : '\r' ∈ duration) {seconds seconds' : ℕ}
    (hwhole : Duration duration seconds) : ¬Duration (untilReturn duration) seconds' := by
  intro huntil
  obtain ⟨text, rest, rfl, htext⟩ := List.eq_append_cons_of_mem h
  have huntil' : untilReturn (text ++ '\r' :: rest) = text := by
    rw [untilReturn, List.takeWhile_append_of_pos fun c hc => by
      simpa using fun heq : c = '\r' => htext (heq ▸ hc)]
    simp
  rw [huntil'] at huntil
  have hread : strtol (text ++ '\r' :: rest) = some ((seconds' : ℤ), '\r' :: rest) :=
    strtol_append huntil.1 fun c hc => by
      obtain rfl : '\r' = c := by simpa using hc
      decide
  rw [hwhole.1] at hread
  cases hread

theorem untilReturn_of_notMem (h : '\r' ∉ duration) : untilReturn duration = duration :=
  List.takeWhile_eq_self_iff.mpr fun c hc => by simpa using fun heq : c = '\r' => h (heq ▸ hc)

/-- **The grammar of a result file.** The reader accepts exactly the contents of the grammar, each with its
record, if and only if no carriage return in the duration matters. -/
theorem grammatical_iff {stream : Stream} (h : Succeeds stream) (hnul : '\x00' ∉ stream.content) :
    (∀ record, loadResult stream none = (some record, none) ↔ Grammatical stream.content record) ↔
      ReturnFree stream.content := by
  constructor
  · intro hgrammar record duration hframed hreturn
    constructor
    · intro hwhole
      have haccepted := (hgrammar record).mpr ⟨duration, hframed, hwhole⟩
      obtain ⟨duration', hframed', huntil⟩ :=
        (describes_iff hnul record).mp ((loadResult_eq_iff h record).mp haccepted)
      rw [← hframed.duration_eq hframed'] at huntil
      exact not_duration_untilReturn hreturn hwhole huntil
    · intro huntil
      have haccepted := (loadResult_eq_iff h record).mpr
        ((describes_iff hnul record).mpr ⟨duration, hframed, huntil⟩)
      obtain ⟨duration', hframed', hwhole⟩ := (hgrammar record).mp haccepted
      rw [← hframed.duration_eq hframed'] at hwhole
      exact not_duration_untilReturn hreturn hwhole huntil
  · intro hfree record
    rw [loadResult_eq_iff h, describes_iff hnul]
    refine exists_congr fun duration => and_congr_right fun hframed => ?_
    by_cases hreturn : '\r' ∈ duration
    · obtain ⟨hwhole, huntil⟩ := hfree record duration hframed hreturn
      exact iff_of_false huntil hwhole
    · rw [untilReturn_of_notMem hreturn]

/-- A result as it should be: its carriage return belongs to the end of the line. -/
theorem grammatical_wellFormed :
    loadResult (.whole "alpha|PASS|PASS|u|f|12\r\n".toList) none =
        (some ⟨"alpha".toList, "PASS".toList, "PASS".toList, "u".toList, "f".toList, 12⟩, none) ∧
      ∀ record, loadResult (.whole "alpha|PASS|PASS|u|f|12\r\n".toList) none = (some record, none) ↔
        Grammatical "alpha|PASS|PASS|u|f|12\r\n".toList record := by
  refine ⟨by decide, (grammatical_iff ⟨rfl, rfl, rfl⟩ (by decide)).mpr ?_⟩
  rintro record duration ⟨line, hterminates, -, hsplit, -⟩ hreturn
  have hline : line = "alpha|PASS|PASS|u|f|12".toList :=
    hterminates.eq ⟨by decide, .inr (.inl (by decide))⟩
  have hlast := congrArg List.getLast? hsplit
  rw [hline, List.getLast?_concat] at hlast
  have hduration : duration = "12".toList := (Option.some.inj hlast).symm
  rw [hduration] at hreturn
  exact absurd hreturn (by decide)

/-- Text behind a carriage return is accepted, though the duration is no number. -/
theorem not_grammatical_return :
    ¬∀ record, loadResult (.whole "alpha|PASS|PASS|u|f|12\rjunk\n".toList) none = (some record, none) ↔
      Grammatical "alpha|PASS|PASS|u|f|12\rjunk\n".toList record := by
  intro hgrammar
  have haccepted : loadResult (.whole "alpha|PASS|PASS|u|f|12\rjunk\n".toList) none =
      (some ⟨"alpha".toList, "PASS".toList, "PASS".toList, "u".toList, "f".toList, 12⟩, none) := by
    decide
  obtain ⟨duration, ⟨line, hterminates, -, hsplit, -⟩, hduration, -⟩ := (hgrammar _).mp haccepted
  have hline : line = "alpha|PASS|PASS|u|f|12\rjunk".toList :=
    hterminates.eq ⟨by decide, .inr (.inr ⟨rfl, by decide⟩)⟩
  rw [hline] at hsplit
  have hlast : duration = "12\rjunk".toList := by
    have := congrArg List.getLast? hsplit
    rw [List.getLast?_concat] at this
    exact (Option.some.inj this).symm
  rw [hlast] at hduration
  revert hduration
  decide

end P101Test.RepositoryReceipt
