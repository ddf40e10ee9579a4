import P101Test.Stdio.Lines

/-!
# Pieces of lines

The pieces a buffer delivers, line by line: those of a line begin at the multiples of the buffer's room
from the start of the line. What stands at such a place of a long line looks like the start of a line.

## Main definitions

* `rawLines`: the lines of a text with their newlines.
* `PieceOf`: a piece of a line, for a given room.

## Main results

* `mem_lines_iff`: the lines of a text are its lines with their newlines, without them.
* `mem_chunks_iff`: the pieces of a text are the pieces of its lines.
-/

namespace P101Test.Stdio

/-- The lines of a text with their newlines; the last one may have none. -/
def rawLines : Text → List Text
  | [] => []
  | c :: rest =>
    if c = '\n' then [c] :: rawLines rest
    else
      match rawLines rest with
      | [] => [[c]]
      | line :: others => (c :: line) :: others

/-- A piece of a line: it starts at a multiple of the room, and ends where the room is used up or the line
ends. -/
def PieceOf (room : ℕ) (raw piece : Text) : Prop :=
  ∃ count, count * room < raw.length ∧ piece = (raw.drop (count * room)).take room

example : rawLines "ab\n\nc".toList = ["ab\n".toList, "\n".toList, "c".toList] := by decide

variable {size room : ℕ} {line rest raw piece text : Text}

theorem rawLines_append (hline : '\n' ∉ line) (rest : Text) :
    rawLines (line ++ '\n' :: rest) = (line ++ ['\n']) :: rawLines rest := by
  induction line with
  | nil => rfl
  | cons c line ih =>
      rw [List.mem_cons, not_or] at hline
      rw [List.cons_append, rawLines, if_neg (Ne.symm hline.1), ih hline.2]
      rfl

theorem rawLines_of_notMem (hline : '\n' ∉ line) (hne : line ≠ []) : rawLines line = [line] := by
  induction line with
  | nil => exact absurd rfl hne
  | cons c line ih =>
      rw [List.mem_cons, not_or] at hline
      rw [rawLines, if_neg (Ne.symm hline.1)]
      by_cases hempty : line = []
      · rw [hempty]
        rfl
      · rw [ih hline.2 hempty]

/-- The lines of a text are its lines with their newlines, without them. -/
theorem mem_lines_iff :
    line ∈ lines text ↔ '\n' ∉ line ∧ (line ++ ['\n'] ∈ rawLines text ∨ line ∈ rawLines text ∧ line ≠ []) := by
  induction text using lines_induction with
  | nil => simp [rawLines]
  | last last hlast hne =>
      rw [lines_of_notMem hlast hne, rawLines_of_notMem hlast hne, List.mem_singleton, List.mem_singleton]
      constructor
      · rintro rfl
        exact ⟨hlast, .inr ⟨rfl, hne⟩⟩
      · rintro ⟨-, heq | ⟨heq, -⟩⟩
        · exact absurd (heq ▸ List.mem_append_right _ List.mem_cons_self) hlast
        · exact heq
  | cons first rest hfirst ih =>
      rw [lines_append hfirst, rawLines_append hfirst, List.mem_cons, List.mem_cons, List.mem_cons, ih]
      constructor
      · rintro (rfl | ⟨hline, hraw | ⟨hraw, hne⟩⟩)
        · exact ⟨hfirst, .inl (.inl rfl)⟩
        · exact ⟨hline, .inl (.inr hraw)⟩
        · exact ⟨hline, .inr ⟨.inr hraw, hne⟩⟩
      · rintro ⟨hline, (heq | hraw) | ⟨heq | hraw, hne⟩⟩
        · exact .inl (List.append_cancel_right heq)
        · exact .inr ⟨hline, .inl hraw⟩
        · exact absurd (heq ▸ List.mem_append_right _ List.mem_cons_self) hline
        · exact .inr ⟨hline, .inr ⟨hraw, hne⟩⟩

/-- A line with its newline is one of the lines and a newline, or the last line. -/
theorem exists_line_of_mem_rawLines (h : raw ∈ rawLines text) :
    ∃ line ∈ lines text, raw = line ++ ['\n'] ∨ raw = line := by
  induction text using lines_induction with
  | nil => cases h
  | last last hlast hne =>
      rw [rawLines_of_notMem hlast hne, List.mem_singleton] at h
      rw [lines_of_notMem hlast hne]
      exact ⟨last, List.mem_singleton_self _, .inr h⟩
  | cons first rest hfirst ih =>
      rw [rawLines_append hfirst, List.mem_cons] at h
      rw [lines_append hfirst]
      rcases h with rfl | h
      · exact ⟨first, List.mem_cons_self, .inl rfl⟩
      · obtain ⟨line, hline, hends⟩ := ih h
        exact ⟨line, List.mem_cons_of_mem _ hline, hends⟩

/-! ### Pieces -/

theorem pieceOf_of_le (hne : raw ≠ []) (hroom : raw.length ≤ room) :
    PieceOf room raw piece ↔ piece = raw := by
  have hpos : 0 < raw.length := List.length_pos_iff.mpr hne
  constructor
  · rintro ⟨count, hcount, rfl⟩
    have hzero : count = 0 := by
      by_contra hcount'
      have := Nat.le_mul_of_pos_left room (Nat.pos_of_ne_zero hcount')
      omega
    rw [hzero, Nat.zero_mul, List.drop_zero, List.take_of_length_le hroom]
  · rintro rfl
    refine ⟨0, by rwa [Nat.zero_mul], ?_⟩
    rw [Nat.zero_mul, List.drop_zero, List.take_of_length_le hroom]

/-- The first piece of a line that does not fit, and its others. -/
theorem pieceOf_append (hroom : line.length = room) (hpos : 0 < room) :
    PieceOf room (line ++ raw) piece ↔ piece = line ∨ PieceOf room raw piece := by
  have hfirst : ((line ++ raw).drop (0 * room)).take room = line := by
    rw [Nat.zero_mul, List.drop_zero, List.take_left' hroom]
  have hothers (count : ℕ) : (line ++ raw).drop ((count + 1) * room) = raw.drop (count * room) := by
    rw [Nat.succ_mul, Nat.add_comm, ← List.drop_drop, List.drop_left' hroom]
  constructor
  · rintro ⟨count, hcount, rfl⟩
    cases count with
    | zero => exact .inl hfirst
    | succ count =>
        rw [Nat.succ_mul, List.length_append] at hcount
        exact .inr ⟨count, by omega, by rw [hothers]⟩
  · rintro (rfl | ⟨count, hcount, rfl⟩)
    · exact ⟨0, by rw [List.length_append]; omega, hfirst.symm⟩
    · exact ⟨count + 1, by rw [List.length_append, Nat.succ_mul]; omega, by rw [hothers]⟩

/-- The pieces of the lines of a text without a newline are its own. -/
theorem exists_pieceOf_of_notMem (hline : '\n' ∉ line) :
    (∃ raw ∈ rawLines line, PieceOf room raw piece) ↔ PieceOf room line piece := by
  by_cases hne : line = []
  · subst hne
    simp [rawLines, PieceOf]
  · simp [rawLines_of_notMem hline hne]

/-- The pieces of a text are the pieces of its lines. -/
theorem mem_chunks_iff (hsize : 2 ≤ size) :
    piece ∈ chunks size text ↔ ∃ raw ∈ rawLines text, PieceOf (size - 1) raw piece := by
  induction hlength : text.length using Nat.strong_induction_on generalizing text with
  | _ count ih =>
      by_cases hnewline : '\n' ∈ text
      · obtain ⟨line, rest, rfl, hline⟩ := List.eq_append_cons_of_mem hnewline
        rw [List.length_append, List.length_cons] at hlength
        by_cases hroom : line.length + 2 ≤ size
        · have hpiece : PieceOf (size - 1) (line ++ ['\n']) piece ↔ piece = line ++ ['\n'] :=
            pieceOf_of_le (by simp) (by rw [List.length_append, List.length_singleton]; omega)
          rw [chunks_append hline hroom, rawLines_append hline, List.exists_mem_cons_iff, hpiece, List.mem_cons,
            ih rest.length (by omega) rfl]
        · -- the line goes on behind its first piece
          obtain ⟨first, more, rfl, hfirst⟩ : ∃ first more, line = first ++ more ∧ first.length = size - 1 :=
            ⟨line.take (size - 1), line.drop (size - 1), (List.take_append_drop _ _).symm,
              List.length_take_of_le (by omega)⟩
          rw [List.mem_append, not_or] at hline
          rw [List.append_assoc, chunks_of_full hline.1 hsize (by omega), List.mem_cons,
            ih (more ++ '\n' :: rest).length (by simp at hlength ⊢; omega) rfl, rawLines_append hline.2,
            ← List.append_assoc, rawLines_append (by simp [hline]), List.exists_mem_cons_iff,
            List.exists_mem_cons_iff, List.append_assoc, pieceOf_append hfirst (by omega), or_assoc]
      · rw [exists_pieceOf_of_notMem hnewline]
        by_cases hne : text = []
        · subst hne
          simp [chunks, chunksFrom, PieceOf]
        · by_cases hroom : text.length + 2 ≤ size
          · rw [chunks_of_notMem hnewline hne hroom, List.mem_singleton, pieceOf_of_le hne (by omega)]
          · obtain ⟨first, more, rfl, hfirst⟩ : ∃ first more, text = first ++ more ∧ first.length = size - 1 :=
              ⟨text.take (size - 1), text.drop (size - 1), (List.take_append_drop _ _).symm,
                List.length_take_of_le (by omega)⟩
            rw [List.mem_append, not_or] at hnewline
            rw [List.length_append] at hlength
            rw [chunks_of_full hnewline.1 hsize (by omega), List.mem_cons, ih more.length (by omega) rfl,
              exists_pieceOf_of_notMem hnewline.2, pieceOf_append hfirst (by omega)]

end P101Test.Stdio
