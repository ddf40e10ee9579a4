import P101Test.Stdio.Stream

/-!
# Lines

The lines of a text, and the pieces that reading it with a buffer delivers: a line that fits is delivered
whole with its newline, and of one that does not fit the first piece fills the buffer.

## Main definitions

* `lines`: the lines of a text.
* `textOf`: a piece without its newline.
* `Stream.read`: the text that was read.

## Main results

* `lines_append`: the first line of a text and the others.
* `lines_induction`: induction on the lines of a text.
* `chunks_append`, `chunks_of_long`: the first piece of a text.
* `chunks_eq_singleton_iff`: the texts that are delivered in one piece.
* `map_textOf_chunks`: the pieces of a text with short lines.
* `Stream.delivered_eq`: the pieces of the text that was read.
-/

namespace P101Test.Stdio

/-- The lines of a text, without their newlines; nothing follows a final newline. -/
def lines (text : Text) : List Text :=
  if (text.splitOn '\n').getLast? = some [] then (text.splitOn '\n').dropLast else text.splitOn '\n'

variable {size : ℕ} {line rest : Text}

@[simp] theorem lines_nil : lines [] = [] := rfl

theorem lines_append (hline : '\n' ∉ line) (rest : Text) :
    lines (line ++ '\n' :: rest) = line :: lines rest := by
  have hsplit : (line ++ '\n' :: rest).splitOn '\n' = line :: rest.splitOn '\n' :=
    List.splitOn_append_cons_self_of_not_mem hline rest
  have hne : rest.splitOn '\n' ≠ [] := List.splitOn_ne_nil _ _
  unfold lines
  rw [hsplit, List.getLast?_cons_of_ne_nil hne]
  split
  · rw [List.dropLast_cons_of_ne_nil hne]
  · rfl

theorem lines_of_notMem (hline : '\n' ∉ line) (hne : line ≠ []) : lines line = [line] := by
  have hsplit : line.splitOn '\n' = [line] := List.splitOn_eq_singleton hline
  unfold lines
  rw [hsplit, if_neg (by simpa using hne)]

/-- Induction on the lines of a text. -/
theorem lines_induction {motive : Text → Prop} (nil : motive [])
    (last : ∀ line, '\n' ∉ line → line ≠ [] → motive line)
    (cons : ∀ line rest, '\n' ∉ line → motive rest → motive (line ++ '\n' :: rest)) (text : Text) :
    motive text := by
  by_cases hnewline : '\n' ∈ text
  · obtain ⟨line, rest, rfl, hline⟩ := List.eq_append_cons_of_mem hnewline
    exact cons line rest hline (lines_induction nil last cons rest)
  · by_cases hempty : text = []
    · exact hempty ▸ nil
    · exact last text hnewline hempty
termination_by text.length
decreasing_by
  subst_vars
  simp only [List.length_append, List.length_cons]
  omega

/-! ### Pieces -/

/-- Characters before a newline are kept while there is room. -/
theorem chunksFrom_append {buffer : Text} (hline : '\n' ∉ line)
    (hroom : buffer.length + line.length + 1 < size) (rest : Text) :
    chunksFrom size buffer (line ++ rest) = chunksFrom size (buffer ++ line) rest := by
  induction line generalizing buffer with
  | nil => rw [List.nil_append, List.append_nil]
  | cons c line ih =>
      rw [List.mem_cons, not_or] at hline
      rw [List.length_cons] at hroom
      rw [List.cons_append, chunksFrom, if_neg (by
        rintro (rfl | hfull)
        · exact hline.1 rfl
        · omega), ih hline.2 (by simp; omega), List.append_assoc]
      rfl

/-- A line that fits is delivered whole. -/
theorem chunks_append (hline : '\n' ∉ line) (hroom : line.length + 2 ≤ size) (rest : Text) :
    chunks size (line ++ '\n' :: rest) = (line ++ ['\n']) :: chunks size rest := by
  rw [chunks, chunksFrom_append hline (by simp; omega), List.nil_append, chunksFrom, if_pos (.inl rfl)]
  rfl

/-- So is the last one, which has no newline. -/
theorem chunks_of_notMem (hline : '\n' ∉ line) (hne : line ≠ []) (hroom : line.length + 2 ≤ size) :
    chunks size line = [line] := by
  have hall : chunksFrom size [] (line ++ []) = chunksFrom size ([] ++ line) [] :=
    chunksFrom_append hline (by simp; omega) []
  rw [List.append_nil, List.nil_append] at hall
  rw [chunks, hall, chunksFrom, if_neg hne]

/-- Of a line that does not fit, the first piece fills the buffer. -/
theorem chunks_of_long (hline : '\n' ∉ line) (hsize : 2 ≤ size) (hlong : size ≤ line.length + 1)
    (rest : Text) : ∃ others, chunks size (line ++ rest) = line.take (size - 1) :: others := by
  have hkept : size - 2 < line.length := by omega
  have hline' : line = line.take (size - 2) ++ getElem line (size - 2) hkept ::
      line.drop (size - 2 + 1) := by
    rw [← List.drop_eq_getElem_cons hkept, List.take_append_drop]
  have hlength : (line.take (size - 2)).length = size - 2 := by
    rw [List.length_take]
    omega
  have htake : line.take (size - 2) ++ [getElem line (size - 2) hkept] = line.take (size - 1) := by
    rw [show size - 1 = size - 2 + 1 by omega, List.take_succ_eq_append_getElem hkept]
  refine ⟨chunksFrom size [] (line.drop (size - 2 + 1) ++ rest), ?_⟩
  conv_lhs => rw [hline']
  rw [chunks, List.append_assoc, chunksFrom_append (fun hmem => hline (List.mem_of_mem_take hmem))
    (by rw [hlength, List.length_nil]; omega), List.nil_append, List.cons_append, chunksFrom,
    if_pos (.inr (by rw [hlength]; omega)), htake]

/-- A line that fills the buffer without its newline is delivered by itself. -/
theorem chunks_of_full (hline : '\n' ∉ line) (hsize : 2 ≤ size) (hfull : line.length + 1 = size)
    (rest : Text) : chunks size (line ++ rest) = line :: chunks size rest := by
  obtain ⟨init, c, rfl⟩ : ∃ init c, line = init ++ [c] := by
    rcases List.eq_nil_or_concat line with rfl | ⟨init, c, hconcat⟩
    · rw [List.length_nil] at hfull
      omega
    · exact ⟨init, c, by rw [hconcat, List.concat_eq_append]⟩
  rw [List.mem_append, not_or] at hline
  rw [List.length_append, List.length_singleton] at hfull
  rw [chunks, List.append_assoc, chunksFrom_append hline.1 (by rw [List.length_nil]; omega),
    List.nil_append, List.singleton_append, chunksFrom, if_pos (.inr (by omega)), chunks]

/-- The text of a piece before its newline. -/
def textOf (piece : Text) : Text := piece.takeWhile (· ≠ '\n')

theorem textOf_append (hline : '\n' ∉ line) (rest : Text) : textOf (line ++ rest) = line ++ textOf rest := by
  refine List.takeWhile_append_of_pos fun c hc => ?_
  simpa using fun heq : c = '\n' => hline (heq ▸ hc)

theorem textOf_of_notMem (hline : '\n' ∉ line) : textOf line = line := by
  have := textOf_append hline []
  rwa [List.append_nil, show textOf [] = [] from rfl, List.append_nil] at this

/-- Where every line is shorter than the buffer, the pieces are the lines, or one of them that is not the
first is a mere newline. -/
theorem map_textOf_chunks (hsize : 2 ≤ size) {text : Text} (h : ∀ line ∈ lines text, line.length < size) :
    (chunks size text).map textOf = lines text ∨ ['\n'] ∈ (chunks size text).drop 1 := by
  induction text using lines_induction with
  | nil => exact .inl rfl
  | last line hline hne =>
      rw [lines_of_notMem hline hne] at h ⊢
      have hlength := h line List.mem_cons_self
      have hchunks : chunks size line = [line] := by
        by_cases hroom : line.length + 2 ≤ size
        · exact chunks_of_notMem hline hne hroom
        · have := chunks_of_full hline hsize (by omega) []
          rwa [List.append_nil] at this
      rw [hchunks, List.map_singleton, textOf_of_notMem hline]
      exact .inl rfl
  | cons line rest hline ih =>
      rw [lines_append hline] at h ⊢
      have hlength := h line List.mem_cons_self
      by_cases hroom : line.length + 2 ≤ size
      · have htext : textOf (line ++ ['\n']) = line := by
          rw [textOf_append hline]
          exact List.append_nil line
        rw [chunks_append hline hroom, List.map_cons, htext]
        rcases ih fun line hmem => h line (List.mem_cons_of_mem _ hmem) with hrest | hbad
        · exact .inl (by rw [hrest])
        · exact .inr (List.mem_of_mem_drop hbad)
      · rw [chunks_of_full hline hsize (by omega)]
        have hnewline : chunks size ([] ++ '\n' :: rest) = ([] ++ ['\n']) :: chunks size rest :=
          chunks_append List.not_mem_nil (by simpa using hsize) rest
        rw [List.nil_append] at hnewline
        rw [hnewline]
        exact .inr List.mem_cons_self

/-! ### What was read -/

/-- The text that was read: all of it, unless a read failed. -/
def Stream.read (size : ℕ) (stream : Stream) : Text := (stream.delivered size).flatten

theorem flatten_chunksFrom (size : ℕ) (buffer text : Text) :
    (chunksFrom size buffer text).flatten = buffer ++ text := by
  induction text generalizing buffer with
  | nil =>
      rw [chunksFrom]
      split
      · next h => rw [h]; rfl
      · simp
  | cons c rest ih =>
      rw [chunksFrom]
      split
      · simp [ih]
      · simp [ih]

/-- A text is delivered in one piece exactly if it fits and at most ends with a newline. -/
theorem chunks_eq_singleton_iff (hsize : 2 ≤ size) {text piece : Text} :
    chunks size text = [piece] ↔
      piece = text ∧ text ≠ [] ∧ text.length < size ∧ '\n' ∉ text.dropLast := by
  constructor
  · intro h
    have htext : text = piece := by
      have hall := flatten_chunksFrom size [] text
      rw [← chunks, h] at hall
      simpa using hall.symm
    subst htext
    have hne : text ≠ [] := by
      rintro rfl
      cases h
    refine ⟨rfl, hne, ?_⟩
    by_cases hnewline : '\n' ∈ text
    · obtain ⟨line, rest, rfl, hline⟩ := List.eq_append_cons_of_mem hnewline
      by_cases hroom : line.length + 2 ≤ size
      · rw [chunks_append hline hroom, List.cons.injEq] at h
        have hrest : rest = [] := by
          have := h.1
          simpa using this.symm
        subst hrest
        rw [List.dropLast_concat, List.length_append, List.length_singleton]
        exact ⟨by omega, hline⟩
      · obtain ⟨others, hlong⟩ := chunks_of_long hline hsize (by omega) ('\n' :: rest)
        rw [hlong, List.cons.injEq] at h
        have := congrArg List.length h.1
        rw [List.length_take, List.length_append, List.length_cons] at this
        omega
    · refine ⟨?_, fun hmem => hnewline (List.mem_of_mem_dropLast hmem)⟩
      by_contra hlong
      obtain ⟨others, hlong⟩ := chunks_of_long hnewline hsize (by omega) []
      rw [List.append_nil] at hlong
      rw [hlong, List.cons.injEq] at h
      have := congrArg List.length h.1
      rw [List.length_take] at this
      omega
  · rintro ⟨rfl, hne, hroom, hline⟩
    rcases List.eq_nil_or_concat piece with rfl | ⟨line, c, hconcat⟩
    · exact absurd rfl hne
    · rw [List.concat_eq_append] at hconcat
      subst hconcat
      rw [List.dropLast_concat] at hline
      rw [List.length_append, List.length_singleton] at hroom
      by_cases hc : c = '\n'
      · subst hc
        exact chunks_append hline (by omega) []
      · have hwhole : '\n' ∉ line ++ [c] := by
          simpa [hline] using fun heq : '\n' = c => hc heq.symm
        by_cases hfull : (line ++ [c]).length + 1 = size
        · have := chunks_of_full hwhole hsize hfull []
          rwa [List.append_nil] at this
        · exact chunks_of_notMem hwhole hne (by rw [List.length_append, List.length_singleton] at hfull ⊢; omega)

/-- Reading some pieces again delivers the same pieces. -/
theorem chunksFrom_take (size : ℕ) (buffer text : Text) (count : ℕ) (hpos : 0 < count) :
    ∃ taken, ((chunksFrom size buffer text).take count).flatten = buffer ++ taken ∧
      chunksFrom size buffer taken = (chunksFrom size buffer text).take count := by
  obtain ⟨count, rfl⟩ := Nat.exists_eq_add_of_lt hpos
  rw [Nat.zero_add]
  induction text generalizing buffer count with
  | nil =>
      refine ⟨[], ?_, ?_⟩
      · rw [chunksFrom]
        split
        · next h => simp [h]
        · simp
      · rw [chunksFrom]
        split <;> simp
  | cons c rest ih =>
      by_cases hemit : c = '\n' ∨ size ≤ buffer.length + 2
      · rw [chunksFrom, if_pos hemit, List.take_succ_cons]
        cases count with
        | zero => exact ⟨[c], by simp, by rw [chunksFrom, if_pos hemit]; rfl⟩
        | succ count =>
            obtain ⟨taken, hflatten, htaken⟩ := ih [] count (Nat.succ_pos _)
            refine ⟨c :: taken, ?_, ?_⟩
            · rw [List.flatten_cons, hflatten]
              simp
            · rw [chunksFrom, if_pos hemit, htaken]
      · rw [chunksFrom, if_neg hemit]
        obtain ⟨taken, hflatten, htaken⟩ := ih (buffer ++ [c]) count (Nat.succ_pos _)
        refine ⟨c :: taken, ?_, ?_⟩
        · rw [hflatten, List.append_assoc]
          rfl
        · rw [chunksFrom, if_neg hemit, htaken]

/-- The pieces delivered are those of the text that was read. -/
theorem Stream.delivered_eq (size : ℕ) (stream : Stream) :
    stream.delivered size = chunks size (stream.read size) := by
  rw [Stream.read, Stream.delivered]
  split
  · have hall : (chunks size stream.content).flatten = stream.content :=
      flatten_chunksFrom size [] stream.content
    rw [hall]
  · next reads _ =>
    rcases Nat.eq_zero_or_pos reads with rfl | hpos
    · rfl
    · obtain ⟨taken, hflatten, htaken⟩ := chunksFrom_take size [] stream.content reads hpos
      rw [chunks, hflatten, List.nil_append, chunks, htaken]

end P101Test.Stdio
