import P101Test.Conformance.Loaders
import P101Test.Stdio.Pieces

/-!
# The macros

A line of the macros file defines a symbol if it starts with its definition and goes on with a blank, or
ends there. The lookup reads pieces of lines and asks for the newline of a definition, so it sees a
definition where a long line is split, and does not see one that ends the file.

## Main definitions

* `Defines`, `Defined`: a line defines a symbol, and some line of a file does.
* `Visible`, `Unterminated`, `Split`: the definitions the lookup sees, the one it does not see, and what it
  takes for one.

## Main results

* `definesSymbol_iff`: the pieces that are taken for a definition.
* `macroPresent_iff`: when the lookup answers whether a symbol is defined.
-/

namespace P101Test.Conformance

open Stdio

variable {symbol line raw piece content : Text}

/-! ### Definitions -/

/-- The start of the definition of a symbol. -/
def definition (symbol : Text) : Text := "#define ".toList ++ symbol

/-- A text starts with another one and one of some characters. -/
def Begins (start : Text) (ends : List Char) (text : Text) : Prop := ∃ c ∈ ends, start ++ [c] <+: text

/-- A line defines a symbol: the definition is followed by a space, a tab or the end of the line. -/
def Defines (symbol line : Text) : Prop :=
  line = definition symbol ∨ Begins (definition symbol) [' ', '\t'] line

/-- Some line of a file defines a symbol. -/
def Defined (symbol content : Text) : Prop := ∃ line ∈ lines content, Defines symbol line

/-- Some line begins with the definition of a symbol and a space, a tab or its newline. -/
def Visible (symbol content : Text) : Prop :=
  ∃ raw ∈ rawLines content, Begins (definition symbol) [' ', '\t', '\n'] raw

/-- The last line is nothing but the definition of a symbol, and has no newline. -/
def Unterminated (symbol content : Text) : Prop :=
  '\n' ∉ symbol ∧ definition symbol ∈ rawLines content

/-- The definition of a symbol and a space, a tab or a newline stand inside of a line, at a multiple of
`MAX_LINE - 1` bytes from its start. -/
def Split (symbol content : Text) : Prop :=
  ∃ raw ∈ rawLines content, ∃ count, 0 < count ∧
    Begins (definition symbol) [' ', '\t', '\n'] (raw.drop (count * (maxLine - 1)))

theorem notMem_definition {c : Char} (hc : c ∉ "#define ".toList) (hsymbol : c ∉ symbol) :
    c ∉ definition symbol := by
  unfold definition
  rw [List.mem_append, not_or]
  exact ⟨hc, hsymbol⟩

theorem length_definition (symbol : Text) : (definition symbol).length = symbol.length + 8 := by
  unfold definition
  rw [List.length_append, Nat.add_comm]
  rfl

/-! ### Lines -/

variable {start : Text} {ends : List Char}

theorem Begins.mono {ends' : List Char} (h : Begins start ends line) (hends : ∀ c ∈ ends, c ∈ ends') :
    Begins start ends' line :=
  h.imp fun c hc => ⟨hends c hc.1, hc.2⟩

theorem blank_mem : ∀ c ∈ [' ', '\t'], c ∈ [' ', '\t', '\n'] := by
  intro c hc
  rw [List.mem_cons, List.mem_singleton] at hc
  rw [List.mem_cons, List.mem_cons]
  exact hc.imp_right .inl

/-- A line with its newline begins with a text and a blank or its newline exactly if the line is that text,
or begins with it and a blank. -/
theorem begins_append_newline (hline : '\n' ∉ line) :
    Begins start [' ', '\t', '\n'] (line ++ ['\n']) ↔ line = start ∨ Begins start [' ', '\t'] line := by
  constructor
  · rintro ⟨c, hc, hspelled⟩
    rcases List.prefix_concat_iff.mp hspelled with heq | hspelled
    · exact .inl (List.append_inj_left' heq rfl).symm
    · right
      refine ⟨c, ?_, hspelled⟩
      have hne : c ≠ '\n' := by
        rintro rfl
        exact hline (hspelled.subset (List.mem_append_right _ List.mem_cons_self))
      simpa [hne] using hc
  · rintro (rfl | hbegins)
    · exact ⟨'\n', by decide, List.prefix_rfl⟩
    · obtain ⟨c, hc, hspelled⟩ := hbegins.mono blank_mem
      exact ⟨c, hc, hspelled.trans (List.prefix_append _ _)⟩

theorem begins_of_notMem (hline : '\n' ∉ line) :
    Begins start [' ', '\t', '\n'] line ↔ Begins start [' ', '\t'] line := by
  refine ⟨?_, fun hbegins => hbegins.mono blank_mem⟩
  rintro ⟨c, hc, hspelled⟩
  have hne : c ≠ '\n' := by
    rintro rfl
    exact hline (hspelled.subset (List.mem_append_right _ List.mem_cons_self))
  exact ⟨c, by simpa [hne] using hc, hspelled⟩

/-- Some line defines a symbol if the definition is visible or ends the file. -/
theorem defined_iff : Defined symbol content ↔ Visible symbol content ∨ Unterminated symbol content := by
  unfold Defined Visible Defines
  constructor
  · rintro ⟨line, hline, hdefines⟩
    obtain ⟨hnewline, hraw | ⟨hraw, -⟩⟩ := mem_lines_iff.mp hline
    · exact .inl ⟨_, hraw, (begins_append_newline hnewline).mpr hdefines⟩
    · rcases hdefines with heq | hbegins
      · rw [heq] at hnewline hraw
        exact .inr ⟨fun hsymbol => hnewline (List.mem_append_right _ hsymbol), hraw⟩
      · exact .inl ⟨_, hraw, (begins_of_notMem hnewline).mpr hbegins⟩
  · rintro (⟨raw, hraw, hbegins⟩ | ⟨hsymbol, hraw⟩)
    · obtain ⟨line, hline, hends⟩ := exists_line_of_mem_rawLines hraw
      have hnewline := (mem_lines_iff.mp hline).1
      refine ⟨line, hline, ?_⟩
      rcases hends with heq | heq
      · rw [heq] at hbegins
        exact (begins_append_newline hnewline).mp hbegins
      · rw [heq] at hbegins
        exact .inr ((begins_of_notMem hnewline).mp hbegins)
    · refine ⟨_, mem_lines_iff.mpr ⟨notMem_definition (by decide) hsymbol, .inr ⟨hraw, ?_⟩⟩, .inl rfl⟩
      exact List.ne_nil_of_length_pos (by rw [length_definition]; omega)

/-! ### Pieces -/

theorem prefix_cString_iff (hnul : '\x00' ∉ start) : start <+: cString piece ↔ start <+: piece := by
  constructor
  · exact fun hspelled => hspelled.trans (List.takeWhile_prefix _)
  · rintro ⟨rest, rfl⟩
    rw [cString, List.takeWhile_append_of_pos fun c hc => by
      simpa using fun heq : c = '\x00' => hnul (heq ▸ hc)]
    exact List.prefix_append _ _

theorem prefix_concat_iff {c : Char} {text : Text} :
    start ++ [c] <+: text ↔ start <+: text ∧ ∃ rest, text.drop start.length = c :: rest := by
  constructor
  · rintro ⟨rest, rfl⟩
    rw [List.append_assoc, List.drop_left]
    exact ⟨List.prefix_append _ _, rest, rfl⟩
  · rintro ⟨⟨tail, rfl⟩, rest, hrest⟩
    rw [List.drop_left] at hrest
    rw [hrest]
    exact ⟨rest, by rw [List.append_assoc]; rfl⟩

theorem definesSymbol_iff (hnul : '\x00' ∉ symbol) :
    definesSymbol symbol piece = true ↔ Begins (definition symbol) [' ', '\t', '\n'] piece := by
  have hdefinition : '\x00' ∉ definition symbol := notMem_definition (by decide) hnul
  have hstring : Begins (definition symbol) [' ', '\t', '\n'] piece ↔
      Begins (definition symbol) [' ', '\t', '\n'] (cString piece) := by
    refine exists_congr fun c => and_congr_right fun hc => (prefix_cString_iff ?_).symm
    rw [List.mem_append, not_or]
    refine ⟨hdefinition, fun hnull => ?_⟩
    rw [← List.mem_singleton.mp hnull] at hc
    revert hc
    decide
  rw [hstring]
  unfold definesSymbol Begins definition
  generalize "#define ".toList ++ symbol = start
  simp only [prefix_concat_iff]
  rw [Bool.and_eq_true, List.isPrefixOf_iff_prefix]
  constructor
  · rintro ⟨hspelled, hnext⟩
    split at hnext
    · next c rest hdrop => exact ⟨c, by simpa [or_assoc] using hnext, hspelled, rest, hdrop⟩
    · cases hnext
  · rintro ⟨c, hc, hspelled, rest, hdrop⟩
    refine ⟨hspelled, ?_⟩
    rw [hdrop]
    simpa [or_assoc] using hc

/-- A piece of a line begins with a definition if the line does at its place. -/
theorem exists_piece_begins (hsymbol : symbol.length < maxName) :
    (∃ piece ∈ chunks maxLine content, Begins (definition symbol) [' ', '\t', '\n'] piece) ↔
      Visible symbol content ∨ Split symbol content := by
  have hroom {c : Char} {text : Text} :
      definition symbol ++ [c] <+: text.take (maxLine - 1) ↔ definition symbol ++ [c] <+: text := by
    rw [List.prefix_take_iff, List.length_append, List.length_singleton, length_definition, and_iff_left]
    rw [maxName] at hsymbol
    rw [maxLine]
    omega
  constructor
  · rintro ⟨piece, hpiece, c, hc, hspelled⟩
    obtain ⟨raw, hraw, count, hcount, rfl⟩ := (mem_chunks_iff (by decide)).mp hpiece
    rw [hroom] at hspelled
    rcases Nat.eq_zero_or_pos count with rfl | hpos
    · rw [Nat.zero_mul, List.drop_zero] at hspelled
      exact .inl ⟨raw, hraw, c, hc, hspelled⟩
    · exact .inr ⟨raw, hraw, count, hpos, c, hc, hspelled⟩
  · have hpiece {raw : Text} (hraw : raw ∈ rawLines content) {c : Char} (hc : c ∈ [' ', '\t', '\n'])
        (count : ℕ) (hspelled : definition symbol ++ [c] <+: raw.drop (count * (maxLine - 1))) :
        ∃ piece ∈ chunks maxLine content, Begins (definition symbol) [' ', '\t', '\n'] piece := by
      have hlength := hspelled.length_le
      rw [List.length_append, List.length_singleton, List.length_drop] at hlength
      exact ⟨_, (mem_chunks_iff (by decide)).mpr ⟨raw, hraw, count, by omega, rfl⟩, c, hc, hroom.mpr hspelled⟩
    rintro (⟨raw, hraw, c, hc, hspelled⟩ | ⟨raw, hraw, count, -, c, hc, hspelled⟩)
    · exact hpiece hraw hc 0 (by rwa [Nat.zero_mul, List.drop_zero])
    · exact hpiece hraw hc count hspelled

/-- The lookup answers whether a definition is visible or inside of a long line. -/
theorem macroPresent_eq_true_iff {inputs : Inputs} {s : Session}
    (hread : inputs.macros s.lookups = .whole content) (hsymbol : symbol.length < maxName)
    (hnul : '\x00' ∉ symbol) :
    (macroPresent inputs symbol s).1 = true ↔ Visible symbol content ∨ Split symbol content := by
  have hfits : ¬maxName + macroExtra ≤ (definition symbol).length := by
    rw [length_definition, maxName, macroExtra]
    rw [maxName] at hsymbol
    omega
  rw [← exists_piece_begins hsymbol]
  unfold definition at hfits
  simp only [macroPresent, if_neg hfits, hread, Stream.whole, Stream.delivered, Bool.true_eq_false, if_false,
    if_true, List.any_eq_true, definesSymbol_iff hnul]

/-- **The lookup.** When the file is read without a failure, the lookup answers whether some line defines
the symbol, if and only if a definition is visible, or a definition that ends the file and one inside of a
long line are both there or both not there. -/
theorem macroPresent_iff (inputs : Inputs) (s : Session) (symbol content : Text)
    (hread : inputs.macros s.lookups = .whole content) (hsymbol : symbol.length < maxName)
    (hnul : '\x00' ∉ symbol) :
    ((macroPresent inputs symbol s).1 = true ↔ Defined symbol content) ↔
      Visible symbol content ∨ (Unterminated symbol content ↔ Split symbol content) := by
  rw [macroPresent_eq_true_iff hread hsymbol hnul, defined_iff]
  by_cases hvisible : Visible symbol content
  · simp [hvisible]
  · simp only [hvisible, false_or]
    exact Iff.comm

/-- A run that is given nothing but a macros file. -/
def macrosOnly (content : Text) : Inputs where
  apiManifest := .missing
  testManifest := .missing
  conformanceManifest := .missing
  faultManifest := .missing
  macros := fun _ => .whole content
  instrumentation := ⟨[], none⟩
  model := ⟨[], none⟩
  outcomes := .missing
  receipt := ⟨true, true, true⟩

/-- A definition that ends with its line is seen. -/
theorem macroPresent_iff_terminated :
    Visible "EIO".toList "#define EIO\n".toList ∧
      ((macroPresent (macrosOnly "#define EIO\n".toList) "EIO".toList .zero).1 = true ↔
        Defined "EIO".toList "#define EIO\n".toList) := by
  have hvisible : Visible "EIO".toList "#define EIO\n".toList :=
    ⟨"#define EIO\n".toList, by decide, '\n', by decide, by decide⟩
  exact ⟨hvisible, (macroPresent_iff _ _ _ _ rfl (by decide) (by decide)).mpr (.inl hvisible)⟩

theorem filler_append {filler : Text} (hline : '\n' ∉ filler) :
    filler ++ "#define EIO\n".toList = filler ++ "#define EIO".toList ++ ['\n'] ∧
      '\n' ∉ filler ++ "#define EIO".toList := by
  rw [List.append_assoc, List.mem_append, not_or]
  exact ⟨congrArg (filler ++ ·) (by decide), hline, by decide⟩

/-- Behind a filler that is one piece long, the lookup takes the end of a line for a definition. -/
theorem macroPresent_filler {filler : Text} (hlength : filler.length = maxLine - 1) (hline : '\n' ∉ filler) :
    (macroPresent (macrosOnly (filler ++ "#define EIO\n".toList)) "EIO".toList .zero).1 = true := by
  rw [macroPresent_eq_true_iff rfl (by decide) (by decide)]
  have hraw : rawLines (filler ++ "#define EIO\n".toList) = [filler ++ "#define EIO\n".toList] := by
    obtain ⟨hwhole, hnewline⟩ := filler_append hline
    rw [hwhole, rawLines_append hnewline]
    rfl
  refine .inr ⟨_, by rw [hraw]; exact List.mem_singleton_self _, 1, Nat.one_pos, '\n', by decide, ?_⟩
  rw [Nat.one_mul, List.drop_left' hlength]
  exact List.prefix_rfl

theorem not_defines_cons {c : Char} (hc : c ≠ '#') : ¬Defines symbol (c :: line) := by
  rintro (heq | ⟨d, -, rest, heq⟩)
  · exact hc (List.cons.inj heq).1
  · exact hc (List.cons.inj heq).1.symm

/-- A definition that ends the file is not seen, and the end of a long line is taken for a definition. -/
theorem not_macroPresent_iff :
    ¬((macroPresent (macrosOnly "#define EIO".toList) "EIO".toList .zero).1 = true ↔
        Defined "EIO".toList "#define EIO".toList) ∧
      ¬((macroPresent (macrosOnly (List.replicate (maxLine - 1) 'x' ++ "#define EIO\n".toList))
          "EIO".toList .zero).1 = true ↔
        Defined "EIO".toList (List.replicate (maxLine - 1) 'x' ++ "#define EIO\n".toList)) := by
  constructor
  · intro h
    have hdefined : Defined "EIO".toList "#define EIO".toList :=
      ⟨"#define EIO".toList, by decide, .inl (by decide)⟩
    have hanswer := h.mpr hdefined
    revert hanswer
    decide
  · intro h
    have hfiller : '\n' ∉ List.replicate (maxLine - 1) 'x' := fun hmem =>
      absurd (List.eq_of_mem_replicate hmem) (by decide)
    obtain ⟨line, hline, hdefines⟩ := h.mp (macroPresent_filler List.length_replicate hfiller)
    have hlines : lines (List.replicate (maxLine - 1) 'x' ++ "#define EIO\n".toList) =
        [List.replicate (maxLine - 1) 'x' ++ "#define EIO".toList] := by
      obtain ⟨hwhole, hnewline⟩ := filler_append hfiller
      rw [hwhole, lines_append hnewline, lines_nil]
    rw [hlines, List.mem_singleton] at hline
    rw [hline, show maxLine - 1 = (maxLine - 2) + 1 from rfl, List.replicate_succ] at hdefines
    exact not_defines_cons (by decide) hdefines

end P101Test.Conformance
