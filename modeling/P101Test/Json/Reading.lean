import Mathlib.Data.List.TakeWhile
import P101Test.Json.Basic

/-!
# Reading JSON texts put together by hand

The parser run over a text that was written member by member: what a key, a decimal numeral or a
truth value reads as. A text put between quotes as it is reads back as itself exactly when it is plain;
a quote ends it early, an escape shortens it, and a backslash at its end swallows the closing quote.

## Main definitions

* `Plain`: texts without quotes, backslashes and control characters.
* `numberMembers`: members whose values are natural numbers.

## Main results

* `stringBody_plain`, `stringBody_quoted`: a text between quotes.
* `value_string`, `value_decimal`, `value_bool`: one value.
* `members_cons`, `members_last`, `members_numberMembers`: members of an object.
-/

namespace P101Test.Json

open Stdio

variable {text rest key : Text} {fuel : ℕ}

/-! ### Strings -/

/-- A text that needs no escapes. -/
def Plain (text : Text) : Prop := ∀ c ∈ text, c ≠ '"' ∧ c ≠ '\\' ∧ 32 ≤ c.toNat

instance (text : Text) : Decidable (Plain text) :=
  List.decidableBAll (fun c => c ≠ '"' ∧ c ≠ '\\' ∧ 32 ≤ c.toNat) text

theorem plain_nil : Plain [] := by simp [Plain]

theorem plain_cons {c : Char} :
    Plain (c :: text) ↔ (c ≠ '"' ∧ c ≠ '\\' ∧ 32 ≤ c.toNat) ∧ Plain text := by
  simp [Plain]

theorem stringBody_quote : stringBody ('"' :: rest) = some ([], rest) := by
  simp [stringBody]

theorem stringBody_cons {c : Char} (hquote : c ≠ '"') (hslash : c ≠ '\\') (hcontrol : 32 ≤ c.toNat) :
    stringBody (c :: text) = (stringBody text).map fun read => (c :: read.1, read.2) := by
  rw [stringBody.eq_def]
  split
  · simp_all
  · simp_all
  · simp_all
  · simp_all
  · next c' rest' _ _ _ heq =>
    obtain ⟨rfl, rfl⟩ := List.cons.inj heq
    rw [if_neg (by simp [hslash]; omega)]
    cases stringBody text <;> rfl

/-- A plain text between quotes reads as itself. -/
theorem stringBody_plain (h : Plain text) : stringBody (text ++ '"' :: rest) = some (text, rest) := by
  induction text with
  | nil => exact stringBody_quote
  | cons c text ih =>
      obtain ⟨⟨hquote, hslash, hcontrol⟩, htext⟩ := plain_cons.mp h
      rw [List.cons_append, stringBody_cons hquote hslash hcontrol, ih htext]
      rfl

theorem stringBody_escape {c : Char} (hunicode : c ≠ 'u') :
    stringBody ('\\' :: c :: text) =
      (escape c).bind fun first => (stringBody text).map fun read => (first :: read.1, read.2) := by
  rw [stringBody.eq_def]
  split
  · simp_all
  · simp_all
  · next heq => simp [hunicode] at heq
  · next c' rest' hfour heq =>
    simp only [List.cons.injEq, true_and] at heq
    obtain ⟨rfl, rfl⟩ := heq
    cases escape c <;> cases stringBody text <;> rfl
  · next c' rest' hne _ htwo heq =>
    obtain ⟨rfl, rfl⟩ := List.cons.inj heq
    exact absurd rfl (htwo c text rfl)

/-- A unicode escape that is read has four digits, none of them a quote. -/
theorem stringBody_unicode {read : Text × Text} (h : stringBody ('\\' :: 'u' :: text) = some read) :
    ∃ a b c d text' first read', text = a :: b :: c :: d :: text' ∧
      (a ≠ '"' ∧ b ≠ '"' ∧ c ≠ '"' ∧ d ≠ '"') ∧ stringBody text' = some read' ∧
      read = (first :: read'.1, read'.2) := by
  have hquote : hexDigit '"' = none := by decide
  rw [stringBody.eq_def] at h
  split at h
  · simp_all
  · simp_all
  · next a b c d text' heq =>
    simp only [List.cons.injEq, true_and] at heq
    simp only [Option.bind_eq_bind, Option.bind_eq_some_iff] at h
    obtain ⟨first, hunicode, read', hread, hpair⟩ := h
    refine ⟨a, b, c, d, text', first, read', heq, ?_, hread, (Option.some.inj hpair).symm⟩
    refine ⟨?_, ?_, ?_, ?_⟩ <;> rintro rfl <;>
      simp [unicode, hquote] at hunicode
  · next c' text' hfour heq =>
    simp only [List.cons.injEq, true_and] at heq
    obtain ⟨rfl, rfl⟩ := heq
    simp [escape] at h
  · next c' text' hne _ htwo heq =>
    obtain ⟨rfl, rfl⟩ := List.cons.inj heq
    exact absurd rfl (htwo 'u' text rfl)

theorem stringBody_control {c : Char} {read : Text × Text} (hquote : c ≠ '"') (hslash : c ≠ '\\')
    (h : stringBody (c :: text) = some read) : 32 ≤ c.toNat := by
  rw [stringBody.eq_def] at h
  split at h
  · simp_all
  · simp_all
  · simp_all
  · simp_all
  · next c' text' _ _ _ heq =>
    obtain ⟨rfl, rfl⟩ := List.cons.inj heq
    by_contra hlt
    rw [if_pos (.inr (by omega))] at h
    exact absurd h (by simp)

/-- **A text between quotes.** Where a comma and a further quote follow, what is read is the text
itself, which is then plain; or something shorter; or the closing quote was swallowed. -/
theorem stringBody_quoted {tail : Text} (raw : Text) {text rest : Text}
    (h : stringBody (raw ++ '"' :: ',' :: '"' :: tail) = some (text, rest)) :
    (Plain raw ∧ text = raw ∧ rest = ',' :: '"' :: tail) ∨ text.length < raw.length ∨ rest = tail := by
  induction hlength : raw.length using Nat.strong_induction_on generalizing raw text rest with
  | _ n ih =>
  subst hlength
  rcases raw with _ | ⟨c, raw⟩
  · rw [List.nil_append, stringBody_quote, Option.some.injEq, Prod.mk.injEq] at h
    exact .inl ⟨plain_nil, h.1.symm, h.2.symm⟩
  by_cases hquote : c = '"'
  · subst hquote
    rw [List.cons_append, stringBody_quote, Option.some.injEq, Prod.mk.injEq] at h
    obtain ⟨rfl, -⟩ := h
    exact .inr (.inl (by simp))
  by_cases hslash : c = '\\'
  · subst hslash
    rcases raw with _ | ⟨e, raw⟩
    · -- The backslash takes the closing quote, and the next quote ends the text.
      rw [List.singleton_append, stringBody_escape (by decide),
        stringBody_cons (by decide) (by decide) (by decide), stringBody_quote] at h
      simp only [escape, Option.bind_some, Option.map_some, Option.some.injEq, Prod.mk.injEq,
        true_or, if_true] at h
      exact .inr (.inr h.2.symm)
    rw [List.cons_append, List.cons_append] at h
    by_cases hunicode : e = 'u'
    · subst hunicode
      obtain ⟨a, b, c, d, text', first, read', htext, ⟨ha, hb, hc, hd⟩, hread, hpair⟩ :=
        stringBody_unicode h
      obtain ⟨rfl, rfl⟩ := Prod.mk.inj hpair
      rcases raw with _ | ⟨a', _ | ⟨b', _ | ⟨c', _ | ⟨d', raw⟩⟩⟩⟩ <;>
        simp only [List.cons_append, List.nil_append, List.cons.injEq] at htext
      · exact absurd htext.1.symm ha
      · exact absurd htext.2.1.symm hb
      · exact absurd htext.2.2.1.symm hc
      · exact absurd htext.2.2.2.1.symm hd
      · rw [← htext.2.2.2.2] at hread
        rcases ih raw.length (by simp only [List.length_cons]; omega) raw hread rfl with
          ⟨-, hsame, -⟩ | hshort | hrest
        · exact .inr (.inl (by simp [hsame]))
        · exact .inr (.inl (by simp only [List.length_cons]; omega))
        · exact .inr (.inr hrest)
    · rw [stringBody_escape hunicode] at h
      simp only [Option.bind_eq_some_iff, Option.map_eq_some_iff] at h
      obtain ⟨first, -, ⟨text', rest'⟩, hread, hpair⟩ := h
      obtain ⟨rfl, rfl⟩ := Prod.mk.inj hpair
      rcases ih raw.length (by simp only [List.length_cons]; omega) raw hread rfl with
        ⟨-, hsame, -⟩ | hshort | hrest
      · exact .inr (.inl (by simp [hsame]))
      · exact .inr (.inl (by simp only [List.length_cons]; omega))
      · exact .inr (.inr hrest)
  · rw [List.cons_append] at h
    have hcontrol := stringBody_control hquote hslash h
    rw [stringBody_cons hquote hslash hcontrol, Option.map_eq_some_iff] at h
    obtain ⟨⟨text', rest'⟩, hread, hpair⟩ := h
    obtain ⟨rfl, rfl⟩ := Prod.mk.inj hpair
    rcases ih raw.length (by simp only [List.length_cons]; omega) raw hread rfl with
      ⟨hplain, hsame, hrest⟩ | hshort | hrest
    · exact .inl ⟨plain_cons.mpr ⟨⟨hquote, hslash, hcontrol⟩, hplain⟩, by rw [hsame], hrest⟩
    · exact .inr (.inl (by simp only [List.length_cons]; omega))
    · exact .inr (.inr hrest)

/-! ### Numerals -/

theorem decimal_ne_nil (n : ℕ) : decimal n ≠ [] := Nat.toDigits_ne_nil

/-- The first digit of a positive number is not zero. -/
theorem head_decimal {n : ℕ} (hn : 0 < n) : ∃ c rest, decimal n = c :: rest ∧ c ≠ '0' := by
  induction n using Nat.strong_induction_on with
  | _ n ih =>
  by_cases hlt : n < 10
  · refine ⟨n.digitChar, [], Nat.toDigits_of_lt_base hlt, ?_⟩
    rw [ne_eq, Nat.digitChar_eq_zero]
    omega
  · obtain ⟨c, rest, hdigits, hne⟩ := ih (n / 10) (by omega) (by omega)
    refine ⟨c, rest ++ [(n % 10).digitChar], ?_, hne⟩
    rw [decimal, Nat.toDigits_of_base_le (by decide) (by omega), ← decimal, hdigits, List.cons_append]

theorem validNumber_decimal (n : ℕ) : validNumber (decimal n) = true := by
  rcases Nat.eq_zero_or_pos n with rfl | hn
  · decide
  obtain ⟨c, rest, hdecimal, hzero⟩ := head_decimal hn
  have hdigit : ∀ c' ∈ c :: rest, c'.isDigit = true := fun c' hc' =>
    isDigit_of_mem_decimal (hdecimal ▸ hc')
  have hsign : c ≠ '-' := by
    rintro rfl
    exact absurd (hdigit '-' (by simp)) (by decide)
  rw [hdecimal, validNumber]
  · rw [validUnsigned, if_neg hzero, hdigit c (by simp),
      List.dropWhile_eq_nil_iff.mpr fun c' hc' => hdigit c' (by simp [hc'])]
    rfl
  · intro rest' heq
    exact hsign (List.cons.inj heq).1

/-! ### Values and members -/

theorem skip_of_not {c : Char} (h : isSpace c = false) : skip (c :: text) = c :: text := by
  simp [skip, h]

/-- A string that is read as a value. -/
theorem value_string {read : Text × Text} (h : stringBody text = some read) :
    value (fuel + 1) ('"' :: text) = some (.string read.1, read.2) := by
  rw [value, skip_of_not (by decide)]
  simp [h]

/-- A value that starts with a quote is a string. -/
theorem value_quote {read : Value × Text} (h : value (fuel + 1) ('"' :: text) = some read) :
    ∃ text' rest', stringBody text = some (text', rest') ∧ read = (.string text', rest') := by
  rw [value, skip_of_not (by decide)] at h
  simp only [Option.bind_eq_bind, Option.bind_eq_some_iff, Option.some.injEq] at h
  obtain ⟨⟨text', rest'⟩, hread, rfl⟩ := h
  exact ⟨text', rest', hread, rfl⟩

theorem scalar_decimal {c : Char} (n : ℕ) (hc : isNumeral c = false) :
    scalar (decimal n ++ c :: rest) = some (.number (decimal n), c :: rest) := by
  have hall : ∀ d ∈ decimal n, isNumeral d = true := fun d hd => by
    simp [isNumeral, isDigit_of_mem_decimal hd]
  have htake : (decimal n ++ c :: rest).takeWhile isNumeral = decimal n := by
    rw [List.takeWhile_append_of_pos hall, List.takeWhile_cons_of_neg (by simp [hc]), List.append_nil]
  have hdrop : (decimal n ++ c :: rest).dropWhile isNumeral = c :: rest := by
    rw [List.dropWhile_append_of_pos hall, List.dropWhile_cons_of_neg (by simp [hc])]
  obtain ⟨d, ds, hdecimal⟩ := List.exists_cons_of_ne_nil (decimal_ne_nil n)
  have hdigit : d.isDigit = true := isDigit_of_mem_decimal (hdecimal ▸ List.mem_cons_self)
  have hletter : ∀ word : Text, ∀ l, l.isDigit = false → (l :: word).isPrefixOf
      (decimal n ++ c :: rest) = false := by
    intro word l hl
    rw [hdecimal, List.cons_append, List.isPrefixOf_cons_cons, Bool.and_eq_false_iff]
    refine .inl (beq_false_of_ne ?_)
    rintro rfl
    rw [hl] at hdigit
    exact absurd hdigit (by decide)
  rw [scalar, if_neg, if_neg, if_neg, if_pos, htake, hdrop]
  · rw [htake]
    exact validNumber_decimal n
  · rw [show "null".toList = 'n' :: "ull".toList from rfl, hletter _ _ (by decide)]
    decide
  · rw [show "false".toList = 'f' :: "alse".toList from rfl, hletter _ _ (by decide)]
    decide
  · rw [show "true".toList = 't' :: "rue".toList from rfl, hletter _ _ (by decide)]
    decide

/-- A value that starts with no space, quote or bracket is a literal or a number. -/
theorem value_scalar {c : Char} (hspace : isSpace c = false) (hquote : c ≠ '"') (hbrace : c ≠ '\x7b')
    (hbracket : c ≠ '[') : value (fuel + 1) (c :: text) = scalar (c :: text) := by
  rw [value, skip_of_not hspace]
  split
  · next heq => exact absurd (List.cons.inj heq).1 hquote
  · next heq => exact absurd (List.cons.inj heq).1 hbrace
  · next heq => exact absurd (List.cons.inj heq).1 hbracket
  · rfl

/-- A decimal numeral, up to a character that belongs to no number. -/
theorem value_decimal {c : Char} (n : ℕ) (hc : isNumeral c = false) :
    value (fuel + 1) (decimal n ++ c :: rest) = some (.number (decimal n), c :: rest) := by
  rw [← scalar_decimal n hc]
  obtain ⟨d, ds, hdecimal⟩ := List.exists_cons_of_ne_nil (decimal_ne_nil n)
  have hdigit : d.isDigit = true := isDigit_of_mem_decimal (hdecimal ▸ List.mem_cons_self)
  rw [hdecimal, List.cons_append]
  refine value_scalar ?_ ?_ ?_ ?_
  · by_contra hspace
    simp only [isSpace, Bool.not_eq_false, Bool.or_eq_true, decide_eq_true_eq] at hspace
    rcases hspace with ((rfl | rfl) | rfl) | rfl <;> exact absurd hdigit (by decide)
  all_goals
    rintro rfl
    exact absurd hdigit (by decide)

theorem natural?_decimal (n : ℕ) : (Value.number (decimal n)).natural? = some n := by
  rw [Value.natural?, if_pos, decimal, Nat.ofDigitChars_ten_toDigits]
  rw [List.all_eq_true]
  exact fun c hc => isDigit_of_mem_decimal hc

theorem value_bool (b : Bool) :
    value (fuel + 1) ((if b then "true".toList else "false".toList) ++ rest) =
      some (.bool b, rest) := by
  cases b <;> exact value_scalar (by decide) (by decide) (by decide) (by decide)

/-- An object with members. -/
theorem value_object : value (fuel + 1) ('\x7b' :: '"' :: text) =
    (members fuel ('"' :: text)).map fun read => (.object read.1, read.2) := by
  rw [value, skip_of_not (by decide)]
  simp only [skip_of_not (show isSpace '"' = false by decide), Option.bind_eq_bind]
  split
  · next heq => exact absurd (List.cons.inj heq).1 (by decide)
  · cases members fuel ('"' :: text) <;> rfl

/-- A member that a further one follows. -/
theorem members_cons {member : Value} {text' : Text} (hkey : Plain key)
    (hvalue : value fuel text = some (member, ',' :: text')) :
    members (fuel + 1) ('"' :: key ++ '"' :: ':' :: text) =
      (members fuel text').map fun read => ((key, member) :: read.1, read.2) := by
  rw [List.cons_append, members, skip_of_not (by decide)]
  simp only [stringBody_plain hkey, Option.bind_eq_bind, Option.bind_some,
    skip_of_not (show isSpace ':' = false by decide), hvalue,
    skip_of_not (show isSpace ',' = false by decide)]
  cases members fuel text' <;> rfl

/-- The last member. -/
theorem members_last {member : Value} (hkey : Plain key)
    (hvalue : value fuel text = some (member, '\x7d' :: rest)) :
    members (fuel + 1) ('"' :: key ++ '"' :: ':' :: text) = some ([(key, member)], rest) := by
  rw [List.cons_append, members, skip_of_not (by decide)]
  simp only [stringBody_plain hkey, Option.bind_eq_bind, Option.bind_some,
    skip_of_not (show isSpace ':' = false by decide), hvalue,
    skip_of_not (show isSpace '\x7d' = false by decide)]

/-- Members whose values are natural numbers, each followed by a comma. -/
def numberMembers : List (Text × ℕ) → Text
  | [] => []
  | (key, n) :: others => '"' :: key ++ '"' :: ':' :: decimal n ++ ',' :: numberMembers others

/-- The members that such a text reads as. -/
def numberValues (numbers : List (Text × ℕ)) : List (Text × Value) :=
  numbers.map fun (key, n) => (key, .number (decimal n))

/-- Numbers in front of further members. -/
theorem members_numberMembers (fuel : ℕ) (text : Text) (numbers : List (Text × ℕ))
    (hkeys : ∀ member ∈ numbers, Plain member.1) :
    members (fuel + 1 + numbers.length) (numberMembers numbers ++ text) =
      (members (fuel + 1) text).map fun read => (numberValues numbers ++ read.1, read.2) := by
  induction numbers with
  | nil => cases h : members (fuel + 1) text <;> simp [numberMembers, numberValues, h]
  | cons member others ih =>
      obtain ⟨key, n⟩ := member
      have hothers := ih fun member hmember => hkeys member (List.mem_cons_of_mem _ hmember)
      have hvalue : value (fuel + 1 + others.length)
          (decimal n ++ ',' :: (numberMembers others ++ text)) =
            some (.number (decimal n), ',' :: (numberMembers others ++ text)) := by
        rw [Nat.add_right_comm]
        exact value_decimal n (by decide)
      have hcons := members_cons (hkeys _ List.mem_cons_self) hvalue
      rw [hothers, Option.map_map] at hcons
      simpa [numberMembers, numberValues, Function.comp_def, ← Nat.add_assoc] using hcons

/-- What the first member of an object tells about the text behind it. -/
theorem members_inv {read : List (Text × Value) × Text} (hkey : Plain key)
    (h : members (fuel + 1) ('"' :: key ++ '"' :: ':' :: text) = some read) :
    ∃ member rest', value fuel text = some (member, rest') ∧
      read.1.head? = some (key, member) ∧
      (∃ c rest'', skip rest' = c :: rest'' ∧ (c = ',' ∨ c = '\x7d')) := by
  rw [List.cons_append, members, skip_of_not (by decide)] at h
  simp only [stringBody_plain hkey, Option.bind_eq_bind, Option.bind_some,
    skip_of_not (show isSpace ':' = false by decide), Option.bind_eq_some_iff] at h
  obtain ⟨⟨member, rest'⟩, hvalue, h⟩ := h
  refine ⟨member, rest', hvalue, ?_⟩
  simp only at h
  split at h
  · next rest'' hskip =>
    rw [Option.bind_eq_some_iff] at h
    obtain ⟨others, -, h⟩ := h
    rw [← Option.some.inj h]
    exact ⟨rfl, ',', rest'', hskip, .inl rfl⟩
  · next rest'' hskip =>
    rw [← Option.some.inj h]
    exact ⟨rfl, '\x7d', rest'', hskip, .inr rfl⟩
  · exact absurd h (by simp)

end P101Test.Json
