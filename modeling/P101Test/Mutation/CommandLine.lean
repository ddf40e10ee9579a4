import Mathlib.Data.List.GetD
import P101Test.Grammar.Items
import P101Test.Mutation.World

/-!
# The command line of the mutation tool

The arguments of the tool are options with a value, flags and one project, up to a separator behind which the
test command stands. A value is taken whatever it looks like. Where an option has no value, or one operator
too many is named, its token is looked at as a project and refused for its first character.

## Main definitions

* `Readers`: the parsers of values, which are given.
* `MutationArguments`: the arguments of a run.
* `parseToken`, `parseFrom`, `parseArguments`: the parser.
* `Item`, `Item.write`, `Acceptable`, `Complete`: the grammar.
* `Denotes`: what the arguments are for a command line of the grammar.

## Main results

* `parseToken_item`, `parseToken_inv`: a step of the parser reads one item.
* `parseFrom_items`, `parseFrom_inv`: the loop reads items up to the separator.
* `parseArguments_iff`: the parser accepts exactly the command lines of the grammar.
-/

namespace P101Test.Mutation

open FileSystem Stdio Grammar

/-- `P101_MUTATION_MAX_OPERATORS`. -/
def maxOperators : ℕ := 16

/-- `P101_MUTATION_MESSAGE_SIZE`. -/
def mutationMessageSize : ℕ := 256

/-- `DEFAULT_MAX_MUTANTS`. -/
def defaultMaxMutants : ℕ := 100

/-- The parsers of values: `parse_size`, `parse_timeout`, `p101_c_mutation_kind_from_name` and
`p101_tool_report_parse_output_option`, whose outputs are human and json. With the kinds come their names. -/
structure Readers (Kind Timeout : Type) where
  parseSize : Text → Option ℕ
  parseTimeout : Text → Option Timeout
  kindFromName : Text → Option Kind
  parseOutputOption : Text → Option (Bool × Bool)
  kindNames : List Text

/-- `struct p101_mutation_arguments`; the test command is a position in the argument vector. -/
structure MutationArguments (Kind Timeout : Type) where
  project : Option Text
  compileDatabase : Option Text
  operators : List Kind
  maxMutants : ℕ
  timeout : Timeout
  listOnly : Bool
  human : Bool
  json : Bool
  testCommand : Option ℕ
  testCommandCount : ℕ

/-- How parsing ends: what is returned, the arguments, the message that is raised, and whether the usage is
shown. -/
structure Parsing (Kind Timeout : Type) where
  valid : Bool
  arguments : MutationArguments Kind Timeout
  raised : Option Text
  usage : Bool

/-! ### Messages -/

/-- The loop of `raise_unknown_operator`: names are appended while they fit their buffer, each counted with
a separator and the terminator. -/
def appendNames (names : Text) : List Text → Text
  | [] => names
  | name :: rest =>
    if mutationMessageSize ≤ names.length + name.length + 3 then names
    else appendNames ((if names = [] then names else names ++ ", ".toList) ++ name) rest

/-- The message of `raise_unknown_operator`. -/
def unknownOperator (kindNames : List Text) (name : Text) : Text :=
  cut mutationMessageSize ("The mutation operator '".toList ++ name ++
    "' is not known; valid operators are ".toList ++ appendNames [] kindNames ++ ".".toList)

theorem length_appendNames {names : Text} (kindNames : List Text) (h : names.length < mutationMessageSize) :
    (appendNames names kindNames).length < mutationMessageSize := by
  induction kindNames generalizing names with
  | nil => exact h
  | cons name rest ih =>
      unfold appendNames
      split
      · exact h
      · next hfits =>
        refine ih ?_
        split
        · rw [List.length_append]
          omega
        · have hseparator : ", ".toList.length = 2 := rfl
          rw [List.length_append, List.length_append]
          omega

/-! ### The grammar -/

/-- An item of the command line. -/
inductive Item
  | compileDatabase (value : Text)
  | operator (name : Text)
  | maxMutants (text : Text)
  | timeout (text : Text)
  | list
  | diagnostics (text : Text)
  | project (text : Text)
  deriving DecidableEq, Repr

variable {Kind Timeout : Type} (readers : Readers Kind Timeout)

namespace Item

/-- The tokens of an item. -/
def write : Item → List Text
  | .compileDatabase value => ["--compile-db".toList, value]
  | .operator name => ["--operator".toList, name]
  | .maxMutants text => ["--max-mutants".toList, text]
  | .timeout text => ["--timeout".toList, text]
  | .list => ["--list".toList]
  | .diagnostics text => [text]
  | .project text => [text]

/-! What an item sets. -/

def named : Item → Option Text
  | .project text => some text
  | _ => none

def database : Item → Option Text
  | .compileDatabase value => some value
  | _ => none

def kind : Item → Option Kind
  | .operator name => readers.kindFromName name
  | _ => none

def size : Item → Option ℕ
  | .maxMutants text => readers.parseSize text
  | _ => none

def seconds : Item → Option Timeout
  | .timeout text => readers.parseTimeout text
  | _ => none

def listed : Item → Option Bool
  | .list => some true
  | _ => none

def outputs : Item → Option (Bool × Bool)
  | .diagnostics text => readers.parseOutputOption text
  | _ => none

end Item

/-- An item is acceptable: its value is, a selection of outputs begins as one, and a project does not begin
as an option. -/
def Acceptable : Item → Prop
  | .compileDatabase _ => True
  | .operator name => (readers.kindFromName name).isSome
  | .maxMutants text => (readers.parseSize text).isSome
  | .timeout text => (readers.parseTimeout text).isSome
  | .list => True
  | .diagnostics text => text.take 3 = "-d:".toList ∧ (readers.parseOutputOption text).isSome
  | .project text => text.head? ≠ some '-'

/-- The items end at the end of the tokens or at a separator. -/
def AtEnd (tokens : List Text) : Prop := tokens = [] ∨ tokens.head? = some "--".toList

/-- Tokens split into acceptable items, up to a separator. -/
abbrev CommandLine : List Text → List Item → List Text → Prop :=
  Splits Item.write (Acceptable readers) AtEnd

/-- The conditions on a command line as a whole. -/
structure Complete (items : List Item) (rest : List Text) : Prop where
  operators_le : (items.filterMap (Item.kind readers)).length ≤ maxOperators
  project : (items.filterMap Item.named).length = 1
  database : items.filterMap Item.database ≠ []
  runs : .list ∈ items ∨ 2 ≤ rest.length

/-- A selection of outputs begins as an option. -/
theorem head?_of_take {text : Text} (h : text.take 3 = ['-', 'd', ':']) : text.head? = some '-' := by
  cases text with
  | nil => cases h
  | cons c text => rw [List.take_succ_cons, List.cons.injEq] at h; rw [List.head?_cons, h.1]

variable {readers} in
theorem determined : Determined Item.write (Acceptable readers) AtEnd where
  item_eq := by
    rintro (_ | _ | _ | _ | _ | _ | _) (_ | _ | _ | _ | _ | _ | _) more more' hitem hitem' h
    all_goals
      simp only [Item.write, Acceptable, List.cons_append, List.nil_append, List.cons.injEq] at hitem hitem' h
      obtain ⟨htoken, hmore⟩ := h
      -- no selection of outputs and no project is the name of an option
      first | (subst htoken; simp_all [head?_of_take]) | simp_all
  not_ends := by
    rintro (_ | _ | _ | _ | _ | _ | _) more hitem h <;> simp_all [Item.write, Acceptable, AtEnd]

/-! ### The parser -/

section Parser

namespace MutationArguments

/-- The arguments before the first token. -/
def initial [OfNat Timeout 120] : MutationArguments Kind Timeout :=
  ⟨none, none, [], defaultMaxMutants, 120, false, true, false, none, 0⟩

/-- The tokens the test command denotes. -/
def command (arguments : MutationArguments Kind Timeout) (argv : List Text) : List Text :=
  match arguments.testCommand with
  | none => []
  | some position => (argv.drop position).take arguments.testCommandCount

/-- Which outputs are selected: human and json. -/
def outputs (arguments : MutationArguments Kind Timeout) : Bool × Bool := (arguments.human, arguments.json)

/-- The arguments after one more item. -/
def take (arguments : MutationArguments Kind Timeout) (item : Item) : MutationArguments Kind Timeout where
  project := item.named.or arguments.project
  compileDatabase := item.database.or arguments.compileDatabase
  operators := arguments.operators ++ (item.kind readers).toList
  maxMutants := (item.size readers).getD arguments.maxMutants
  timeout := (item.seconds readers).getD arguments.timeout
  listOnly := item.listed.getD arguments.listOnly
  human := ((item.outputs readers).map Prod.fst).getD arguments.human
  json := ((item.outputs readers).map Prod.snd).getD arguments.json
  testCommand := arguments.testCommand
  testCommandCount := arguments.testCommandCount

variable {readers} (arguments : MutationArguments Kind Timeout)

theorem take_operator {name : Text} {kind : Kind} (h : readers.kindFromName name = some kind) :
    arguments.take readers (.operator name) = { arguments with operators := arguments.operators ++ [kind] } := by
  simp [take, Item.named, Item.database, Item.kind, Item.size, Item.seconds, Item.listed, Item.outputs, h]

theorem take_maxMutants {text : Text} {size : ℕ} (h : readers.parseSize text = some size) :
    arguments.take readers (.maxMutants text) = { arguments with maxMutants := size } := by
  simp [take, Item.named, Item.database, Item.kind, Item.size, Item.seconds, Item.listed, Item.outputs, h]

theorem take_timeout {text : Text} {timeout : Timeout} (h : readers.parseTimeout text = some timeout) :
    arguments.take readers (.timeout text) = { arguments with timeout := timeout } := by
  simp [take, Item.named, Item.database, Item.kind, Item.size, Item.seconds, Item.listed, Item.outputs, h]

theorem take_diagnostics {text : Text} {human json : Bool}
    (h : readers.parseOutputOption text = some (human, json)) :
    arguments.take readers (.diagnostics text) = { arguments with human := human, json := json } := by
  simp [take, Item.named, Item.database, Item.kind, Item.size, Item.seconds, Item.listed, Item.outputs, h]

variable (readers)

theorem take_compileDatabase (value : Text) :
    arguments.take readers (.compileDatabase value) = { arguments with compileDatabase := some value } := by
  simp [take, Item.named, Item.database, Item.kind, Item.size, Item.seconds, Item.listed, Item.outputs]

theorem take_list : arguments.take readers .list = { arguments with listOnly := true } := by
  simp [take, Item.named, Item.database, Item.kind, Item.size, Item.seconds, Item.listed, Item.outputs]

theorem take_project (text : Text) :
    arguments.take readers (.project text) = { arguments with project := some text } := by
  simp [take, Item.named, Item.database, Item.kind, Item.size, Item.seconds, Item.listed, Item.outputs]

/-- There is room for an item: for one more operator, or for the project. -/
def Fits (arguments : MutationArguments Kind Timeout) : Item → Prop
  | .operator _ => arguments.operators.length < maxOperators
  | .project _ => arguments.project = none
  | _ => True

end MutationArguments

/-- What a token leads to: the end of the loop, or the next token. -/
inductive Next (Kind Timeout : Type)
  | stop (parsing : Parsing Kind Timeout)
  | proceed (index : ℕ) (arguments : MutationArguments Kind Timeout)

/-- Parsing fails. -/
def refuse (arguments : MutationArguments Kind Timeout) : Next Kind Timeout :=
  .stop ⟨false, arguments, none, false⟩

variable (argv : List Text)

/-- The body of the loop of `p101_mutation_parse_arguments`, for the token at an index. -/
def parseToken (index : ℕ) (argument : Text) (arguments : MutationArguments Kind Timeout) :
    Next Kind Timeout :=
  let value := argv.getD (index + 1) []
  if argument = "--".toList then
    .stop ⟨true, { arguments with
      testCommand := some (index + 1), testCommandCount := argv.length - index - 1 }, none, false⟩
  else if argument = "-h".toList ∨ argument = "--help".toList then
    .stop ⟨false, arguments, none, true⟩
  else if argument = "--compile-db".toList ∧ index + 1 < argv.length then
    .proceed (index + 2) { arguments with compileDatabase := some value }
  else if argument = "--operator".toList ∧ index + 1 < argv.length ∧
      arguments.operators.length < maxOperators then
    match readers.kindFromName value with
    | none => .stop ⟨false, arguments, some (unknownOperator readers.kindNames value), false⟩
    | some kind => .proceed (index + 2) { arguments with operators := arguments.operators ++ [kind] }
  else if argument = "--max-mutants".toList ∧ index + 1 < argv.length then
    match readers.parseSize value with
    | none => refuse arguments
    | some size => .proceed (index + 2) { arguments with maxMutants := size }
  else if argument = "--timeout".toList ∧ index + 1 < argv.length then
    match readers.parseTimeout value with
    | none => refuse arguments
    | some timeout => .proceed (index + 2) { arguments with timeout := timeout }
  else if argument = "--list".toList then
    .proceed (index + 1) { arguments with listOnly := true }
  else if argument.take 3 = "-d:".toList then
    match readers.parseOutputOption argument with
    | none =>
      .stop ⟨false, arguments, some "Diagnostic output must be human, json, or human,json.".toList, false⟩
    | some (human, json) => .proceed (index + 1) { arguments with human := human, json := json }
  else if argument.head? = some '-' ∨ arguments.project ≠ none then
    refuse arguments
  else .proceed (index + 1) { arguments with project := some argument }

variable {readers argv} {index index' : ℕ} {arguments arguments' : MutationArguments Kind Timeout}

theorem parseToken_inv (hindex : index < argv.length)
    (h : parseToken readers argv index argv[index] arguments = .proceed index' arguments') :
    ∃ item, Acceptable readers item ∧ arguments.Fits item ∧ index' = index + item.write.length ∧
      argv.drop index = item.write ++ argv.drop index' ∧ arguments' = arguments.take readers item := by
  have hdrop : argv.drop index = argv[index] :: argv.drop (index + 1) := List.drop_eq_getElem_cons hindex
  have hnext (hnext : index + 1 < argv.length) :
      argv.drop (index + 1) = argv.getD (index + 1) [] :: argv.drop (index + 2) := by
    rw [List.drop_eq_getElem_cons hnext, List.getD_eq_getElem _ _ hnext]
  unfold parseToken refuse at h
  dsimp only at h
  generalize argv[index] = argument at h hdrop
  generalize argv.getD (index + 1) [] = value at h hnext
  split at h
  · cases h
  split at h
  · cases h
  split at h
  · next hoption =>
    cases h
    exact ⟨.compileDatabase value, trivial, trivial, rfl, by rw [hdrop, hnext hoption.2, hoption.1]; rfl,
      (MutationArguments.take_compileDatabase readers arguments value).symm⟩
  split at h
  · next hoption =>
    split at h
    · cases h
    next kind hkind =>
    cases h
    exact ⟨.operator value, by rw [Acceptable, hkind]; rfl, hoption.2.2, rfl,
      by rw [hdrop, hnext hoption.2.1, hoption.1]; rfl, (MutationArguments.take_operator arguments hkind).symm⟩
  split at h
  · next hoption =>
    split at h
    · cases h
    next size hsize =>
    cases h
    exact ⟨.maxMutants value, by rw [Acceptable, hsize]; rfl, trivial, rfl,
      by rw [hdrop, hnext hoption.2, hoption.1]; rfl, (MutationArguments.take_maxMutants arguments hsize).symm⟩
  split at h
  · next hoption =>
    split at h
    · cases h
    next seconds hseconds =>
    cases h
    exact ⟨.timeout value, by rw [Acceptable, hseconds]; rfl, trivial, rfl,
      by rw [hdrop, hnext hoption.2, hoption.1]; rfl, (MutationArguments.take_timeout arguments hseconds).symm⟩
  split at h
  · next hoption =>
    cases h
    exact ⟨.list, trivial, trivial, rfl, by rw [hdrop, hoption]; rfl,
      (MutationArguments.take_list readers arguments).symm⟩
  split at h
  · next hoption =>
    split at h
    · cases h
    next human json houtputs =>
    cases h
    exact ⟨.diagnostics argument, ⟨hoption, by rw [houtputs]; rfl⟩, trivial, rfl, hdrop,
      (MutationArguments.take_diagnostics arguments houtputs).symm⟩
  split at h
  · cases h
  next hoption =>
    rw [not_or, not_not] at hoption
    cases h
    exact ⟨.project argument, hoption.1, hoption.2, rfl, hdrop,
      (MutationArguments.take_project readers arguments argument).symm⟩

theorem lt_of_proceed (hindex : index < argv.length)
    (h : parseToken readers argv index argv[index] arguments = .proceed index' arguments') : index < index' := by
  obtain ⟨item, -, -, rfl, -⟩ := parseToken_inv hindex h
  cases item <;> simp [Item.write]

variable (readers argv)

/-- The loop of `p101_mutation_parse_arguments`. -/
def parseFrom (index : ℕ) (arguments : MutationArguments Kind Timeout) : Parsing Kind Timeout :=
  if hindex : index < argv.length then
    match hnext : parseToken readers argv index argv[index] arguments with
    | .stop parsing => parsing
    | .proceed index' arguments' =>
      have := lt_of_proceed hindex hnext
      parseFrom index' arguments'
  else ⟨true, arguments, none, false⟩
termination_by argv.length - index

/-- `p101_mutation_parse_arguments`. -/
def parseArguments [OfNat Timeout 120] : Parsing Kind Timeout :=
  let parsing := parseFrom readers argv 1 .initial
  let arguments := parsing.arguments
  if parsing.valid ∧ (arguments.project = none ∨ arguments.compileDatabase = none ∨
      (arguments.listOnly = false ∧ arguments.testCommandCount = 0)) then
    { parsing with valid := false }
  else parsing

/-! ### Steps -/

variable {readers argv} {items : List Item} {item : Item} {token : Text} {more rest : List Text}

theorem getElem_of_drop (h : argv.drop index = token :: more) :
    ∃ hindex : index < argv.length, argv[index] = token ∧ argv.drop (index + 1) = more := by
  have hindex : index < argv.length := by
    by_contra hle
    rw [List.drop_eq_nil_of_le (Nat.le_of_not_lt hle)] at h
    cases h
  rw [List.drop_eq_getElem_cons hindex, List.cons.injEq] at h
  exact ⟨hindex, h.1, h.2⟩

theorem getD_of_drop {value : Text} (h : argv.drop index = token :: value :: more) :
    index + 1 < argv.length ∧ argv.getD (index + 1) [] = value := by
  obtain ⟨-, -, hnext⟩ := getElem_of_drop h
  obtain ⟨hlt, hvalue, -⟩ := getElem_of_drop hnext
  exact ⟨hlt, by rw [List.getD_eq_getElem _ _ hlt, hvalue]⟩

/-- The separator, the help flags, and the options that are read by their name. -/
def optionNames : List Text :=
  ["--".toList, "-h".toList, "--help".toList, "--compile-db".toList, "--operator".toList,
    "--max-mutants".toList, "--timeout".toList, "--list".toList]

theorem notMem_optionNames (h : token.take 3 = "-d:".toList ∨ token.head? ≠ some '-') :
    token ∉ optionNames := by
  intro hmem
  have hname : ∀ name ∈ optionNames, name.take 3 ≠ "-d:".toList ∧ name.head? = some '-' := by decide
  rcases h with h | h
  · exact (hname token hmem).1 h
  · exact h (hname token hmem).2

theorem parseToken_of_notMem (h : token ∉ optionNames) :
    parseToken readers argv index token arguments =
      if token.take 3 = "-d:".toList then
        match readers.parseOutputOption token with
        | none =>
          .stop ⟨false, arguments, some "Diagnostic output must be human, json, or human,json.".toList, false⟩
        | some (human, json) => .proceed (index + 1) { arguments with human := human, json := json }
      else if token.head? = some '-' ∨ arguments.project ≠ none then
        refuse arguments
      else .proceed (index + 1) { arguments with project := some token } := by
  simp only [optionNames, List.mem_cons, List.not_mem_nil, or_false, not_or] at h
  obtain ⟨hseparator, hshort, hhelp, hdatabase, hoperator, hsize, htimeout, hlist⟩ := h
  unfold parseToken
  rw [if_neg hseparator, if_neg (by simp only [hshort, hhelp, or_self, not_false_eq_true]),
    if_neg (fun h => hdatabase h.1), if_neg (fun h => hoperator h.1), if_neg (fun h => hsize h.1),
    if_neg (fun h => htimeout h.1), if_neg hlist]

/-- A step reads an item for which there is room. -/
theorem parseToken_item (hitem : Acceptable readers item) (hfits : arguments.Fits item)
    (h : argv.drop index = item.write ++ more) :
    parseToken readers argv index (item.write.headD []) arguments =
      .proceed (index + item.write.length) (arguments.take readers item) := by
  cases item with
  | compileDatabase value =>
      obtain ⟨hlt, hvalue⟩ := getD_of_drop h
      rw [MutationArguments.take_compileDatabase]
      simp [parseToken, Item.write, hlt, -List.getD_eq_getElem?_getD, hvalue]
  | operator name =>
      obtain ⟨hlt, hvalue⟩ := getD_of_drop h
      obtain ⟨kind, hkind⟩ := Option.isSome_iff_exists.mp hitem
      have hroom : arguments.operators.length < maxOperators := hfits
      rw [MutationArguments.take_operator arguments hkind]
      simp [parseToken, Item.write, hlt, -List.getD_eq_getElem?_getD, hvalue, hroom, hkind]
  | maxMutants text =>
      obtain ⟨hlt, hvalue⟩ := getD_of_drop h
      obtain ⟨size, hsize⟩ := Option.isSome_iff_exists.mp hitem
      rw [MutationArguments.take_maxMutants arguments hsize]
      simp [parseToken, Item.write, hlt, -List.getD_eq_getElem?_getD, hvalue, hsize]
  | timeout text =>
      obtain ⟨hlt, hvalue⟩ := getD_of_drop h
      obtain ⟨seconds, hseconds⟩ := Option.isSome_iff_exists.mp hitem
      rw [MutationArguments.take_timeout arguments hseconds]
      simp [parseToken, Item.write, hlt, -List.getD_eq_getElem?_getD, hvalue, hseconds]
  | list =>
      rw [MutationArguments.take_list]
      simp [parseToken, Item.write]
  | diagnostics text =>
      obtain ⟨⟨human, json⟩, houtputs⟩ := Option.isSome_iff_exists.mp hitem.2
      rw [MutationArguments.take_diagnostics arguments houtputs, Item.write, List.headD_cons,
        parseToken_of_notMem (notMem_optionNames (.inl hitem.1)), if_pos hitem.1, houtputs]
      rfl
  | project text =>
      have hfree : arguments.project = none := hfits
      have hflag : ¬text.take 3 = "-d:".toList := fun htake => hitem (head?_of_take htake)
      rw [MutationArguments.take_project, Item.write, List.headD_cons,
        parseToken_of_notMem (notMem_optionNames (.inr hitem)), if_neg hflag, if_neg]
      · rfl
      · rintro (hoption | hproject)
        · exact hitem hoption
        · exact hproject hfree

/-! ### Runs -/

theorem parseFrom_of_drop (h : argv.drop index = token :: more) :
    parseFrom readers argv index arguments =
      match parseToken readers argv index token arguments with
      | .stop parsing => parsing
      | .proceed index' arguments' => parseFrom readers argv index' arguments' := by
  obtain ⟨hindex, rfl, -⟩ := getElem_of_drop h
  rw [parseFrom, dif_pos hindex]
  split <;> next hnext => simp only [hnext]

theorem parseFrom_of_nil (h : argv.drop index = []) :
    parseFrom readers argv index arguments = ⟨true, arguments, none, false⟩ := by
  rw [parseFrom, dif_neg (Nat.not_lt.mpr (List.drop_eq_nil_iff.mp h))]

namespace MutationArguments

/-- The arguments at the end of the items. -/
def endAt (arguments : MutationArguments Kind Timeout) (argv rest : List Text) :
    MutationArguments Kind Timeout :=
  if rest = [] then arguments
  else { arguments with
    testCommand := some (argv.length - rest.length + 1), testCommandCount := rest.length - 1 }

/-- There is room for items one after the other. -/
def FitsAll (readers : Readers Kind Timeout) (arguments : MutationArguments Kind Timeout) : List Item → Prop
  | [] => True
  | item :: items => arguments.Fits item ∧ (arguments.take readers item).FitsAll readers items

end MutationArguments

/-- The loop reads the items of a command line. -/
theorem parseFrom_items (h : CommandLine readers (argv.drop index) items rest)
    (hfits : arguments.FitsAll readers items) :
    parseFrom readers argv index arguments =
      ⟨true, (items.foldl (.take readers) arguments).endAt argv rest, none, false⟩ := by
  induction items generalizing index arguments with
  | nil =>
      have hrest : argv.drop index = rest := h.tokens_eq
      rcases h.ends with rfl | hhead
      · exact parseFrom_of_nil hrest
      · obtain ⟨more, rfl⟩ := List.head?_eq_some_iff.mp hhead
        obtain ⟨hindex, -⟩ := getElem_of_drop hrest
        have hlength := congrArg List.length hrest
        rw [List.length_drop, List.length_cons] at hlength
        have hposition : argv.length - ("--".toList :: more).length + 1 = index + 1 := by
          rw [List.length_cons]
          omega
        have hcount : ("--".toList :: more).length - 1 = argv.length - index - 1 := by
          rw [List.length_cons]
          omega
        rw [parseFrom_of_drop hrest, parseToken, if_pos rfl, List.foldl_nil, MutationArguments.endAt,
          if_neg (List.cons_ne_nil _ _), hposition, hcount]
  | cons item items ih =>
      obtain ⟨heq, hitem, htail⟩ := h.tail
      have hstep := parseToken_item hitem hfits.1 heq
      have hdrop : argv.drop (index + item.write.length) = items.flatMap Item.write ++ rest := by
        rw [← List.drop_drop, heq, List.drop_left]
      rw [← hdrop] at htail
      have hhead : ∃ more, argv.drop index = item.write.headD [] :: more := by
        rw [heq]
        cases item <;> exact ⟨_, rfl⟩
      obtain ⟨more, hmore⟩ := hhead
      rw [parseFrom_of_drop hmore, hstep]
      exact ih htail hfits.2

/-- Only a separator ends the loop without a refusal. -/
theorem eq_of_stop {parsing : Parsing Kind Timeout}
    (h : parseToken readers argv index token arguments = .stop parsing) (hvalid : parsing.valid = true) :
    token = "--".toList := by
  by_contra hseparator
  unfold parseToken refuse at h
  rw [if_neg hseparator] at h
  repeat' split at h
  all_goals cases h
  all_goals cases hvalid

/-- What the loop accepts is a command line, and there is room for its items. -/
theorem parseFrom_inv (h : (parseFrom readers argv index arguments).valid = true) :
    ∃ items rest, CommandLine readers (argv.drop index) items rest ∧ arguments.FitsAll readers items := by
  induction index, arguments using parseFrom.induct readers argv with
  | case1 index arguments hindex parsing hnext =>
      have hdrop := List.drop_eq_getElem_cons hindex
      rw [parseFrom_of_drop hdrop, hnext] at h
      refine ⟨[], argv.drop index, .nil (.inr ?_), trivial⟩
      rw [hdrop, List.head?_cons, eq_of_stop hnext h]
  | case2 index arguments hindex index' arguments' hnext _ ih =>
      rw [parseFrom_of_drop (List.drop_eq_getElem_cons hindex), hnext] at h
      obtain ⟨item, hitem, hfits, -, hdrop, rfl⟩ := parseToken_inv hindex hnext
      obtain ⟨items, rest, hitems, hall⟩ := ih h
      rw [hdrop]
      exact ⟨item :: items, rest, hitems.cons hitem, hfits, hall⟩
  | case3 index arguments hindex =>
      have hdrop : argv.drop index = [] := List.drop_eq_nil_of_le (Nat.le_of_not_lt hindex)
      rw [hdrop]
      exact ⟨[], [], .nil (.inl rfl), trivial⟩

/-! ### Items -/

/-- There is room for items if no more operators and projects are named than there may be. -/
theorem fitsAll_iff (hitems : ∀ item ∈ items, Acceptable readers item)
    (hroom : arguments.operators.length ≤ maxOperators) :
    arguments.FitsAll readers items ↔
      arguments.operators.length + (items.filterMap (Item.kind readers)).length ≤ maxOperators ∧
        arguments.project.toList.length + (items.filterMap Item.named).length ≤ 1 := by
  induction items generalizing arguments with
  | nil =>
      refine iff_of_true trivial ⟨hroom, ?_⟩
      cases arguments.project <;> simp
  | cons item items ih =>
      have hitem := hitems item List.mem_cons_self
      have hrest : ∀ item ∈ items, Acceptable readers item := fun other hother =>
        hitems other (List.mem_cons_of_mem _ hother)
      have hothers := @ih (arguments.take readers item) hrest
      rw [MutationArguments.FitsAll]
      cases item with
      | operator name =>
          obtain ⟨kind, hkind⟩ := Option.isSome_iff_exists.mp hitem
          rw [MutationArguments.take_operator arguments hkind] at hothers ⊢
          rw [List.filterMap_cons_some (show Item.kind readers (.operator name) = some kind from hkind),
            List.filterMap_cons_none rfl, List.length_cons, MutationArguments.Fits]
          rw [List.length_append, List.length_singleton] at hothers
          constructor
          · rintro ⟨hlt, hall⟩
            have := (hothers hlt).mp hall
            exact ⟨by omega, this.2⟩
          · rintro ⟨hle, hproject⟩
            have hlt : arguments.operators.length < maxOperators := by omega
            exact ⟨hlt, (hothers hlt).mpr ⟨by omega, hproject⟩⟩
      | project text =>
          rw [MutationArguments.take_project] at hothers ⊢
          rw [List.filterMap_cons_none rfl,
            List.filterMap_cons_some (show Item.named (.project text) = some text from rfl), List.length_cons,
            MutationArguments.Fits, hothers hroom]
          cases arguments.project with
          | none => simp
          | some project => simp
      | compileDatabase value =>
          rw [MutationArguments.take_compileDatabase] at hothers ⊢
          exact (and_iff_right trivial).trans (hothers hroom)
      | maxMutants text =>
          obtain ⟨size, hsize⟩ := Option.isSome_iff_exists.mp hitem
          rw [MutationArguments.take_maxMutants arguments hsize] at hothers ⊢
          exact (and_iff_right trivial).trans (hothers hroom)
      | timeout text =>
          obtain ⟨seconds, hseconds⟩ := Option.isSome_iff_exists.mp hitem
          rw [MutationArguments.take_timeout arguments hseconds] at hothers ⊢
          exact (and_iff_right trivial).trans (hothers hroom)
      | list =>
          rw [MutationArguments.take_list] at hothers ⊢
          exact (and_iff_right trivial).trans (hothers hroom)
      | diagnostics text =>
          obtain ⟨⟨human, json⟩, houtputs⟩ := Option.isSome_iff_exists.mp hitem.2
          rw [MutationArguments.take_diagnostics arguments houtputs] at hothers ⊢
          exact (and_iff_right trivial).trans (hothers hroom)

/-- What the arguments are for a command line: a value is the last one that is given, the operators are those
named, in order, and the test command is what stands behind the separator. -/
structure Denotes [OfNat Timeout 120] (readers : Readers Kind Timeout) (argv : List Text)
    (arguments : MutationArguments Kind Timeout) (items : List Item) (rest : List Text) : Prop where
  project : items.filterMap Item.named = arguments.project.toList
  compileDatabase : arguments.compileDatabase = (items.filterMap Item.database).getLast?
  operators : arguments.operators = items.filterMap (Item.kind readers)
  maxMutants : arguments.maxMutants = (items.filterMap (Item.size readers)).getLast?.getD defaultMaxMutants
  timeout : arguments.timeout = (items.filterMap (Item.seconds readers)).getLast?.getD 120
  listOnly : arguments.listOnly = true ↔ .list ∈ items
  outputs : arguments.outputs = (items.filterMap (Item.outputs readers)).getLast?.getD (true, false)
  command : arguments.command argv = rest.tail
  commandCount : arguments.testCommandCount = rest.tail.length

theorem getLast?_listed (items : List Item) :
    (items.filterMap Item.listed).getLast?.getD false = true ↔ .list ∈ items := by
  have hmem (flag : Bool) : flag ∈ items.filterMap Item.listed ↔ flag = true ∧ .list ∈ items := by
    rw [List.mem_filterMap]
    constructor
    · rintro ⟨item, hitem, hflag⟩
      cases item <;> cases hflag
      exact ⟨rfl, hitem⟩
    · rintro ⟨rfl, hlist⟩
      exact ⟨.list, hlist, rfl⟩
  cases hlast : (items.filterMap Item.listed).getLast? with
  | none =>
      have hnil := List.getLast?_eq_none_iff.mp hlast
      have hnot : .list ∉ items := fun hlist => by
        have := (hmem true).mpr ⟨rfl, hlist⟩
        rw [hnil] at this
        cases this
      exact iff_of_false Bool.false_ne_true hnot
  | some flag =>
      obtain ⟨rfl, hlist⟩ := (hmem flag).mp (List.mem_of_getLast? hlast)
      exact iff_of_true rfl hlist

theorem command_endAt (hrest : argv.drop 1 = items.flatMap Item.write ++ rest)
    (hnone : arguments.testCommand = none) (hcount : arguments.testCommandCount = 0) :
    (arguments.endAt argv rest).command argv = rest.tail ∧
      (arguments.endAt argv rest).testCommandCount = rest.tail.length := by
  cases rest with
  | nil =>
      rw [MutationArguments.endAt, if_pos rfl, MutationArguments.command, hnone]
      exact ⟨rfl, hcount⟩
  | cons separator tokens =>
      rw [MutationArguments.endAt, if_neg (List.cons_ne_nil _ _), MutationArguments.command]
      have hlength := congrArg List.length hrest
      rw [List.length_drop, List.length_append, List.length_cons] at hlength
      have hdrop : argv.drop (argv.length - (separator :: tokens).length + 1) = tokens := by
        have hposition : argv.length - (separator :: tokens).length + 1 =
            1 + ((items.flatMap Item.write).length + 1) := by
          rw [List.length_cons]
          omega
        rw [hposition, ← List.drop_drop, hrest, List.drop_append, List.drop_of_length_le (Nat.le_succ _)]
        simp
      dsimp only
      rw [hdrop]
      simp

theorem get_endAt {Value : Type} (get : MutationArguments Kind Timeout → Value)
    (hget : ∀ arguments position count, get { arguments with
      testCommand := position, testCommandCount := count } = get arguments) :
    get (arguments.endAt argv rest) = get arguments := by
  rw [MutationArguments.endAt]
  split
  · rfl
  · exact hget _ _ _

theorem testCommand_foldl (readers : Readers Kind Timeout) (items : List Item)
    (arguments : MutationArguments Kind Timeout) :
    (items.foldl (MutationArguments.take readers) arguments).testCommand = arguments.testCommand ∧
      (items.foldl (MutationArguments.take readers) arguments).testCommandCount =
        arguments.testCommandCount := by
  induction items generalizing arguments with
  | nil => exact ⟨rfl, rfl⟩
  | cons item items ih => exact ih (arguments.take readers item)

theorem denotes_foldl [OfNat Timeout 120] (h : CommandLine readers (argv.drop 1) items rest)
    (hproject : (items.filterMap Item.named).length ≤ 1) :
    Denotes readers argv ((items.foldl (MutationArguments.take readers) .initial).endAt argv rest) items
      rest := by
  obtain ⟨hnone, hzero⟩ := testCommand_foldl readers items .initial
  obtain ⟨hcommand, hcount⟩ := command_endAt h.tokens_eq hnone hzero
  have houtputs (arguments : MutationArguments Kind Timeout) (item : Item) :
      (arguments.take readers item).outputs = (item.outputs readers).getD arguments.outputs := by
    rw [MutationArguments.outputs, MutationArguments.take]
    cases item.outputs readers <;> rfl
  exact {
    project := by
      rw [get_endAt MutationArguments.project fun _ _ _ => rfl,
        foldl_or MutationArguments.project Item.named fun _ _ => rfl]
      match items.filterMap Item.named, hproject with
      | [], _ => rfl
      | [project], _ => rfl
    compileDatabase := by
      rw [get_endAt MutationArguments.compileDatabase fun _ _ _ => rfl,
        foldl_or MutationArguments.compileDatabase Item.database fun _ _ => rfl]
      exact Option.or_none
    operators := (get_endAt MutationArguments.operators fun _ _ _ => rfl).trans
      (foldl_append MutationArguments.operators (Item.kind readers) (fun _ _ => rfl) items .initial)
    maxMutants := (get_endAt MutationArguments.maxMutants fun _ _ _ => rfl).trans
      (foldl_set MutationArguments.maxMutants (Item.size readers) (fun _ _ => rfl) items .initial)
    timeout := (get_endAt MutationArguments.timeout fun _ _ _ => rfl).trans
      (foldl_set MutationArguments.timeout (Item.seconds readers) (fun _ _ => rfl) items .initial)
    listOnly := by
      rw [get_endAt MutationArguments.listOnly fun _ _ _ => rfl,
        foldl_set MutationArguments.listOnly Item.listed fun _ _ => rfl]
      exact getLast?_listed items
    outputs := (get_endAt MutationArguments.outputs fun _ _ _ => rfl).trans
      (foldl_set MutationArguments.outputs (Item.outputs readers) houtputs items .initial)
    command := hcommand
    commandCount := hcount }

theorem parseArguments_valid [OfNat Timeout 120] (readers : Readers Kind Timeout) (argv : List Text) :
    (parseArguments readers argv).arguments = (parseFrom readers argv 1 .initial).arguments ∧
    ((parseArguments readers argv).valid = true ↔
      (parseFrom readers argv 1 .initial).valid = true ∧
        (parseFrom readers argv 1 .initial).arguments.project ≠ none ∧
        (parseFrom readers argv 1 .initial).arguments.compileDatabase ≠ none ∧
        ((parseFrom readers argv 1 .initial).arguments.listOnly = true ∨
          (parseFrom readers argv 1 .initial).arguments.testCommandCount ≠ 0)) := by
  unfold parseArguments
  dsimp only
  split
  · next h =>
    refine ⟨rfl, iff_of_false Bool.false_ne_true ?_⟩
    rintro ⟨-, hproject, hdatabase, hruns⟩
    rcases h.2 with hnone | hnone | ⟨hlist, hcount⟩
    · exact hproject hnone
    · exact hdatabase hnone
    · rw [hlist, hcount] at hruns
      simp at hruns
  · next h =>
    refine ⟨rfl, ⟨fun hvalid => ⟨hvalid, ?_⟩, And.left⟩⟩
    rw [not_and, not_or, not_or, not_and_or, Bool.not_eq_false] at h
    exact h hvalid

/-- The conditions on a command line, in terms of the arguments it denotes. -/
theorem complete_iff [OfNat Timeout 120] {items : List Item} {rest : List Text}
    (hdenotes : Denotes readers argv arguments items rest) :
    Complete readers items rest ↔
      (items.filterMap (Item.kind readers)).length ≤ maxOperators ∧ arguments.project ≠ none ∧
        arguments.compileDatabase ≠ none ∧ (arguments.listOnly = true ∨ arguments.testCommandCount ≠ 0) := by
  have hproject : (items.filterMap Item.named).length = 1 ↔ arguments.project ≠ none := by
    rw [hdenotes.project]
    cases arguments.project <;> simp
  have hdatabase : items.filterMap Item.database ≠ [] ↔ arguments.compileDatabase ≠ none := by
    rw [hdenotes.compileDatabase, Ne, Ne, List.getLast?_eq_none_iff]
  have hruns : 2 ≤ rest.length ↔ arguments.testCommandCount ≠ 0 := by
    rw [hdenotes.commandCount, List.length_tail]
    omega
  rw [← hproject, ← hdatabase, hdenotes.listOnly, ← hruns]
  exact ⟨fun h => ⟨h.operators_le, h.project, h.database, h.runs⟩, fun h => ⟨h.1, h.2.1, h.2.2.1, h.2.2.2⟩⟩

theorem fitsAll_of_valid (hline : CommandLine readers (argv.drop index) items rest)
    (hvalid : (parseFrom readers argv index arguments).valid = true) : arguments.FitsAll readers items := by
  obtain ⟨items', rest', hline', hall⟩ := parseFrom_inv hvalid
  obtain ⟨rfl, rfl⟩ := hline.unique determined hline'
  exact hall

/-- Parsing of a command line: it succeeds if and only if the command line is complete. -/
theorem parseArguments_of_line [OfNat Timeout 120] (hline : CommandLine readers (argv.drop 1) items rest) :
    ((parseArguments readers argv).valid = true ↔ Complete readers items rest) ∧
      ((parseArguments readers argv).valid = true →
        Denotes readers argv (parseArguments readers argv).arguments items rest) := by
  obtain ⟨harguments, hvalid⟩ := parseArguments_valid readers argv
  have hroom : MutationArguments.FitsAll readers .initial items ↔ _ :=
    fitsAll_iff hline.acceptable (Nat.zero_le _)
  have hdenotes (hall : MutationArguments.FitsAll readers .initial items) :
      Denotes readers argv (parseFrom readers argv 1 .initial).arguments items rest := by
    rw [parseFrom_items hline hall]
    refine denotes_foldl hline ?_
    have := (hroom.mp hall).2
    rwa [show (MutationArguments.initial : MutationArguments Kind Timeout).project.toList.length = 0 from rfl,
      Nat.zero_add] at this
  rw [hvalid, harguments]
  refine ⟨⟨fun h => ?_, fun h => ?_⟩, fun h => hdenotes (fitsAll_of_valid hline h.1)⟩
  · have hall := fitsAll_of_valid hline h.1
    refine (complete_iff (hdenotes hall)).mpr ⟨?_, h.2⟩
    have := (hroom.mp hall).1
    exact (Nat.zero_add _).symm.trans_le this
  · have hall : MutationArguments.FitsAll readers .initial items := by
      refine hroom.mpr ⟨(Nat.zero_add _).trans_le h.operators_le, ?_⟩
      rw [h.project]
      rfl
    refine ⟨?_, ((complete_iff (hdenotes hall)).mp h).2⟩
    rw [parseFrom_items hline hall]

/-- **The grammar of the command line.** Parsing succeeds if and only if the tokens split in a unique way and
the command line is complete; the arguments are then what the command line says. -/
theorem parseArguments_iff [OfNat Timeout 120] (readers : Readers Kind Timeout) (argv : List Text) :
    ((parseArguments readers argv).valid = true ↔
      ∃ items rest, CommandLine readers (argv.drop 1) items rest ∧
        (∀ items' rest', CommandLine readers (argv.drop 1) items' rest' → items' = items ∧ rest' = rest) ∧
        Complete readers items rest) ∧
    ((parseArguments readers argv).valid = true →
      ∀ items rest, CommandLine readers (argv.drop 1) items rest →
        Denotes readers argv (parseArguments readers argv).arguments items rest) := by
  refine ⟨⟨fun h => ?_, ?_⟩, fun h items rest hline => (parseArguments_of_line hline).2 h⟩
  · obtain ⟨items, rest, hline, -⟩ := parseFrom_inv ((parseArguments_valid readers argv).2.mp h).1
    exact ⟨items, rest, hline, fun items' rest' hline' => hline'.unique determined hline,
      (parseArguments_of_line hline).1.mp h⟩
  · rintro ⟨items, rest, hline, -, hcomplete⟩
    exact (parseArguments_of_line hline).1.mpr hcomplete

end Parser

end P101Test.Mutation
