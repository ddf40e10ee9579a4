import P101Test.Mutation.CommandLine
import P101Test.Mutation.EditSpec
import P101Test.Mutation.Heap

/-!
# Collecting candidates

The analysis delivers its records one after the other, and the observer keeps those that mutate in a selected
way, as long as there is room. A candidate is counted before it is filled in, so a call that fails leaves one
that is only partly there; it is released with the others.

## Main definitions

* `AnalysisRecord`, `CandidateCell`, `Candidates`: records, and the candidates in memory.
* `candidateObserver`, `deliver`, `destroyCandidates`: the observer, a delivery of records, and the release.
* `Selected`, `Describes`: what is collected.
* `Fails`, `Untroubled`: calls that fail.
* `BoundedFilter`: collecting is a bounded filter.

## Main results

* `candidateObserver_accepted`: what the observer does with a record it keeps.
* `deliver_held`, `deliver_exact`: what a delivery keeps, and what it collects.
* `candidates_boundedFilter`: collecting is a bounded filter.
-/

namespace P101Test.Mutation

open FileSystem Stdio Pointers

/-- `enum p101_c_analysis_kind`, of which the observer asks for one value. -/
inductive AnalysisKind
  | mutation
  | other (value : ℕ)
  deriving DecidableEq, Repr

/-- `struct p101_c_analysis_record`. -/
structure AnalysisRecord (Kind : Type) where
  kind : AnalysisKind
  mutation : Kind
  path : Text
  line : ℕ
  startOffset : ℕ
  endOffset : ℕ
  name : Text
  replacement : Text

/-- A text that was allocated; its address is the number of the allocation. -/
structure Allocated where
  address : ℕ
  text : Text
  deriving DecidableEq, Repr

/-- `struct p101_mutation_candidate`. -/
structure CandidateCell (Kind : Type) where
  path : Text
  line : ℕ
  start : ℕ
  stop : ℕ
  original : Option Allocated
  replacement : Option Allocated
  kind : Kind

/-- `struct p101_mutation_candidates`. -/
structure Candidates (Kind Timeout : Type) where
  items : Cells (CandidateCell Kind)
  count : ℕ
  capacity : ℕ
  arguments : MutationArguments Kind Timeout

variable {Kind Timeout : Type}

namespace CandidateCell

/-- A cleared cell. -/
def zero [Zero Kind] : CandidateCell Kind := ⟨[], 0, 0, 0, none, none, 0⟩

/-- The texts of a cell, in the order in which they are released; a null pointer releases nothing. -/
def held (cell : CandidateCell Kind) : List ℕ :=
  (cell.replacement.toList ++ cell.original.toList).map Allocated.address

end CandidateCell

/-- The candidates that are counted. -/
def Candidates.collected (candidates : Candidates Kind Timeout) : List (CandidateCell Kind) :=
  (candidates.items.getD []).take candidates.count

section Observer

variable (host : Host) (denied : ℕ → Bool)

/-- `p101_mutation_copy_text`, with the address. -/
def allocateText (text : Text) (heap : Heap) : Option Allocated × Heap :=
  let copied := mutationCopyText denied text heap
  (copied.1.map (Allocated.mk heap.allocations), copied.2)

/-- `operator_selected`. -/
def operatorSelected [DecidableEq Kind] (arguments : MutationArguments Kind Timeout) (kind : Kind) : Bool :=
  if arguments.operators.length = 0 then true
  else arguments.operators.any (· == kind)

/-- `p101_mutation_candidate_observer`: whether to keep going, and the candidates. -/
def candidateObserver [DecidableEq Kind] [Zero Kind] (record : AnalysisRecord Kind)
    (candidates : Candidates Kind Timeout) (heap : Heap) :
    Except Violation (Bool × Candidates Kind Timeout × Heap) :=
  if record.kind ≠ .mutation ∨ operatorSelected candidates.arguments record.mutation = false then
    .ok (true, candidates, heap)
  else if candidates.capacity ≤ candidates.count then .ok (true, candidates, heap)
  else
    let index := candidates.count
    match store candidates.items index .zero with
    | .error violation => .error violation
    | .ok items =>
      let candidates := { candidates with items := items, count := index + 1 }
      match call host (canonicalize host record.path) heap.world with
      | (none, w) => .ok (false, candidates, heap.withWorld w)
      | (some canonical, w) =>
        -- A path that does not fit its buffer is cut, and an error is recorded.
        let w := if pathSize ≤ canonical.length then w.raise (.errno .overflow) else w
        let original := allocateText denied record.name (heap.withWorld w)
        let replacement := allocateText denied record.replacement original.2
        let cell := ⟨cut pathSize canonical, record.line, record.startOffset, record.endOffset, original.1,
          replacement.1, record.mutation⟩
        match store candidates.items index cell with
        | .error violation => .error violation
        | .ok items => .ok (!replacement.2.hasError, { candidates with items := items }, replacement.2)

/-- A delivery of records, which ends where the observer asks to stop. -/
def deliver [DecidableEq Kind] [Zero Kind] :
    List (AnalysisRecord Kind) → Candidates Kind Timeout → Heap →
      Except Violation (Bool × Candidates Kind Timeout × Heap)
  | [], candidates, heap => .ok (true, candidates, heap)
  | record :: rest, candidates, heap =>
    match candidateObserver host denied record candidates heap with
    | .error violation => .error violation
    | .ok (false, candidates, heap) => .ok (false, candidates, heap)
    | .ok (true, candidates, heap) => deliver rest candidates heap

/-- `p101_mutation_destroy_candidates`: the texts that are released, whether the array is, and what is left. -/
def destroyCandidates (candidates : Candidates Kind Timeout) :
    Except Violation (List ℕ × Bool × Candidates Kind Timeout) :=
  let cleared := { candidates with items := none, count := 0, capacity := 0 }
  match candidates.items with
  | none => .ok ([], false, cleared)
  | some cells =>
    match loadAll (some cells) candidates.count with
    | .error violation => .error violation
    | .ok cells => .ok (cells.flatMap CandidateCell.held, true, cleared)

/-! ### What is collected -/

/-- A record mutates in a selected way: in any one, when none is named. -/
def Selected (arguments : MutationArguments Kind Timeout) (record : AnalysisRecord Kind) : Prop :=
  record.kind = .mutation ∧ (arguments.operators = [] ∨ record.mutation ∈ arguments.operators)

instance [DecidableEq Kind] (arguments : MutationArguments Kind Timeout) :
    DecidablePred (Selected arguments) := fun _ => inferInstanceAs (Decidable (_ ∧ _))

/-- A candidate has the canonical path, the line, the offsets, the kind and the texts of a record. -/
def Describes (fs : FileSystem) (record : AnalysisRecord Kind) (cell : CandidateCell Kind) : Prop :=
  (∃ p, fs.realpath host.cwd record.path = some p ∧ cell.path = canonicalText p) ∧
    cell.line = record.line ∧ cell.start = record.startOffset ∧ cell.stop = record.endOffset ∧
    cell.kind = record.mutation ∧ cell.original.map Allocated.text = some record.name ∧
    cell.replacement.map Allocated.text = some record.replacement

/-- There is room for a record, and it is to be collected. -/
def Accepts (candidates : Candidates Kind Timeout) (record : AnalysisRecord Kind) : Prop :=
  Selected candidates.arguments record ∧ candidates.count < candidates.capacity

/-- A call fails for a record that is collected: its path is not canonicalized, or one of its texts is not
allocated. -/
def Fails (record : AnalysisRecord Kind) (heap : Heap) : Prop :=
  (call host (canonicalize host record.path) heap.world).1 = none ∨
    denied heap.allocations = true ∨ denied (heap.allocations + 1) = true

/-- The allocations that succeed, from one on and before another one. -/
def granted (first last : ℕ) : List ℕ := (List.range' first (last - first)).filter fun k => !denied k

variable {host denied} {arguments : MutationArguments Kind Timeout} {candidates : Candidates Kind Timeout}
  {heap : Heap} {record : AnalysisRecord Kind}

/-! ### Allocations -/

theorem granted_append (denied : ℕ → Bool) {first middle last : ℕ} (h : first ≤ middle) (h' : middle ≤ last) :
    granted denied first middle ++ granted denied middle last = granted denied first last := by
  have hrange : List.range' first (middle - first) ++ List.range' middle (last - middle) =
      List.range' first (last - first) := by
    have happend : List.range' first (middle - first) ++
        List.range' (first + (middle - first)) (last - middle) =
        List.range' first (middle - first + (last - middle)) := List.range'_append_1
    rwa [Nat.add_sub_cancel' h, show middle - first + (last - middle) = last - first by omega] at happend
  rw [granted, granted, granted, ← List.filter_append, hrange]

theorem granted_self (denied : ℕ → Bool) (first : ℕ) : granted denied first first = [] := by
  rw [granted, Nat.sub_self]
  rfl

theorem nodup_granted (denied : ℕ → Bool) (first last : ℕ) : (granted denied first last).Nodup :=
  List.Nodup.filter _ List.nodup_range'

theorem mem_granted {first last k : ℕ} :
    k ∈ granted denied first last ↔ first ≤ k ∧ k < last ∧ denied k = false := by
  rw [granted, List.mem_filter, List.mem_range'_1, Bool.not_eq_true', and_assoc]
  refine and_congr_right fun hle => and_congr_left fun _ => ?_
  omega

/-- Two texts that are to be allocated: those that are there are the ones whose allocation succeeds, and an
allocation that fails leaves an error on record. -/
theorem allocateText_twice (denied : ℕ → Bool) (name replacement : Text) (hclean : heap.hasError = false) :
    let original := allocateText denied name heap
    let replaced := allocateText denied replacement original.2
    replaced.2.allocations = heap.allocations + 2 ∧ replaced.2.world.fs = heap.world.fs ∧
      ((replaced.1.toList ++ original.1.toList).map Allocated.address).Perm
        (granted denied heap.allocations (heap.allocations + 2)) ∧
      (replaced.2.hasError = true ↔
        denied heap.allocations = true ∨ denied (heap.allocations + 1) = true) ∧
      (replaced.2.hasError = false → original.1.map Allocated.text = some name ∧
        replaced.1.map Allocated.text = some replacement) := by
  have htwo : granted denied heap.allocations (heap.allocations + 2) =
      [heap.allocations, heap.allocations + 1].filter fun k => !denied k := by
    rw [granted, Nat.add_sub_cancel_left]
    rfl
  rw [htwo]
  have hworld : heap.world.hasError = false := hclean
  cases hfirst : denied heap.allocations <;> cases hsecond : denied (heap.allocations + 1)
  · simp [allocateText, mutationCopyText, allocate, hfirst, hsecond, hworld, Heap.hasError, List.Perm.swap]
  all_goals simp [allocateText, mutationCopyText, allocate, hfirst, hsecond, Heap.hasError, World.hasError]

/-! ### One record -/

variable [DecidableEq Kind]

theorem operatorSelected_iff (arguments : MutationArguments Kind Timeout) (kind : Kind) :
    operatorSelected arguments kind = true ↔ arguments.operators = [] ∨ kind ∈ arguments.operators := by
  unfold operatorSelected
  split
  · next hnil => exact iff_of_true rfl (.inl (List.length_eq_zero_iff.mp hnil))
  · next hne =>
    rw [List.any_beq', List.contains_iff_mem]
    exact ⟨.inr, fun h => h.resolve_left fun hnil => hne (by rw [hnil]; rfl)⟩

variable [Zero Kind]

theorem candidateObserver_of_not_accepts (h : ¬Accepts candidates record) :
    candidateObserver host denied record candidates heap = .ok (true, candidates, heap) := by
  unfold candidateObserver
  split
  · rfl
  · next hselected =>
    rw [not_or, not_not, Bool.not_eq_false, operatorSelected_iff] at hselected
    rw [if_pos (Nat.le_of_not_lt fun hroom => h ⟨hselected, hroom⟩)]

/-- What the observer does with a record it keeps: it adds one candidate, whose texts are those that were
allocated, and asks to stop if and only if a call fails. -/
theorem candidateObserver_accepted (host : Host) (denied : ℕ → Bool) {cells : List (CandidateCell Kind)}
    (haccepts : Accepts candidates record) (hitems : candidates.items = some cells)
    (hroom : candidates.count < cells.length)
    (hclean : heap.hasError = false) :
    ∃ keep cell heap', candidateObserver host denied record candidates heap =
        .ok (keep, { candidates with
          items := some (cells.set candidates.count cell), count := candidates.count + 1 }, heap') ∧
      (keep = false ↔ Fails host denied record heap) ∧ heap.allocations ≤ heap'.allocations ∧
      cell.held.Perm (granted denied heap.allocations heap'.allocations) ∧
      (keep = true → heap'.hasError = false ∧ heap'.world.fs = heap.world.fs ∧
        Describes host heap.world.fs record cell) := by
  have hobserver :
      ¬(record.kind ≠ .mutation ∨ operatorSelected candidates.arguments record.mutation = false) := by
    rw [not_or, not_not, Bool.not_eq_false, operatorSelected_iff]
    exact haccepts.1
  unfold candidateObserver
  rw [if_neg hobserver, if_neg (Nat.not_le.mpr haccepts.2), hitems]
  dsimp only
  rw [store_some _ hroom]
  dsimp only
  rcases hcall : call host (canonicalize host record.path) heap.world with ⟨_ | canonical, w⟩
  · refine ⟨false, .zero, heap.withWorld w, rfl, iff_of_true rfl (.inl ?_), le_rfl, ?_, ?_⟩
    · rw [hcall]
    · exact (granted_self denied _).symm ▸ List.Perm.refl _
    · intro h
      cases h
  · obtain ⟨hok, herr, -⟩ := call_some hcall
    obtain ⟨hfs, p, hp, rfl, hlength⟩ := canonicalize_eq_ok hok
    have hclean' : (heap.withWorld w).hasError = false := by
      rw [Heap.hasError, Heap.withWorld, World.hasError, herr]
      exact hclean
    dsimp only
    rw [if_neg (Nat.not_le.mpr hlength), cut_of_lt hlength]
    obtain ⟨hallocations, hfs', hheld, herror, htexts⟩ :=
      allocateText_twice denied record.name record.replacement hclean'
    generalize hreplaced : allocateText denied record.replacement
      (allocateText denied record.name (heap.withWorld w)).2 = replaced
      at hallocations hfs' hheld herror htexts ⊢
    generalize hname : allocateText denied record.name (heap.withWorld w) = original at hheld htexts ⊢
    rw [store_some _ (by rwa [List.length_set])]
    dsimp only
    rw [List.set_set]
    refine ⟨_, _, _, rfl, ?_, ?_, ?_, fun hkeep => ⟨?_, ?_, ?_⟩⟩
    · rw [Fails, hcall, Bool.not_eq_eq_eq_not, Bool.not_false, herror]
      exact (or_iff_right (Option.some_ne_none _)).symm
    · rw [hallocations]
      exact Nat.le_add_right _ _
    · rw [hallocations]
      exact hheld
    · rwa [Bool.not_eq_true'] at hkeep
    · exact hfs'.trans hfs
    · rw [Bool.not_eq_true'] at hkeep
      exact ⟨⟨p, hp, rfl⟩, rfl, rfl, rfl, rfl, htexts hkeep⟩

/-! ### Deliveries -/

variable {candidates' : Candidates Kind Timeout} {heap' : Heap}
  {records before after : List (AnalysisRecord Kind)} {first : ℕ}

/-- The candidates in memory: there is room for as many as the capacity says, and the texts of those that are
counted are the ones that were allocated from some allocation on. -/
structure Held (denied : ℕ → Bool) (first : ℕ) (candidates : Candidates Kind Timeout) (heap : Heap) :
    Prop where
  cells : ∃ cells, candidates.items = some cells ∧ cells.length = candidates.capacity
  count_le : candidates.count ≤ candidates.capacity
  first_le : first ≤ heap.allocations
  held : (candidates.collected.flatMap CandidateCell.held).Perm (granted denied first heap.allocations)

/-- Candidates are added behind those that are there. -/
structure Extends (candidates candidates' : Candidates Kind Timeout) : Prop where
  capacity : candidates'.capacity = candidates.capacity
  arguments : candidates'.arguments = candidates.arguments
  count_le : candidates.count ≤ candidates'.count
  collected : candidates'.collected.take candidates.count = candidates.collected

omit [DecidableEq Kind] [Zero Kind] in
theorem Extends.refl (candidates : Candidates Kind Timeout) : Extends candidates candidates :=
  ⟨rfl, rfl, le_rfl, by rw [Candidates.collected, List.take_take, min_self]⟩

omit [DecidableEq Kind] [Zero Kind] in
theorem Extends.trans {middle : Candidates Kind Timeout} (h : Extends candidates middle)
    (h' : Extends middle candidates') : Extends candidates candidates' where
  capacity := h'.capacity.trans h.capacity
  arguments := h'.arguments.trans h.arguments
  count_le := h.count_le.trans h'.count_le
  collected := by rw [← h.collected, ← h'.collected, List.take_take, min_eq_left h.count_le]

omit [DecidableEq Kind] [Zero Kind] in
theorem collected_add {cells : List (CandidateCell Kind)} (cell : CandidateCell Kind)
    (hitems : candidates.items = some cells) (hroom : candidates.count < cells.length) :
    Candidates.collected { candidates with
        items := some (cells.set candidates.count cell), count := candidates.count + 1 } =
      candidates.collected ++ [cell] := by
  rw [Candidates.collected, Candidates.collected, hitems, Option.getD_some, Option.getD_some,
    List.take_succ_eq_append_getElem (by rwa [List.length_set]), List.getElem_set_self,
    List.take_set_of_le (Nat.le_refl _)]

omit [DecidableEq Kind] [Zero Kind] in
theorem Held.length_collected (h : Held denied first candidates heap) :
    candidates.collected.length = candidates.count := by
  obtain ⟨cells, hitems, hlength⟩ := h.cells
  rw [Candidates.collected, hitems, Option.getD_some, List.length_take, hlength, min_eq_left h.count_le]

/-- One record keeps the candidates, and adds at most one. -/
theorem candidateObserver_held (host : Host) (h : Held denied first candidates heap)
    (hclean : heap.hasError = false) (record : AnalysisRecord Kind) :
    ∃ keep candidates' heap',
      candidateObserver host denied record candidates heap = .ok (keep, candidates', heap') ∧
      Held denied first candidates' heap' ∧ Extends candidates candidates' ∧
      (keep = true → heap'.hasError = false ∧ heap'.world.fs = heap.world.fs) := by
  by_cases haccepts : Accepts candidates record
  · obtain ⟨cells, hitems, hlength⟩ := h.cells
    have hroom : candidates.count < cells.length := hlength ▸ haccepts.2
    obtain ⟨keep, cell, heap', hstep, -, hle, hheld, hkeep⟩ :=
      candidateObserver_accepted host denied haccepts hitems hroom hclean
    have hadd := collected_add cell hitems hroom
    refine ⟨keep, _, heap', hstep, ⟨⟨_, rfl, ?_⟩, haccepts.2, h.first_le.trans hle, ?_⟩,
      ⟨rfl, rfl, Nat.le_succ _, ?_⟩, fun htrue => ⟨(hkeep htrue).1, (hkeep htrue).2.1⟩⟩
    · rw [List.length_set, hlength]
    · rw [hadd, List.flatMap_append, List.flatMap_singleton, ← granted_append denied h.first_le hle]
      exact h.held.append hheld
    · rw [hadd, ← h.length_collected, List.take_left]
  · exact ⟨true, candidates, heap, candidateObserver_of_not_accepts haccepts, h, .refl candidates,
      fun _ => ⟨hclean, rfl⟩⟩

/-- A delivery keeps the candidates, and adds behind them. -/
theorem deliver_held (host : Host) (h : Held denied first candidates heap) (hclean : heap.hasError = false)
    (records : List (AnalysisRecord Kind)) :
    ∃ keep candidates' heap', deliver host denied records candidates heap = .ok (keep, candidates', heap') ∧
      Held denied first candidates' heap' ∧ Extends candidates candidates' ∧
      (keep = true → heap'.hasError = false ∧ heap'.world.fs = heap.world.fs) := by
  induction records generalizing candidates heap with
  | nil => exact ⟨true, candidates, heap, rfl, h, .refl candidates, fun _ => ⟨hclean, rfl⟩⟩
  | cons record rest ih =>
      obtain ⟨keep, candidates₁, heap₁, hstep, hheld, hextends, hkeep⟩ :=
        candidateObserver_held host h hclean record
      rw [deliver, hstep]
      cases keep with
      | false => exact ⟨false, candidates₁, heap₁, rfl, hheld, hextends, hkeep⟩
      | true =>
          obtain ⟨keep, candidates₂, heap₂, hrest, hheld₂, hextends₂, hkeep₂⟩ :=
            ih hheld (hkeep rfl).1
          exact ⟨keep, candidates₂, heap₂, hrest, hheld₂, hextends.trans hextends₂, fun htrue =>
            ⟨(hkeep₂ htrue).1, (hkeep₂ htrue).2.trans (hkeep rfl).2⟩⟩

theorem deliver_append (records rest : List (AnalysisRecord Kind)) (candidates : Candidates Kind Timeout)
    (heap : Heap) :
    deliver host denied (records ++ rest) candidates heap =
      match deliver host denied records candidates heap with
      | .error violation => .error violation
      | .ok (false, candidates, heap) => .ok (false, candidates, heap)
      | .ok (true, candidates, heap) => deliver host denied rest candidates heap := by
  induction records generalizing candidates heap with
  | nil => rfl
  | cons record records ih =>
      rw [List.cons_append, deliver, deliver]
      rcases candidateObserver host denied record candidates heap with _ | ⟨_ | _, candidates', heap'⟩
      · rfl
      · rfl
      · exact ih candidates' heap'

/-- No call fails for a record that is collected in a delivery. -/
def Untroubled (host : Host) (denied : ℕ → Bool) (records : List (AnalysisRecord Kind))
    (candidates : Candidates Kind Timeout) (heap : Heap) : Prop :=
  ∀ before record after candidates' heap', records = before ++ record :: after →
    deliver host denied before candidates heap = .ok (true, candidates', heap') →
    Accepts candidates' record → ¬Fails host denied record heap'

/-- Without a failing call, a delivery collects the first selected records there is room for. -/
theorem deliver_exact (h : Held denied first candidates heap) (hclean : heap.hasError = false)
    (huntroubled : Untroubled host denied records candidates heap) :
    ∃ candidates' heap' added,
      deliver host denied records candidates heap = .ok (true, candidates', heap') ∧
      candidates'.collected = candidates.collected ++ added ∧
      List.Forall₂ (Describes host heap.world.fs)
        ((records.filter (Selected candidates.arguments)).take (candidates.capacity - candidates.count))
        added := by
  induction records generalizing candidates heap with
  | nil =>
      refine ⟨candidates, heap, [], rfl, (List.append_nil _).symm, ?_⟩
      rw [List.filter_nil, List.take_nil]
      exact .nil
  | cons record rest ih =>
      obtain ⟨keep, candidates₁, heap₁, hstep, hheld, -, hkeep⟩ :=
        candidateObserver_held host h hclean record
      have hrest (htrue : keep = true) : Untroubled host denied rest candidates₁ heap₁ := by
        intro before record' after candidates' heap' hsplit hbefore
        refine huntroubled (record :: before) record' after candidates' heap' (by rw [hsplit]; rfl) ?_
        rw [deliver, hstep, htrue]
        exact hbefore
      rw [deliver, hstep]
      by_cases haccepts : Accepts candidates record
      · obtain ⟨cells, hitems, hlength⟩ := h.cells
        have hroom : candidates.count < cells.length := hlength ▸ haccepts.2
        obtain ⟨keep', cell, heap₁', hstep', hfails, -, -, hcell⟩ :=
          candidateObserver_accepted host denied haccepts hitems hroom hclean
        rw [hstep'] at hstep
        cases hstep
        have htrue : keep = true := by
          rw [← Bool.not_eq_false, hfails]
          exact huntroubled [] record rest candidates heap rfl rfl haccepts
        obtain ⟨candidates', heap', added, hdeliver, hcollected, hadded⟩ :=
          ih hheld (hkeep htrue).1 (hrest htrue)
        subst htrue
        refine ⟨candidates', heap', cell :: added, hdeliver, ?_, ?_⟩
        · rw [hcollected, collected_add cell hitems hroom, List.append_assoc]
          rfl
        · rw [(hkeep rfl).2] at hadded
          have hcapacity : candidates.capacity - candidates.count =
              candidates.capacity - (candidates.count + 1) + 1 := by
            have := haccepts.2
            omega
          rw [List.filter_cons_of_pos (by simpa using haccepts.1), hcapacity, List.take_succ_cons]
          exact .cons (hcell rfl).2.2 hadded
      · rw [candidateObserver_of_not_accepts haccepts] at hstep
        cases hstep
        obtain ⟨candidates', heap', added, hdeliver, hcollected, hadded⟩ := ih h hclean (hrest rfl)
        refine ⟨candidates', heap', added, hdeliver, hcollected, ?_⟩
        by_cases hselected : Selected candidates.arguments record
        · -- there is no more room
          have hfull : candidates.capacity - candidates.count = 0 :=
            Nat.sub_eq_zero_of_le (Nat.le_of_not_lt fun hroom => haccepts ⟨hselected, hroom⟩)
          rw [hfull, List.take_zero] at hadded ⊢
          exact hadded
        · rwa [List.filter_cons_of_neg (by simpa using hselected)]

/-- A failing call for a record that is collected ends the delivery. -/
theorem deliver_of_fails (h : Held denied first candidates heap) (hclean : heap.hasError = false)
    (hbefore : deliver host denied before candidates heap = .ok (true, candidates', heap'))
    (haccepts : Accepts candidates' record) (hfails : Fails host denied record heap') :
    ∃ candidates₁ heap₁, deliver host denied (before ++ record :: after) candidates heap =
        .ok (false, candidates₁, heap₁) ∧ candidates₁.count = candidates'.count + 1 := by
  obtain ⟨_, _, _, hdeliver, hheld, -, hkeep⟩ := deliver_held host h hclean before
  rw [hbefore] at hdeliver
  cases hdeliver
  obtain ⟨cells, hitems, hlength⟩ := hheld.cells
  obtain ⟨keep, cell, heap₁, hstep, hstop, -⟩ :=
    candidateObserver_accepted host denied haccepts hitems (hlength ▸ haccepts.2) (hkeep rfl).1
  rw [hstop.mpr hfails] at hstep
  rw [deliver_append, hbefore]
  dsimp only
  rw [deliver, hstep]
  exact ⟨_, heap₁, rfl, rfl⟩

/-- Collecting is a bounded filter. -/
structure BoundedFilter (host : Host) (denied : ℕ → Bool) (records : List (AnalysisRecord Kind))
    (candidates : Candidates Kind Timeout) (heap : Heap) : Prop where
  /-- Without a failing call, the scan is not stopped, and the candidates are the first selected records that
  there is room for. -/
  exact : Untroubled host denied records candidates heap →
    ∃ candidates' heap', deliver host denied records candidates heap = .ok (true, candidates', heap') ∧
      List.Forall₂ (Describes host heap.world.fs)
        ((records.filter (Selected candidates.arguments)).take candidates.capacity) candidates'.collected
  /-- Where a call fails, the observer asks to stop. -/
  stops : ∀ before record after candidates' heap', records = before ++ record :: after →
    deliver host denied before candidates heap = .ok (true, candidates', heap') →
    Accepts candidates' record → Fails host denied record heap' →
    ∃ candidates₁ heap₁,
      deliver host denied records candidates heap = .ok (false, candidates₁, heap₁) ∧
      candidates₁.count = candidates'.count + 1
  /-- The candidates never exceed the capacity, those that are there are left as they are, and destroying them
  releases each text that was allocated, and each of them once. -/
  kept : ∀ before after, records = before ++ after →
    ∃ keep candidates' heap', deliver host denied before candidates heap = .ok (keep, candidates', heap') ∧
      candidates'.count ≤ candidates.capacity ∧
      (∀ keep candidates₁ heap₁,
        deliver host denied records candidates heap = .ok (keep, candidates₁, heap₁) →
        candidates₁.collected.take candidates'.count = candidates'.collected) ∧
      ∃ freed, destroyCandidates candidates' =
          .ok (freed, true, { candidates' with items := none, count := 0, capacity := 0 }) ∧
        freed.Nodup ∧ ∀ address, address ∈ freed ↔
          heap.allocations ≤ address ∧ address < heap'.allocations ∧ denied address = false

/-- **Collecting candidates.** Whatever records are delivered and whichever calls fail, collecting into an empty
array is a bounded filter. -/
theorem candidates_boundedFilter (records : List (AnalysisRecord Kind))
    (arguments : MutationArguments Kind Timeout) (cells : List (CandidateCell Kind))
    (hclean : heap.hasError = false) :
    BoundedFilter host denied records ⟨some cells, 0, cells.length, arguments⟩ heap := by
  have hempty : Held denied heap.allocations ⟨some cells, 0, cells.length, arguments⟩ heap :=
    ⟨⟨cells, rfl, rfl⟩, Nat.zero_le _, le_rfl, (granted_self denied _).symm ▸ List.Perm.refl _⟩
  refine ⟨fun huntroubled => ?_, ?_, ?_⟩
  · obtain ⟨candidates', heap', added, hdeliver, hcollected, hadded⟩ :=
      deliver_exact hempty hclean huntroubled
    refine ⟨candidates', heap', hdeliver, ?_⟩
    rw [hcollected]
    exact hadded
  · rintro before record after candidates' heap' rfl hbefore haccepts hfails
    exact deliver_of_fails hempty hclean hbefore haccepts hfails
  · rintro before after rfl
    obtain ⟨keep, candidates', heap', hbefore, hheld, hextends, hkeep⟩ :=
      deliver_held host hempty hclean before
    refine ⟨keep, candidates', heap', hbefore, ?_, ?_, ?_⟩
    · rw [← hextends.capacity]
      exact hheld.count_le
    · intro keep₁ candidates₁ heap₁ hdeliver
      rw [deliver_append, hbefore] at hdeliver
      cases keep with
      | false =>
          cases hdeliver
          exact (Extends.refl candidates').collected
      | true =>
          obtain ⟨_, _, _, hafter, -, hextends', -⟩ := deliver_held host hheld (hkeep rfl).1 after
          dsimp only at hdeliver
          rw [hafter] at hdeliver
          cases hdeliver
          exact hextends'.collected
    · obtain ⟨cells', hitems, hlength⟩ := hheld.cells
      have hcollected : candidates'.collected = cells'.take candidates'.count := by
        rw [Candidates.collected, hitems]
        rfl
      refine ⟨candidates'.collected.flatMap CandidateCell.held, ?_, ?_, fun address => ?_⟩
      · rw [destroyCandidates, hitems]
        dsimp only
        rw [loadAll_some (hlength ▸ hheld.count_le), hcollected]
      · exact hheld.held.nodup_iff.mpr (nodup_granted _ _ _)
      · rw [hheld.held.mem_iff, mem_granted]

/-- A file with four comparisons. -/
def scannedHeap : Heap :=
  ⟨⟨.ofEntries [(["a.c".toList], .regular 0o644 "a<b+c<d<e".toList)], none, 0, []⟩, 0⟩

/-- Its records: of another kind, selected, not selected, and selected twice more. -/
def scannedRecords : List (AnalysisRecord ℕ) :=
  [⟨.other 2, 0, "/a.c".toList, 1, 0, 9, "f".toList, []⟩,
    ⟨.mutation, 1, "/a.c".toList, 1, 1, 2, "<".toList, ">".toList⟩,
    ⟨.mutation, 4, "/a.c".toList, 1, 3, 4, "+".toList, "-".toList⟩,
    ⟨.mutation, 1, "/a.c".toList, 1, 5, 6, "<".toList, ">".toList⟩,
    ⟨.mutation, 1, "/a.c".toList, 1, 7, 8, "<".toList, ">".toList⟩]

/-- Room for two candidates that mutate in one way. -/
def roomForTwo : Candidates ℕ ℕ :=
  ⟨some [.zero, .zero], 0, 2, { (.initial : MutationArguments ℕ ℕ) with operators := [1] }⟩

/-- Without a failing call the first two are collected, and the third one is left out; where a text of the
second one is not allocated, the scan stops with it. -/
theorem candidates_boundedFilter_denied :
    (deliver (.granting (fun _ _ _ => none) fun _ _ _ fs => (.refused 11, fs)) (fun _ => false)
        scannedRecords roomForTwo scannedHeap).toOption.map
          (fun run => (run.1, run.2.1.collected.map CandidateCell.start)) = some (true, [1, 5]) ∧
      BoundedFilter (.granting (fun _ _ _ => none) fun _ _ _ fs => (.refused 11, fs)) (fun _ => false)
        scannedRecords roomForTwo scannedHeap ∧
      (deliver (.granting (fun _ _ _ => none) fun _ _ _ fs => (.refused 11, fs)) (fun k => k == 3)
        scannedRecords roomForTwo scannedHeap).toOption.map
          (fun run => (run.1, run.2.1.collected.map CandidateCell.start)) = some (false, [1, 5]) ∧
      BoundedFilter (.granting (fun _ _ _ => none) fun _ _ _ fs => (.refused 11, fs)) (fun k => k == 3)
        scannedRecords roomForTwo scannedHeap :=
  ⟨by decide +kernel, candidates_boundedFilter _ _ [.zero, .zero] rfl, by decide +kernel,
    candidates_boundedFilter _ _ [.zero, .zero] rfl⟩

end Observer

end P101Test.Mutation
