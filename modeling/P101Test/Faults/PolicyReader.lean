import P101Test.Faults.Logs

/-!
# The policy reader

The buffer of the policy reader is doubled up to a limit while it is read into. The reader is run once more
together with the uses it makes of its buffer: what is allocated, the reads that are requested, where the
terminator is written and what the parser is given.

## Main definitions

* `BufferUse`, `BufferUse.InBounds`: a use of the buffer, and when it stays in bounds.
* `fillObserved`, `readObserved`: the reader together with its uses of the buffer.
* `Exact`: the reader is exact and in bounds.

## Main results

* `fst_readObserved`: observing the reader does not change it.
* `fillBuffer_of_granting`: what a reader whose calls succeed has in its buffer.
* `readPolicyJson_exact`: the reader is exact and in bounds.
-/

namespace P101Test.Faults

open Stdio

/-! ### Uses of the buffer -/

/-- A use of the buffer, with its capacity and the bytes that are used. -/
inductive BufferUse
  | allocated (capacity : ℕ) (granted : Bool)
  | requested (used capacity count : ℕ)
  | terminated (used capacity : ℕ)
  | parsed (bytes : Text)
  deriving DecidableEq, Repr

/-- A use stays in bounds: the capacity is positive and within the limit, a request is for a positive number
of bytes and leaves room for the terminator, and the terminator has its place. -/
def BufferUse.InBounds : BufferUse → Prop
  | .allocated capacity _ => 0 < capacity ∧ capacity ≤ policyOutputLimit
  | .requested used capacity count =>
    used ≤ capacity - 1 ∧ capacity ≤ policyOutputLimit ∧ 0 < count ∧ used + count ≤ capacity - 1
  | .terminated used capacity => used < capacity ∧ used ≤ capacity - 1 ∧ capacity ≤ policyOutputLimit
  | .parsed bytes => bytes.length < policyOutputLimit

/-- The capacity that is asked for when the buffer is full. -/
def nextCapacity (capacity : ℕ) : ℕ :=
  if policyOutputLimit / 2 < capacity then policyOutputLimit else capacity * 2

/-- The allocation before a read, if there is one. -/
def growUses (used capacity : ℕ) (granted : Bool) : List BufferUse :=
  if used = capacity - 1 then [.allocated (nextCapacity capacity) granted] else []

variable (host : Host)

/-- The reading loop together with its uses of the buffer. -/
def fillObserved (buffer rest : Text) (capacity : ℕ) (w : World) :
    (Option Text × World) × List BufferUse :=
  if policyOutputLimit - 1 ≤ buffer.length then
    ((some buffer, w), [.terminated buffer.length capacity])
  else
    match growBuffer host buffer.length capacity w with
    | (none, w) => ((none, w), growUses buffer.length capacity false)
    | (some next, w) =>
      match fread host (next - buffer.length - 1) rest w with
      | (data, rest, w) =>
        let uses := growUses buffer.length capacity true ++
          [.requested buffer.length next (next - buffer.length - 1)]
        if w.hasError ∨ data = [] then
          ((some (buffer ++ data), w), uses ++ [.terminated (buffer ++ data).length next])
        else
          let observed := fillObserved (buffer ++ data) rest next w
          (observed.1, uses ++ observed.2)
termination_by policyOutputLimit - buffer.length
decreasing_by
  have : 0 < data.length := List.length_pos_iff.mpr (by grind)
  simp only [List.length_append]
  omega

/-- The reader together with its uses of the buffer. -/
def readObserved (path schema : Text) (w : World) : (PolicySummary × World) × List BufferUse :=
  match openStream host path w with
  | (stream, w) =>
    if stream.opens = false then ((⟨false, 0, 0⟩, w.raise (.call 2)), [])
    else
      match attempt host w with
      | (false, w) =>
        ((⟨false, 0, 0⟩, closeStream stream w), [.allocated policyInitialCapacity false])
      | (true, w) =>
        let uses := [.allocated policyInitialCapacity true, .terminated 0 policyInitialCapacity]
        match fillObserved host [] stream.content policyInitialCapacity w with
        | ((none, w), filled) => ((⟨false, 0, 0⟩, closeStream stream w), uses ++ filled)
        | ((some buffer, w), filled) =>
          ((host.parsePolicy buffer schema, closeStream stream w), uses ++ filled ++ [.parsed buffer])

variable {host}

/-! ### Observing changes nothing -/

theorem fst_fillObserved (buffer rest : Text) (capacity : ℕ) (w : World) :
    (fillObserved host buffer rest capacity w).1 = fillBuffer host buffer rest capacity w := by
  fun_induction fillBuffer host buffer rest capacity w with
  | case1 buffer rest capacity w hfull => rw [fillObserved, if_pos hfull]
  | case2 buffer rest capacity w hroom w₁ hgrow => rw [fillObserved, if_neg hroom, hgrow]
  | case3 buffer rest capacity w hroom next w₁ hgrow data rest₁ w₂ hread hstop =>
      rw [fillObserved, if_neg hroom, hgrow]
      dsimp only
      rw [hread]
      dsimp only
      rw [if_pos hstop]
  | case4 buffer rest capacity w hroom next w₁ hgrow data rest₁ w₂ hread hgo ih =>
      rw [fillObserved, if_neg hroom, hgrow]
      dsimp only
      rw [hread]
      dsimp only
      rw [if_neg hgo]
      exact ih

theorem fst_readObserved (path schema : Text) (w : World) :
    (readObserved host path schema w).1 = readPolicyJson host path schema w := by
  unfold readObserved readPolicyJson
  dsimp only [openStream]
  split
  · rfl
  · rcases attempt host { w with opened := w.opened + 1 } with ⟨_ | _, w₁⟩
    · rfl
    · dsimp only
      rw [← fst_fillObserved]
      rcases fillObserved host [] _ policyInitialCapacity w₁ with ⟨⟨_ | buffer, w₂⟩, filled⟩ <;> rfl

/-! ### Bounds -/

/-- A full buffer below the limit grows, within the limit. -/
theorem lt_nextCapacity (capacity : ℕ) (hpos : 0 < capacity) (hlimit : capacity < policyOutputLimit) :
    capacity < nextCapacity capacity ∧ nextCapacity capacity ≤ policyOutputLimit := by
  unfold nextCapacity
  split <;> omega

theorem growBuffer_some {used capacity next : ℕ} {w w' : World}
    (h : growBuffer host used capacity w = (some next, w')) :
    next = if used = capacity - 1 then nextCapacity capacity else capacity := by
  unfold growBuffer at h
  split at h
  · next hfull =>
    rw [if_pos hfull]
    rcases hattempt : attempt host w with ⟨_ | _, w₁⟩ <;> rw [hattempt] at h
    · cases h
    · exact (Option.some.inj (Prod.mk.inj h).1).symm
  · next hroom =>
    rw [if_neg hroom]
    exact (Option.some.inj (Prod.mk.inj h).1).symm

theorem length_fread (host : Host) (count : ℕ) (rest : Text) (w : World) :
    (fread host count rest w).1.length ≤ count := by
  unfold fread
  rcases attempt host w with ⟨_ | _, w₁⟩
  · exact Nat.zero_le _
  · rw [List.length_take]
    omega

/-- The capacity before a read leaves room for a byte and the terminator, within the limit. -/
theorem next_bounds {used capacity next : ℕ} {w w' : World} (hroom : used < policyOutputLimit - 1)
    (hused : used < capacity) (hlimit : capacity ≤ policyOutputLimit)
    (h : growBuffer host used capacity w = (some next, w')) :
    used + 1 < next ∧ next ≤ policyOutputLimit := by
  have hnext := growBuffer_some h
  by_cases hfull : used = capacity - 1
  · rw [if_pos hfull] at hnext
    have := lt_nextCapacity capacity (by omega) (by omega)
    omega
  · rw [if_neg hfull] at hnext
    omega

theorem inBounds_growUses {used capacity : ℕ} (hroom : used < policyOutputLimit - 1) (hused : used < capacity)
    (granted : Bool) : ∀ use ∈ growUses used capacity granted, use.InBounds := by
  unfold growUses
  split
  · next hfull =>
    have := lt_nextCapacity capacity (by omega) (by omega)
    rw [List.forall_mem_singleton]
    exact ⟨by omega, this.2⟩
  · simp

/-- The uses before and at a read stay in bounds, and the bytes it delivers leave room for the terminator. -/
theorem inBounds_read {buffer rest data rest' : Text} {capacity next : ℕ} {w w₁ w₂ : World}
    (hroom : buffer.length < policyOutputLimit - 1) (hused : buffer.length < capacity)
    (hlimit : capacity ≤ policyOutputLimit) (hgrow : growBuffer host buffer.length capacity w = (some next, w₁))
    (hread : fread host (next - buffer.length - 1) rest w₁ = (data, rest', w₂)) :
    (∀ use ∈ growUses buffer.length capacity true ++
        [.requested buffer.length next (next - buffer.length - 1)], use.InBounds) ∧
      (buffer ++ data).length < next ∧ next ≤ policyOutputLimit := by
  obtain ⟨hnext, hnextLimit⟩ := next_bounds hroom hused hlimit hgrow
  have hdata : data.length ≤ next - buffer.length - 1 := by
    have := length_fread host (next - buffer.length - 1) rest w₁
    rwa [hread] at this
  rw [List.forall_mem_append, List.forall_mem_singleton, List.length_append]
  exact ⟨⟨inBounds_growUses hroom hused true, by omega, hnextLimit, by omega, by omega⟩, by omega, hnextLimit⟩

theorem inBounds_fillObserved (host : Host) (buffer rest : Text) (capacity : ℕ) (w : World)
    (hused : buffer.length < capacity) (hlimit : capacity ≤ policyOutputLimit) :
    (∀ use ∈ (fillObserved host buffer rest capacity w).2, use.InBounds) ∧
      ∀ bytes ∈ (fillObserved host buffer rest capacity w).1.1, bytes.length < policyOutputLimit := by
  fun_induction fillObserved host buffer rest capacity w with
  | case1 buffer rest capacity w hfull =>
      rw [List.forall_mem_singleton]
      refine ⟨⟨hused, by omega, hlimit⟩, fun bytes hbytes => ?_⟩
      obtain rfl : buffer = bytes := Option.some.inj hbytes
      omega
  | case2 buffer rest capacity w hroom w₁ hgrow =>
      exact ⟨inBounds_growUses (by omega) hused false, fun bytes hbytes => by cases hbytes⟩
  | case3 buffer rest capacity w hroom next w₁ hgrow data rest₁ w₂ hread uses hstop =>
      obtain ⟨huses, hdata, hnext⟩ := inBounds_read (by omega) hused hlimit hgrow hread
      rw [List.forall_mem_append, List.forall_mem_singleton]
      refine ⟨⟨huses, hdata, by omega, hnext⟩, fun bytes hbytes => ?_⟩
      obtain rfl : buffer ++ data = bytes := Option.some.inj hbytes
      omega
  | case4 buffer rest capacity w hroom next w₁ hgrow data rest₁ w₂ hread uses hgo observed ih =>
      obtain ⟨huses, hdata, hnext⟩ := inBounds_read (by omega) hused hlimit hgrow hread
      obtain ⟨hrest, hbytes⟩ := ih hdata hnext
      rw [List.forall_mem_append]
      exact ⟨⟨huses, hrest⟩, hbytes⟩

theorem fillObserved_refused (buffer rest : Text) (capacity : ℕ) (w : World) {refused : ℕ}
    (h : .allocated refused false ∈ (fillObserved host buffer rest capacity w).2) :
    (fillObserved host buffer rest capacity w).1.1 = none := by
  have hgranted (used capacity next count : ℕ) :
      BufferUse.allocated refused false ∉ growUses used capacity true ++ [.requested used next count] := by
    unfold growUses
    split <;> simp
  fun_induction fillObserved host buffer rest capacity w with
  | case1 => simp at h
  | case2 => rfl
  | case3 buffer rest capacity w hroom next w₁ hgrow data rest₁ w₂ hread uses hstop =>
      rw [List.mem_append, List.mem_singleton] at h
      rcases h with h | h
      · exact absurd h (hgranted _ _ _ _)
      · cases h
  | case4 buffer rest capacity w hroom next w₁ hgrow data rest₁ w₂ hread uses hgo observed ih =>
      rw [List.mem_append] at h
      rcases h with h | h
      · exact absurd h (hgranted _ _ _ _)
      · exact ih h

/-! ### Granting hosts -/

/-- No call fails from now on. -/
def Granting (host : Host) (w : World) : Prop := ∀ call, w.calls ≤ call → host.failure call = none

theorem Granting.attempt {w : World} (h : Granting host w) :
    Faults.attempt host w = (true, w.tick) ∧ Granting host w.tick := by
  refine ⟨?_, fun call hcall => h call (Nat.le_of_succ_le hcall)⟩
  rw [Faults.attempt, h w.calls le_rfl]

theorem Granting.growBuffer {w : World} (h : Granting host w) (used capacity : ℕ) :
    (Faults.growBuffer host used capacity w).1 ≠ none ∧
      Granting host (Faults.growBuffer host used capacity w).2 ∧
      (Faults.growBuffer host used capacity w).2.hasError = w.hasError := by
  unfold Faults.growBuffer
  split
  · obtain ⟨hattempt, htick⟩ := h.attempt
    rw [hattempt]
    exact ⟨Option.some_ne_none _, htick, rfl⟩
  · exact ⟨Option.some_ne_none _, h, rfl⟩

/-- What a read delivers whose call does not fail: some of the bytes requested, if there are any left. -/
theorem Granting.fread {w : World} (h : Granting host w) (htransfer : ∀ call, 0 < host.transfer call)
    (count : ℕ) (hcount : 0 < count) (rest : Text) :
    ∃ moved, 0 < moved ∧ moved ≤ count ∧ (Faults.fread host count rest w).1 = rest.take moved ∧
      (Faults.fread host count rest w).2.1 = rest.drop moved ∧
      Granting host (Faults.fread host count rest w).2.2 ∧
      (Faults.fread host count rest w).2.2.hasError = w.hasError := by
  obtain ⟨hattempt, htick⟩ := h.attempt
  rw [Faults.fread, hattempt]
  have := htransfer w.calls
  exact ⟨_, by omega, Nat.min_le_left _ _, rfl, rfl, htick, rfl⟩

/-- What a loop whose calls succeed leaves in the buffer: all of the file, up to the limit. -/
theorem fillBuffer_of_granting (htransfer : ∀ call, 0 < host.transfer call) (buffer rest : Text)
    (capacity : ℕ) (w : World) (hgranting : Granting host w) (herr : w.hasError = false)
    (hused : buffer.length < capacity) (hlimit : capacity ≤ policyOutputLimit) :
    (fillBuffer host buffer rest capacity w).1 =
      some (buffer ++ rest.take (policyOutputLimit - 1 - buffer.length)) := by
  fun_induction fillBuffer host buffer rest capacity w with
  | case1 buffer rest capacity w hfull =>
      rw [Nat.sub_eq_zero_of_le hfull, List.take_zero, List.append_nil]
  | case2 buffer rest capacity w hroom w₁ hgrow =>
      have hgrown := hgranting.growBuffer buffer.length capacity
      rw [hgrow] at hgrown
      exact absurd rfl hgrown.1
  | case3 buffer rest capacity w hroom next w₁ hgrow data rest₁ w₂ hread hstop =>
      obtain ⟨hnext, -⟩ := next_bounds (by omega) hused hlimit hgrow
      have hgrown := hgranting.growBuffer buffer.length capacity
      rw [hgrow] at hgrown
      obtain ⟨moved, hpos, -, hdata, -, -, herr₂⟩ :=
        hgrown.2.1.fread htransfer (next - buffer.length - 1) (by omega) rest
      rw [hread] at hdata herr₂
      have hempty : data = [] := hstop.resolve_left (by rw [herr₂, hgrown.2.2, herr]; simp)
      -- an empty read is the end of the file
      have hrest : rest = [] := by
        rw [hempty, eq_comm, List.take_eq_nil_iff] at hdata
        exact hdata.resolve_left (by omega)
      rw [hempty, hrest, List.take_nil]
  | case4 buffer rest capacity w hroom next w₁ hgrow data rest₁ w₂ hread hgo ih =>
      obtain ⟨hnext, -⟩ := next_bounds (by omega) hused hlimit hgrow
      obtain ⟨-, hdataNext, hnextLimit⟩ := inBounds_read (by omega) hused hlimit hgrow hread
      have hgrown := hgranting.growBuffer buffer.length capacity
      rw [hgrow] at hgrown
      obtain ⟨moved, hpos, hmoved, hdata, hrest, hgranting₂, herr₂⟩ :=
        hgrown.2.1.fread htransfer (next - buffer.length - 1) (by omega) rest
      rw [hread] at hdata hrest hgranting₂ herr₂
      dsimp only at hdata hrest
      rw [ih hgranting₂ (by rw [herr₂, hgrown.2.2, herr]) hdataNext hnextLimit, List.append_assoc]
      congr 2
      rw [hdata, hrest, List.length_append, List.length_take]
      by_cases hshort : rest.length ≤ moved
      · rw [List.take_of_length_le hshort, List.drop_of_length_le hshort, List.take_nil, List.append_nil,
          List.take_of_length_le (by omega)]
      · rw [show policyOutputLimit - 1 - buffer.length =
            moved + (policyOutputLimit - 1 - (buffer.length + min moved rest.length)) by omega, List.take_add]

/-! ### The reader -/

variable (host)

/-- What the parser is given of a file. -/
def handed (content : Text) : Text :=
  if content.length < policyOutputLimit then content else content.take (policyOutputLimit - 1)

/-- The reader is exact and in bounds: every use of the buffer stays in bounds; the summary stays unparsed
if an allocation fails; and where no call fails and each read delivers something while there is something
left, the parser is given exactly the file, up to the limit. -/
structure Exact (path schema : Text) (w : World) : Prop where
  inBounds : ∀ use ∈ (readObserved host path schema w).2, use.InBounds
  refused : ∀ capacity, .allocated capacity false ∈ (readObserved host path schema w).2 →
    (readPolicyJson host path schema w).1 = ⟨false, 0, 0⟩
  exact : (host.stream w.opened path).opens = true → Granting host w →
    (∀ call, 0 < host.transfer call) → w.hasError = false →
    (readPolicyJson host path schema w).1 =
        host.parsePolicy (handed (host.stream w.opened path).content) schema ∧
      ∀ bytes, .parsed bytes ∈ (readObserved host path schema w).2 ↔
        bytes = handed (host.stream w.opened path).content

variable {host} {path schema : Text} {w : World}

theorem handed_eq (content : Text) : handed content = content.take (policyOutputLimit - 1) := by
  unfold handed
  split
  · exact (List.take_of_length_le (by omega)).symm
  · rfl

/-- How a run of the reader ends: without a buffer, or with the parser. -/
theorem readObserved_cases (host : Host) (path schema : Text) (w : World) :
    (readObserved host path schema w).1.1 = ⟨false, 0, 0⟩ ∧
        ((readObserved host path schema w).2 = [] ∨
          (readObserved host path schema w).2 = [.allocated policyInitialCapacity false] ∨
          ∃ w₁, (readObserved host path schema w).2 =
            [.allocated policyInitialCapacity true, .terminated 0 policyInitialCapacity] ++
              (fillObserved host [] (host.stream w.opened path).content policyInitialCapacity w₁).2) ∨
      ∃ w₁ buffer,
        (fillObserved host [] (host.stream w.opened path).content policyInitialCapacity w₁).1.1 = some buffer ∧
        (readObserved host path schema w).2 =
          [.allocated policyInitialCapacity true, .terminated 0 policyInitialCapacity] ++
            (fillObserved host [] (host.stream w.opened path).content policyInitialCapacity w₁).2 ++
            [.parsed buffer] := by
  unfold readObserved
  dsimp only [openStream]
  split
  · exact .inl ⟨rfl, .inl rfl⟩
  · rcases attempt host { w with opened := w.opened + 1 } with ⟨_ | _, w₁⟩
    · exact .inl ⟨rfl, .inr (.inl rfl)⟩
    · dsimp only
      rcases hfill : fillObserved host [] (host.stream w.opened path).content policyInitialCapacity w₁ with
        ⟨⟨_ | buffer, w₂⟩, filled⟩
      · exact .inl ⟨rfl, .inr (.inr ⟨w₁, by rw [hfill]⟩)⟩
      · exact .inr ⟨w₁, buffer, by rw [hfill], by rw [hfill]⟩

theorem inBounds_readObserved : ∀ use ∈ (readObserved host path schema w).2, use.InBounds := by
  have hinitial : 0 < policyInitialCapacity ∧ policyInitialCapacity ≤ policyOutputLimit := by decide
  have hstart : ∀ use ∈ [BufferUse.allocated policyInitialCapacity true,
      .terminated 0 policyInitialCapacity], use.InBounds := by
    rw [List.forall_mem_cons, List.forall_mem_singleton]
    exact ⟨hinitial, hinitial.1, Nat.zero_le _, hinitial.2⟩
  have hfill (w₁ : World) := inBounds_fillObserved host [] (host.stream w.opened path).content
    policyInitialCapacity w₁ hinitial.1 hinitial.2
  rcases readObserved_cases host path schema w with
    ⟨-, huses | huses | ⟨w₁, huses⟩⟩ | ⟨w₁, buffer, hbuffer, huses⟩ <;> rw [huses]
  · exact fun use huse => by cases huse
  · exact List.forall_mem_singleton.mpr hinitial
  · exact List.forall_mem_append.mpr ⟨hstart, (hfill w₁).1⟩
  · exact List.forall_mem_append.mpr ⟨List.forall_mem_append.mpr ⟨hstart, (hfill w₁).1⟩,
      List.forall_mem_singleton.mpr ((hfill w₁).2 buffer hbuffer)⟩

theorem readObserved_refused {capacity : ℕ}
    (h : .allocated capacity false ∈ (readObserved host path schema w).2) :
    (readObserved host path schema w).1.1 = ⟨false, 0, 0⟩ := by
  rcases readObserved_cases host path schema w with
    ⟨hunparsed, -⟩ | ⟨w₁, buffer, hbuffer, huses⟩
  · exact hunparsed
  · have hfilled : BufferUse.allocated capacity false ∈
        (fillObserved host [] (host.stream w.opened path).content policyInitialCapacity w₁).2 := by
      simpa [huses] using h
    rw [fillObserved_refused _ _ _ _ hfilled] at hbuffer
    cases hbuffer

theorem parsed_notMem_fillObserved (host : Host) (bytes buffer rest : Text) (capacity : ℕ) (w : World) :
    .parsed bytes ∉ (fillObserved host buffer rest capacity w).2 := by
  have huses (used capacity next count : ℕ) (granted : Bool) :
      BufferUse.parsed bytes ∉ growUses used capacity granted ++ [.requested used next count] := by
    unfold growUses
    split <;> simp
  fun_induction fillObserved host buffer rest capacity w with
  | case1 => simp
  | case2 buffer rest capacity w hroom w₁ hgrow =>
      exact fun hmem => huses _ _ 0 0 _ (List.mem_append_left _ hmem)
  | case3 buffer rest capacity w hroom next w₁ hgrow data rest₁ w₂ hread uses hstop =>
      rw [List.mem_append, List.mem_singleton, not_or]
      exact ⟨huses _ _ _ _ _, by simp⟩
  | case4 buffer rest capacity w hroom next w₁ hgrow data rest₁ w₂ hread uses hgo observed ih =>
      rw [List.mem_append, not_or]
      exact ⟨huses _ _ _ _ _, ih⟩

/-- Where no call fails, the parser is given the file, up to the limit. -/
theorem readObserved_of_granting (schema : Text) (hopens : (host.stream w.opened path).opens = true)
    (hgranting : Granting host w) (htransfer : ∀ call, 0 < host.transfer call) (herr : w.hasError = false) :
    ∃ w₁ w₂, readObserved host path schema w =
      ((host.parsePolicy (handed (host.stream w.opened path).content) schema, w₂),
        [.allocated policyInitialCapacity true, .terminated 0 policyInitialCapacity] ++
          (fillObserved host [] (host.stream w.opened path).content policyInitialCapacity w₁).2 ++
          [.parsed (handed (host.stream w.opened path).content)]) := by
  have hopened : Granting host { w with opened := w.opened + 1 } := hgranting
  obtain ⟨hattempt, htick⟩ := hopened.attempt
  have hfill := fillBuffer_of_granting htransfer [] (host.stream w.opened path).content policyInitialCapacity
    _ htick herr (by decide) (by decide)
  rw [List.length_nil, Nat.sub_zero, List.nil_append, ← handed_eq, ← fst_fillObserved] at hfill
  unfold readObserved
  dsimp only [openStream]
  rw [if_neg (by simp [hopens]), hattempt]
  dsimp only
  rcases hobserved : fillObserved host [] (host.stream w.opened path).content policyInitialCapacity
    { w with opened := w.opened + 1 }.tick with ⟨⟨_ | buffer, w₂⟩, filled⟩ <;> rw [hobserved] at hfill
  · cases hfill
  · obtain rfl : buffer = handed (host.stream w.opened path).content := Option.some.inj hfill
    exact ⟨_, _, by rw [hobserved]⟩

/-- **The policy reader.** It is exact and in bounds. -/
theorem readPolicyJson_exact (host : Host) (path schema : Text) (w : World) : Exact host path schema w where
  inBounds := inBounds_readObserved
  refused capacity h := by
    rw [← fst_readObserved]
    exact readObserved_refused h
  exact hopens hgranting htransfer herr := by
    obtain ⟨w₁, w₂, hread⟩ := readObserved_of_granting schema hopens hgranting htransfer herr
    rw [← fst_readObserved, hread]
    refine ⟨rfl, fun bytes => ?_⟩
    have hnot := parsed_notMem_fillObserved host bytes [] (host.stream w.opened path).content
      policyInitialCapacity w₁
    simp [hnot]

/-- A host that reads byte by byte, with a parser that knows one text. -/
def policyHost : Host where
  failure _ := none
  pid := 1
  stream _ _ := .whole "{}\n".toList
  transfer _ := 1
  capture _ _ := (.exited 0, none)
  faultLogTag := "P101FAULT".toList
  faultLogVersion := "3".toList
  faultDefaults := modeDefaults
  unescape := id
  parsePolicy bytes _ := ⟨bytes = "{}\n".toList, 0, 0⟩

/-- The parser is given that text, and no other. -/
theorem readPolicyJson_exact_byByte :
    (readPolicyJson policyHost [] [] (.initial fun _ => none)).1 = ⟨true, 0, 0⟩ ∧
      ∀ bytes, .parsed bytes ∈ (readObserved policyHost [] [] (.initial fun _ => none)).2 ↔
        bytes = "{}\n".toList :=
  (readPolicyJson_exact policyHost [] [] (.initial fun _ => none)).exact rfl (fun _ _ => rfl)
    (fun _ => Nat.one_pos) rfl

end P101Test.Faults
