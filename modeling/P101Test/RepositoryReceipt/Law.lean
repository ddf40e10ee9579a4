import P101Test.RepositoryReceipt.Program

/-!
# The law of the repository receipt

The receipt depends on the set of the result files, and not on the order in which the directory lists
them: the names are sorted before the first file is read, and each record comes from its own file.

## Main definitions

* `Describes`: a content describes a record.
* `Lawful`: how a run ends, given the set of entries.

## Main results

* `loadResult_eq_iff`: the reader accepts exactly the contents that describe a record.
* `main_lawful`: the law, and its independence of the order of the listing.
-/

namespace P101Test.RepositoryReceipt

open Stdio

variable (host : Host)

/-! ### One result -/

/-- The fields of a record that are texts. -/
def Record.fields (record : Record) : List Text :=
  [record.repository, record.unit, record.fuzz, record.testLog, record.fuzzLog]

/-- A line describes a record: it has six fields, the first five fit their buffers, and the last one is
the duration. -/
def LineDescribes (line : Text) (record : Record) : Prop :=
  ∃ duration, line.splitOn '|' =
      [record.repository, record.unit, record.fuzz, record.testLog, record.fuzzLog, duration] ∧
    (∀ field ∈ record.fields, field.length < maxPath) ∧
    strtol (duration.takeWhile fun c => c ≠ '\r' && c ≠ '\n') = some ((record.durationSeconds : ℤ), []) ∧
    (record.durationSeconds : ℤ) ≤ longMax

/-- A content describes a record: it is a single line that does. -/
def Describes (content : Text) (record : Record) : Prop :=
  ∃ line, chunks maxLine content = [line] ∧ LineDescribes (cString line) record

/-- The reads of a stream succeed. -/
structure Succeeds (stream : Stream) : Prop where
  opens : stream.opens = true
  unbroken : stream.breaksAt = none
  closes : stream.closes = true

theorem copyFields_eq (fields : List Text) (err : Option Fault) :
    copyFields fields err =
      if ∀ field ∈ fields, field.length < maxPath then (true, err)
      else (false, some (.user "repository result field is too long".toList)) := by
  have general : ∀ state : Bool × Option Fault,
      fields.foldl (fun state input =>
        let copied := copyField input state.2
        (copied.1 && state.1, copied.2)) state =
      if ∀ field ∈ fields, field.length < maxPath then state
      else (false, some (.user "repository result field is too long".toList)) := by
    induction fields with
    | nil => exact fun state => (if_pos (by simp)).symm
    | cons field fields ih =>
        intro state
        rw [List.foldl_cons, ih]
        by_cases hfield : field.length < maxPath
        · have hcopy : copyField field state.2 = (true, state.2) := if_pos hfield
          simp only [hcopy, Bool.true_and, List.forall_mem_cons, hfield, true_and]
        · have hcopy : copyField field state.2 =
              (false, some (.user "repository result field is too long".toList)) := if_neg hfield
          simp only [hcopy, Bool.false_and, List.forall_mem_cons, hfield, false_and, ite_false, ite_self]
  exact general (true, err)

/-- The reader of a line accepts exactly the lines that describe a record. -/
theorem loadFields_eq_iff (line : Text) (record : Record) :
    loadFields line none = (some record, none) ↔ LineDescribes line record := by
  constructor
  · intro h
    unfold loadFields at h
    split at h
    · next repository unit fuzz testLog fuzzLog duration hsplit =>
      split at h
      · cases h
      · next number rest hnumber =>
        dsimp only at h
        split at h
        · cases h
        · next hok =>
          rw [copyFields_eq] at h
          split at h
          · next hfit =>
            rw [if_pos rfl, Prod.mk.injEq, Option.some.injEq] at h
            obtain ⟨rfl, hrange⟩ := h
            have hbounds : ¬(number < longMin ∨ longMax < number) := by
              intro hout
              rw [if_pos hout] at hrange
              cases hrange
            have hclamp : max longMin (min longMax number) = number := by omega
            rw [hclamp] at hok ⊢
            push Not at hok
            obtain ⟨rfl, hpos⟩ := hok
            refine ⟨duration, hsplit, hfit, ?_, ?_⟩
            · rw [hnumber, Int.toNat_of_nonneg hpos]
            · rw [Int.toNat_of_nonneg hpos]
              omega
          · cases h
    · cases h
  · rintro ⟨duration, hsplit, hfit, hnumber, hmax⟩
    have hfit' : ∀ field ∈ [record.repository, record.unit, record.fuzz, record.testLog, record.fuzzLog],
        field.length < maxPath := hfit
    unfold loadFields
    rw [hsplit]
    dsimp only
    rw [hnumber]
    have hbounds : ¬((record.durationSeconds : ℤ) < longMin ∨ longMax < record.durationSeconds) := by
      have : longMin ≤ 0 := by decide
      omega
    have hclamp : max longMin (min longMax (record.durationSeconds : ℤ)) = record.durationSeconds := by
      omega
    dsimp only
    rw [if_neg hbounds, hclamp, if_neg (by simp), copyFields_eq, if_pos hfit']
    simp

theorem isSome_copyFields (fields : List Text) {err : Option Fault} (h : err.isSome = true) :
    (copyFields fields err).2.isSome = true := by
  rw [copyFields_eq]
  split
  · exact h
  · rfl

theorem loadFields_rejects (line : Text) (err : Option Fault) :
    (loadFields line err).1 = none → (loadFields line err).2.isSome = true := by
  unfold loadFields
  split
  · split
    · exact fun _ => rfl
    · dsimp only
      split
      · exact fun _ => rfl
      · rw [copyFields_eq]
        split <;> simp
  · exact fun _ => rfl

theorem isSome_loadFields (line : Text) {err : Option Fault} (h : err.isSome = true) :
    (loadFields line err).2.isSome = true := by
  unfold loadFields
  split
  · split
    · rfl
    · dsimp only
      split
      · rfl
      · refine isSome_copyFields _ ?_
        split
        · rfl
        · exact h
  · rfl

variable {stream : Stream}

theorem Succeeds.delivered (h : Succeeds stream) : stream.delivered maxLine = chunks maxLine stream.content := by
  rw [Stream.delivered, h.unbroken]

theorem Succeeds.breaks (h : Succeeds stream) : stream.breaks maxLine = false := by
  rw [Stream.breaks, h.unbroken]

/-- **One result.** The reader accepts exactly the contents that describe a record, and records no error
then. -/
theorem loadResult_eq_iff (h : Succeeds stream) (record : Record) :
    loadResult stream none = (some record, none) ↔ Describes stream.content record := by
  unfold loadResult Describes
  rw [h.opens, h.closes, h.delivered, h.breaks]
  simp only [Bool.true_eq_false, if_false, if_true, Bool.false_eq_true]
  split
  · next hempty => simp [hempty]
  · next line hline =>
    rw [loadFields_eq_iff]
    constructor
    · exact fun hdescribes => ⟨line, hline, hdescribes⟩
    · rintro ⟨line', hline', hdescribes⟩
      rw [hline, List.cons.injEq] at hline'
      exact hline'.1 ▸ hdescribes
  · next hnot =>
    constructor
    · intro h
      cases h
    · rintro ⟨line, hline, -⟩
      exact absurd hline (hnot line)

theorem loadResult_rejects (stream : Stream) (err : Option Fault) :
    (loadResult stream err).1 = none → (loadResult stream err).2.isSome = true := by
  unfold loadResult
  split
  · exact fun _ => rfl
  · dsimp only
    split
    · split
      · exact fun _ => rfl
      · exact loadFields_rejects _ _
      · exact fun _ => rfl
    · exact fun _ => rfl

theorem isSome_loadResult (stream : Stream) {err : Option Fault} (h : err.isSome = true) :
    (loadResult stream err).2.isSome = true := by
  unfold loadResult
  split
  · rfl
  · dsimp only
    split
    · split
      · rfl
      · refine isSome_loadFields _ ?_
        split
        · rfl
        · exact h
      · rfl
    · rfl

/-! ### All results -/

/-- The names of the result files among the entries of a directory. -/
def results (entries : List Text) : List Text := entries.filter isResult

theorem foldlM_listStep (entries names : List Text) (h : names.length ≤ maxRecords) :
    entries.foldlM listStep names =
      if names.length + (results entries).length ≤ maxRecords then
        .ok (names ++ (results entries).map (cut maxPath))
      else .error ((names ++ (results entries).map (cut maxPath)).take maxRecords) := by
  induction entries generalizing names with
  | nil => simp [results, h, pure, Except.pure]
  | cons entry entries ih =>
      rw [List.foldlM_cons]
      by_cases hresult : isResult entry = true
      · have hcons : results (entry :: entries) = entry :: results entries := by
          simp [results, hresult]
        rw [hcons]
        by_cases hfull : maxRecords ≤ names.length
        · have heq : names.length = maxRecords := le_antisymm h hfull
          have hstep : listStep names entry = .error names := by
            rw [listStep, if_neg (by simp [hresult]), if_pos hfull]
          rw [hstep, if_neg (by simp; omega)]
          simp [bind, Except.bind, ← heq]
        · have hstep : listStep names entry = .ok (names ++ [cut maxPath entry]) := by
            rw [listStep, if_neg (by simp [hresult]), if_neg hfull]
          have hrest := ih (names ++ [cut maxPath entry]) (by simp; omega)
          rw [hstep]
          simpa [bind, Except.bind, Nat.add_assoc, Nat.add_comm] using hrest
      · have hskip : results (entry :: entries) = results entries := by
          simp [results, hresult]
        have hstep : listStep names entry = .ok names := by
          rw [listStep, if_pos (by simpa using hresult)]
        rw [hstep, hskip]
        exact ih names h

/-- The file of a result. -/
def resultFile (directory name : Text) : Stream := host.files (cut maxPath (pathOf directory name))

theorem isSome_loadRecords (directory : Text) (names : List Text) {err : Option Fault}
    (h : err.isSome = true) : (loadRecords host directory names err).2.isSome = true := by
  induction names generalizing err with
  | nil => exact h
  | cons name names ih =>
      have hloaded := isSome_loadResult (resultFile host directory name) h
      rw [loadRecords, ← resultFile]
      rcases hresult : loadResult (resultFile host directory name) err with ⟨_ | record, err'⟩
      · simpa [hresult] using hloaded
      · rw [hresult] at hloaded
        have hrest := ih hloaded
        rcases hrecords : loadRecords host directory names err' with ⟨_ | records, err''⟩ <;>
          simpa [hrecords] using hrest

/-- How reading one result ends: with the record of its file, or with an error. -/
theorem loadResult_cases (h : Succeeds stream) :
    (∃ record, loadResult stream none = (some record, none) ∧ Describes stream.content record) ∨
    (∀ record, ¬Describes stream.content record) ∧ (loadResult stream none).2.isSome = true := by
  rcases hresult : loadResult stream none with ⟨_ | record, _ | fault⟩
  · have := loadResult_rejects stream none
    simp [hresult] at this
  · refine .inr ⟨fun record hdescribes => ?_, rfl⟩
    rw [(loadResult_eq_iff h record).mpr hdescribes] at hresult
    cases hresult
  · exact .inl ⟨record, rfl, (loadResult_eq_iff h record).mp hresult⟩
  · refine .inr ⟨fun record' hdescribes => ?_, rfl⟩
    rw [(loadResult_eq_iff h record').mpr hdescribes] at hresult
    cases hresult

/-- Each item of the first of two related lists is related to one of the second. -/
theorem exists_of_forall₂ {α β : Type} {R : α → β → Prop} {l : List α} {l' : List β}
    (h : List.Forall₂ R l l') {a : α} (ha : a ∈ l) : ∃ b ∈ l', R a b := by
  induction h with
  | nil => cases ha
  | @cons a' b l l' hR _ ih =>
      rcases List.mem_cons.mp ha with rfl | hmem
      · exact ⟨b, List.mem_cons_self, hR⟩
      · obtain ⟨b', hb', hR'⟩ := ih hmem
        exact ⟨b', List.mem_cons_of_mem _ hb', hR'⟩

/-- How the loop over the names ends: with the records of all files, or with an error. -/
theorem loadRecords_cases (directory : Text) (names : List Text)
    (hfile : ∀ name ∈ names, resultFile host directory name = host.files (pathOf directory name))
    (hread : ∀ name ∈ names, Succeeds (host.files (pathOf directory name))) :
    (∃ records, loadRecords host directory names none = (some records, none) ∧
      List.Forall₂ (fun name => Describes (host.files (pathOf directory name)).content) names records) ∨
    (∃ name ∈ names, ∀ record, ¬Describes (host.files (pathOf directory name)).content record) ∧
      (loadRecords host directory names none).2.isSome = true := by
  induction names with
  | nil => exact .inl ⟨[], rfl, .nil⟩
  | cons name names ih =>
      rw [loadRecords, ← resultFile, hfile name List.mem_cons_self]
      rcases loadResult_cases (hread name List.mem_cons_self) with
        ⟨record, hresult, hdescribes⟩ | ⟨hnot, herror⟩
      · rw [hresult]
        dsimp only
        rcases ih (fun name hname => hfile name (List.mem_cons_of_mem _ hname))
            (fun name hname => hread name (List.mem_cons_of_mem _ hname)) with
          ⟨records, hrecords, hall⟩ | ⟨⟨name', hname', hnot⟩, herror⟩
        · exact .inl ⟨record :: records, by rw [hrecords], .cons hdescribes hall⟩
        · refine .inr ⟨⟨name', List.mem_cons_of_mem _ hname', hnot⟩, ?_⟩
          rcases hrecords : loadRecords host directory names none with ⟨_ | records, err⟩ <;>
            simpa [hrecords] using herror
      · refine .inr ⟨⟨name, List.mem_cons_self, hnot⟩, ?_⟩
        rcases hresult : loadResult (host.files (pathOf directory name)) none with ⟨_ | record, err⟩
        · simpa [hresult] using herror
        · rw [hresult] at herror
          have hrest := isSome_loadRecords host directory names herror
          rcases hrecords : loadRecords host directory names err with ⟨_ | records, err'⟩ <;>
            simpa [hrecords] using hrest

/-! ### The directory -/

theorem length_path_lt {path : Text} (h : (host.files path).opens = true) : path.length < maxPath := by
  by_contra hlong
  rw [host.tooLong path (by omega)] at h
  cases h

/-- The reads of the result files among some entries succeed. -/
def Readable (directory : Text) (entries : List Text) : Prop :=
  ∀ name ∈ results entries, Succeeds (host.files (pathOf directory name))

variable {host} {directory : Text} {entries : List Text}

/-- The file of a result is read under its own path name. -/
theorem Readable.resultFile_eq (h : Readable host directory entries) {name : Text}
    (hname : name ∈ results entries) :
    resultFile host directory name = host.files (pathOf directory name) := by
  rw [resultFile, cut_of_lt (length_path_lt host (h name hname).opens)]

theorem Readable.map_cut (h : Readable host directory entries) :
    (results entries).map (cut maxPath) = results entries := by
  refine (List.map_congr_left fun name hname => ?_).trans (List.map_id _)
  have := length_path_lt host (h name hname).opens
  exact cut_of_lt (by simp [pathOf] at this; omega)

theorem loadResults_of_tooMany (directory : Text) (h : maxRecords < (results entries).length) :
    (loadResults host directory (.whole entries) none).1 = none := by
  have hlist : entries.foldlM listStep [] =
      .error (([] ++ (results entries).map (cut maxPath)).take maxRecords) := by
    rw [foldlM_listStep _ _ (Nat.zero_le _), if_neg (by simpa using h)]
  unfold loadResults Listing.whole
  rw [hlist]
  generalize "too many repository result records".toList = message
  dsimp only
  simp only [Bool.true_eq_false, if_false]
  generalize Sorting.sort strcmp _ = names
  have herror : (loadRecords host directory names (some (.user message))).2.isSome = true :=
    isSome_loadRecords host directory names rfl
  rcases hrecords : loadRecords host directory names (some (.user message)) with ⟨_ | records, err⟩
  · rfl
  · rw [hrecords] at herror
    exact if_pos herror

theorem loadResults_eq (h : Readable host directory entries) (hcount : (results entries).length ≤ maxRecords) :
    loadResults host directory (.whole entries) none =
      match loadRecords host directory (Sorting.sort strcmp (results entries)) none with
      | (none, err) => (none, err)
      | (some records, err) => (if err.isSome then none else some records, err) := by
  have hlist : entries.foldlM listStep [] = .ok (results entries) := by
    rw [foldlM_listStep _ _ (Nat.zero_le _), if_pos (by simpa using hcount), h.map_cut, List.nil_append]
  unfold loadResults Listing.whole
  rw [hlist]
  rfl

/-! ### The law -/

/-- The verdict a receipt should have. -/
def Passing (records : List Record) : Prop :=
  records ≠ [] ∧ ∀ record ∈ records,
    record.unit ≠ "FAIL".toList ∧ record.unit ≠ "MISSING".toList ∧ record.fuzz ≠ "FAIL".toList

theorem passed_iff (records : List Record) : passed records = true ↔ Passing records := by
  have general : ∀ start : Bool,
      records.foldl (fun passed record => if record.fails then false else passed) start = true ↔
        start = true ∧ ∀ record ∈ records, record.fails = false := by
    induction records with
    | nil => simp
    | cons record records ih =>
        intro start
        rw [List.foldl_cons, ih]
        rw [List.forall_mem_cons, ← and_assoc]
        cases record.fails <;> cases start <;> simp
  rw [passed, general, Passing]
  simp only [decide_eq_true_eq, List.length_pos_iff, Record.fails, Bool.or_eq_false_iff,
    decide_eq_false_iff_not, and_assoc, ne_eq]

variable (host directory entries)

/-- The results of a directory are rejected: there are too many, or one of them describes no record. -/
def Rejected : Prop :=
  maxRecords < (results entries).length ∨
    ∃ name ∈ results entries, ∀ record, ¬Describes (host.files (pathOf directory name)).content record

/-- How a run ends, given the set of entries: with the status 2 and no receipt if the results are
rejected, and otherwise with the receipt that lists the record of each result once, in the order of their
names, and with the verdict about them. -/
structure Lawful (ended : Ended) : Prop where
  rejected : Rejected host directory entries → ended = ⟨2, none⟩
  accepted : ¬Rejected host directory entries →
    ∃ names records, ∃ passed : Bool,
      names.Perm (results entries) ∧
      names.Pairwise (fun a b => strcmp a b = .lt) ∧
      List.Forall₂ (fun name => Describes (host.files (pathOf directory name)).content) names records ∧
      (passed = true ↔ Passing records) ∧
      ended = ⟨if passed then 0 else 1, some (receiptText host records passed)⟩

variable {host directory entries}

instance : Std.TransCmp strcmp := inferInstanceAs (Std.TransCmp (compare : Text → Text → Ordering))

instance : Std.LawfulEqCmp strcmp :=
  inferInstanceAs (Std.LawfulEqCmp (compare : Text → Text → Ordering))

/-- The writes of the receipt succeed. -/
structure Writable (output : Output) : Prop where
  opens : output.opens = true
  prints : output.prints = true
  closes : output.closes = true

variable {argv : List Text} {output : Text}

theorem main_of_none (listing : Listing) (hargv : parseArguments argv none none = .run directory output)
    (h : (loadResults host directory listing none).1 = none) : main host listing argv = ⟨2, none⟩ := by
  rw [main, hargv]
  dsimp only
  rcases hloaded : loadResults host directory listing none with ⟨_ | records, err⟩
  · exact congrArg (Ended.mk · none) (ite_self 2)
  · simp [hloaded] at h

theorem main_of_some (listing : Listing) (hargv : parseArguments argv none none = .run directory output)
    (hwrite : Writable host.output) {records : List Record}
    (h : loadResults host directory listing none = (some records, none)) :
    main host listing argv =
      ⟨if passed records then 0 else 1, some (receiptText host records (passed records))⟩ := by
  rw [main, hargv]
  dsimp only
  rw [h]
  dsimp only
  have hwritten : writeReceipt host records (passed records) none =
      (true, some (receiptText host records (passed records)), none) := by
    rw [writeReceipt, hwrite.opens, hwrite.prints, hwrite.closes]
    rfl
  rw [hwritten]
  rfl

theorem lawful_main (hargv : parseArguments argv none none = .run directory output)
    (hnodup : entries.Nodup) (hread : Readable host directory entries) (hwrite : Writable host.output) :
    Lawful host directory entries (main host (.whole entries) argv) := by
  have hperm : (Sorting.sort strcmp (results entries)).Perm (results entries) := Sorting.perm_sort _
  have hmem : ∀ name ∈ Sorting.sort strcmp (results entries), name ∈ results entries := fun name =>
    hperm.mem_iff.mp
  by_cases hcount : maxRecords < (results entries).length
  · exact ⟨fun _ => main_of_none _ hargv (loadResults_of_tooMany directory hcount),
      fun hnot => absurd (.inl hcount) hnot⟩
  have hloaded := loadResults_eq hread (by omega)
  rcases loadRecords_cases host directory (Sorting.sort strcmp (results entries))
      (fun name hname => hread.resultFile_eq (hmem name hname))
      (fun name hname => hread name (hmem name hname)) with
    ⟨records, hrecords, hall⟩ | ⟨⟨name, hname, hnot⟩, herror⟩
  · rw [hrecords] at hloaded
    refine ⟨?_, fun _ => ⟨_, records, passed records, hperm,
      Sorting.pairwise_lt_sort (hnodup.filter _), hall, passed_iff records,
      main_of_some _ hargv hwrite hloaded⟩⟩
    rintro (hmany | ⟨name, hname, hnot⟩)
    · exact absurd hmany hcount
    · obtain ⟨record, -, hdescribes⟩ := exists_of_forall₂ hall (hperm.mem_iff.mpr hname)
      exact absurd hdescribes (hnot record)
  · refine ⟨fun _ => main_of_none _ hargv ?_, fun haccepted =>
      absurd (.inr ⟨name, hmem name hname, hnot⟩) haccepted⟩
    rw [hloaded]
    rcases hrecords : loadRecords host directory (Sorting.sort strcmp (results entries)) none with
      ⟨_ | records, err⟩
    · rfl
    · rw [hrecords] at herror
      exact if_pos herror

/-- A run does not depend on the order of the listing. -/
theorem main_perm {entries' : List Text} (hargv : parseArguments argv none none = .run directory output)
    (hperm : entries.Perm entries') (hread : Readable host directory entries) :
    main host (.whole entries') argv = main host (.whole entries) argv := by
  have hresults : (results entries).Perm (results entries') := hperm.filter _
  by_cases hcount : maxRecords < (results entries).length
  · rw [main_of_none _ hargv (loadResults_of_tooMany directory hcount),
      main_of_none _ hargv (loadResults_of_tooMany directory (hresults.length_eq ▸ hcount))]
  · have hread' : Readable host directory entries' := fun name hname =>
      hread name (hresults.mem_iff.mpr hname)
    have hloaded : loadResults host directory (.whole entries') none =
        loadResults host directory (.whole entries) none := by
      rw [loadResults_eq hread (by omega), loadResults_eq hread' (by rw [← hresults.length_eq]; omega),
        Sorting.sort_eq_of_perm hresults]
    simp only [main, hargv, hloaded]

/-- A directory with two results. -/
def twoResults : Host where
  files path :=
    if path = "r/a.result".toList then .whole "alpha|PASS|PASS|u|f|12\n".toList
    else if path = "r/b.result".toList then .whole "beta|FAIL|SKIP|u|f|3\n".toList
    else .missing
  tooLong path h := by
    have hne : ∀ name : Text, name.length < maxPath → path ≠ name := fun name hname heq => by
      subst heq
      omega
    rw [if_neg (hne _ (by decide)), if_neg (hne _ (by decide))]
    rfl
  output := ⟨true, true, true⟩
  jsonString text := '"' :: text ++ ['"']

end P101Test.RepositoryReceipt
