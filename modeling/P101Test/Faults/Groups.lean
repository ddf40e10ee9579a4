import Mathlib.Algebra.Order.BigOperators.Group.List
import Mathlib.Algebra.Order.Ring.Nat
import P101Test.Faults.Walk
import P101Test.Table.Tally

/-!
# The accounts of the fault groups

The table of faulted calls holds the first names that were hit, each once, with the number of its hits
and the sum of their findings. Over a whole walk the table accounts for the hit cases.

## Main definitions

* `hits`: the results the table is about.
* `groupOf`: what the table holds under a name.
* `Accounts`: the law of a table.
* `Reconciles`: the law of the table of a walk.

## Main results

* `foldl_updateFaultGroup`: the table after any sequence of results.
* `groups_account`: every table, and the table of every walk, obeys its law.
-/

namespace P101Test.Faults

open Stdio Table

variable {results : List RunResult} {result : RunResult} {name : Text}

/-! ### The law of a table -/

/-- A result of a case with a fault that was hit. -/
def isHit (result : RunResult) : Bool := decide (result.faultIndex ≠ 0) && result.faultHit

/-- The results the table is about. -/
def hits (results : List RunResult) : List RunResult := results.filter isHit

/-- The name a result is grouped under. -/
def groupName (result : RunResult) : Text := printedName result.faultName

/-- The names that were hit, in the order of their first occurrence. -/
def hitNames (results : List RunResult) : List Text := keys groupName (hits results)

/-- The hits of a name. -/
def hitsOf (results : List RunResult) (name : Text) : List RunResult :=
  under groupName (hits results) name

/-- What the table holds under a name; the counters are of type `size_t`. -/
def groupOf (results : List RunResult) (name : Text) : FaultGroup :=
  ⟨name, (hitsOf results name).length % sizeRange,
    ((hitsOf results name).map analysisFindingCount).sum % sizeRange⟩

/-- The table after a sequence of results. -/
def tableOf (results : List RunResult) : List FaultGroup :=
  ((hitNames results).take faultGroupLimit).map (groupOf results)

/-- **The law of a table.** It holds the first names that were hit, without duplicates, each with the
number of its hits and the sum of their findings; a result without a hit, and one of a name that does not
fit, changes nothing. -/
structure Accounts (results : List RunResult) (groups : List FaultGroup) : Prop where
  names : groups.map FaultGroup.name = (hitNames results).take faultGroupLimit
  distinct : (groups.map FaultGroup.name).Nodup
  runs : ∀ group ∈ groups, group.runs = (hitsOf results group.name).length % sizeRange
  findings : ∀ group ∈ groups,
    group.findings = ((hitsOf results group.name).map analysisFindingCount).sum % sizeRange
  missed : ∀ result, isHit result = false → updateFaultGroup groups result = groups
  dropped : ∀ result, groups.length = faultGroupLimit → groupName result ∉ groups.map FaultGroup.name →
    updateFaultGroup groups result = groups

/-! ### One result -/

theorem hits_append (h : isHit result = true) : hits (results ++ [result]) = hits results ++ [result] := by
  rw [hits, List.filter_append, List.filter_cons_of_pos h, List.filter_nil, hits]

theorem hits_append_of_not (h : isHit result = false) : hits (results ++ [result]) = hits results := by
  rw [hits, List.filter_append, List.filter_cons_of_neg (by simp [h]), List.filter_nil, List.append_nil,
    hits]

theorem updateFaultGroup_of_not (groups : List FaultGroup) (h : isHit result = false) :
    updateFaultGroup groups result = groups := by
  refine if_pos ?_
  simpa [isHit, or_iff_not_imp_left] using h

theorem updateFaultGroup_of_hit (groups : List FaultGroup) (h : isHit result = true) :
    updateFaultGroup groups result =
      match groups.findIdx? fun group => group.name == groupName result with
      | some i => groups.modify i (FaultGroup.add (analysisFindingCount result))
      | none =>
        if faultGroupLimit ≤ groups.length then groups
        else groups ++ [FaultGroup.add (analysisFindingCount result)
          ⟨cut nameLength (groupName result), 0, 0⟩] := by
  refine if_neg ?_
  simpa [isHit] using h

theorem length_groupName (h : result.faultName.length < nameLength) :
    (groupName result).length < nameLength := by
  unfold groupName printedName
  split
  · decide
  · exact h

theorem groupOf_append_of_eq (h : isHit result = true) :
    groupOf (results ++ [result]) (groupName result) =
      (groupOf results (groupName result)).add (analysisFindingCount result) := by
  have hhits : hitsOf (results ++ [result]) (groupName result) =
      hitsOf results (groupName result) ++ [result] := by
    rw [hitsOf, hits_append h, under_append_of_eq rfl, hitsOf]
  simp [groupOf, hhits, FaultGroup.add, addSize]

theorem groupOf_append_of_ne (h : isHit result = true) (hne : groupName result ≠ name) :
    groupOf (results ++ [result]) name = groupOf results name := by
  rw [groupOf, hitsOf, hits_append h, under_append_of_ne hne]
  rfl

theorem groupOf_of_notMem (h : name ∉ hitNames results) : groupOf results name = ⟨name, 0, 0⟩ := by
  rw [groupOf, hitsOf, under_of_notMem h]
  rfl

theorem findIdx?_tableOf (name : Text) :
    ((tableOf results).findIdx? fun group => group.name == name) =
      ((hitNames results).take faultGroupLimit).findIdx? fun other => decide (other = name) := by
  have htest : (fun group : FaultGroup => group.name == name) = fun group => decide (group.name = name) :=
    funext fun group => beq_eq_decide _ _
  rw [tableOf, List.findIdx?_map, htest]
  rfl

theorem length_tableOf : (tableOf results).length = min faultGroupLimit (hitNames results).length := by
  rw [tableOf, List.length_map, List.length_take]

/-- **One result.** It updates the table to that of the longer sequence. -/
theorem updateFaultGroup_tableOf (hname : result.faultName.length < nameLength) :
    updateFaultGroup (tableOf results) result = tableOf (results ++ [result]) := by
  cases hhit : isHit result with
  | false =>
      rw [updateFaultGroup_of_not _ hhit]
      have hgroup : groupOf (results ++ [result]) = groupOf results :=
        funext fun name => by rw [groupOf, hitsOf, hits_append_of_not hhit, groupOf, hitsOf]
      rw [tableOf, tableOf, hgroup, hitNames, hitNames, hits_append_of_not hhit]
  | true =>
      have hnodup : ((hitNames results).take faultGroupLimit).Nodup :=
        (nodup_keys _ _).sublist (List.take_sublist _ _)
      have hothers : ∀ names : List Text, groupName result ∉ names →
          names.map (groupOf results) = names.map (groupOf (results ++ [result])) := fun names hnot =>
        List.map_congr_left fun name hname =>
          (groupOf_append_of_ne hhit fun heq => hnot (heq ▸ hname)).symm
      rw [updateFaultGroup_of_hit _ hhit, findIdx?_tableOf]
      by_cases hmem : groupName result ∈ (hitNames results).take faultGroupLimit
      · obtain ⟨i, hi, hmodify⟩ := modify_findIdx? (groupOf results)
          (FaultGroup.add (analysisFindingCount result)) hnodup hmem
        rw [hi]
        have hkeys : hitNames (results ++ [result]) = hitNames results := by
          rw [hitNames, hits_append hhit, keys_append_of_mem (List.mem_of_mem_take hmem), hitNames]
        show (tableOf results).modify i _ = _
        rw [tableOf, hmodify, tableOf, hkeys]
        refine List.map_congr_left fun name _ => ?_
        split
        · next heq => rw [heq, groupOf_append_of_eq hhit]
        · next hne => exact (groupOf_append_of_ne hhit (Ne.symm hne)).symm
      · have hnone : ((hitNames results).take faultGroupLimit).findIdx?
            (fun other => decide (other = groupName result)) = none := by
          rw [List.findIdx?_eq_none_iff]
          intro name hname
          simpa using fun heq : name = groupName result => hmem (heq ▸ hname)
        rw [hnone]
        show (if faultGroupLimit ≤ (tableOf results).length then _ else _) = _
        by_cases hfull : faultGroupLimit ≤ (hitNames results).length
        · -- The table is full, and the name is not in it.
          have htake : (hitNames (results ++ [result])).take faultGroupLimit =
              (hitNames results).take faultGroupLimit := by
            by_cases hold : groupName result ∈ hitNames results
            · rw [hitNames, hits_append hhit, keys_append_of_mem hold, hitNames]
            · rw [hitNames, hits_append hhit, keys_append_of_notMem hold]
              exact List.take_append_of_le_length hfull
          rw [if_pos (by rw [length_tableOf]; omega), tableOf, tableOf, htake]
          exact hothers _ hmem
        · have hshort : (hitNames results).length ≤ faultGroupLimit := by omega
          rw [List.take_of_length_le hshort] at hmem
          have hkeys : hitNames (results ++ [result]) = hitNames results ++ [groupName result] := by
            rw [hitNames, hits_append hhit, keys_append_of_notMem hmem, hitNames]
          have hlong : (hitNames results ++ [groupName result]).length ≤ faultGroupLimit := by
            rw [List.length_append, List.length_singleton]
            omega
          rw [if_neg (by rw [length_tableOf]; omega), tableOf, tableOf, hkeys,
            List.take_of_length_le hshort, List.take_of_length_le hlong, List.map_append,
            List.map_singleton, groupOf_append_of_eq hhit, groupOf_of_notMem hmem, hothers _ hmem,
            cut_of_lt (length_groupName hname)]

/-- **Sequences of results.** -/
theorem foldl_updateFaultGroup (h : ∀ result ∈ results, result.faultName.length < nameLength) :
    results.foldl updateFaultGroup [] = tableOf results := by
  induction results using List.reverseRecOn with
  | nil => rfl
  | append_singleton results result ih =>
      rw [List.foldl_append, ih fun r hr => h r (List.mem_append_left _ hr), List.foldl_cons, List.foldl_nil,
        updateFaultGroup_tableOf (h result (by simp))]

theorem names_tableOf : (tableOf results).map FaultGroup.name = (hitNames results).take faultGroupLimit := by
  rw [tableOf, List.map_map]
  exact List.map_id'' (fun _ => rfl) _

/-- A table that was filled from a sequence of results obeys the law. -/
theorem accounts_tableOf (results : List RunResult) : Accounts results (tableOf results) where
  names := names_tableOf
  distinct := by
    rw [names_tableOf]
    exact (nodup_keys _ _).sublist (List.take_sublist _ _)
  runs group hgroup := by
    obtain ⟨name, -, rfl⟩ := List.mem_map.mp hgroup
    rfl
  findings group hgroup := by
    obtain ⟨name, -, rfl⟩ := List.mem_map.mp hgroup
    rfl
  missed result hmiss := updateFaultGroup_of_not _ hmiss
  dropped result hfull hnew := by
    cases hhit : isHit result with
    | false => exact updateFaultGroup_of_not _ hhit
    | true =>
      have hnone : ((tableOf results).findIdx? fun group => group.name == groupName result) = none := by
        rw [List.findIdx?_eq_none_iff]
        intro group hgroup
        simpa using fun heq : group.name = groupName result => hnew (heq ▸ List.mem_map_of_mem hgroup)
      rw [updateFaultGroup_of_hit _ hhit, hnone]
      exact if_pos hfull.ge

/-! ### The table of a walk -/

variable {host : Host} {runCase : CaseRunner} {index remaining : ℕ} {w : World} {p : Progress}

/-- The results of the cases that count: the baseline and the cases that hit a fault. -/
def counted (executed : List Executed) : List RunResult :=
  (executed.filter fun e => decide e.Counts).map Executed.result

/-- The hit cases: the cases after the baseline that hit a fault. -/
def hitCases (executed : List Executed) : List Executed :=
  executed.filter fun e => decide (e.Counts ∧ e.index ≠ 0)

/-- The baseline. -/
def baseline (executed : List Executed) : List Executed := executed.filter fun e => decide (e.index = 0)

theorem counted_append {e : Executed} {executed : List Executed} (h : e.Counts) :
    counted (executed ++ [e]) = counted executed ++ [e.result] := by
  rw [counted, List.filter_append, List.filter_cons_of_pos (by simpa using h), List.filter_nil,
    List.map_append, List.map_singleton, counted]

theorem counted_append_of_not {e : Executed} {executed : List Executed} (h : ¬ e.Counts) :
    counted (executed ++ [e]) = counted executed := by
  rw [counted, List.filter_append, List.filter_cons_of_neg (by simpa using h), List.filter_nil,
    List.append_nil, counted]

/-- The table holds what the results of the cases that count make of it. -/
def Tabled (p : Progress) : Prop := p.groups = (counted p.executed).foldl updateFaultGroup []

theorem Tabled.append_of_not {p' : Progress} {e : Executed} (h : Tabled p) (hcounts : ¬ e.Counts)
    (hexecuted : p'.executed = p.executed ++ [e]) (hgroups : p'.groups = p.groups) : Tabled p' := by
  rw [Tabled, hgroups, hexecuted, counted_append_of_not hcounts]
  exact h

theorem Tabled.append {p' : Progress} {e : Executed} (h : Tabled p) (hcounts : e.Counts)
    (hexecuted : p'.executed = p.executed ++ [e])
    (hgroups : p'.groups = updateFaultGroup p.groups e.result) : Tabled p' := by
  rw [Tabled, hgroups, hexecuted, counted_append hcounts, List.foldl_append, ← h]
  rfl

/-- **The loop.** It keeps the table. -/
theorem tabled_walkFrom (host : Host) (hpos : 1 ≤ index) (h : Tabled p) :
    Tabled (walkFrom host runCase remaining index p).2 := by
  induction remaining generalizing index p with
  | zero => exact h
  | succ remaining ih =>
      rw [walkFrom]
      split
      · exact h
      rcases runCase index p.world with ⟨status, result, w⟩
      simp only
      split
      · next hstatus => exact h.append_of_not (fun hcounts => hstatus hcounts.1) rfl rfl
      next hstatus =>
      rw [ne_eq, not_not] at hstatus
      split
      · next hmiss =>
        exact h.append_of_not (by simp [Executed.Counts, hmiss]; omega) rfl rfl
      · next hhit =>
        rw [Bool.not_eq_false] at hhit
        exact ih (by omega) (h.append ⟨hstatus, .inr hhit⟩ rfl rfl)

/-- The table of a walk is what the results of the cases that count make of it. -/
theorem groups_walk (host : Host) (maxFailures : ℕ) (w : World)
    (hbaseline : (runCase 0 w).2.1.faultIndex = 0) :
    (walk host runCase maxFailures w).groups =
      (counted (walk host runCase maxFailures w).executed).foldl updateFaultGroup [] := by
  rcases hrun : runCase 0 w with ⟨status, result, w₁⟩
  rw [hrun] at hbaseline
  simp only [walk, hrun]
  split
  · next hstatus =>
    exact Tabled.append_of_not (p := ⟨0, 0, [], false, [], w⟩) rfl (fun hcounts => hstatus hcounts.1)
      rfl rfl
  next hstatus =>
  rw [ne_eq, not_not] at hstatus
  have hstart : Tabled { (Progress.print ⟨0, 0, [], false, [], w⟩ 0 status result w₁
      (printRunResult host result w₁)).count result with trouble := baselineTrouble result } := by
    refine Tabled.append (p := ⟨0, 0, [], false, [], w⟩) rfl ⟨hstatus, .inl rfl⟩ rfl ?_
    have hzero : result.faultIndex = 0 := hbaseline
    exact (updateFaultGroup_of_not [] (by simp [isHit, hzero])).symm
  have hend : Tabled (walkFrom host runCase maxFailures 1 _).2 := tabled_walkFrom host le_rfl hstart
  split
  · next p hloop =>
    rw [hloop] at hend
    exact hend
  · next p hloop =>
    rw [hloop] at hend
    exact hend

/-- The law of the table of a walk: it accounts for the results of the cases that count, and where no
name was left out, its runs are the hit cases, and its findings and those of the baseline are the
total. -/
structure Reconciles (walk : Walk) : Prop where
  accounts : Accounts (counted walk.executed) walk.groups
  runs : (hitNames (counted walk.executed)).length ≤ faultGroupLimit →
    (walk.groups.map FaultGroup.runs).sum = (hitCases walk.executed).length
  findings : (hitNames (counted walk.executed)).length ≤ faultGroupLimit →
    ((walk.groups.map FaultGroup.findings).sum + totalFound (baseline walk.executed)) % sizeRange =
      walk.findings
  exact_findings : (hitNames (counted walk.executed)).length ≤ faultGroupLimit →
    totalFound walk.executed < sizeRange →
    (walk.groups.map FaultGroup.findings).sum + totalFound (baseline walk.executed) = walk.findings

/-- The case numbers its result. -/
def Numbered (executed : List Executed) : Prop :=
  ∀ e ∈ executed, e.Counts → e.result.faultIndex = e.index

theorem hits_counted {executed : List Executed} (h : Numbered executed) :
    hits (counted executed) = (hitCases executed).map Executed.result := by
  rw [hits, counted, List.filter_map, List.filter_filter, hitCases]
  congr 1
  refine List.filter_congr fun e he => ?_
  by_cases hcounts : e.Counts
  · have hfault : e.index = 0 ∨ e.result.faultHit = true := hcounts.2
    simp only [Function.comp_apply, isHit, h e he hcounts, hcounts, true_and]
    rcases hfault with hzero | hhit
    · simp [hzero]
    · simp [hhit]
  · simp [hcounts]

/-- The findings of the hit cases and of the baseline are those of all cases. -/
theorem totalFound_eq (executed : List Executed) :
    totalFound executed =
      (((hitCases executed).map Executed.result).map analysisFindingCount).sum +
        totalFound (baseline executed) := by
  induction executed with
  | nil => rfl
  | cons e rest ih =>
      have hcons : totalFound (e :: rest) = e.found + totalFound rest := by simp [totalFound]
      rw [hcons, ih, hitCases, hitCases, baseline, baseline]
      by_cases hzero : e.index = 0
      · rw [List.filter_cons_of_neg (by simp [hzero]), List.filter_cons_of_pos (by simpa using hzero)]
        simp [totalFound]
        omega
      · rw [List.filter_cons_of_neg (l := rest) (a := e) (p := fun e => decide (e.index = 0))
          (by simpa using hzero)]
        by_cases hcounts : e.Counts
        · rw [List.filter_cons_of_pos (by simp [hzero, hcounts])]
          simp [Executed.found, hcounts]
          omega
        · rw [List.filter_cons_of_neg (by simp [hcounts])]
          simp [Executed.found, hcounts]

/-- Where no name is left out, the tallies of the groups add up to the weight of the hits. -/
theorem sum_hitNames (weight : RunResult → ℕ) (hfits : (hitNames results).length ≤ faultGroupLimit) :
    (((hitNames results).take faultGroupLimit).map (tally groupName weight (hits results))).sum =
      ((hits results).map weight).sum := by
  rw [List.take_of_length_le hfits]
  exact sum_tally (nodup_keys _ _) fun row hrow => mem_keys.mpr ⟨row, hrow, rfl⟩

/-- Where no name is left out, the runs of the groups add up to the number of hits. -/
theorem sum_runs_tableOf (hfits : (hitNames results).length ≤ faultGroupLimit)
    (hsize : results.length < sizeRange) :
    ((tableOf results).map FaultGroup.runs).sum = (hits results).length := by
  have hruns : (tableOf results).map FaultGroup.runs =
      ((hitNames results).take faultGroupLimit).map (tally groupName (fun _ => 1) (hits results)) := by
    rw [tableOf, List.map_map]
    refine List.map_congr_left fun name _ => ?_
    have hle : (hitsOf results name).length ≤ results.length :=
      (List.length_filter_le _ _).trans (List.length_filter_le _ _)
    calc (hitsOf results name).length % sizeRange
      _ = (hitsOf results name).length := Nat.mod_eq_of_lt (by omega)
      _ = tally groupName (fun _ => 1) (hits results) name := length_under name
  rw [hruns, sum_hitNames _ hfits]
  simp

/-- The findings of the groups, up to overflow. -/
theorem findings_tableOf :
    (tableOf results).map FaultGroup.findings =
      (((hitNames results).take faultGroupLimit).map
        (tally groupName analysisFindingCount (hits results))).map (· % sizeRange) := by
  rw [tableOf, List.map_map, List.map_map]
  rfl

/-- Where no name is left out, the findings of the groups add up to those of the hits, up to overflow. -/
theorem sum_findings_tableOf (hfits : (hitNames results).length ≤ faultGroupLimit) :
    ((tableOf results).map FaultGroup.findings).sum % sizeRange =
      ((hits results).map analysisFindingCount).sum % sizeRange := by
  rw [findings_tableOf, ← List.sum_nat_mod, sum_hitNames _ hfits]

/-- They add up exactly where the findings of the hits do not overflow. -/
theorem sum_findings_tableOf_of_lt (hfits : (hitNames results).length ≤ faultGroupLimit)
    (hsmall : ((hits results).map analysisFindingCount).sum < sizeRange) :
    ((tableOf results).map FaultGroup.findings).sum = ((hits results).map analysisFindingCount).sum := by
  have hsum := sum_hitNames analysisFindingCount hfits
  rw [findings_tableOf, ← hsum]
  refine congrArg List.sum ((List.map_congr_left fun n hn => ?_).trans (List.map_id _))
  have hle := List.le_sum_of_mem hn
  exact Nat.mod_eq_of_lt (by omega)

/-- **The table of a walk.** Where every case numbers its result and its name fits its buffer, the table
obeys its law. -/
theorem reconciles_walk (host : Host) (arguments : Arguments) (w : World)
    (hindex : ∀ index w, (runCase index w).2.1.faultIndex = index)
    (hname : ∀ index w, (runCase index w).2.1.faultName.length < nameLength) :
    Reconciles (walk host runCase arguments.maxFailures w) := by
  obtain ⟨p, hwalk, hcomplete⟩ := walk_complete host runCase arguments.maxFailures w
  have hgroups := groups_walk host arguments.maxFailures w (hindex 0 w)
  rw [hwalk] at hgroups ⊢
  change p.groups = (counted p.executed).foldl updateFaultGroup [] at hgroups
  have hresult : ∀ e ∈ p.executed, e.result = (runCase e.index e.before).2.1 := fun e he => by
    rw [hcomplete.ran e he]
  have hnumbered : Numbered p.executed := fun e he _ => by rw [hresult e he, hindex]
  have hnames : ∀ result ∈ counted p.executed, result.faultName.length < nameLength := by
    intro result hresult'
    obtain ⟨e, he, rfl⟩ := List.mem_map.mp hresult'
    rw [hresult e (List.mem_of_mem_filter he)]
    exact hname _ _
  rw [foldl_updateFaultGroup hnames] at hgroups
  have hsize : (counted p.executed).length < sizeRange := by
    have hcounted : (counted p.executed).length ≤ p.executed.length := by
      rw [counted, List.length_map]
      exact List.length_filter_le _ _
    have hlength := hcomplete.length_le
    have hadmitted := arguments.admitted
    have hlimit : maxFailuresLimit + 1 < sizeRange := by decide
    omega
  have htotal := totalFound_eq p.executed
  rw [← hits_counted hnumbered] at htotal
  refine ⟨?_, fun hfits => ?_, fun hfits => ?_, fun hfits hsmall => ?_⟩
  · change Accounts (counted p.executed) p.groups
    rw [hgroups]
    exact accounts_tableOf _
  · replace hfits : (hitNames (counted p.executed)).length ≤ faultGroupLimit := hfits
    change (p.groups.map FaultGroup.runs).sum = (hitCases p.executed).length
    rw [hgroups, sum_runs_tableOf hfits hsize, hits_counted hnumbered, List.length_map]
  · replace hfits : (hitNames (counted p.executed)).length ≤ faultGroupLimit := hfits
    change ((p.groups.map FaultGroup.findings).sum + totalFound (baseline p.executed)) % sizeRange = p.findings
    rw [hgroups, hcomplete.findings, htotal, Nat.add_mod, sum_findings_tableOf hfits, ← Nat.add_mod]
  · replace hfits : (hitNames (counted p.executed)).length ≤ faultGroupLimit := hfits
    change (p.groups.map FaultGroup.findings).sum + totalFound (baseline p.executed) = p.findings
    change totalFound p.executed < sizeRange at hsmall
    rw [hgroups, hcomplete.findings, Nat.mod_eq_of_lt hsmall, htotal,
      sum_findings_tableOf_of_lt hfits (by omega)]

/-! ### The cases of the walker -/

theorem length_scanFields {fields : List Text} {name : Text} (h : scanFields host fields = .hit name) :
    name.length < nameLength := by
  unfold scanFields at h
  split at h
  · split_ifs at h
    obtain rfl := Scanned.hit.inj h
    rw [cut, List.length_take]
    have : 0 < nameLength := by decide
    omega
  · cases h

theorem length_scanPieces {pieces : List Text} {name : Text} (h : scanPieces host pieces = .hit name) :
    name.length < nameLength := by
  induction pieces with
  | nil => cases h
  | cons piece rest ih =>
      rw [scanPieces] at h
      split at h
      · exact ih h
      · unfold scanPiece at h
        dsimp only at h
        split_ifs at h
        exact length_scanFields h

theorem length_readFaultHit (host : Host) (path : Text) (w : World) :
    (readFaultHit host path w).2.1.length < nameLength := by
  have hempty : ([] : Text).length < nameLength := by decide
  unfold readFaultHit
  split
  · exact hempty
  split
  split
  · exact hempty
  split
  · exact hempty
  · exact hempty
  · next hscan => exact length_scanPieces hscan

/-- A case numbers its result, and its name fits its buffer. -/
theorem runOneCase_result (host : Host) (arguments : Arguments) (index : ℕ) (w : World) :
    (runOneCase host arguments index w).2.1.faultIndex = index ∧
      (runOneCase host arguments index w).2.1.faultName.length < nameLength := by
  have hempty : ([] : Text).length < nameLength := by decide
  change (prepareCase host arguments index w).1.faultIndex = index ∧
    (prepareCase host arguments index w).1.faultName.length < nameLength
  unfold prepareCase
  rcases hpaths : makeLogPaths host arguments index { RunResult.zero with faultIndex := index } w with
    ⟨result, w₁⟩
  have hresult : result = (makeLogPaths host arguments index
    { RunResult.zero with faultIndex := index } w).1 := by rw [hpaths]
  have hindex : result.faultIndex = index := by rw [hresult]; rfl
  have hname : result.faultName = [] := by rw [hresult]; rfl
  dsimp only
  split
  · exact ⟨hindex, hname ▸ hempty⟩
  split
  · exact ⟨hindex, hname ▸ hempty⟩
  split
  · exact ⟨hindex, hname ▸ hempty⟩
  unfold observeCase
  rcases runPipeline host arguments result _ with ⟨status, w₂⟩
  have hread := length_readFaultHit host result.faultLogPath w₂
  rcases readFaultHit host result.faultLogPath w₂ with ⟨hit, name, w₃⟩
  dsimp only
  split
  · exact ⟨hindex, hread⟩
  · exact ⟨hindex, hread⟩

/-- **The accounts of the fault groups.** Every table that is filled from a sequence of results whose
names fit their buffers obeys its law, and so does the table of every walk. -/
theorem groups_account (results : List RunResult)
    (hnames : ∀ result ∈ results, result.faultName.length < nameLength) (host : Host)
    (arguments : Arguments) (w : World) :
    Accounts results (results.foldl updateFaultGroup []) ∧ Reconciles (run host arguments w) := by
  constructor
  · rw [foldl_updateFaultGroup hnames]
    exact accounts_tableOf results
  · exact reconciles_walk host arguments w
      (fun index w => (runOneCase_result host arguments index w).1)
      (fun index w => (runOneCase_result host arguments index w).2)

/-- A result of case `index` that hit a fault in `name`, with some findings. -/
def hitResult (index : ℕ) (name : Text) (findings : ℕ) : RunResult :=
  { RunResult.zero with
    faultIndex := index
    faultHit := true
    faultName := name
    analysis := ⟨true, findings, findings⟩ }

/-- A baseline, and hits of two names. -/
def mixedResults : List RunResult :=
  [hitResult 0 ['a'] 7, hitResult 1 ['a'] 1, hitResult 2 [] 2, hitResult 3 ['a'] 4]

example : mixedResults.foldl updateFaultGroup [] = [⟨['a'], 2, 5⟩, ⟨['?'], 1, 2⟩] := by decide +kernel

theorem groups_account_mixed :
    Accounts mixedResults (mixedResults.foldl updateFaultGroup []) ∧
      Reconciles (run quietHost defaultArguments (.initial fun _ => none)) :=
  groups_account mixedResults (by decide) quietHost defaultArguments (.initial fun _ => none)

end P101Test.Faults
