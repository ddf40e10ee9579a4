import P101Test.Mutation.RemoveSpec

/-!
# Runs of the removal

The removal descends by path text, without a bound on its depth. A run with a number of levels ends only
where that many are enough; it records each call on a path name together with the file system the call meets.
A tree is shallow where, of each name that is joined to the path name of its directory, a proper name is left
in the buffer.

## Main definitions

* `Act`, `Removal`: calls on path names, and how a removal ends.
* `removeEntriesWithin`, `removeWithin`: runs of the removal.
* `EntriesRun`, `TreeRun`: the runs that end, as derivations.
* `Leads`: a path name leads to a location whatever is there.
* `cutName`, `Shallow`: what is left of a name, and trees in which that is a name.
* `Reached`: the locations whose path names spell the way from the top.

## Main results

* `removeEntriesWithin_eq_some_iff`, `removeWithin_eq_some_iff`: a run ends exactly if it is derivable.
* `removeTree_of_within`: a run that ends is the removal.
* `removeWithin_mono`: a run that ends is the same with more levels.
* `Reached.child`: what a shallow tree holds is reached.
-/

namespace P101Test.Mutation

open FileSystem Stdio

/-- The calls of the removal on path names. -/
inductive RemovalCall
  | lstat
  | opendir
  | unlink
  | rmdir
  deriving DecidableEq, Repr

/-- A call on a path name, and the file system it meets. -/
structure Act where
  call : RemovalCall
  path : Text
  fs : FileSystem

/-- How a removal ends. -/
structure Removal where
  removed : Bool
  world : World
  acts : List Act

variable (host : Host)

/-- The loop of `p101_mutation_remove_tree` over one directory stream; nothing where the removal of an entry
does not end. -/
def removeEntriesWithin (removeChild : Text → World → Option Removal) (path : Text) :
    List Text → Bool → World → Option Removal
  | [], result, w => some ⟨result, (attemptOptional host w).2, []⟩
  | name :: rest, result, w =>
    match attemptOptional host w with
    | (false, w) => some ⟨result, w, []⟩
    | (true, w) =>
      if name = ".".toList ∨ name = "..".toList then
        removeEntriesWithin removeChild path rest result w
      else
        match removeChild (childPath path name) w with
        | none => none
        | some child =>
          match removeEntriesWithin removeChild path rest (result && child.removed) child.world with
          | none => none
          | some others => some ⟨others.removed, others.world, child.acts ++ others.acts⟩

/-- `p101_mutation_remove_tree` within a number of levels of recursion; nothing where they are not enough. -/
def removeWithin : ℕ → Text → World → Option Removal
  | 0, _, _ => none
  | levels + 1, path, w =>
    let stat : Act := ⟨.lstat, path, w.fs⟩
    match callOptional host (lstat host.cwd path) w with
    | (none, w) => some ⟨false, w, [stat]⟩
    | (some (.directory _), w) =>
      let opened : Act := ⟨.opendir, path, w.fs⟩
      match callOptional host (opendir host.cwd path) w with
      | (none, w) => some ⟨false, w, [stat, opened]⟩
      | (some names, w) =>
        match removeEntriesWithin host (removeWithin levels) path names true w with
        | none => none
        | some entries =>
          let last := callOptional host (rmdir host.cwd path) entries.world
          some ⟨entries.removed && last.1.isSome, last.2,
            [stat, opened] ++ entries.acts ++ [⟨.rmdir, path, entries.world.fs⟩]⟩
    | (some _, w) =>
      let last := callOptional host (unlink host.cwd path) w
      some ⟨last.1.isSome, last.2, [stat, ⟨.unlink, path, w.fs⟩]⟩

/-! ### Runs as derivations -/

/-- A run over the entries of a directory that ends: at the end of the stream or where reading it fails, after
passing over a dot or removing an entry. -/
inductive EntriesRun (removeChild : Text → World → Option Removal) (path : Text) :
    List Text → Bool → World → Removal → Prop
  | done {result w} : EntriesRun removeChild path [] result w ⟨result, (attemptOptional host w).2, []⟩
  | stop {name rest result w w₁} (hread : attemptOptional host w = (false, w₁)) :
      EntriesRun removeChild path (name :: rest) result w ⟨result, w₁, []⟩
  | pass {name rest result w w₁ removal} (hread : attemptOptional host w = (true, w₁))
      (hdots : name = ".".toList ∨ name = "..".toList)
      (h : EntriesRun removeChild path rest result w₁ removal) :
      EntriesRun removeChild path (name :: rest) result w removal
  | entry {name rest result w w₁ child others} (hread : attemptOptional host w = (true, w₁))
      (hdots : ¬(name = ".".toList ∨ name = "..".toList))
      (hchild : removeChild (childPath path name) w₁ = some child)
      (h : EntriesRun removeChild path rest (result && child.removed) child.world others) :
      EntriesRun removeChild path (name :: rest) result w
        ⟨others.removed, others.world, child.acts ++ others.acts⟩

/-- A run at a path name that ends: where the path name is not found, after unlinking what is no directory,
where the directory is not opened, or after removing it behind its entries. -/
inductive TreeRun (removeChild : Text → World → Option Removal) (text : Text) (w : World) : Removal → Prop
  | missing {w₁} (hstat : callOptional host (lstat host.cwd text) w = (none, w₁)) :
      TreeRun removeChild text w ⟨false, w₁, [⟨.lstat, text, w.fs⟩]⟩
  | leaf {e w₁} (hstat : callOptional host (lstat host.cwd text) w = (some e, w₁))
      (he : ∀ mode, e ≠ .directory mode) :
      TreeRun removeChild text w ⟨(callOptional host (unlink host.cwd text) w₁).1.isSome,
        (callOptional host (unlink host.cwd text) w₁).2, [⟨.lstat, text, w.fs⟩, ⟨.unlink, text, w₁.fs⟩]⟩
  | closed {mode w₁ w₂} (hstat : callOptional host (lstat host.cwd text) w = (some (.directory mode), w₁))
      (hopen : callOptional host (opendir host.cwd text) w₁ = (none, w₂)) :
      TreeRun removeChild text w ⟨false, w₂, [⟨.lstat, text, w.fs⟩, ⟨.opendir, text, w₁.fs⟩]⟩
  | directory {mode w₁ names w₂ entries}
      (hstat : callOptional host (lstat host.cwd text) w = (some (.directory mode), w₁))
      (hopen : callOptional host (opendir host.cwd text) w₁ = (some names, w₂))
      (hentries : EntriesRun host removeChild text names true w₂ entries) :
      TreeRun removeChild text w
        ⟨entries.removed && (callOptional host (rmdir host.cwd text) entries.world).1.isSome,
        (callOptional host (rmdir host.cwd text) entries.world).2,
        [⟨.lstat, text, w.fs⟩, ⟨.opendir, text, w₁.fs⟩] ++ entries.acts ++
          [⟨.rmdir, text, entries.world.fs⟩]⟩

/-! ### Trees -/

/-- A path name leads to a location whatever is there: it denotes the location in a file system that differs
only there, and where nothing is there. -/
def Leads (fs : FileSystem) (temp : Text) (top : Path) : Prop :=
  ∃ fs₁ : FileSystem, fs₁.At temp top ∧ fs₁.entry top = none ∧ fs₁.ChangesUnder fs top

/-- What is left of a name that is joined to a path name in the buffer. -/
def cutName (text name : Text) : Text := name.take (pathSize - 2 - text.length)

/-- Below a location, a proper name is left of each name that is joined to the path name of its directory,
where that path name fits the buffer. -/
def ShallowBelow (fs : FileSystem) (temp : Text) (top rel : Path) : Prop :=
  ∀ below name, fs.isDirectory (top ++ (rel ++ below)) = true →
    (temp ++ pathText (rel ++ below)).length < pathSize →
    name ∈ fs.names (top ++ (rel ++ below)) → ValidName (cutName (temp ++ pathText (rel ++ below)) name)

/-- A tree is shallow: a proper name is left of each name that is joined to the path name of its directory. -/
def Shallow (fs : FileSystem) (temp : Text) (top : Path) : Prop := ShallowBelow fs temp top []

/-- A location below the top is reached: its path name spells the way, on which there are only directories,
and fits the buffer. -/
structure Reached (temp : Text) (top : Path) (fs : FileSystem) (rel : Path) : Prop where
  leads : Leads fs temp top
  valid : ∀ name ∈ rel, ValidName name
  directories : ∀ a b, rel = a ++ b → b ≠ [] → fs.isDirectory (top ++ a) = true
  length_lt : (temp ++ pathText rel).length < pathSize

variable {host} {temp text name : Text} {top rel : Path} {fs fs' : FileSystem} {w w' : World}
  {names : List Text} {result : Bool} {removal : Removal}

/-! ### Runs that end -/

variable {removeChild : Text → World → Option Removal} {levels : ℕ}

/-- The run over the entries ends exactly if there is a derivation. -/
theorem removeEntriesWithin_eq_some_iff :
    removeEntriesWithin host removeChild text names result w = some removal ↔
      EntriesRun host removeChild text names result w removal := by
  constructor
  · intro h
    induction names generalizing result w removal with
    | nil =>
        obtain rfl := Option.some.inj h
        exact .done
    | cons name rest ih =>
        rw [removeEntriesWithin] at h
        split at h
        · next hread =>
          obtain rfl := Option.some.inj h
          exact .stop hread
        next hread =>
        split at h
        · next hdots => exact .pass hread hdots (ih h)
        next hdots =>
        split at h
        · cases h
        next hchild =>
        split at h
        · cases h
        next hothers =>
        obtain rfl := Option.some.inj h
        exact .entry hread hdots hchild (ih hothers)
  · intro h
    induction h with
    | done => rfl
    | stop hread => rw [removeEntriesWithin, hread]
    | pass hread hdots h ih =>
        rw [removeEntriesWithin, hread]
        dsimp only
        rw [if_pos hdots, ih]
    | entry hread hdots hchild h ih =>
        rw [removeEntriesWithin, hread]
        dsimp only
        rw [if_neg hdots, hchild]
        dsimp only
        rw [ih]

/-- The run at a path name ends exactly if there is a derivation. -/
theorem removeWithin_eq_some_iff : removeWithin host (levels + 1) text w = some removal ↔
    TreeRun host (removeWithin host levels) text w removal := by
  constructor
  · intro h
    rw [removeWithin] at h
    split at h
    · next hstat =>
      obtain rfl := Option.some.inj h
      exact .missing hstat
    · next hstat =>
      split at h
      · next hopen =>
        obtain rfl := Option.some.inj h
        exact .closed hstat hopen
      next hopen =>
      split at h
      · cases h
      next hentries =>
      obtain rfl := Option.some.inj h
      exact .directory hstat hopen (removeEntriesWithin_eq_some_iff.mp hentries)
    · next hnot hstat =>
      obtain rfl := Option.some.inj h
      exact .leaf hstat fun mode he => hnot mode (he ▸ rfl)
  · intro h
    cases h with
    | missing hstat => rw [removeWithin, hstat]
    | @leaf e w₁ hstat he =>
        rw [removeWithin, hstat]
        cases e with
        | directory mode => exact absurd rfl (he mode)
        | regular mode bytes => rfl
        | link target => rfl
        | special => rfl
    | closed hstat hopen =>
        rw [removeWithin, hstat]
        dsimp only
        rw [hopen]
    | directory hstat hopen hentries =>
        rw [removeWithin, hstat]
        dsimp only
        rw [hopen]
        dsimp only
        rw [removeEntriesWithin_eq_some_iff.mpr hentries]

theorem fs_of_attemptOptional {read : Bool} (h : attemptOptional host w = (read, w')) : w'.fs = w.fs := by
  simpa [h] using attemptOptional_fs host w

theorem EntriesRun.of_dots
    (h : EntriesRun host removeChild text (".".toList :: "..".toList :: names) result w removal) :
    ∃ w', w'.fs = w.fs ∧
      (removal = ⟨result, w', []⟩ ∨ EntriesRun host removeChild text names result w' removal) := by
  cases h with
  | stop hread => exact ⟨_, fs_of_attemptOptional hread, .inl rfl⟩
  | entry _ hdots => exact absurd (.inl rfl) hdots
  | pass hread _ h =>
      have hfs := fs_of_attemptOptional hread
      cases h with
      | stop hread' => exact ⟨_, (fs_of_attemptOptional hread').trans hfs, .inl rfl⟩
      | entry _ hdots => exact absurd (.inr rfl) hdots
      | pass hread' _ h => exact ⟨_, (fs_of_attemptOptional hread').trans hfs, .inr h⟩

/-! ### A run that ends is the removal -/

theorem EntriesRun.removeEntries_eq {removeChild' : Text → World → Bool × World}
    (hchild : ∀ text w removal, removeChild text w = some removal →
      removeChild' text w = (removal.removed, removal.world))
    (h : EntriesRun host removeChild text names result w removal) :
    removeEntries host removeChild' text names result w = (removal.removed, removal.world) := by
  induction h with
  | done => rfl
  | stop hread => rw [removeEntries, hread]
  | pass hread hdots h ih =>
      rw [removeEntries, hread]
      dsimp only
      rw [if_pos hdots, ih]
  | entry hread hdots hremove h ih =>
      rw [removeEntries, hread]
      dsimp only
      rw [if_neg hdots, hchild _ _ _ hremove]
      dsimp only
      rw [ih]

theorem removeLevels_of_within (h : removeWithin host levels text w = some removal) :
    removeLevels host levels text w = (removal.removed, removal.world) := by
  induction levels generalizing text w removal with
  | zero => cases h
  | succ levels ih =>
      rw [removeWithin_eq_some_iff] at h
      cases h with
      | missing hstat => rw [removeLevels, hstat]
      | @leaf e w₁ hstat he =>
          rw [removeLevels, hstat]
          cases e with
          | directory mode => exact absurd rfl (he mode)
          | regular mode bytes => rfl
          | link target => rfl
          | special => rfl
      | closed hstat hopen =>
          rw [removeLevels, hstat]
          dsimp only
          rw [hopen]
      | directory hstat hopen hentries =>
          rw [removeLevels, hstat]
          dsimp only
          rw [hopen]
          dsimp only
          rw [hentries.removeEntries_eq fun _ _ _ => ih]

/-- A run that ends within the levels there are is the removal. -/
theorem removeTree_of_within (h : removeWithin host maxLevels text w = some removal) :
    removeTree host text w = (removal.removed, removal.world) := removeLevels_of_within h

theorem EntriesRun.mono {removeChild' : Text → World → Option Removal}
    (hchild : ∀ text w removal, removeChild text w = some removal → removeChild' text w = some removal)
    (h : EntriesRun host removeChild text names result w removal) :
    EntriesRun host removeChild' text names result w removal := by
  induction h with
  | done => exact .done
  | stop hread => exact .stop hread
  | pass hread hdots h ih => exact .pass hread hdots ih
  | entry hread hdots hremove h ih => exact .entry hread hdots (hchild _ _ _ hremove) ih

/-- A run that ends is the same with more levels. -/
theorem removeWithin_mono {more : ℕ} (hle : levels ≤ more)
    (h : removeWithin host levels text w = some removal) : removeWithin host more text w = some removal := by
  induction levels generalizing more text w removal with
  | zero => cases h
  | succ levels ih =>
      obtain ⟨more, rfl⟩ : ∃ n, more = n + 1 := ⟨more - 1, by omega⟩
      rw [removeWithin_eq_some_iff] at h ⊢
      cases h with
      | missing hstat => exact .missing hstat
      | leaf hstat he => exact .leaf hstat he
      | closed hstat hopen => exact .closed hstat hopen
      | directory hstat hopen hentries =>
          exact .directory hstat hopen (hentries.mono fun _ _ _ => ih (by omega))

/-! ### Path names -/

theorem Leads.denotes (h : Leads fs temp top) : fs.At temp top := by
  obtain ⟨fs₁, hat, hnone, hchanges⟩ := h
  exact hat.mono (hchanges.growsTo hnone)

theorem Leads.after (h : Leads fs temp top) (hchanges : fs.ChangesUnder fs' top) : Leads fs' temp top := by
  obtain ⟨fs₁, hat, hnone, hfirst⟩ := h
  exact ⟨fs₁, hat, hnone, hfirst.trans hchanges⟩

theorem length_cutName_le (text name : Text) : (cutName text name).length ≤ pathSize - 2 - text.length :=
  List.length_take_le _ _

theorem cutName_of_le (h : name.length ≤ pathSize - 2 - text.length) : cutName text name = name :=
  List.take_of_length_le h

/-- What is left of a name is joined to the path name, where the slash fits the buffer. -/
theorem childPath_eq_join (hlen : text.length + 1 < pathSize) (name : Text) :
    childPath text name = text ++ '/' :: cutName text name := by
  obtain ⟨k, hk⟩ : ∃ k, pathSize = text.length + 2 + k := ⟨pathSize - text.length - 2, by omega⟩
  have hcut : pathSize - 2 - text.length = k := by omega
  rw [childPath, Stdio.cut, cutName, hcut, hk, List.take_append, List.take_of_length_le (by omega),
    show text.length + 2 + k - 1 - text.length = k + 1 by omega, List.take_succ_cons]

/-- Where a proper name is left, it is joined to the path name. -/
theorem childPath_eq (h : ValidName (cutName text name)) :
    childPath text name = text ++ '/' :: cutName text name := by
  have hroom : 0 < pathSize - 2 - text.length := by
    by_contra hzero
    exact h.ne_nil (by rw [cutName, Nat.eq_zero_of_not_pos hzero, List.take_zero])
  exact childPath_eq_join (by omega) name

namespace Reached

theorem denotes (h : Reached temp top fs rel) : fs.At (temp ++ pathText rel) (top ++ rel) :=
  h.leads.denotes.descend h.valid h.directories

theorem after (h : Reached temp top fs rel) (hchanges : fs.ChangesUnder fs' (top ++ rel)) :
    Reached temp top fs' rel where
  leads := h.leads.after (hchanges.mono (List.prefix_append _ _))
  valid := h.valid
  directories a b hab hb := by
    have hnot : ¬top ++ rel <+: top ++ a := by
      intro hle
      have hlength := hle.length_le
      have hpos := List.length_pos_iff.mpr hb
      rw [hab, List.length_append, List.length_append, List.length_append] at hlength
      omega
    have hsame := hchanges (top ++ a) hnot
    obtain ⟨mode, hmode⟩ := fs.isDirectory_iff.mp (h.directories a b hab hb)
    exact fs'.isDirectory_iff.mpr ⟨mode, hsame.trans hmode⟩
  length_lt := h.length_lt

theorem child (h : Reached temp top fs rel) (hdir : fs.isDirectory (top ++ rel) = true)
    (hname : ValidName (cutName (temp ++ pathText rel) name)) :
    Reached temp top fs (rel ++ [cutName (temp ++ pathText rel) name]) where
  leads := h.leads
  valid other hother := by
    rcases List.mem_append.mp hother with hother | hother
    · exact h.valid other hother
    · exact List.mem_singleton.mp hother ▸ hname
  directories a b hab hb := by
    obtain ⟨init, last, rfl⟩ := (List.eq_nil_or_concat b).resolve_left hb
    rw [List.concat_eq_append, ← List.append_assoc] at hab
    obtain ⟨rfl, -⟩ := List.append_inj' hab rfl
    rcases eq_or_ne init [] with rfl | hinit
    · rwa [List.append_nil] at hdir
    · exact h.directories a init rfl hinit
  length_lt := by
    have hpath := childPath_eq hname
    have hlength : (childPath (temp ++ pathText rel) name).length < pathSize := by
      rw [childPath, Stdio.cut]
      exact (List.length_take_le _ _).trans_lt (by decide)
    rw [hpath] at hlength
    simpa using hlength

end Reached

theorem childPath_reached (hname : ValidName (cutName (temp ++ pathText rel) name)) :
    childPath (temp ++ pathText rel) name =
      temp ++ pathText (rel ++ [cutName (temp ++ pathText rel) name]) := by
  rw [childPath_eq hname, pathText_append, pathText_singleton, List.append_assoc]

/-! ### Shallow trees -/

theorem mem_names_of_growsTo (hgrow : fs'.GrowsTo fs) {p : Path} (h : name ∈ fs'.names p) :
    name ∈ fs.names p := by
  obtain ⟨e, he⟩ := mem_names.mp h
  obtain ⟨e', he', -⟩ := hgrow _ _ he
  exact mem_names.mpr ⟨e', he'⟩

/-- What is removed from a shallow tree leaves a shallow one. -/
theorem ShallowBelow.shrink (h : ShallowBelow fs temp top rel) (hgrow : fs'.GrowsTo fs) :
    ShallowBelow fs' temp top rel := fun below name hdir hlength hname =>
  h below name (hgrow.isDirectory hdir) hlength (mem_names_of_growsTo hgrow hname)

theorem ShallowBelow.child (h : ShallowBelow fs temp top rel) (c : Text) :
    ShallowBelow fs temp top (rel ++ [c]) := by
  intro below name
  rw [List.append_assoc]
  exact h ([c] ++ below) name

/-- The names that a directory holds, and what is left of them. -/
theorem ShallowBelow.listed (h : ShallowBelow fs temp top rel) (hreached : Reached temp top fs rel)
    (hdir : fs.isDirectory (top ++ rel) = true) :
    ∀ name ∈ fs.names (top ++ rel), ValidName name ∧ ValidName (cutName (temp ++ pathText rel) name) := by
  intro name hname
  refine ⟨validName_of_mem_names hname, ?_⟩
  have hcut := h [] name
  rw [List.append_nil] at hcut
  exact hcut hdir hreached.length_lt hname

end P101Test.Mutation
