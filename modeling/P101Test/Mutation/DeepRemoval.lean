import P101Test.Mutation.ShallowRemoval
import P101Test.Mutation.SingleMutation
import P101Test.FileSystem.Naming

/-!
# Trees too deep to remove

Where nothing proper is left of a name that is joined to a path name, the joined path name fills the buffer
and denotes a directory again: the one it was formed for, or the directory above. Each path name formed from
it is the same one, so that a removal which is granted every call never ends there. The removal therefore does
what it should for a tree, whatever fails, exactly if the tree is shallow.

## Main definitions

* `RemovesTree`: the removal of a tree ends, stays inside and reports whether the tree is gone.
* `chain`, `deepTree`: directories one inside the other.

## Main results

* `removeWithin_of_full`: a path name of a directory with entries that fills the buffer is never removed.
* `shallowBelow_of_ends`: only a shallow tree is removed in the end when each call is granted.
* `removesTree_iff`: the removal does what it should for a tree exactly if the tree is shallow.
-/

namespace P101Test.Mutation

open FileSystem Stdio

variable {host : Host} {temp text name : Text} {top rel p q : Path} {fs fs' : FileSystem} {w w' : World}
  {names : List Text} {result : Bool} {removal : Removal}

/-! ### Joined path names of directories -/

/-- What is left of a name, where it is not a proper one, fills the buffer, and is nothing, one dot or two. -/
theorem cutName_improper (hname : ValidName name) (hcut : ¬ValidName (cutName text name)) :
    (cutName text name).length = pathSize - 2 - text.length ∧
      (cutName text name = [] ∨ cutName text name = ".".toList ∨ cutName text name = "..".toList) := by
  constructor
  · by_contra hlength
    have hshort : name.length < pathSize - 2 - text.length := by
      rw [cutName, List.length_take] at hlength
      omega
    exact hcut (by rwa [cutName_of_le hshort.le])
  · by_contra hothers
    rw [not_or, not_or] at hothers
    exact hcut ⟨hothers.1, fun hmem => hname.no_slash (List.mem_of_mem_take hmem), hothers.2⟩

/-- Where nothing proper is left of a name, the joined path name fills the buffer and denotes the directory,
or the one above if two dots are left. -/
theorem childPath_improper (h : fs.At text p) (hdir : fs.isDirectory p = true) (hlen : text.length < pathSize)
    (hname : ValidName name) (hcut : ¬ValidName (cutName text name)) :
    (childPath text name).length + 1 = pathSize ∧ ∃ q, (q = p ∨ q = p.dropLast) ∧
      ∀ cwd follow, fs.locate cwd follow (childPath text name) = some q := by
  by_cases hfull : text.length + 1 = pathSize
  · rw [Inside.childPath_of_full hfull]
    exact ⟨hfull, p, .inl rfl, h.locate_directory hdir hlen⟩
  obtain ⟨hlength, hleft⟩ := cutName_improper hname hcut
  rw [childPath_eq_join (by omega)]
  have hfills : (text ++ '/' :: cutName text name).length + 1 = pathSize := by
    rw [List.length_append, List.length_cons, hlength]
    omega
  have hfits : (text ++ '/' :: cutName text name).length < pathMax := by
    have hsame : pathSize = pathMax := rfl
    omega
  refine ⟨hfills, ?_⟩
  rcases hleft with hnil | hdot | hdots
  · rw [hnil] at hfits ⊢
    exact ⟨p, .inl rfl, h.locate_slash hdir hfits⟩
  · rw [hdot] at hfits ⊢
    exact ⟨p, .inl rfl, h.locate_join hdir (by decide) (by decide) hfits fun _ _ => .dot .done⟩
  · rw [hdots] at hfits ⊢
    exact ⟨p.dropLast, .inr rfl, h.locate_join hdir (by decide) (by decide) hfits fun _ _ => .up .done⟩

/-! ### A removal that is granted every call -/

theorem callOptional_granted {α : Type} {c : Call α} {a : α} (hgrants : ∀ k, host.failure k = none)
    (h : c w.fs = .ok (a, fs)) : callOptional host c w = (some a, { w.tick with fs := fs }) := by
  rw [callOptional, hgrants]
  dsimp only
  rw [h]

theorem attemptOptional_granted (hgrants : ∀ k, host.failure k = none) (w : World) :
    attemptOptional host w = (true, w.tick) := by
  rw [attemptOptional, hgrants]
  rfl

theorem EntriesRun.granted {removeChild : Text → World → Option Removal}
    (hgrants : ∀ k, host.failure k = none) (hname : ValidName name)
    (h : EntriesRun host removeChild text (name :: names) result w removal) :
    ∃ child others, removeChild (childPath text name) w.tick = some child ∧
      EntriesRun host removeChild text names (result && child.removed) child.world others := by
  have hgranted := attemptOptional_granted hgrants w
  cases h with
  | stop hread => cases hgranted.symm.trans hread
  | pass _ hdots => exact absurd hdots (not_or.mpr ⟨hname.ne_dot, hname.ne_dotdot⟩)
  | entry hread _ hchild h =>
      obtain ⟨-, rfl⟩ := Prod.mk.inj (hgranted.symm.trans hread)
      exact ⟨_, _, hchild, h⟩

theorem EntriesRun.passed {removeChild : Text → World → Option Removal}
    (hgrants : ∀ k, host.failure k = none) (hdots : name = ".".toList ∨ name = "..".toList)
    (h : EntriesRun host removeChild text (name :: names) result w removal) :
    EntriesRun host removeChild text names result w.tick removal := by
  have hgranted := attemptOptional_granted hgrants w
  cases h with
  | stop hread => cases hgranted.symm.trans hread
  | entry _ hnot => exact absurd hdots hnot
  | pass hread _ h =>
      obtain ⟨-, rfl⟩ := Prod.mk.inj (hgranted.symm.trans hread)
      exact h

theorem entries_of_removeWithin {levels : ℕ} (hgrants : ∀ k, host.failure k = none)
    (hlocate : ∀ follow, w.fs.locate host.cwd follow text = some q) (hdir : w.fs.isDirectory q = true)
    (h : removeWithin host (levels + 1) text w = some removal) :
    ∃ w' entries, w'.fs = w.fs ∧
      EntriesRun host (removeWithin host levels) text (w.fs.names q) true w' entries := by
  obtain ⟨mode, hmode⟩ := w.fs.isDirectory_iff.mp hdir
  have hstat : lstat host.cwd text w.fs = .ok (.directory mode, w.fs) := by
    rw [lstat, hlocate]
    dsimp only
    rw [hmode]
  have hopen : opendir host.cwd text w.fs = .ok (".".toList :: "..".toList :: w.fs.names q, w.fs) := by
    rw [opendir, hlocate]
    dsimp only
    rw [if_pos hdir]
  have hstatted := callOptional_granted hgrants hstat
  have hopened := callOptional_granted (w := w.tick) hgrants hopen
  rw [removeWithin_eq_some_iff] at h
  cases h with
  | missing hstat' => cases hstatted.symm.trans hstat'
  | leaf hstat' he =>
      obtain ⟨he', -⟩ := Prod.mk.inj (hstatted.symm.trans hstat')
      exact absurd (Option.some.inj he').symm (he mode)
  | closed hstat' hopen' =>
      obtain ⟨-, rfl⟩ := Prod.mk.inj (hstatted.symm.trans hstat')
      cases hopened.symm.trans hopen'
  | directory hstat' hopen' hentries =>
      obtain ⟨-, rfl⟩ := Prod.mk.inj (hstatted.symm.trans hstat')
      obtain ⟨hnames, rfl⟩ := Prod.mk.inj (hopened.symm.trans hopen')
      obtain rfl := Option.some.inj hnames
      refine ⟨_, _, ?_, (hentries.passed hgrants (.inl rfl)).passed hgrants (.inr rfl)⟩
      rfl

/-- **A path name that fills the buffer.** Where it denotes a directory that holds an entry, a removal that is
granted every call does not end: each path name it forms is the same one. -/
theorem removeWithin_of_full (hgrants : ∀ k, host.failure k = none) (hfull : text.length + 1 = pathSize)
    (hlocate : ∀ follow, fs.locate host.cwd follow text = some q) (hdir : fs.isDirectory q = true)
    (hnames : fs.names q ≠ []) (levels : ℕ) (hfs : w.fs = fs) : removeWithin host levels text w = none := by
  induction levels generalizing w with
  | zero => rfl
  | succ levels ih =>
      by_contra hends
      obtain ⟨removal, hremoval⟩ := Option.ne_none_iff_exists'.mp hends
      obtain ⟨name, rest, hlisted⟩ := List.exists_cons_of_ne_nil hnames
      have hname : ValidName name := validName_of_mem_names (hlisted ▸ List.mem_cons_self)
      subst hfs
      obtain ⟨w', entries, hfs', hentries⟩ := entries_of_removeWithin hgrants hlocate hdir hremoval
      rw [hlisted] at hentries
      obtain ⟨child, -, hchild, -⟩ := hentries.granted hgrants hname
      have htick : w'.tick.fs = w.fs := hfs'
      rw [Inside.childPath_of_full hfull, ih htick] at hchild
      cases hchild

/-! ### Trees that are removed in the end -/

theorem names_dropLast_ne_nil (hdir : fs.isDirectory p = true) (hnames : fs.names p ≠ []) :
    fs.isDirectory p.dropLast = true ∧ fs.names p.dropLast ≠ [] := by
  rcases List.eq_nil_or_concat p with rfl | ⟨init, last, rfl⟩
  · exact ⟨hdir, hnames⟩
  · obtain ⟨mode, hmode⟩ := fs.isDirectory_iff.mp hdir
    rw [List.concat_eq_append] at hmode ⊢
    rw [List.dropLast_concat]
    exact ⟨isDirectory_of_entry_concat hmode, List.ne_nil_of_mem (mem_names.mpr ⟨_, hmode⟩)⟩

/-- A name of which nothing proper is left is never removed, so that the run over the names does not end. -/
theorem validName_of_ends {levels : ℕ} (hgrants : ∀ k, host.failure k = none)
    (hreached : Reached temp top fs rel) (hdir : fs.isDirectory (top ++ rel) = true)
    (hname : name ∈ fs.names (top ++ rel)) (hfs : w.fs = fs)
    (hends : removeWithin host levels (childPath (temp ++ pathText rel) name) w = some removal) :
    ValidName (cutName (temp ++ pathText rel) name) := by
  by_contra hcut
  obtain ⟨hfull, q, hq, hlocate⟩ := childPath_improper hreached.denotes hdir hreached.length_lt
    (validName_of_mem_names hname) hcut
  have hnames := List.ne_nil_of_mem hname
  have hloops : fs.isDirectory q = true ∧ fs.names q ≠ [] := by
    rcases hq with rfl | rfl
    · exact ⟨hdir, hnames⟩
    · exact names_dropLast_ne_nil hdir hnames
  rw [removeWithin_of_full hgrants hfull (hlocate host.cwd) hloops.1 hloops.2 levels hfs] at hends
  cases hends

theorem ShallowBelow.of_same (h : ShallowBelow fs temp top rel)
    (hsame : ∀ below, fs'.entry (top ++ (rel ++ below)) = fs.entry (top ++ (rel ++ below))) :
    ShallowBelow fs' temp top rel := by
  intro below name hdir hlength hname
  refine h below name ?_ hlength ?_
  · obtain ⟨mode, hmode⟩ := fs'.isDirectory_iff.mp hdir
    exact fs.isDirectory_iff.mpr ⟨mode, (hsame below).symm.trans hmode⟩
  · obtain ⟨e, he⟩ := mem_names.mp hname
    refine mem_names.mpr ⟨e, ?_⟩
    have hchild := hsame (below ++ [name])
    simp only [List.append_assoc] at he hchild ⊢
    rw [← hchild, he]

/-- The run over the names of a directory ends only if a proper name is left of each, and what is there is
shallow. -/
theorem shallow_of_entries {levels : ℕ} (hgrants : ∀ k, host.failure k = none)
    (hchild : ∀ c w removal, Reached temp top w.fs (rel ++ [c]) →
      removeWithin host levels (temp ++ pathText (rel ++ [c])) w = some removal →
      ShallowBelow w.fs temp top (rel ++ [c]))
    (hreached : Reached temp top w.fs rel) (hdir : w.fs.isDirectory (top ++ rel) = true)
    (hnames : ∀ name ∈ names, ValidName name)
    (hstay : ∀ name ∈ names, cutName (temp ++ pathText rel) name ≠ name → name ∈ w.fs.names (top ++ rel))
    (h : EntriesRun host (removeWithin host levels) (temp ++ pathText rel) names result w removal) :
    ∀ name ∈ names, ValidName (cutName (temp ++ pathText rel) name) ∧
      ShallowBelow w.fs temp top (rel ++ [cutName (temp ++ pathText rel) name]) := by
  -- The names that do not fit stay listed while the others are removed.
  induction names generalizing result w removal with
  | nil => simp
  | cons name rest ih =>
      obtain ⟨child, others, hfirst, hrest⟩ := h.granted hgrants (hnames name List.mem_cons_self)
      have hcut : ValidName (cutName (temp ++ pathText rel) name) := by
        by_cases hfits : cutName (temp ++ pathText rel) name = name
        · rw [hfits]
          exact hnames name List.mem_cons_self
        · exact validName_of_ends (w := w.tick) hgrants hreached hdir (hstay name List.mem_cons_self hfits) rfl
            hfirst
      rw [childPath_reached hcut] at hfirst
      have hbelow := hchild _ w.tick child (hreached.child hdir hcut) hfirst
      have hsettled := removeWithin_settled (w := w.tick) (hreached.child hdir hcut) hbelow hfirst
      have hothers := ih (hreached.after hsettled.changes_above) (isDirectory_after hdir hsettled.changes)
        (fun other hother => hnames other (List.mem_cons_of_mem _ hother)) ?_ hrest
      · intro other hother
        rcases List.mem_cons.mp hother with rfl | hother
        · exact ⟨hcut, hbelow⟩
        obtain ⟨hvalid, hshallow⟩ := hothers other hother
        refine ⟨hvalid, ?_⟩
        -- What is left of two names may be the same; otherwise the first removal leaves the second tree.
        by_cases hsame : cutName (temp ++ pathText rel) other = cutName (temp ++ pathText rel) name
        · rw [hsame]
          exact hbelow
        · refine hshallow.of_same fun below => (hsettled.changes _ ?_).symm
          rw [child_prefix_append_iff]
          exact Ne.symm hsame
      · intro other hother hfits
        obtain ⟨e, he⟩ := mem_names.mp (hstay other (List.mem_cons_of_mem _ hother) hfits)
        refine mem_names.mpr ⟨e, ?_⟩
        rw [hsettled.changes, ← he]
        · rfl
        · rw [List.append_assoc, child_prefix_iff]
          exact ne_cutName hfits name

/-- **Only a shallow tree is removed in the end** when each call is granted. -/
theorem shallowBelow_of_ends {levels : ℕ} (hgrants : ∀ k, host.failure k = none)
    (hreached : Reached temp top w.fs rel)
    (h : removeWithin host levels (temp ++ pathText rel) w = some removal) :
    ShallowBelow w.fs temp top rel := by
  induction levels generalizing rel w removal with
  | zero => cases h
  | succ levels ih =>
      cases hdir : w.fs.isDirectory (top ++ rel) with
      | false =>
          -- Nothing lies below.
          intro below name hbelow
          obtain ⟨mode, hmode⟩ := w.fs.isDirectory_iff.mp hbelow
          rw [← List.append_assoc] at hbelow hmode
          rcases eq_or_ne below [] with rfl | hne
          · rw [List.append_nil, hdir] at hbelow
            cases hbelow
          · rw [isDirectory_of_entry_append hmode hne] at hdir
            cases hdir
      | true =>
          have hlocate := hreached.denotes.locate_directory hdir hreached.length_lt host.cwd
          obtain ⟨w', entries, hfs, hentries⟩ := entries_of_removeWithin hgrants hlocate hdir h
          rw [← hfs] at hreached hdir hentries ⊢
          have hlisted := shallow_of_entries hgrants (fun c w removal => ih) hreached hdir
            (fun name => validName_of_mem_names) (fun name hname _ => hname) hentries
          intro below name hbelow hlength hname
          cases below with
          | nil =>
              rw [List.append_nil] at hname ⊢
              exact (hlisted name hname).1
          | cons c below =>
              obtain ⟨mode', hmode'⟩ := w'.fs.isDirectory_iff.mp hbelow
              rw [← List.append_assoc] at hmode'
              obtain ⟨e, he⟩ := entry_of_entry_cons hmode'
              -- The name of a directory whose path name fits the buffer fits it too.
              have hfits : cutName (temp ++ pathText rel) c = c := by
                refine cutName_of_le ?_
                simp only [pathText_append, pathText_cons, List.length_append, List.length_cons] at hlength ⊢
                omega
              have hshallow := (hlisted c (mem_names.mpr ⟨e, he⟩)).2
              rw [hfits] at hshallow
              have hcut := hshallow below name
              rw [List.append_assoc, List.singleton_append] at hcut
              exact hcut hbelow hlength hname

/-! ### What the removal does -/

/-- The removal of a tree does what it should: whatever fails, it ends, each call acts inside, nothing else
changes, and it reports whether the tree is gone. -/
def RemovesTree (fs : FileSystem) (temp : Text) (top : Path) : Prop :=
  ∀ host w, w.fs = fs → ∃ levels removal, removeWithin host levels temp w = some removal ∧
    (∀ act ∈ removal.acts, Contained temp top act) ∧ fs.ChangesUnder removal.world.fs top ∧
    (removal.removed = true ↔ removal.world.fs.entry top = none)

theorem leads_of_makeTemporary (h : makeTemporary host w = (some temp, w')) :
    ∃ top, ∀ fs, w.fs.ChangesUnder fs top → Leads fs temp top := by
  obtain ⟨rfl, top, hlocate, hfree, -⟩ := makeTemporary_spec h
  exact ⟨top, fun fs hchanges => ⟨w.fs,
    at_of_locate hlocate (isAbsolute_temporaryText host w) (plain_temporaryText host w), hfree, hchanges⟩⟩

theorem shallow_of_removesTree (hleads : Leads fs temp top) (hlen : temp.length < pathSize)
    (h : RemovesTree fs temp top) : Shallow fs temp top := by
  let host := Host.granting (fun _ _ _ => none) fun _ _ _ fs => (.refused 0, fs)
  obtain ⟨levels, removal, hends, -⟩ := h host ⟨fs, none, 0, []⟩ rfl
  have hpath : temp ++ pathText [] = temp := List.append_nil temp
  rw [← hpath] at hends
  exact shallowBelow_of_ends (fun _ => rfl) (Reached.start hleads hlen) hends

/-! ### Directories one inside the other -/

/-- Directories one inside the other. -/
def chain (names : Path) : FileSystem := ofEntries (names.inits.map fun p => (p, .directory 0o755))

theorem entry_ofEntries_concat {entries : List (Path × Entry)} {e : Entry} (h : (ofEntries entries).Vacant p)
    (hs : e.Short) (q : Path) :
    (ofEntries (entries ++ [(p, e)])).entry q = if q = p then some e else (ofEntries entries).entry q := by
  have hlast : ofEntries (entries ++ [(p, e)]) = (ofEntries entries).create p e h hs := by
    rw [ofEntries, List.foldl_append]
    exact dif_pos ⟨h, hs⟩
  rw [hlast, entry_create]

theorem chain_concat (names : Path) (name : Text) : chain (names ++ [name]) =
    ofEntries ((names.inits.map fun p => (p, .directory 0o755)) ++ [(names ++ [name], .directory 0o755)]) := by
  rw [chain, List.inits_append]
  simp

/-- A chain holds the directories that it is made of, and nothing else. -/
theorem entry_chain {names : Path} (hvalid : ∀ name ∈ names, ValidName name) (q : Path) :
    (chain names).entry q = if q <+: names then some (.directory 0o755) else none := by
  induction names using List.reverseRecOn generalizing q with
  | nil =>
      have hempty : chain [] = FileSystem.empty := by
        have hroot : ¬FileSystem.empty.Vacant [] := fun h => h.ne_nil rfl
        simp [chain, ofEntries, hroot]
      rw [hempty]
      rcases eq_or_ne q [] with rfl | hne
      · simp
      · rw [if_neg (by simpa using hne), entry_of_ne_nil _ hne]
        rfl
  | append_singleton names name ih =>
      have hnames := fun other hother => hvalid other (List.mem_append_left _ hother)
      have hchain := ih hnames
      have hvacant : (chain names).Vacant (names ++ [name]) := by
        refine ⟨?_, hvalid, ?_⟩
        · rw [hchain, if_neg]
          intro hle
          simpa using hle.length_le
        · rw [List.dropLast_concat]
          exact (chain names).isDirectory_iff.mpr ⟨_, (hchain names).trans (if_pos List.prefix_rfl)⟩
      rw [chain_concat, entry_ofEntries_concat (e := .directory 0o755) hvacant trivial, ← chain, hchain]
      simp only [List.prefix_concat_iff]
      by_cases hq : q = names ++ [name]
      · simp [hq]
      · simp [hq]

theorem leads_chain {names : Path} (hname : ValidName name) (hnames : ∀ other ∈ names, ValidName other) :
    Leads (chain (name :: names)) ('/' :: name) [name] := by
  have hvalid : ∀ other ∈ name :: names, ValidName other := List.forall_mem_cons.mpr ⟨hname, hnames⟩
  have hnil : ∀ q, (chain []).entry q = if q <+: [] then some (.directory 0o755) else none :=
    entry_chain (by simp)
  have hfree : (chain []).entry [name] = none := by
    rw [hnil, if_neg (by simp)]
  refine ⟨chain [], ⟨rfl, ?_, ?_⟩, hfree, fun q hq => ?_⟩
  · simpa using getLast?_ne_slash hname.ne_nil hname.no_slash ['/']
  · have hsegments : segments (pathText [name]) = [name] := segments_pathText (by simpa using hname)
    rw [pathText_singleton] at hsegments
    rw [hsegments]
    exact .last (proper_of_validName hname) (isDirectory_eq_false_of_none hfree) (by simp)
  · rw [entry_chain hvalid, hnil]
    cases q with
    | nil => simp
    | cons other q =>
        rw [if_neg, if_neg (by simp)]
        intro hle
        refine hq ?_
        rw [(List.cons_prefix_cons.mp hle).1, List.cons_prefix_cons]
        exact ⟨rfl, List.nil_prefix⟩

theorem mem_names_chain {names : Path} (hvalid : ∀ other ∈ names, ValidName other) :
    name ∈ (chain names).names p ↔ p ++ [name] <+: names := by
  rw [mem_names, entry_chain hvalid]
  constructor
  · rintro ⟨e, he⟩
    by_contra hnot
    rw [if_neg hnot] at he
    cases he
  · intro hle
    exact ⟨_, if_pos hle⟩

/-- A chain whose last path name fits the buffer is shallow. -/
theorem shallow_chain {names : Path} (hname : ValidName name) (hnames : ∀ other ∈ names, ValidName other)
    (hlen : ('/' :: name ++ pathText names).length < pathSize) :
    Shallow (chain (name :: names)) ('/' :: name) [name] := by
  have hvalid : ∀ other ∈ name :: names, ValidName other := List.forall_mem_cons.mpr ⟨hname, hnames⟩
  intro below other _ _ hother
  rw [mem_names_chain hvalid] at hother
  obtain ⟨rest, hrest⟩ : below ++ [other] <+: names := by simpa using hother
  subst hrest
  rw [List.nil_append, cutName_of_le]
  · exact hnames other (by simp)
  · simp only [pathText_append, pathText_singleton, List.length_append, List.length_cons] at hlen ⊢
    omega

/-! ### The removal of a tree -/

/-- **The removal of a tree** does what it should exactly if the tree is shallow: of each name that is joined to
the path name of its directory, a proper name is left. -/
theorem removesTree_iff (hleads : Leads fs temp top) (hexists : (fs.entry top).isSome = true)
    (hlen : temp.length < pathSize) : RemovesTree fs temp top ↔ Shallow fs temp top := by
  refine ⟨shallow_of_removesTree hleads hlen, fun hshallow host w hfs => ?_⟩
  subst hfs
  exact ⟨maxLevels, removeWithin_shallow host hleads hexists hlen hshallow⟩

/-- A directory inside another is removed. -/
theorem removesTree_small : RemovesTree (chain ["t".toList, "d".toList]) "/t".toList ["t".toList] := by
  have hvalid : ∀ other ∈ ["d".toList], ValidName other := by
    intro other hother
    rw [List.mem_singleton.mp hother]
    decide
  exact (removesTree_iff (leads_chain (by decide) hvalid) (by decide) (by decide)).mpr
    (shallow_chain (by decide) hvalid (by decide))

/-- Names below a directory with the path name `/t`, down to a path name of 4094 bytes. -/
def deepNames : Path := List.replicate 15 (List.replicate 255 'a') ++ [List.replicate 251 'a']

/-- The directories of these names, and one more in the last. -/
def deepTree : FileSystem := chain ("t".toList :: (deepNames ++ ["x".toList]))

theorem validName_replicate {n : ℕ} (hn : n ≠ 0) : ValidName (List.replicate n 'a') := by
  have hmem : ∀ {c}, c ∈ List.replicate n 'a' → c = 'a' := List.eq_of_mem_replicate
  refine ⟨by simpa using hn, fun h => absurd (hmem h) (by decide), fun h => ?_, fun h => ?_⟩
  all_goals
    have hdot : '.' ∈ List.replicate n 'a' := h ▸ List.mem_cons_self
    exact absurd (hmem hdot) (by decide)

theorem length_pathText_deepNames : (pathText deepNames).length = 4092 := by
  rw [deepNames, pathText, List.length_flatMap]
  simp only [List.map_append, List.map_replicate, List.map_singleton, List.length_cons, List.length_replicate,
    List.sum_append, List.sum_replicate_nat, List.sum_singleton]

/-- The directories that a test command leaves are not removed where a path name has 4094 bytes. -/
theorem deepTree_not_removed : Leads deepTree "/t".toList ["t".toList] ∧
    (deepTree.entry ["t".toList]).isSome = true ∧ ¬RemovesTree deepTree "/t".toList ["t".toList] := by
  have hnames : ∀ name ∈ deepNames ++ ["x".toList], ValidName name := by
    intro name hname
    simp only [deepNames, List.mem_append, List.mem_replicate, List.mem_singleton] at hname
    rcases hname with (⟨-, rfl⟩ | rfl) | rfl
    · exact validName_replicate (by decide)
    · exact validName_replicate (by decide)
    · decide
  have hvalid : ∀ name ∈ "t".toList :: (deepNames ++ ["x".toList]), ValidName name :=
    List.forall_mem_cons.mpr ⟨by decide, hnames⟩
  have hentry : ∀ q, q <+: "t".toList :: (deepNames ++ ["x".toList]) →
      deepTree.entry q = some (.directory 0o755) := fun q hq => (entry_chain hvalid q).trans (if_pos hq)
  have hleads : Leads deepTree "/t".toList ["t".toList] := leads_chain (by decide) hnames
  refine ⟨hleads, ?_, fun hremoves => ?_⟩
  · rw [hentry _ (List.cons_prefix_cons.mpr ⟨rfl, List.nil_prefix⟩)]
    rfl
  · have hshallow := shallow_of_removesTree hleads (by decide) hremoves
    have hdir : deepTree.isDirectory (["t".toList] ++ ([] ++ deepNames)) = true :=
      deepTree.isDirectory_iff.mpr ⟨_, hentry _ (by simp)⟩
    have hmem : "x".toList ∈ deepTree.names (["t".toList] ++ ([] ++ deepNames)) :=
      (mem_names_chain hvalid).mpr (by simp)
    have hlength : ("/t".toList ++ pathText ([] ++ deepNames)).length = 4094 := by
      rw [List.nil_append, List.length_append, length_pathText_deepNames]
      rfl
    refine (hshallow deepNames "x".toList hdir (hlength ▸ by decide) hmem).ne_nil ?_
    rw [cutName, hlength]
    rfl

end P101Test.Mutation
