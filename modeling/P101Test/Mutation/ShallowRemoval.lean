import P101Test.Mutation.RemovalRun

/-!
# The removal of shallow trees

In a shallow tree each path name that the removal forms spells the way from the top. A run therefore ends,
stays inside, and reports whether the tree is gone: an entry is unlinked, and a directory is removed after its
entries, where a name that did not fit the buffer or an entry that was not removed keeps it.

## Main definitions

* `Contained`, `Settled`: what a call may do, and what a run does.
* `EntriesSettled`, `FailureKeeps`: what the run over the entries of a directory does, and when it reports a
  failure.

## Main results

* `removeWithin_settled`: a run in a shallow tree stays inside and reports what it did.
* `exists_removeWithin`: a run in a shallow tree ends.
* `removeTree_shallow`: the removal of a shallow tree.
-/

namespace P101Test.Mutation

open FileSystem Stdio

/-- A call acts inside: its path name denotes a location at or below the top and spells the way from there,
on which there are only directories; and only a directory is opened. -/
def Contained (temp : Text) (top : Path) (act : Act) : Prop :=
  ∃ rel, act.path = temp ++ pathText rel ∧ act.fs.At act.path (top ++ rel) ∧
    (∀ a b, rel = a ++ b → b ≠ [] → act.fs.isDirectory (top ++ a) = true) ∧
    (act.call = .opendir → act.fs.isDirectory (top ++ rel) = true)

/-- What the removal of a location does: it changes nothing elsewhere and creates nothing, each call acts
inside, and it reports whether what was there is gone. -/
structure Settled (temp : Text) (top rel : Path) (fs : FileSystem) (removal : Removal) : Prop where
  changes : fs.ChangesUnder removal.world.fs (top ++ rel)
  shrinks : removal.world.fs.GrowsTo fs
  acts : ∀ act ∈ removal.acts, Contained temp top act
  gone : removal.removed = true → removal.world.fs.entry (top ++ rel) = none
  kept : removal.removed = false → (fs.entry (top ++ rel)).isSome = true →
    (removal.world.fs.entry (top ++ rel)).isSome = true

variable {host : Host} {temp text name : Text} {top rel : Path} {fs fs' : FileSystem} {w w' : World}
  {names : List Text} {result : Bool} {removal : Removal}

/-- What the removal of an entry changes lies in the directory that holds it. -/
theorem Settled.changes_above {c : Text} (h : Settled temp top (rel ++ [c]) fs removal) :
    fs.ChangesUnder removal.world.fs (top ++ rel) :=
  h.changes.mono (by rw [← List.append_assoc]; exact List.prefix_append _ _)

/-! ### Calls -/

variable {e : Entry}

theorem entry_of_lstat (h : Reached temp top w.fs rel)
    (hstat : callOptional host (lstat host.cwd (temp ++ pathText rel)) w = (some e, w')) :
    w'.fs = w.fs ∧ w.fs.entry (top ++ rel) = some e := by
  obtain ⟨hfs, p, hp, he⟩ := lstat_eq_ok (callOptional_some hstat).1
  obtain rfl := h.denotes.eq_of_locate hp
  exact ⟨hfs, he⟩

theorem names_of_opendir (h : Reached temp top w.fs rel) (hdir : w.fs.isDirectory (top ++ rel) = true)
    (hopen : callOptional host (opendir host.cwd (temp ++ pathText rel)) w = (some names, w')) :
    w'.fs = w.fs ∧ names = ".".toList :: "..".toList :: w.fs.names (top ++ rel) := by
  obtain ⟨hfs, p, hp, -, hnames⟩ := opendir_eq_ok (callOptional_some hopen).1
  have hlocate := h.denotes.locate_directory hdir h.length_lt host.cwd true
  obtain rfl := Option.some.inj (hlocate.symm.trans hp)
  exact ⟨hfs, hnames⟩

theorem updated_of_unlink {u : Unit} (h : Reached temp top w.fs rel)
    (hunlink : callOptional host (unlink host.cwd (temp ++ pathText rel)) w = (some u, w')) :
    w.fs.UpdatedAt w'.fs (top ++ rel) none := by
  obtain ⟨p, e, hp, -, -, hupdated⟩ := unlink_eq_ok (callOptional_some hunlink).1
  obtain rfl := h.denotes.eq_of_locate hp
  exact hupdated

theorem updated_of_rmdir {u : Unit} (h : Reached temp top w.fs rel)
    (hrmdir : callOptional host (rmdir host.cwd (temp ++ pathText rel)) w = (some u, w')) :
    w.fs.names (top ++ rel) = [] ∧ w.fs.UpdatedAt w'.fs (top ++ rel) none := by
  obtain ⟨p, mode, hp, -, hnames, -, hupdated⟩ := rmdir_eq_ok (callOptional_some hrmdir).1
  obtain rfl := h.denotes.eq_of_locate hp
  exact ⟨hnames, hupdated⟩

theorem Reached.contained (h : Reached temp top fs rel) (call : RemovalCall)
    (hdir : call = .opendir → fs.isDirectory (top ++ rel) = true) :
    Contained temp top ⟨call, temp ++ pathText rel, fs⟩ :=
  ⟨rel, rfl, h.denotes, h.directories, hdir⟩

/-! ### Directory streams -/

variable {removeChild : Text → World → Option Removal} {c : Text}

theorem child_prefix_append_iff {a b : Text} {below : Path} :
    top ++ (rel ++ [a]) <+: top ++ (rel ++ [b] ++ below) ↔ a = b := by
  rw [List.prefix_append_right_inj, List.append_assoc, List.prefix_append_right_inj, List.singleton_append,
    List.cons_prefix_cons]
  exact and_iff_left List.nil_prefix

theorem child_prefix_iff {a b : Text} : top ++ (rel ++ [a]) <+: top ++ (rel ++ [b]) ↔ a = b := by
  have h := @child_prefix_append_iff top rel a b []
  rwa [List.append_nil] at h

theorem isDirectory_after (hdir : fs.isDirectory (top ++ rel) = true)
    (hchanges : fs.ChangesUnder fs' (top ++ (rel ++ [c]))) : fs'.isDirectory (top ++ rel) = true := by
  have hnot : ¬top ++ (rel ++ [c]) <+: top ++ rel := by
    intro hle
    have hlength := hle.length_le
    simp at hlength
  obtain ⟨mode, hmode⟩ := fs.isDirectory_iff.mp hdir
  exact fs'.isDirectory_iff.mpr ⟨mode, (hchanges _ hnot).trans hmode⟩

/-- What the removal of the entries of a directory does: it changes nothing that does not lie at or below what
is left of a name, creates nothing, and acts inside. -/
structure EntriesSettled (temp : Text) (top rel : Path) (names : List Text) (fs : FileSystem)
    (removal : Removal) : Prop where
  below : ∀ q, (∀ name ∈ names, ¬top ++ (rel ++ [cutName (temp ++ pathText rel) name]) <+: q) →
    removal.world.fs.entry q = fs.entry q
  shrinks : removal.world.fs.GrowsTo fs
  acts : ∀ act ∈ removal.acts, Contained temp top act

theorem EntriesSettled.idle (hfs : w'.fs = w.fs) :
    EntriesSettled temp top rel names w.fs ⟨result, w', []⟩ where
  below q _ := by rw [hfs]
  shrinks := hfs ▸ GrowsTo.refl _
  acts act hact := by cases hact

theorem EntriesSettled.changes (h : EntriesSettled temp top rel names fs removal) :
    fs.ChangesUnder removal.world.fs (top ++ rel) := by
  intro q hq
  refine h.below q fun name _ hle => hq (.trans ?_ hle)
  rw [← List.append_assoc]
  exact List.prefix_append _ _

theorem EntriesSettled.cons {child others : Removal}
    (hsettled : Settled temp top (rel ++ [cutName (temp ++ pathText rel) name]) fs child)
    (hentries : EntriesSettled temp top rel names child.world.fs others) :
    EntriesSettled temp top rel (name :: names) fs
      ⟨others.removed, others.world, child.acts ++ others.acts⟩ where
  below q hq := by
    have hrest := hentries.below q fun other hother => hq other (List.mem_cons_of_mem _ hother)
    exact hrest.trans (hsettled.changes q (hq name List.mem_cons_self))
  shrinks := hentries.shrinks.trans hsettled.shrinks
  acts act hact := by
    rcases List.mem_append.mp hact with hact | hact
    · exact hsettled.acts act hact
    · exact hentries.acts act hact

/-- When each name fits the buffer, a failure is reported only where one was reported before or an entry is
left. -/
def FailureKeeps (temp : Text) (top rel : Path) (names : List Text) (result : Bool) (fs : FileSystem)
    (removal : Removal) : Prop :=
  (∀ name ∈ names, cutName (temp ++ pathText rel) name = name) → names.Nodup →
    (∀ name ∈ names, (fs.entry (top ++ (rel ++ [name]))).isSome = true) → removal.removed = false →
    result = false ∨ ∃ name ∈ names, (removal.world.fs.entry (top ++ (rel ++ [name]))).isSome = true

/-- The removal of one more entry: if it fails, the entry stays while the others are removed. -/
theorem FailureKeeps.cons {child others : Removal}
    (hsettled : Settled temp top (rel ++ [cutName (temp ++ pathText rel) name]) fs child)
    (hentries : EntriesSettled temp top rel names child.world.fs others)
    (hkeeps : FailureKeeps temp top rel names (result && child.removed) child.world.fs others) :
    FailureKeeps temp top rel (name :: names) result fs
      ⟨others.removed, others.world, child.acts ++ others.acts⟩ := by
  intro hfits hnodup hexists hfails
  obtain ⟨hnotMem, hnodup⟩ := List.nodup_cons.mp hnodup
  obtain ⟨hself, hfits⟩ := List.forall_mem_cons.mp hfits
  obtain ⟨hname, hexists⟩ := List.forall_mem_cons.mp hexists
  rw [hself] at hsettled
  have hapart : ∀ other ∈ names, name ≠ other := fun other hother heq => hnotMem (heq ▸ hother)
  have hrest : ∀ other ∈ names, (child.world.fs.entry (top ++ (rel ++ [other]))).isSome = true := by
    intro other hother
    rw [hsettled.changes _ (mt child_prefix_iff.mp (hapart other hother))]
    exact hexists other hother
  rcases hkeeps hfits hnodup hrest hfails with hresult | ⟨other, hother, hsome⟩
  · rcases Bool.and_eq_false_iff.mp hresult with hresult | hremoved
    · exact .inl hresult
    · refine .inr ⟨name, List.mem_cons_self, ?_⟩
      have hstays : others.world.fs.entry (top ++ (rel ++ [name])) =
          child.world.fs.entry (top ++ (rel ++ [name])) := by
        refine hentries.below _ fun other hother => ?_
        rw [hfits other hother]
        exact mt child_prefix_iff.mp (hapart other hother).symm
      rw [hstays]
      exact hsettled.kept hremoved hname
  · exact .inr ⟨other, List.mem_cons_of_mem _ hother, hsome⟩

/-- The run over the entries of a directory, from what the removal of an entry does. -/
theorem EntriesRun.settled
    (hchild : ∀ c w removal, Reached temp top w.fs (rel ++ [c]) → ShallowBelow w.fs temp top (rel ++ [c]) →
      removeChild (temp ++ pathText (rel ++ [c])) w = some removal →
      Settled temp top (rel ++ [c]) w.fs removal)
    (hreached : Reached temp top w.fs rel) (hdir : w.fs.isDirectory (top ++ rel) = true)
    (hshallow : ShallowBelow w.fs temp top rel)
    (hnames : ∀ name ∈ names, ValidName name ∧ ValidName (cutName (temp ++ pathText rel) name))
    (h : EntriesRun host removeChild (temp ++ pathText rel) names result w removal) :
    EntriesSettled temp top rel names w.fs removal ∧ FailureKeeps temp top rel names result w.fs removal := by
  induction h with
  | done => exact ⟨.idle (attemptOptional_fs host _), fun _ _ _ hfails => .inl hfails⟩
  | stop hread => exact ⟨.idle (fs_of_attemptOptional hread), fun _ _ _ hfails => .inl hfails⟩
  | pass hread hdots h ih =>
      have hname := (hnames _ List.mem_cons_self).1
      exact absurd hdots (not_or.mpr ⟨hname.ne_dot, hname.ne_dotdot⟩)
  | entry hread hdots hremove h ih =>
      have hcut := (hnames _ List.mem_cons_self).2
      rw [childPath_reached hcut] at hremove
      rw [← fs_of_attemptOptional hread] at hreached hdir hshallow ⊢
      have hsettled := hchild _ _ _ (hreached.child hdir hcut) (hshallow.child _) hremove
      obtain ⟨hentries, hkeeps⟩ := ih (hreached.after hsettled.changes_above)
        (isDirectory_after hdir hsettled.changes) (hshallow.shrink hsettled.shrinks)
        (fun other hother => hnames other (List.mem_cons_of_mem _ hother))
      exact ⟨EntriesSettled.cons hsettled hentries, FailureKeeps.cons hsettled hentries hkeeps⟩

/-- A name that does not fit is not what is left of a name. -/
theorem ne_cutName (h : cutName text name ≠ name) (other : Text) : cutName text other ≠ name := by
  intro heq
  refine h (cutName_of_le ?_)
  rw [← heq]
  exact length_cutName_le text other

/-- The run over everything a directory lists reports a failure only if an entry is left. -/
theorem EntriesRun.listing
    (hchild : ∀ c w removal, Reached temp top w.fs (rel ++ [c]) → ShallowBelow w.fs temp top (rel ++ [c]) →
      removeChild (temp ++ pathText (rel ++ [c])) w = some removal →
      Settled temp top (rel ++ [c]) w.fs removal)
    (hreached : Reached temp top w.fs rel) (hdir : w.fs.isDirectory (top ++ rel) = true)
    (hshallow : ShallowBelow w.fs temp top rel)
    (h : EntriesRun host removeChild (temp ++ pathText rel)
      (".".toList :: "..".toList :: w.fs.names (top ++ rel)) true w removal) :
    EntriesSettled temp top rel (w.fs.names (top ++ rel)) w.fs removal ∧
      (removal.removed = false → removal.world.fs.names (top ++ rel) ≠ []) := by
  obtain ⟨w', hfs, rfl | h⟩ := h.of_dots
  · exact ⟨.idle hfs, fun hfails => by cases hfails⟩
  rw [← hfs] at hreached hdir hshallow h ⊢
  obtain ⟨hentries, hleft⟩ := h.settled hchild hreached hdir hshallow (hshallow.listed hreached hdir)
  refine ⟨hentries, fun hfails => ?_⟩
  have hlisted : ∀ name, (removal.world.fs.entry (top ++ (rel ++ [name]))).isSome = true →
      removal.world.fs.names (top ++ rel) ≠ [] := by
    intro name hsome
    obtain ⟨e, he⟩ := Option.isSome_iff_exists.mp hsome
    exact List.ne_nil_of_mem (mem_names.mpr ⟨e, by rw [List.append_assoc, he]⟩)
  have hexists : ∀ name ∈ w'.fs.names (top ++ rel), (w'.fs.entry (top ++ (rel ++ [name]))).isSome = true := by
    intro name hname
    obtain ⟨e, he⟩ := mem_names.mp hname
    rw [← List.append_assoc, he]
    rfl
  by_cases hfits : ∀ name ∈ w'.fs.names (top ++ rel), cutName (temp ++ pathText rel) name = name
  · rcases hleft hfits (w'.fs.nodup_names _) hexists hfails with htrue | ⟨name, -, hsome⟩
    · cases htrue
    · exact hlisted name hsome
  · -- A name that does not fit stays, since no name is cut to it.
    push Not at hfits
    obtain ⟨name, hname, hcut⟩ := hfits
    refine hlisted name ?_
    rw [hentries.below]
    · exact hexists name hname
    · intro other _
      rw [child_prefix_iff]
      exact ne_cutName hcut other

/-! ### Runs in shallow trees -/

theorem Settled.idle {acts : List Act} (hfs : w'.fs = w.fs) (hacts : ∀ act ∈ acts, Contained temp top act) :
    Settled temp top rel w.fs ⟨false, w', acts⟩ where
  changes := .of_eq hfs
  shrinks := hfs ▸ GrowsTo.refl _
  acts := hacts
  gone h := by cases h
  kept _ h := by rwa [hfs]

theorem settled_of_unlink (hreached : Reached temp top w.fs rel) {acts : List Act}
    (hacts : ∀ act ∈ acts, Contained temp top act) :
    Settled temp top rel w.fs
      ⟨(callOptional host (unlink host.cwd (temp ++ pathText rel)) w).1.isSome,
        (callOptional host (unlink host.cwd (temp ++ pathText rel)) w).2, acts⟩ := by
  rcases hunlink : callOptional host (unlink host.cwd (temp ++ pathText rel)) w with ⟨_ | u, w'⟩
  · exact .idle (callOptional_none hunlink).1 hacts
  · have hupdated := updated_of_unlink hreached hunlink
    exact ⟨hupdated.changesUnder List.prefix_rfl, hupdated.growsTo_of_clear, hacts,
      fun _ => hupdated.same, fun h => by cases h⟩

theorem settled_of_rmdir {entries : Removal} {acts : List Act} (hreached : Reached temp top w.fs rel)
    (hentries : EntriesSettled temp top rel (w.fs.names (top ++ rel)) w.fs entries)
    (hleft : entries.removed = false → entries.world.fs.names (top ++ rel) ≠ [])
    (hacts : ∀ act ∈ acts, Contained temp top act) :
    Settled temp top rel w.fs
      ⟨entries.removed && (callOptional host (rmdir host.cwd (temp ++ pathText rel)) entries.world).1.isSome,
        (callOptional host (rmdir host.cwd (temp ++ pathText rel)) entries.world).2, acts⟩ := by
  have hself : ∀ name, ¬top ++ (rel ++ [name]) <+: top ++ rel := by
    intro name hle
    have hlength := hle.length_le
    simp at hlength
  have hstays : entries.world.fs.entry (top ++ rel) = w.fs.entry (top ++ rel) :=
    hentries.below _ fun name _ => hself _
  rcases hrmdir : callOptional host (rmdir host.cwd (temp ++ pathText rel)) entries.world with ⟨_ | u, w'⟩
  · have hfs := (callOptional_none hrmdir).1
    refine ⟨hentries.changes.trans (.of_eq hfs), hfs ▸ hentries.shrinks, hacts, fun h => by simp at h,
      fun _ h => ?_⟩
    rwa [hfs, hstays]
  · obtain ⟨hempty, hupdated⟩ := updated_of_rmdir (hreached.after hentries.changes) hrmdir
    refine ⟨hentries.changes.trans (hupdated.changesUnder List.prefix_rfl),
      hupdated.growsTo_of_clear.trans hentries.shrinks, hacts, fun _ => hupdated.same, fun h => ?_⟩
    exact absurd hempty (hleft (by simpa using h))

/-- **A run in a shallow tree** stays inside and reports whether what was there is gone. -/
theorem removeWithin_settled {levels : ℕ} (hreached : Reached temp top w.fs rel)
    (hshallow : ShallowBelow w.fs temp top rel)
    (h : removeWithin host levels (temp ++ pathText rel) w = some removal) :
    Settled temp top rel w.fs removal := by
  induction levels generalizing rel w removal with
  | zero => cases h
  | succ levels ih =>
      rw [removeWithin_eq_some_iff] at h
      have hlstat := hreached.contained .lstat (by simp)
      cases h with
      | missing hstat => exact .idle (callOptional_none hstat).1 (by simpa using hlstat)
      | leaf hstat he =>
          have hfs := (entry_of_lstat hreached hstat).1
          rw [← hfs] at hreached hlstat ⊢
          have hunlink := hreached.contained .unlink (by simp)
          exact settled_of_unlink hreached (by simp [hlstat, hunlink])
      | closed hstat hopen =>
          obtain ⟨hfs, he⟩ := entry_of_lstat hreached hstat
          rw [← hfs] at hreached hlstat he ⊢
          have hopened := hreached.contained .opendir fun _ => isDirectory_iff _ |>.mpr ⟨_, he⟩
          exact .idle (callOptional_none hopen).1 (by simp [hlstat, hopened])
      | @directory mode w₁ names w₂ entries hstat hopen hentries =>
          obtain ⟨hfs₁, he⟩ := entry_of_lstat hreached hstat
          rw [← hfs₁] at hreached hshallow hlstat he ⊢
          have hdir : w₁.fs.isDirectory (top ++ rel) = true := w₁.fs.isDirectory_iff.mpr ⟨mode, he⟩
          have hopened := hreached.contained .opendir fun _ => hdir
          obtain ⟨hfs₂, rfl⟩ := names_of_opendir hreached hdir hopen
          rw [← hfs₂] at hreached hdir hshallow hlstat hopened hentries ⊢
          obtain ⟨hsettled, hleft⟩ := hentries.listing (fun c w removal => ih) hreached hdir hshallow
          refine settled_of_rmdir hreached hsettled hleft fun act hact => ?_
          have hlast := (hreached.after hsettled.changes).contained .rmdir (by simp)
          rw [List.mem_append, List.mem_append, List.mem_pair, List.mem_singleton] at hact
          rcases hact with ((rfl | rfl) | hact) | rfl
          · exact hlstat
          · exact hopened
          · exact hsettled.acts act hact
          · exact hlast

theorem exists_entriesRun
    (hchild : ∀ c w, Reached temp top w.fs (rel ++ [c]) → ShallowBelow w.fs temp top (rel ++ [c]) →
      ∃ removal, removeChild (temp ++ pathText (rel ++ [c])) w = some removal ∧
        Settled temp top (rel ++ [c]) w.fs removal)
    (hreached : Reached temp top w.fs rel) (hdir : w.fs.isDirectory (top ++ rel) = true)
    (hshallow : ShallowBelow w.fs temp top rel)
    (hnames : ∀ name ∈ names, name = ".".toList ∨ name = "..".toList ∨
      ValidName (cutName (temp ++ pathText rel) name)) :
    ∃ removal, EntriesRun host removeChild (temp ++ pathText rel) names result w removal := by
  induction names generalizing result w with
  | nil => exact ⟨_, .done⟩
  | cons name rest ih =>
      have hrest := fun other hother => hnames other (List.mem_cons_of_mem _ hother)
      rcases hread : attemptOptional host w with ⟨_ | _, w₁⟩
      · exact ⟨_, .stop hread⟩
      rw [← fs_of_attemptOptional hread] at hreached hdir hshallow
      by_cases hdots : name = ".".toList ∨ name = "..".toList
      · obtain ⟨removal, h⟩ := ih hreached hdir hshallow hrest
        exact ⟨removal, .pass hread hdots h⟩
      · have hcut := (or_assoc.mpr (hnames name List.mem_cons_self)).resolve_left hdots
        obtain ⟨child, hremove, hsettled⟩ := hchild _ w₁ (hreached.child hdir hcut) (hshallow.child _)
        rw [← childPath_reached hcut] at hremove
        obtain ⟨others, h⟩ := ih (hreached.after hsettled.changes_above)
          (isDirectory_after hdir hsettled.changes) (hshallow.shrink hsettled.shrinks) hrest
        exact ⟨_, .entry hread hdots hremove h⟩

/-- **A run in a shallow tree ends.** The path name of an entry is longer than that of its directory, and fits
the buffer. -/
theorem exists_removeWithin {levels : ℕ} (hreached : Reached temp top w.fs rel)
    (hshallow : ShallowBelow w.fs temp top rel)
    (hlevels : pathSize ≤ (temp ++ pathText rel).length + levels) :
    ∃ removal, removeWithin host levels (temp ++ pathText rel) w = some removal := by
  induction levels generalizing rel w with
  | zero => exact absurd hreached.length_lt (by omega)
  | succ levels ih =>
      simp only [removeWithin_eq_some_iff]
      rcases hstat : callOptional host (lstat host.cwd (temp ++ pathText rel)) w with ⟨_ | e, w₁⟩
      · exact ⟨_, .missing hstat⟩
      by_cases he : ∀ mode, e ≠ .directory mode
      · exact ⟨_, .leaf hstat he⟩
      push Not at he
      obtain ⟨mode, rfl⟩ := he
      rcases hopen : callOptional host (opendir host.cwd (temp ++ pathText rel)) w₁ with ⟨_ | names, w₂⟩
      · exact ⟨_, .closed hstat hopen⟩
      obtain ⟨hfs₁, he⟩ := entry_of_lstat hreached hstat
      rw [← hfs₁] at hreached hshallow he
      have hdir : w₁.fs.isDirectory (top ++ rel) = true := w₁.fs.isDirectory_iff.mpr ⟨mode, he⟩
      obtain ⟨hfs₂, hnames⟩ := names_of_opendir hreached hdir hopen
      rw [← hfs₂] at hreached hdir hshallow hnames
      have hchild : ∀ c w, Reached temp top w.fs (rel ++ [c]) → ShallowBelow w.fs temp top (rel ++ [c]) →
          ∃ removal, removeWithin host levels (temp ++ pathText (rel ++ [c])) w = some removal ∧
            Settled temp top (rel ++ [c]) w.fs removal := by
        intro c w hc hbelow
        have hlonger : (temp ++ pathText rel).length + 1 ≤ (temp ++ pathText (rel ++ [c])).length := by
          simp only [pathText_append, pathText_singleton, List.length_append, List.length_cons]
          omega
        obtain ⟨removal, hremoval⟩ := ih hc hbelow (by omega)
        exact ⟨removal, hremoval, removeWithin_settled hc hbelow hremoval⟩
      have hcuts : ∀ name ∈ names, name = ".".toList ∨ name = "..".toList ∨
          ValidName (cutName (temp ++ pathText rel) name) := by
        intro name hname
        rw [hnames, List.mem_cons, List.mem_cons] at hname
        exact hname.imp_right fun h => h.imp_right fun h => (hshallow.listed hreached hdir name h).2
      obtain ⟨entries, hentries⟩ := exists_entriesRun hchild hreached hdir hshallow hcuts
      exact ⟨_, .directory hstat hopen hentries⟩

/-! ### The removal of a shallow tree -/

theorem Reached.start (hleads : Leads fs temp top) (hlen : temp.length < pathSize) :
    Reached temp top fs [] where
  leads := hleads
  valid := by simp
  directories a b hab hb := absurd (List.append_eq_nil_iff.mp hab.symm).2 hb
  length_lt := by simpa using hlen

/-- The run at the top of a shallow tree ends, stays inside and reports whether the tree is gone. -/
theorem removeWithin_shallow (host : Host) (hleads : Leads w.fs temp top)
    (hexists : (w.fs.entry top).isSome = true) (hlen : temp.length < pathSize)
    (hshallow : Shallow w.fs temp top) :
    ∃ removal, removeWithin host maxLevels temp w = some removal ∧
      (∀ act ∈ removal.acts, Contained temp top act) ∧ w.fs.ChangesUnder removal.world.fs top ∧
      (removal.removed = true ↔ removal.world.fs.entry top = none) := by
  have hreached := Reached.start hleads hlen
  obtain ⟨removal, hends⟩ : ∃ removal, removeWithin host maxLevels (temp ++ pathText []) w = some removal :=
    exists_removeWithin hreached hshallow (Nat.le_add_left _ _)
  obtain ⟨hchanges, -, hacts, hgone, hkept⟩ := removeWithin_settled hreached hshallow hends
  have hpath : temp ++ pathText [] = temp := List.append_nil temp
  rw [hpath] at hends
  rw [List.append_nil] at hchanges hgone hkept
  refine ⟨removal, hends, hacts, hchanges, hgone, fun hnone => ?_⟩
  by_contra hfails
  have hsome := hkept (Bool.eq_false_iff.mpr hfails) hexists
  rw [hnone] at hsome
  cases hsome

/-- **The removal of a shallow tree** changes nothing elsewhere and reports whether the tree is gone. -/
theorem removeTree_shallow (host : Host) (hleads : Leads w.fs temp top)
    (hexists : (w.fs.entry top).isSome = true) (hlen : temp.length < pathSize)
    (hshallow : Shallow w.fs temp top) :
    w.fs.ChangesUnder (removeTree host temp w).2.fs top ∧
      ((removeTree host temp w).1 = true ↔ (removeTree host temp w).2.fs.entry top = none) := by
  obtain ⟨removal, hends, -, hchanges, hremoved⟩ := removeWithin_shallow host hleads hexists hlen hshallow
  rw [removeTree_of_within hends]
  exact ⟨hchanges, hremoved⟩

end P101Test.Mutation
