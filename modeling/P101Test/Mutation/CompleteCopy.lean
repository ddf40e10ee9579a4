import P101Test.Mutation.CopySpec
import P101Test.Mutation.Ending

/-!
# A copy that is granted every call

A host that grants every call, and moves at least one byte with each transfer, lets the copy of a project
succeed: each read is followed by as many writes as it takes, each file is written to its end, and each
directory is made before what it holds. So the copy fails only where a call fails or a path name does not fit.

## Main definitions

* `Host.Grants`: every call succeeds, and every transfer moves something.
* `EntriesFree`: what the loop over a directory stream needs of the destination.

## Main results

* `call_granted`, `attempt_granted`: a call and an attempt that are granted.
* `writeAll_granted`, `copyLoop_granted`: partial transfers come to an end.
* `copyEntries_granted`, `copyLevels_granted`: the copy of a directory and of a tree succeeds.
-/

namespace P101Test.Mutation

open FileSystem Stdio

/-- Every call succeeds, and every transfer moves at least one byte. -/
structure Host.Grants (host : Host) : Prop where
  calls : ∀ k, host.failure k = none
  moves : ∀ k, 0 < host.transfer k

variable {host : Host} {w w' : World} {src dst : Path} {source destination : Text} {result : Bool}

/-! ### Calls that are granted -/

theorem call_granted {α : Type} {c : Call α} {a : α} {fs : FileSystem} (hgrants : host.Grants)
    (h : c w.fs = .ok (a, fs)) : call host c w = (some a, { w.tick with fs := fs }) := by
  rw [call, hgrants.calls]
  dsimp only
  rw [h]

theorem attempt_granted (hgrants : host.Grants) (w : World) : attempt host w = (true, w.tick) := by
  rw [attempt, hgrants.calls]

theorem call_of_ok {α : Type} {c : Call α} {a : Option α} (hgrants : host.Grants)
    (hok : ∃ b fs, c w.fs = .ok (b, fs)) (h : call host c w = (a, w')) :
    ∃ b, a = some b ∧ c w.fs = .ok (b, w'.fs) ∧ w'.err = w.err := by
  obtain ⟨b, fs, hc⟩ := hok
  obtain ⟨rfl, rfl⟩ := Prod.mk.inj ((call_granted hgrants hc).symm.trans h)
  exact ⟨b, rfl, hc, rfl⟩

section Calls

variable {fs : FileSystem} {p : Path} {text : Text} {mode : ℕ} {bytes : Text} {e : Entry} {cwd : Path}

theorem exists_lstat (hloc : fs.locate cwd false text = some p) (he : fs.entry p = some e) :
    ∃ e' fs', lstat cwd text fs = .ok (e', fs') := by
  refine ⟨e, fs, ?_⟩
  rw [lstat, hloc]
  dsimp only
  rw [he]

theorem exists_make (hloc : fs.locate cwd false text = some p) (hvacant : fs.Vacant p) (hshort : e.Short) :
    ∃ u fs', make cwd text e fs = .ok (u, fs') := by
  refine ⟨(), fs.create p e hvacant hshort, ?_⟩
  rw [make, hloc]
  dsimp only
  rw [if_neg (by simp [hvacant.1]), dif_pos ⟨hvacant, hshort⟩]

theorem exists_opendir (hloc : fs.locate cwd true text = some p) (hdir : fs.isDirectory p = true) :
    ∃ names fs', opendir cwd text fs = .ok (names, fs') := by
  refine ⟨".".toList :: "..".toList :: fs.names p, fs, ?_⟩
  rw [opendir, hloc]
  exact if_pos hdir

theorem exists_readlink {target : Text} (size : ℕ) (hloc : fs.locate cwd false text = some p)
    (he : fs.entry p = some (.link target)) : ∃ out fs', readlink cwd text size fs = .ok (out, fs') := by
  refine ⟨target.take size, fs, ?_⟩
  rw [readlink, hloc]
  dsimp only
  rw [he]

theorem exists_openRead (hloc : fs.locate cwd true text = some p)
    (he : fs.entry p = some (.regular mode bytes)) :
    ∃ q fs', openRead cwd text fs = .ok (q, fs') := by
  refine ⟨p, fs, ?_⟩
  rw [openRead, hloc]
  exact if_pos (isRegular_iff.mpr ⟨mode, bytes, he⟩)

/-- A file that is missing is created, and one that is there is emptied. -/
theorem exists_openWrite (hloc : fs.locate cwd true text = some p)
    (h : fs.Vacant p ∨ ∃ mode bytes, fs.entry p = some (.regular mode bytes)) (mode : ℕ) :
    ∃ q fs', openWrite cwd text mode fs = .ok (q, fs') := by
  rcases h with hvacant | ⟨mode', bytes, he⟩
  · refine ⟨p, fs.create p (.regular mode []) hvacant (Entry.short_regular mode []), ?_⟩
    rw [openWrite, hloc]
    dsimp only
    rw [hvacant.1]
    exact dif_pos hvacant
  · have hregular : fs.isRegular p = true := isRegular_iff.mpr ⟨mode', bytes, he⟩
    refine ⟨p, fs.rewrite p mode' [] hregular, ?_⟩
    rw [openWrite, hloc]
    dsimp only
    rw [he]
    exact dif_pos hregular

theorem exists_readAt (he : fs.entry p = some (.regular mode bytes)) (offset count : ℕ) :
    ∃ out fs', readAt p offset count fs = .ok (out, fs') := by
  refine ⟨(bytes.drop offset).take count, fs, ?_⟩
  rw [readAt, he]

theorem exists_append (he : fs.entry p = some (.regular mode bytes)) (data : Text) :
    ∃ u fs', append p data fs = .ok (u, fs') := by
  have hregular : fs.isRegular p = true := isRegular_iff.mpr ⟨mode, bytes, he⟩
  refine ⟨(), fs.rewrite p mode (bytes ++ data) hregular, ?_⟩
  rw [append, he]
  exact dif_pos hregular

end Calls

/-! ### One file -/

theorem write_granted {output : Path} {c : Char} {data : Text} {accepted : Option ℕ} {mode : ℕ} {bytes : Text}
    (hgrants : host.Grants) (hout : w.fs.entry output = some (.regular mode bytes))
    (h : write host output (c :: data) w = (accepted, w')) :
    ∃ n, accepted = some (n + 1) ∧ n + 1 ≤ (c :: data).length ∧ w'.err = w.err ∧
      w.fs.UpdatedAt w'.fs output (some (.regular mode (bytes ++ (c :: data).take (n + 1)))) := by
  obtain ⟨n, hn⟩ : ∃ n, min (c :: data).length (host.transfer w.calls) = n + 1 := by
    have hmoves := hgrants.moves w.calls
    exact ⟨min (c :: data).length (host.transfer w.calls) - 1, by simp only [List.length_cons]; omega⟩
  rcases write_spec h hout with ⟨rfl, -⟩ | ⟨n', rfl, -, hup⟩
  all_goals
    unfold write at h
    simp only [hn] at h
    rcases hcall : call host (append output ((c :: data).take (n + 1))) w with ⟨a, w₁⟩
    obtain ⟨u, rfl, -, herr⟩ := call_of_ok hgrants (exists_append hout _) hcall
    simp only [hcall] at h
    obtain ⟨haccepted, rfl⟩ := Prod.mk.inj h
  · cases haccepted
  · obtain rfl := Option.some.inj haccepted
    exact ⟨n, rfl, hn ▸ Nat.min_le_left _ _, herr, hup⟩

/-- The inner loop writes everything. -/
theorem writeAll_granted {output : Path} {rounds : ℕ} {data : Text} {mode : ℕ} {bytes : Text}
    (hgrants : host.Grants) (hout : w.fs.entry output = some (.regular mode bytes))
    (hrounds : data.length ≤ rounds) (h : writeAll host output rounds data w = (result, w')) :
    result = true ∧ w'.err = w.err := by
  induction rounds generalizing data w bytes with
  | zero =>
      obtain rfl := List.eq_nil_of_length_eq_zero (Nat.le_zero.mp hrounds)
      obtain ⟨rfl, rfl⟩ := Prod.mk.inj h
      exact ⟨rfl, rfl⟩
  | succ rounds ih =>
      cases data with
      | nil =>
          obtain ⟨rfl, rfl⟩ := Prod.mk.inj h
          exact ⟨rfl, rfl⟩
      | cons c data =>
          rcases hwrite : write host output (c :: data) w with ⟨accepted, w₁⟩
          obtain ⟨n, rfl, -, herr, hup⟩ := write_granted hgrants hout hwrite
          simp only [writeAll, hwrite] at h
          rw [← herr]
          refine ih hup.same ?_ h
          rw [List.length_drop]
          omega

/-- **The copy loop** reaches the end of its input. -/
theorem copyLoop_granted {input output : Path} {rounds offset : ℕ} {mode mode' : ℕ} {bytes content : Text}
    (hgrants : host.Grants) (hclean : w.err = none) (hin : w.fs.entry input = some (.regular mode' content))
    (hne : input ≠ output) (hout : w.fs.entry output = some (.regular mode bytes))
    (hoffset : offset ≤ content.length) (hrounds : content.length < offset + rounds)
    (h : copyLoop host input output rounds offset w = (result, w')) : result = true ∧ w'.err = none := by
  induction rounds generalizing offset w bytes with
  | zero => omega
  | succ rounds ih =>
      rcases hread : read host input offset w with ⟨data, w₁⟩
      obtain ⟨data, rfl, hreadAt, herr⟩ := call_of_ok hgrants (exists_readAt hin _ _) hread
      obtain ⟨hfs, mode'', content', hin', hdata⟩ := readAt_eq_ok hreadAt
      obtain ⟨-, rfl⟩ : mode' = mode'' ∧ content = content' := by simpa [hin] using hin'
      rw [hclean] at herr
      have hnoError : w₁.hasError = false := World.hasError_eq_false_iff.mpr herr
      rw [← hfs] at hin hout
      cases data with
      | nil =>
          simp only [copyLoop, hread, hnoError] at h
          obtain ⟨rfl, rfl⟩ := Prod.mk.inj h
          exact ⟨rfl, herr⟩
      | cons c data =>
          simp only [copyLoop, hread, hnoError, Bool.false_eq_true, if_false] at h
          rcases hwrite : writeAll host output (c :: data).length (c :: data) w₁ with ⟨written, w₂⟩
          obtain ⟨rfl, herr₂⟩ := writeAll_granted hgrants hout le_rfl hwrite
          obtain ⟨bytes', hup, -⟩ := writeAll_spec hwrite hout
          simp only [hwrite] at h
          have hlength : (c :: data).length ≤ content.length - offset := by
            rw [hdata, List.length_take, List.length_drop]
            omega
          refine ih (herr₂.trans herr) (by rw [hup.other hne, hin]) hup.same ?_ ?_ h
          · omega
          · simp only [List.length_cons] at hlength ⊢
            omega

/-- A file is copied to a free location. -/
theorem copyFile_granted {mode mode' : ℕ} {content : Text} (hgrants : host.Grants) (hclean : w.err = none)
    (hs : w.fs.At source src) (hd : w.fs.At destination dst) (hslen : source.length < pathMax)
    (hdlen : destination.length < pathMax) (hsrc : w.fs.entry src = some (.regular mode' content))
    (hdst : w.fs.Vacant dst) (h : copyFile host source destination mode w = (result, w')) :
    result = true ∧ w'.err = none := by
  have hne : src ≠ dst := by
    rintro rfl
    simp [hdst.1] at hsrc
  have hsloc := hs.locate_follow hslen (by simp [hsrc]) host.cwd
  have hdloc := hd.locate_follow hdlen (by simp [hdst.1]) host.cwd
  rcases hopen : call host (openRead host.cwd source) w with ⟨input, w₁⟩
  obtain ⟨input, rfl, hopened, herr₁⟩ := call_of_ok hgrants (exists_openRead hsloc hsrc) hopen
  obtain ⟨hfs, hloc, -⟩ := openRead_eq_ok hopened
  obtain rfl := Option.some.inj (hsloc.symm.trans hloc)
  rw [← hfs] at hsrc hdst hdloc
  rcases hcreate : call host (openWrite host.cwd destination (createdMode host mode)) w₁ with ⟨output, w₂⟩
  obtain ⟨output, rfl, hcreated, herr₂⟩ :=
    call_of_ok hgrants (exists_openWrite hdloc (.inl hdst) _) hcreate
  obtain ⟨hloc', hcases⟩ := openWrite_eq_ok hcreated
  obtain rfl := Option.some.inj (hdloc.symm.trans hloc')
  obtain ⟨-, hup⟩ := hcases.resolve_right fun ⟨_, _, hexists, _⟩ => by simp [hdst.1] at hexists
  simp only [copyFile, hopen, hcreate] at h
  have hin : w₂.fs.entry src = some (.regular mode' content) := by rw [hup.other hne, hsrc]
  refine copyLoop_granted hgrants (herr₂.trans (herr₁.trans hclean)) hin hne hup.same (Nat.zero_le _) ?_ h
  rw [fileSize, hin]
  dsimp only
  omega

/-- A symbolic link is copied to a free location. -/
theorem copyLink_granted {target : Text} (hgrants : host.Grants)
    (hready : CopyReady w.fs source destination src dst) (hdst : w.fs.Vacant dst)
    (hsrc : w.fs.entry src = some (.link target)) (h : copyLink host source destination w = (result, w')) :
    result = true ∧ w'.err = w.err := by
  have hsloc := hready.source_at.locate hready.length_source host.cwd
  rcases hread : call host (readlink host.cwd source (pathSize - 1)) w with ⟨text, w₁⟩
  obtain ⟨text, rfl, hreadlink, herr₁⟩ := call_of_ok hgrants (exists_readlink _ hsloc hsrc) hread
  obtain ⟨hfs, p, target', hp, htarget, rfl⟩ := readlink_eq_ok hreadlink
  have hshort : (Entry.link (target'.take (pathSize - 1))).Short := by
    show (target'.take (pathSize - 1)).length < pathMax
    rw [List.length_take]
    have hsize : pathSize - 1 < pathMax := by decide
    omega
  rw [← hfs] at hready hdst
  have hdloc := hready.destination_at.locate hready.length_destination host.cwd
  rcases hmake : call host (symlink host.cwd (target'.take (pathSize - 1)) destination) w₁ with ⟨made, w₂⟩
  obtain ⟨u, rfl, -, herr₂⟩ := call_of_ok hgrants (exists_make hdloc hdst hshort) hmake
  simp only [copyLink, hread, hmake] at h
  obtain ⟨rfl, rfl⟩ := Prod.mk.inj h
  exact ⟨rfl, herr₂.trans herr₁⟩

/-! ### One directory -/

/-- What the loop over a directory stream needs of the destination: a directory in which the remaining names
are free, with nothing changed elsewhere. -/
structure EntriesFree (fs fs' : FileSystem) (dst : Path) (remaining : List Text) : Prop where
  under : fs.ChangesUnder fs' dst
  directory : fs'.isDirectory dst = true
  free : ∀ name ∈ remaining, fs'.entry (dst ++ [name]) = none

/-- A copy below one name leaves the others free. -/
theorem EntriesFree.step {fs fs' fs'' : FileSystem} {name : Text} {rest : List Text}
    (h : EntriesFree fs fs' dst (name :: rest)) (hname : name ∉ rest)
    (hunder : fs'.ChangesUnder fs'' (dst ++ [name])) : EntriesFree fs fs'' dst rest where
  under := h.under.trans (hunder.mono (List.prefix_append _ _))
  directory := by
    obtain ⟨mode, hmode⟩ := fs'.isDirectory_iff.mp h.directory
    refine fs''.isDirectory_iff.mpr ⟨mode, ?_⟩
    rw [hunder dst, hmode]
    intro hle
    have hlength := hle.length_le
    simp at hlength
  free other hother := by
    rw [hunder, h.free other (List.mem_cons_of_mem _ hother)]
    rw [List.prefix_append_right_inj, List.cons_prefix_cons]
    rintro ⟨rfl, -⟩
    exact hname hother

/-- What is known of the copy of an entry, with a longer path name than that of its directory. -/
def CopiesChild (host : Host) (source : Text) (copyChild : Text → Text → World → Bool × World) : Prop :=
  ∀ {s d src dst w result w'}, source.length < s.length → CopyReady w.fs s d src dst → w.fs.Vacant dst →
    w.err = none → copyChild s d w = (result, w') →
    result = true ∧ w'.err = none ∧ CopyDone host w.fs w'.fs src dst result

/-- **One directory.** The copies of its entries succeed one after the other. -/
theorem copyEntries_granted {copyChild : Text → Text → World → Bool × World} (hgrants : host.Grants)
    (hchild : CopiesChild host source copyChild) {fs : FileSystem}
    (hready : CopyReady fs source destination src dst) (hvalid : ∀ name ∈ dst, ValidName name)
    (hsrc : fs.isDirectory src = true) {names : List Text}
    (h : copyEntries host copyChild source destination names w = (result, w')) (hclean : w.err = none)
    (hfree : EntriesFree fs w.fs dst names) (hnodup : names.Nodup)
    (hlisted : ∀ name ∈ names, name = ".".toList ∨ name = "..".toList ∨
      (fs.entry (src ++ [name])).isSome = true) : result = true ∧ w'.err = none := by
  have hattempt := attempt_granted hgrants
  induction names generalizing w with
  | nil =>
      rw [copyEntries, hattempt] at h
      obtain ⟨rfl, rfl⟩ := Prod.mk.inj h
      exact ⟨rfl, hclean⟩
  | cons name rest ih =>
      obtain ⟨hname, hnodup⟩ := List.nodup_cons.mp hnodup
      obtain ⟨hhead, hrest⟩ := List.forall_mem_cons.mp hlisted
      have hnoError : w.tick.hasError = false := World.hasError_eq_false_iff.mpr hclean
      simp only [copyEntries, hattempt, hnoError, Bool.false_eq_true, if_false] at h
      split at h
      · exact ih h hclean ⟨hfree.under, hfree.directory,
          fun other hother => hfree.free other (List.mem_cons_of_mem _ hother)⟩ hnodup hrest
      next hkeep =>
      simp only [not_or, Bool.not_eq_true] at hkeep
      have hpresent := (hhead.resolve_left hkeep.1).resolve_left hkeep.2.1
      have hvacant := hfree.free name List.mem_cons_self
      have hready' := hready.child hfree.under hfree.directory hsrc hpresent hkeep.2.2 hvacant
      obtain ⟨e, he⟩ := Option.isSome_iff_exists.mp hpresent
      have hlonger : source.length < (childPath source name).length := by
        have hfits := (hready.fits [name] (by simp [hkeep.2.2]) hpresent).1
        rw [pathText_singleton] at hfits
        rw [childPath, cut_of_lt hfits, List.length_append, List.length_cons]
        omega
      have hplace : w.tick.fs.Vacant (dst ++ [name]) := by
        refine ⟨hvacant, fun other hother => ?_, by rw [List.dropLast_concat]; exact hfree.directory⟩
        rcases List.mem_append.mp hother with hother | hother
        · exact hvalid other hother
        · exact List.mem_singleton.mp hother ▸ valid_of_entry he name (by simp)
      rcases hcall : copyChild (childPath source name) (childPath destination name) w.tick with ⟨copied, w₂⟩
      obtain ⟨rfl, herr, hdone⟩ := hchild (w := w.tick) hlonger hready' hplace hclean hcall
      simp only [hcall] at h
      exact ih h herr (hfree.step hname hdone.1) hnodup hrest

/-- The branch for a directory; an error on record is cleared. -/
theorem copyDirectory_granted {copyChild : Text → Text → World → Bool × World} (hgrants : host.Grants)
    (hchild : CopiesChild host source copyChild) (hready : CopyReady w.fs source destination src dst)
    (hdst : w.fs.Vacant dst) {mode : ℕ} (hsrc : w.fs.entry src = some (.directory mode))
    (h : copyDirectory host copyChild source destination mode w = (result, w')) :
    result = true ∧ w'.err = none := by
  have hloc := hready.destination_at.locate hready.length_destination host.cwd
  have hdir : w.fs.isDirectory src = true := w.fs.isDirectory_iff.mpr ⟨mode, hsrc⟩
  simp only [copyDirectory, World.ite_hasError_reset] at h
  rcases hmake : call host (mkdir host.cwd destination (createdMode host mode)) w with ⟨made, w₁⟩
  have hshort : (Entry.directory (createdMode host mode)).Short := trivial
  obtain ⟨u, rfl, hmade, -⟩ := call_of_ok hgrants (exists_make hloc hdst hshort) hmake
  obtain ⟨p, hp, -, hup⟩ := make_eq_ok hmade
  obtain rfl := Option.some.inj (hloc.symm.trans hp)
  have hunder : w.fs.ChangesUnder w₁.fs dst := hup.changesUnder List.prefix_rfl
  have hgrow := hunder.growsTo hready.vacant
  have hsloc := (hready.source_at.mono hgrow).locate_directory (hgrow.isDirectory hdir) hready.length_source
    host.cwd true
  simp only [hmake, Option.isNone_some, Bool.false_eq_true, false_and, if_false] at h
  rcases hopen : call host (opendir host.cwd source) w₁.reset with ⟨names, w₂⟩
  obtain ⟨names, rfl, hopened, herr⟩ := call_of_ok (w := w₁.reset) hgrants
    (exists_opendir hsloc (hgrow.isDirectory hdir)) hopen
  obtain ⟨hfs, q, hq, -, hnames⟩ := opendir_eq_ok hopened
  rw [World.reset_fs] at hfs hq hnames
  obtain rfl := Option.some.inj (hsloc.symm.trans hq)
  rcases hentries : copyEntries host copyChild source destination names w₂ with ⟨result', w₃⟩
  simp only [hopen, hentries] at h
  have hfree : EntriesFree w.fs w₂.fs dst names := by
    rw [hfs]
    refine ⟨hunder, w₁.fs.isDirectory_iff.mpr ⟨_, hup.same⟩, fun name _ => ?_⟩
    rw [hup.other (by simp), entry_append_eq_none hready.vacant]
  obtain ⟨rfl, herr₃⟩ := copyEntries_granted hgrants hchild hready hdst.2.1 hdir hentries herr hfree
    (hnames ▸ nodup_listing _ _) fun name hname => by
      rw [hnames, List.mem_cons, List.mem_cons, mem_names] at hname
      rw [← hready.entry_eq hunder, Option.isSome_iff_exists]
      exact hname
  rw [if_neg (by simp [World.hasError, herr₃])] at h
  obtain ⟨rfl, rfl⟩ := Prod.mk.inj h
  exact ⟨rfl, herr₃⟩

/-! ### The whole tree -/

theorem copyLevels_granted {levels : ℕ} (hgrants : host.Grants)
    (hready : CopyReady w.fs source destination src dst) (hdst : w.fs.Vacant dst)
    (hclean : w.err = none ∨ w.fs.isDirectory src = true) (hlevels : pathSize ≤ source.length + levels)
    (h : copyLevels host levels source destination w = (result, w')) : result = true ∧ w'.err = none := by
  induction levels generalizing source destination src dst w result w' with
  | zero => exact absurd hready.length_source (Nat.not_lt.mpr hlevels)
  | succ levels ih =>
      obtain ⟨e, he⟩ := Option.isSome_iff_exists.mp hready.present
      have hloc := hready.source_at.locate hready.length_source host.cwd
      rcases hstat : call host (lstat host.cwd source) w with ⟨e', w₁⟩
      obtain ⟨e', rfl, hstatted, herr⟩ := call_of_ok hgrants (exists_lstat hloc he) hstat
      obtain ⟨hfs, p, hp, he'⟩ := lstat_eq_ok hstatted
      obtain rfl := Option.some.inj (hloc.symm.trans hp)
      rw [← hfs] at hready hdst hclean he'
      rw [← herr] at hclean
      have hleaf : (∀ mode, e' ≠ .directory mode) → w₁.err = none := fun hnot =>
        hclean.resolve_right fun hdir => by
          obtain ⟨mode, hmode⟩ := w₁.fs.isDirectory_iff.mp hdir
          exact hnot mode (Option.some.inj (he'.symm.trans hmode))
      have hchild : CopiesChild host source (copyLevels host levels) := by
        intro s d src dst w result w' hlonger hready hdst hclean hcopy
        obtain ⟨hresult, herr⟩ := ih hready hdst (.inl hclean) (by omega) hcopy
        exact ⟨hresult, herr, copyLevels_spec hready hcopy⟩
      simp only [copyLevels, hstat] at h
      cases e' with
      | directory mode => exact copyDirectory_granted hgrants hchild hready hdst he' h
      | regular mode bytes =>
          exact copyFile_granted hgrants (hleaf (by simp)) hready.source_at hready.destination_at
            hready.length_source hready.length_destination he' hdst h
      | link target =>
          obtain ⟨hresult, herr'⟩ := copyLink_granted hgrants hready hdst he' h
          exact ⟨hresult, herr'.trans (hleaf (by simp))⟩
      | special =>
          obtain ⟨rfl, rfl⟩ := Prod.mk.inj h
          exact ⟨rfl, hleaf (by simp)⟩

end P101Test.Mutation
