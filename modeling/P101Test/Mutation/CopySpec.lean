import P101Test.Mutation.Files

/-!
# What the copy contains

The copy is described location by location, without reference to the traversal: a location whose
path has an ignored name holds nothing, and every other one holds what the source holds there, with
the permissions a new file gets and without special files. A copy that succeeds leaves exactly this
image at a destination that was free; a copy that fails, at whatever call, has still changed nothing
outside its destination.

## Main definitions

* `copyImage`: what the copy puts at a relative location.
* `CopyReady`: the circumstances of a copy.
* `CopyDone`: the image on success, and the frame in every case.

## Main results

* `copyLoop_spec`: the loop over reads and partial writes transfers every byte.
* `copyEntries_spec`: one directory.
* `copyTree_spec`: the whole tree.
-/

namespace P101Test.Mutation

open FileSystem Stdio

variable {host : Host} {w w' : World} {src dst : Path} {source destination : Text}

/-! ### One file -/

/-- A write appends a prefix of its data, or nothing at all. -/
theorem write_spec {output : Path} {data : Text} {accepted : Option ℕ} {mode : ℕ} {bytes : Text}
    (h : write host output data w = (accepted, w'))
    (hout : w.fs.entry output = some (.regular mode bytes)) :
    (accepted = none ∧ w'.fs = w.fs) ∨ ∃ n, accepted = some n ∧ n ≤ data.length ∧
      w.fs.UpdatedAt w'.fs output (some (.regular mode (bytes ++ data.take n))) := by
  unfold write at h
  simp only at h
  split at h
  · next w₁ hcall =>
    obtain ⟨rfl, rfl⟩ := Prod.mk.inj h
    exact .inl ⟨rfl, (call_none hcall).1⟩
  · next u w₁ hcall =>
    obtain ⟨rfl, rfl⟩ := Prod.mk.inj h
    obtain ⟨mode', bytes', hout', hup⟩ := append_eq_ok (call_some hcall).1
    obtain ⟨rfl, rfl⟩ : mode = mode' ∧ bytes = bytes' := by simpa [hout] using hout'
    exact .inr ⟨_, rfl, Nat.min_le_left _ _, hup⟩

/-- The inner loop touches only its output, and has written everything when it says so. -/
theorem writeAll_spec {output : Path} {rounds : ℕ} {data : Text} {result : Bool} {mode : ℕ}
    {bytes : Text} (h : writeAll host output rounds data w = (result, w'))
    (hout : w.fs.entry output = some (.regular mode bytes)) :
    ∃ bytes', w.fs.UpdatedAt w'.fs output (some (.regular mode bytes')) ∧
      (result = true → bytes' = bytes ++ data) := by
  induction rounds generalizing data w bytes with
  | zero =>
      cases data with
      | nil =>
          obtain ⟨rfl, rfl⟩ := Prod.mk.inj h
          exact ⟨bytes, .of_eq rfl hout, by simp⟩
      | cons c data =>
          obtain ⟨rfl, rfl⟩ := Prod.mk.inj h
          exact ⟨bytes, .of_eq rfl hout, by simp⟩
  | succ rounds ih =>
      cases data with
      | nil =>
          obtain ⟨rfl, rfl⟩ := Prod.mk.inj h
          exact ⟨bytes, .of_eq rfl hout, by simp⟩
      | cons c data =>
          rcases hwrite : write host output (c :: data) w with ⟨accepted, w₁⟩
          simp only [writeAll, hwrite] at h
          rcases write_spec hwrite hout with ⟨rfl, hfs⟩ | ⟨n, rfl, -, hup⟩
          · obtain ⟨rfl, rfl⟩ := Prod.mk.inj h
            exact ⟨bytes, .of_eq hfs hout, by simp⟩
          · cases n with
            | zero =>
                obtain ⟨rfl, rfl⟩ := Prod.mk.inj h
                exact ⟨_, hup, by simp⟩
            | succ n =>
                obtain ⟨bytes', hup', hall⟩ := ih h hup.same
                refine ⟨bytes', hup.trans hup', fun hresult => ?_⟩
                rw [hall hresult, List.append_assoc, List.take_append_drop]

private theorem take_append_take_drop (content : Text) (offset n : ℕ) :
    content.take offset ++ (content.drop offset).take n =
      content.take (offset + ((content.drop offset).take n).length) := by
  rw [List.take_add, List.append_cancel_left_eq, List.length_take, List.take_eq_take_iff]
  omega

/-- **The copy loop.** With the part up to the offset written, the loop touches only the output, and
when it succeeds the output is the input. -/
theorem copyLoop_spec {input output : Path} {rounds offset : ℕ} {result : Bool} {mode mode' : ℕ}
    {content : Text} (h : copyLoop host input output rounds offset w = (result, w'))
    (hin : w.fs.entry input = some (.regular mode' content)) (hne : input ≠ output)
    (hout : w.fs.entry output = some (.regular mode (content.take offset))) :
    ∃ bytes, w.fs.UpdatedAt w'.fs output (some (.regular mode bytes)) ∧
      (result = true → bytes = content) := by
  induction rounds generalizing offset w with
  | zero =>
      obtain ⟨rfl, rfl⟩ := Prod.mk.inj h
      exact ⟨_, .of_eq rfl hout, by simp⟩
  | succ rounds ih =>
      rcases hread : read host input offset w with ⟨_ | data, w₁⟩
      · simp only [copyLoop, hread] at h
        obtain ⟨rfl, rfl⟩ := Prod.mk.inj h
        exact ⟨_, .of_eq (call_none hread).1 hout, by simp⟩
      obtain ⟨hfs, mode'', content', hin', hdata⟩ := readAt_eq_ok (call_some hread).1
      obtain ⟨rfl, rfl⟩ : mode' = mode'' ∧ content = content' := by simpa [hin] using hin'
      have hout₁ := hout
      rw [← hfs] at hin hout₁
      cases data with
      | nil =>
          simp only [copyLoop, hread] at h
          obtain ⟨-, rfl⟩ := Prod.mk.inj h
          refine ⟨_, .of_eq hfs hout, fun _ => ?_⟩
          have hdrop : content.drop offset = [] := by
            have := hdata.symm
            rw [List.take_eq_nil_iff] at this
            refine this.resolve_left ?_
            have : 0 < copyBufferSize := by decide
            omega
          simpa using List.drop_eq_nil_iff.mp hdrop
      | cons c data =>
          simp only [copyLoop, hread] at h
          split at h
          · obtain ⟨rfl, rfl⟩ := Prod.mk.inj h
            exact ⟨_, .of_eq hfs hout, by simp⟩
          · rcases hwrite : writeAll host output (c :: data).length (c :: data) w₁ with ⟨_ | _, w₂⟩
            · simp only [hwrite] at h
              obtain ⟨rfl, rfl⟩ := Prod.mk.inj h
              obtain ⟨bytes, hup, -⟩ := writeAll_spec hwrite hout₁
              exact ⟨bytes, hfs ▸ hup, by simp⟩
            · simp only [hwrite] at h
              obtain ⟨bytes, hup, hall⟩ := writeAll_spec hwrite hout₁
              rw [hall rfl, hdata, take_append_take_drop, ← hdata] at hup
              obtain ⟨bytes', hup', hdone⟩ := ih h (by rw [hup.other hne, hin]) hup.same
              exact ⟨bytes', hfs ▸ hup.trans hup', hdone⟩

/-- A file copied to a free location: nothing else changes, and success means equal contents. -/
theorem copyFile_spec {mode mode' : ℕ} {content : Text} {result : Bool}
    (h : copyFile host source destination mode w = (result, w'))
    (hs : w.fs.At source src) (hd : w.fs.At destination dst) (hslen : source.length < pathMax)
    (hdlen : destination.length < pathMax) (hsrc : w.fs.entry src = some (.regular mode' content))
    (hdst : w.fs.entry dst = none) :
    w.fs.ChangesUnder w'.fs dst ∧
      (result = true → w.fs.UpdatedAt w'.fs dst (some (.regular (createdMode host mode) content))) := by
  have hne : src ≠ dst := by
    rintro rfl
    simp [hsrc] at hdst
  rcases hopen : call host (openRead host.cwd source) w with ⟨_ | input, w₁⟩
  · simp only [copyFile, hopen] at h
    obtain ⟨rfl, rfl⟩ := Prod.mk.inj h
    exact ⟨.of_eq (call_none hopen).1, by simp⟩
  obtain ⟨hfs, hloc, -⟩ := openRead_eq_ok (call_some hopen).1
  obtain rfl : src = input :=
    Option.some.inj ((hs.locate_follow hslen (by simp [hsrc]) host.cwd).symm.trans hloc)
  rw [← hfs] at hsrc hdst hd ⊢
  rcases hcreate : call host (openWrite host.cwd destination (createdMode host mode)) w₁ with
    ⟨_ | output, w₂⟩
  · simp only [copyFile, hopen, hcreate] at h
    obtain ⟨rfl, rfl⟩ := Prod.mk.inj h
    exact ⟨.of_eq (call_none hcreate).1, by simp⟩
  simp only [copyFile, hopen, hcreate] at h
  obtain ⟨hloc', hcases⟩ := openWrite_eq_ok (call_some hcreate).1
  obtain rfl : dst = output :=
    Option.some.inj ((hd.locate_follow hdlen (by simp [hdst]) host.cwd).symm.trans hloc')
  rcases hcases with ⟨-, hup⟩ | ⟨mode'', bytes, hexists, -⟩
  · obtain ⟨bytes, hup', hall⟩ :=
      copyLoop_spec h (by rw [hup.other hne, hsrc]) hne (by simpa using hup.same)
    refine ⟨(hup.trans hup').changesUnder List.prefix_rfl, fun hresult => ?_⟩
    rw [← hall hresult]
    exact hup.trans hup'
  · simp [hdst] at hexists

/-! ### The image of a tree -/

/-- What the copy makes of an entry. -/
def copiedEntry (host : Host) : Entry → Option Entry
  | .directory mode => some (.directory (createdMode host mode))
  | .regular mode bytes => some (.regular (createdMode host mode) bytes)
  | .link target => some (.link target)
  | .special => none

/-- What the copy puts at a relative location. -/
def copyImage (host : Host) (fs : FileSystem) (src rel : Path) : Option Entry :=
  if rel.any ignoredName then none else (fs.entry (src ++ rel)).bind (copiedEntry host)

/-- The circumstances of a copy: an existing source, a free destination outside it, and path names
that fit for everything that is to be copied. -/
structure CopyReady (fs : FileSystem) (source destination : Text) (src dst : Path) : Prop where
  source_at : fs.At source src
  destination_at : fs.At destination dst
  present : (fs.entry src).isSome = true
  vacant : fs.entry dst = none
  outside : ¬ src <+: dst
  fits : ∀ rel, rel.any ignoredName = false → (fs.entry (src ++ rel)).isSome = true →
    (source ++ pathText rel).length < pathSize ∧ (destination ++ pathText rel).length < pathSize

/-- The frame of a copy, and the image on success. -/
def CopyDone (host : Host) (fs fs' : FileSystem) (src dst : Path) (result : Bool) : Prop :=
  fs.ChangesUnder fs' dst ∧
    (result = true → ∀ rel, fs'.entry (dst ++ rel) = copyImage host fs src rel)

namespace CopyReady

variable {fs fs' : FileSystem} {name : Text}

/-- Nothing of the source lies under the destination. -/
theorem not_under (h : CopyReady fs source destination src dst) (rel : Path) :
    ¬ dst <+: src ++ rel := by
  intro hprefix
  rcases List.prefix_or_prefix_of_prefix hprefix (List.prefix_append src rel) with hds | hsd
  · obtain ⟨r, rfl⟩ := hds
    simpa [entry_append_eq_none h.vacant r] using h.present
  · exact h.outside hsd

theorem entry_eq (h : CopyReady fs source destination src dst) (hunder : fs.ChangesUnder fs' dst)
    (rel : Path) : fs'.entry (src ++ rel) = fs.entry (src ++ rel) :=
  hunder _ (h.not_under rel)

theorem length_source (h : CopyReady fs source destination src dst) : source.length < pathMax := by
  have hlen := (h.fits [] rfl (by simpa using h.present)).1
  rwa [pathText_nil, List.append_nil] at hlen

theorem length_destination (h : CopyReady fs source destination src dst) :
    destination.length < pathMax := by
  have hlen := (h.fits [] rfl (by simpa using h.present)).2
  rwa [pathText_nil, List.append_nil] at hlen

/-- A listed name that is not ignored is copied in the same circumstances. -/
theorem child (h : CopyReady fs source destination src dst) (hunder : fs.ChangesUnder fs' dst)
    (hdst : fs'.isDirectory dst = true) (hsrc : fs.isDirectory src = true)
    (hpresent : (fs.entry (src ++ [name])).isSome = true) (hname : ignoredName name = false)
    (hvacant : fs'.entry (dst ++ [name]) = none) :
    CopyReady fs' (childPath source name) (childPath destination name) (src ++ [name])
      (dst ++ [name]) := by
  obtain ⟨e, he⟩ := Option.isSome_iff_exists.mp hpresent
  have hvalid : ValidName name := valid_of_entry he name (by simp)
  have hgrow := hunder.growsTo h.vacant
  obtain ⟨hslen, hdlen⟩ := h.fits [name] (by simp [hname]) hpresent
  rw [pathText_singleton] at hslen hdlen
  have hs : childPath source name = source ++ '/' :: name := cut_of_lt hslen
  have hd : childPath destination name = destination ++ '/' :: name := cut_of_lt hdlen
  rw [hs, hd]
  refine ⟨(h.source_at.mono hgrow).child (hgrow.isDirectory hsrc) hvalid,
    (h.destination_at.mono hgrow).child hdst hvalid, ?_, hvacant, ?_, ?_⟩
  · rwa [h.entry_eq hunder]
  · intro hprefix
    have hlen := hprefix.length_le
    have hsrc_prefix : src <+: dst ++ [name] := (List.prefix_append src [name]).trans hprefix
    rcases List.prefix_concat_iff.mp hsrc_prefix with heq | hsd
    · simp [heq] at hlen
    · exact h.outside hsd
  · intro rel hrel hrelpresent
    rw [List.append_assoc, List.singleton_append, h.entry_eq hunder] at hrelpresent
    have hfits := h.fits (name :: rel) (by simp [hname, hrel]) hrelpresent
    simpa using hfits

end CopyReady

/-! ### One directory -/

/-- The state of the loop over a directory stream: the names that remain have nothing at the
destination, and every other name has its image there. -/
structure Copying (host : Host) (fs fs' : FileSystem) (src dst : Path) (mode : ℕ)
    (remaining : List Text) : Prop where
  under : fs.ChangesUnder fs' dst
  root : fs'.entry dst = some (.directory mode)
  children : ∀ name rel, fs'.entry (dst ++ name :: rel) =
    if name ∈ remaining then none else copyImage host fs src (name :: rel)

theorem nodup_listing (fs : FileSystem) (p : Path) :
    (".".toList :: "..".toList :: fs.names p).Nodup := by
  have hdot : ".".toList ∉ fs.names p := fun h => (validName_of_mem_names h).ne_dot rfl
  have hdd : "..".toList ∉ fs.names p := fun h => (validName_of_mem_names h).ne_dotdot rfl
  simp only [List.nodup_cons, List.mem_cons, not_or]
  exact ⟨⟨by decide, hdot⟩, hdd, fs.nodup_names p⟩

theorem copyImage_of_none {fs : FileSystem} {rel : Path} (h : fs.entry (src ++ rel) = none) :
    copyImage host fs src rel = none := by
  simp [copyImage, h]

/-- Names that are skipped have no image. -/
theorem copyImage_skipped {fs : FileSystem} {name : Text}
    (h : name = ".".toList ∨ name = "..".toList ∨ ignoredName name = true) (rel : Path) :
    copyImage host fs src (name :: rel) = none := by
  have hinvalid : ¬ ValidName name → fs.entry (src ++ name :: rel) = none := by
    intro hname
    by_contra hne
    obtain ⟨e, he⟩ := Option.ne_none_iff_exists'.mp hne
    exact hname (valid_of_entry he name (by simp))
  rcases h with rfl | rfl | h
  · exact copyImage_of_none (hinvalid fun hv => hv.ne_dot rfl)
  · exact copyImage_of_none (hinvalid fun hv => hv.ne_dotdot rfl)
  · simp [copyImage, h]

namespace Copying

variable {fs fs' fs'' : FileSystem} {mode : ℕ} {name : Text} {names rest : List Text}

/-- In a directory that was just made, nothing is copied yet. -/
theorem start (hready : CopyReady fs source destination src dst)
    (hup : fs.UpdatedAt fs' dst (some (.directory mode)))
    (hnames : names = ".".toList :: "..".toList :: fs'.names src) :
    Copying host fs fs' src dst mode names := by
  refine ⟨hup.changesUnder List.prefix_rfl, hup.same, fun name rel => ?_⟩
  rw [hup.other (by simp), entry_append_eq_none hready.vacant]
  split
  · rfl
  · next hnot =>
    refine (copyImage_of_none ?_).symm
    by_contra hne
    obtain ⟨e, he⟩ := Option.ne_none_iff_exists'.mp hne
    rw [hnames, List.mem_cons, List.mem_cons, mem_names, ← Option.isSome_iff_exists,
      hready.entry_eq (hup.changesUnder List.prefix_rfl), Option.isSome_iff_exists] at hnot
    exact hnot (.inr (.inr (entry_of_entry_cons he)))

/-- A skipped name has no image, so the loop goes on as if it were done. -/
theorem skip (h : Copying host fs fs' src dst mode (name :: rest)) (hname : name ∉ rest)
    (hskip : name = ".".toList ∨ name = "..".toList ∨ ignoredName name = true) :
    Copying host fs fs' src dst mode rest := by
  refine ⟨h.under, h.root, fun n rel => ?_⟩
  rw [h.children n rel]
  rcases eq_or_ne n name with rfl | hne
  · simp [hname, copyImage_skipped hskip]
  · simp [hne]

/-- The first name that remains is copied in the circumstances of a copy. -/
theorem ready (h : Copying host fs fs' src dst mode (name :: rest))
    (hready : CopyReady fs source destination src dst) (hsrc : fs.isDirectory src = true)
    (hpresent : (fs.entry (src ++ [name])).isSome = true) (hkeep : ignoredName name = false) :
    CopyReady fs' (childPath source name) (childPath destination name) (src ++ [name])
      (dst ++ [name]) :=
  hready.child h.under (fs'.isDirectory_iff.mpr ⟨mode, h.root⟩) hsrc hpresent hkeep
    (by simpa using h.children name [])

/-- Once it is copied it has its image, and the others are as they were. -/
theorem step (h : Copying host fs fs' src dst mode (name :: rest)) (hname : name ∉ rest)
    (hready : CopyReady fs source destination src dst) (hkeep : ignoredName name = false)
    (hdone : CopyDone host fs' fs'' (src ++ [name]) (dst ++ [name]) true) :
    Copying host fs fs'' src dst mode rest := by
  obtain ⟨hunder, himage⟩ := hdone
  refine ⟨h.under.trans (hunder.mono (List.prefix_append dst [name])), ?_, fun n rel => ?_⟩
  · rw [hunder dst, h.root]
    intro hprefix
    have hlen := hprefix.length_le
    rw [List.length_append, List.length_singleton] at hlen
    omega
  · rcases eq_or_ne n name with rfl | hne
    · have hrel := himage rfl rel
      rw [List.append_assoc, List.singleton_append] at hrel
      rw [hrel, if_neg hname, copyImage, copyImage, List.append_assoc, List.singleton_append,
        hready.entry_eq h.under]
      simp [hkeep]
    · have hapart : ¬ dst ++ [name] <+: dst ++ n :: rel := by
        rw [List.prefix_append_right_inj, List.cons_prefix_cons]
        exact fun hprefix => hne hprefix.1.symm
      rw [hunder _ hapart, h.children n rel]
      simp [hne]

/-- When no name remains, the directory has its image. -/
theorem image (h : Copying host fs fs' src dst (createdMode host mode) [])
    (hsrc : fs.entry src = some (.directory mode)) (rel : Path) :
    fs'.entry (dst ++ rel) = copyImage host fs src rel := by
  cases rel with
  | nil => simp [h.root, copyImage, hsrc, copiedEntry]
  | cons name rel => simpa using h.children name rel

end Copying

/-- **One directory.** If the copies of the entries keep their promise, so does the loop. -/
theorem copyEntries_spec {copyChild : Text → Text → World → Bool × World}
    (hchild : ∀ {s d src dst w result w'}, CopyReady w.fs s d src dst →
      copyChild s d w = (result, w') → CopyDone host w.fs w'.fs src dst result)
    {fs : FileSystem} (hready : CopyReady fs source destination src dst)
    (hsrc : fs.isDirectory src = true) {mode : ℕ} {names : List Text} {result : Bool}
    (h : copyEntries host copyChild source destination names w = (result, w'))
    (hcopying : Copying host fs w.fs src dst mode names) (hnodup : names.Nodup)
    (hlisted : ∀ name ∈ names, name = ".".toList ∨ name = "..".toList ∨
      (fs.entry (src ++ [name])).isSome = true) :
    fs.ChangesUnder w'.fs dst ∧
      (result = true → w'.hasError = false → Copying host fs w'.fs src dst mode []) := by
  induction names generalizing w with
  | nil =>
      simp only [copyEntries, Prod.mk.injEq] at h
      obtain ⟨-, rfl⟩ := h
      rw [attempt_fs]
      exact ⟨hcopying.under, fun _ _ => hcopying⟩
  | cons name rest ih =>
      obtain ⟨hname, hnodup⟩ := List.nodup_cons.mp hnodup
      have hrest : ∀ n ∈ rest, n = ".".toList ∨ n = "..".toList ∨
          (fs.entry (src ++ [n])).isSome = true := fun n hn => hlisted n (List.mem_cons_of_mem _ hn)
      rcases hattempt : attempt host w with ⟨_ | _, w₁⟩
      · simp only [copyEntries, hattempt] at h
        obtain ⟨rfl, rfl⟩ := Prod.mk.inj h
        have hfs : w₁.fs = w.fs := by simpa [hattempt] using attempt_fs host w
        refine ⟨hfs ▸ hcopying.under, fun _ herr => ?_⟩
        simp [hasError_of_attempt hattempt] at herr
      have hfs : w₁.fs = w.fs := by simpa [hattempt] using attempt_fs host w
      rw [← hfs] at hcopying
      simp only [copyEntries, hattempt] at h
      split at h
      · next herr₁ =>
        obtain ⟨rfl, rfl⟩ := Prod.mk.inj h
        exact ⟨hcopying.under, fun _ herr => by simp [herr₁] at herr⟩
      split at h
      · next hskip => exact ih h (hcopying.skip hname hskip) hnodup hrest
      · next hkeep =>
        simp only [not_or, Bool.not_eq_true] at hkeep
        have hpresent : (fs.entry (src ++ [name])).isSome = true :=
          ((hlisted name List.mem_cons_self).resolve_left hkeep.1).resolve_left hkeep.2.1
        rcases hcall : copyChild (childPath source name) (childPath destination name) w₁ with
          ⟨copied, w₂⟩
        have hdone := hchild (hcopying.ready hready hsrc hpresent hkeep.2.2) hcall
        cases copied with
        | false =>
            simp only [hcall] at h
            obtain ⟨rfl, rfl⟩ := Prod.mk.inj h
            exact ⟨hcopying.under.trans (hdone.1.mono (List.prefix_append dst [name])), by simp⟩
        | true =>
            simp only [hcall] at h
            exact ih h (hcopying.step hname hready hkeep.2.2 hdone) hnodup hrest

/-- A directory that is not made at a free place leaves another error than that it is already there. -/
theorem err_of_mkdir_none {mode : ℕ}
    (h : call host (mkdir host.cwd destination mode) w = (none, w'))
    (hloc : w.fs.locate host.cwd false destination = some dst) (hvacant : w.fs.entry dst = none) :
    w'.err ≠ some (.errno .alreadyExists) := by
  rcases err_of_call_none h with ⟨code, hcode⟩ | ⟨e, hfail, he⟩
  · simp [hcode]
  · rw [he]
    rintro ⟨⟩
    exact make_ne_alreadyExists hloc hvacant hfail

/-- The branch for a directory. -/
theorem copyDirectory_spec {copyChild : Text → Text → World → Bool × World}
    (hchild : ∀ {s d src dst w result w'}, CopyReady w.fs s d src dst →
      copyChild s d w = (result, w') → CopyDone host w.fs w'.fs src dst result)
    (hready : CopyReady w.fs source destination src dst) {mode : ℕ} {result : Bool}
    (hsrc : w.fs.entry src = some (.directory mode))
    (h : copyDirectory host copyChild source destination mode w = (result, w')) :
    CopyDone host w.fs w'.fs src dst result := by
  have hloc := hready.destination_at.locate hready.length_destination host.cwd
  have hdir : w.fs.isDirectory src = true := w.fs.isDirectory_iff.mpr ⟨mode, hsrc⟩
  simp only [copyDirectory, World.ite_hasError_reset] at h
  rcases hmake : call host (mkdir host.cwd destination (createdMode host mode)) w with ⟨_ | u, w₁⟩
  · simp only [hmake, Option.isNone_none, true_and] at h
    rw [if_pos (err_of_mkdir_none hmake hloc hready.vacant)] at h
    obtain ⟨rfl, rfl⟩ := Prod.mk.inj h
    exact ⟨.of_eq (call_none hmake).1, by simp⟩
  simp only [hmake, Option.isNone_some, Bool.false_eq_true, false_and, if_false] at h
  obtain ⟨p, hp, -, hup⟩ := make_eq_ok (call_some hmake).1
  obtain rfl : dst = p := Option.some.inj (hloc.symm.trans hp)
  have hunder : w.fs.ChangesUnder w₁.fs dst := hup.changesUnder List.prefix_rfl
  rcases hopen : call host (opendir host.cwd source) w₁.reset with ⟨_ | names, w₂⟩
  · simp only [hopen] at h
    obtain ⟨rfl, rfl⟩ := Prod.mk.inj h
    exact ⟨hunder.trans (.of_eq (call_none hopen).1), by simp⟩
  simp only [hopen] at h
  obtain ⟨hfs, q, hq, -, hnames⟩ := opendir_eq_ok (call_some hopen).1
  rw [World.reset_fs] at hfs hq hnames
  have hsrc₁ : w₁.fs.entry src = some (.directory mode) := by
    simpa [hsrc] using hready.entry_eq hunder []
  obtain rfl : src = q := by
    refine Option.some.inj (((hready.source_at.mono (hunder.growsTo hready.vacant)).locate_follow
      hready.length_source ?_ host.cwd).symm.trans hq)
    simp [hsrc₁]
  rcases hentries : copyEntries host copyChild source destination names w₂ with ⟨result', w₃⟩
  simp only [hentries, Prod.mk.injEq] at h
  obtain ⟨rfl, rfl⟩ := h
  obtain ⟨hunder', hcopied⟩ := copyEntries_spec hchild hready hdir hentries
    (hfs ▸ Copying.start hready hup hnames) (hnames ▸ nodup_listing _ _) fun name hname => by
      rw [hnames, List.mem_cons, List.mem_cons, mem_names] at hname
      rw [← hready.entry_eq hunder, Option.isSome_iff_exists]
      exact hname
  refine ⟨hunder', fun hresult => ?_⟩
  split at hresult
  · exact absurd hresult (by simp)
  next herr => exact (hcopied hresult (Bool.not_eq_true _ ▸ herr)).image hsrc

/-- An entry that is copied by itself: its image is one entry. -/
theorem copyDone_of_leaf {e : Entry} (hready : CopyReady w.fs source destination src dst)
    (hsrc : w.fs.entry src = some e) (hleaf : e.kind ≠ .directory) {result : Bool}
    (hunder : w.fs.ChangesUnder w'.fs dst)
    (hup : result = true → w.fs.UpdatedAt w'.fs dst (copiedEntry host e)) :
    CopyDone host w.fs w'.fs src dst result := by
  refine ⟨hunder, fun hresult rel => ?_⟩
  rcases eq_or_ne rel [] with rfl | hrel
  · simp [(hup hresult).same, copyImage, hsrc]
  · rw [(hup hresult).other (by simpa using hrel), entry_append_eq_none hready.vacant,
      copyImage_of_none (entry_append_of_leaf hsrc hleaf hrel)]

/-- The branch for a symbolic link: its text is copied in full. -/
theorem copyLink_spec (hready : CopyReady w.fs source destination src dst) {target : Text}
    {result : Bool} (hsrc : w.fs.entry src = some (.link target))
    (h : copyLink host source destination w = (result, w')) :
    CopyDone host w.fs w'.fs src dst result := by
  have hleaf : (Entry.link target).kind ≠ .directory := by simp [Entry.kind]
  rcases hread : call host (readlink host.cwd source (pathSize - 1)) w with ⟨_ | text, w₁⟩
  · simp only [copyLink, hread] at h
    obtain ⟨rfl, rfl⟩ := Prod.mk.inj h
    exact copyDone_of_leaf hready hsrc hleaf (.of_eq (call_none hread).1) (by simp)
  obtain ⟨hfs, p, target', hp, htarget, rfl⟩ := readlink_eq_ok (call_some hread).1
  obtain rfl : src = p :=
    Option.some.inj ((hready.source_at.locate hready.length_source host.cwd).symm.trans hp)
  obtain rfl : target = target' := by simpa [hsrc] using htarget
  have hfull : target.take (pathSize - 1) = target := by
    have hshort : target.length < pathMax := short_of_entry hsrc
    refine List.take_of_length_le ?_
    simp only [pathMax, pathSize] at hshort ⊢
    omega
  rw [← hfs] at hready hsrc ⊢
  rcases hmake : call host (symlink host.cwd (target.take (pathSize - 1)) destination) w₁ with
    ⟨_ | u, w₂⟩
  · simp only [copyLink, hread, hmake] at h
    obtain ⟨rfl, rfl⟩ := Prod.mk.inj h
    exact copyDone_of_leaf hready hsrc hleaf (.of_eq (call_none hmake).1) (by simp)
  · simp only [copyLink, hread, hmake] at h
    obtain ⟨rfl, rfl⟩ := Prod.mk.inj h
    obtain ⟨q, hq, -, hup⟩ := make_eq_ok (call_some hmake).1
    obtain rfl : dst = q := Option.some.inj
      ((hready.destination_at.locate hready.length_destination host.cwd).symm.trans hq)
    rw [hfull] at hup
    exact copyDone_of_leaf hready hsrc hleaf (hup.changesUnder List.prefix_rfl) fun _ => hup

/-! ### The whole tree -/

/-- **The copy.** In the circumstances of a copy, `copyLevels` changes nothing outside its
destination, and leaves the image of the source there when it succeeds. -/
theorem copyLevels_spec {levels : ℕ} {result : Bool}
    (hready : CopyReady w.fs source destination src dst)
    (h : copyLevels host levels source destination w = (result, w')) :
    CopyDone host w.fs w'.fs src dst result := by
  induction levels generalizing source destination src dst w result w' with
  | zero =>
      obtain ⟨rfl, rfl⟩ := Prod.mk.inj h
      exact ⟨.of_eq rfl, by simp⟩
  | succ levels ih =>
      rcases hstat : call host (lstat host.cwd source) w with ⟨_ | e, w₁⟩
      · simp only [copyLevels, hstat] at h
        obtain ⟨rfl, rfl⟩ := Prod.mk.inj h
        exact ⟨.of_eq (call_none hstat).1, by simp⟩
      obtain ⟨hfs, p, hloc, hentry⟩ := lstat_eq_ok (call_some hstat).1
      obtain rfl : src = p :=
        Option.some.inj ((hready.source_at.locate hready.length_source host.cwd).symm.trans hloc)
      rw [← hfs] at hready hentry ⊢
      simp only [copyLevels, hstat] at h
      cases e with
      | directory mode => exact copyDirectory_spec ih hready hentry h
      | regular mode bytes =>
          obtain ⟨hunder, hup⟩ := copyFile_spec h hready.source_at hready.destination_at
            hready.length_source hready.length_destination hentry hready.vacant
          exact copyDone_of_leaf hready hentry (by simp [Entry.kind]) hunder hup
      | link target => exact copyLink_spec hready hentry h
      | special =>
          obtain ⟨rfl, rfl⟩ := Prod.mk.inj h
          exact copyDone_of_leaf hready hentry (by simp [Entry.kind]) (.of_eq rfl)
            fun _ => .of_eq rfl hready.vacant

theorem copyTree_spec {result : Bool} (hready : CopyReady w.fs source destination src dst)
    (h : copyTree host source destination w = (result, w')) :
    CopyDone host w.fs w'.fs src dst result :=
  copyLevels_spec hready h

end P101Test.Mutation
