import P101Test.Mutation.SingleMutation

/-!
# The copy and the redirected paths

The copy and the rewriting of paths decide separately what belongs to the copy: one walks the tree
and leaves out ignored names, the other compares texts. A redirected path exists in the copy, with
the file type of the original, exactly when no component below the project is an ignored name and
the original is not a special file, as long as every path name the copy makes fits its buffer.

## Main definitions

* `RedirectAgrees`: a path that is redirected leads to a file of the same type in the copy.
* `CopySite`, `NamesFit`: the circumstances of a copy, apart from the path names that fit.

## Main results

* `inProject_iff`: the textual test is the prefix test on locations.
* `rewritePath_cases`: what rewriting can deliver.
* `redirectAgrees_iff`: when the two decisions agree.
* `not_redirectAgrees_build`: a build directory is redirected and not copied.
-/

namespace P101Test.Mutation

open FileSystem Stdio

variable {host : Host} {w w' : World} {proj rel dst q : Path} {copy value out : Text}

/-! ### The textual test -/

/-- The test on canonical texts is the prefix test on locations. -/
theorem inProject_iff (hne : proj ≠ []) (hproj : ∀ name ∈ proj, ValidName name)
    (hq : ∀ name ∈ q, ValidName name) :
    inProject (pathText proj) (canonicalText q) = true ↔ proj <+: q := by
  have hboundary : ∀ rest : Text, (rest.head? == some '/' || rest.isEmpty) = true ↔
      rest = [] ∨ rest.head? = some '/' := by
    intro rest
    rw [Bool.or_eq_true, beq_iff_eq, List.isEmpty_iff, or_comm]
  rw [inProject, Bool.and_eq_true, List.isPrefixOf_iff_prefix, hboundary]
  rcases eq_or_ne q [] with rfl | hqne
  · obtain ⟨name, rest, rfl⟩ := List.exists_cons_of_ne_nil hne
    have hname := (hproj name List.mem_cons_self).ne_nil
    simp [canonicalText, List.prefix_nil, hname]
  · rw [canonicalText, if_neg hqne, ← pathText_prefix_iff hproj hq]
    constructor
    · rintro ⟨⟨rest, hrest⟩, hbound⟩
      refine ⟨rest, hrest.symm, ?_⟩
      rwa [← hrest, List.drop_left] at hbound
    · rintro ⟨rest, hrest, hbound⟩
      rw [hrest, List.drop_left]
      exact ⟨List.prefix_append _ _, hbound⟩

/-- A path is either left as it is, or it is absolute, it leads into the project, and what follows
the project in its canonical form is appended to the copy. -/
theorem rewritePath_cases (hne : proj ≠ []) (hproj : ∀ name ∈ proj, ValidName name)
    (h : rewritePath host (pathText proj) copy value w = (out, w')) :
    out = value ∨ (isAbsolute value = true ∧ ∃ rel,
      w.fs.realpath host.cwd value = some (proj ++ rel) ∧ out = copy ++ pathText rel) := by
  unfold rewritePath at h
  split at h
  · next habs =>
    split at h
    · exact .inl (Prod.mk.inj h).1.symm
    · next canonical w₁ hcall =>
      obtain ⟨-, q, hq, rfl, -⟩ := canonicalize_eq_ok (callOptional_some hcall).1
      split at h
      · next hin =>
        have habs' : isAbsolute value = true := by simp [isAbsolute, habs]
        obtain ⟨e, he, -, -⟩ := kindOf_eq_of_realpath hq habs'
        obtain ⟨rel, rfl⟩ := (inProject_iff hne hproj (valid_of_entry he)).mp hin
        refine .inr ⟨habs', rel, hq, ?_⟩
        rw [← (Prod.mk.inj h).1, canonicalText, if_neg (by simp [hne]), pathText_append,
          List.drop_left]
      · exact .inl (Prod.mk.inj h).1.symm
  · exact .inl (Prod.mk.inj h).1.symm

/-! ### Agreement -/

/-- A path that is redirected after the copy leads to a file of the same type there. -/
def RedirectAgrees (host : Host) (project copy value : Text) (w : World) : Prop :=
  (rewritePath host project copy value (copyTree host project copy w).2).1 ≠ value →
    (copyTree host project copy w).2.fs.kindOf host.cwd
      (rewritePath host project copy value (copyTree host project copy w).2).1 =
    w.fs.kindOf host.cwd value

instance (host : Host) (project copy value : Text) (w : World) :
    Decidable (RedirectAgrees host project copy value w) := by
  unfold RedirectAgrees
  infer_instance

/-- An existing source, and a free destination outside it. -/
structure CopySite (fs : FileSystem) (source destination : Text) (src dst : Path) : Prop where
  source_at : fs.At source src
  destination_at : fs.At destination dst
  present : (fs.entry src).isSome = true
  vacant : fs.entry dst = none
  outside : ¬ src <+: dst

/-- The path names of everything that is to be copied fit the buffers. -/
def NamesFit (fs : FileSystem) (source destination : Text) (src : Path) : Prop :=
  ∀ rel, rel.any ignoredName = false → (fs.entry (src ++ rel)).isSome = true →
    (source ++ pathText rel).length < pathSize ∧ (destination ++ pathText rel).length < pathSize

theorem CopySite.ready {fs : FileSystem} {source destination : Text} {src dst : Path}
    (h : CopySite fs source destination src dst) (hfit : NamesFit fs source destination src) :
    CopyReady fs source destination src dst :=
  ⟨h.source_at, h.destination_at, h.present, h.vacant, h.outside, hfit⟩

theorem CopySite.source_ne_nil {fs : FileSystem} {source destination : Text} {src dst : Path}
    (h : CopySite fs source destination src dst) : src ≠ [] := by
  rintro rfl
  exact h.outside List.nil_prefix

/-- A path with an ignored name has a first one. -/
theorem exists_first_ignored (h : rel.any ignoredName = true) :
    ∃ a name rest, rel = a ++ name :: rest ∧ a.any ignoredName = false ∧ ignoredName name = true := by
  induction rel with
  | nil => simp at h
  | cons name rel ih =>
      by_cases hname : ignoredName name = true
      · exact ⟨[], name, rel, rfl, rfl, hname⟩
      · obtain ⟨a, name', rest, rfl, ha, hname'⟩ := ih (by simpa [hname] using h)
        exact ⟨name :: a, name', rest, rfl, by simpa [hname] using ha, hname'⟩

/-- What a rendered path below the copy leads to, when the original is there and is no link. -/
theorem kindOf_copy (hready : CopyReady w.fs (pathText proj) copy proj dst)
    (hdone : CopyDone host w.fs w'.fs proj dst true) {e : Entry}
    (he : w.fs.entry (proj ++ rel) = some e) (hlink : e.kind ≠ .link) :
    w'.fs.kindOf host.cwd (copy ++ pathText rel) =
      if rel.any ignoredName = true ∨ e.kind = .special then none else some e.kind := by
  have hgrow := hdone.1.growsTo hready.vacant
  have hcopy : w'.fs.At copy dst := hready.destination_at.mono hgrow
  have himage := hdone.2 rfl
  -- A location that is visible and on the way to an entry is a directory of the copy.
  have hdir : ∀ a b, rel = a ++ b → b ≠ [] → a.any ignoredName = false →
      w'.fs.isDirectory (dst ++ a) = true := by
    intro a b hab hb ha
    rw [hab, ← List.append_assoc] at he
    obtain ⟨mode, hmode⟩ := w.fs.isDirectory_iff.mp (isDirectory_of_entry_append he hb)
    refine w'.fs.isDirectory_iff.mpr ⟨createdMode host mode, ?_⟩
    simp [himage, copyImage, ha, hmode, copiedEntry]
  have hvalid : ∀ name ∈ rel, ValidName name := fun name hname =>
    valid_of_entry he name (by simp [hname])
  -- Where the image stops, the path name leads nowhere.
  have hnone : ∀ a name rest, rel = a ++ name :: rest → a.any ignoredName = false →
      w'.fs.entry (dst ++ a ++ [name]) = none →
      w'.fs.kindOf host.cwd (copy ++ pathText rel) = none := by
    rintro a name rest rfl ha hmissing
    have hat : w'.fs.At (copy ++ pathText a) (dst ++ a) := by
      refine hcopy.descend (fun n hn => hvalid n (by simp [hn])) fun b c hbc hc => ?_
      refine hdir b (c ++ name :: rest) (by rw [hbc, List.append_assoc]) (by simp) ?_
      rw [hbc, List.any_append, Bool.or_eq_false_iff] at ha
      exact ha.1
    have := hat.kindOf_eq_none (hdir a _ rfl (by simp) ha) (hvalid name (by simp)) hmissing
      (fun n hn => hvalid n (by simp [hn]) : ∀ n ∈ rest, ValidName n) host.cwd
    rwa [List.append_assoc, ← pathText_append] at this
  by_cases hignored : rel.any ignoredName = true
  · obtain ⟨a, name, rest, hrel, ha, hname⟩ := exists_first_ignored hignored
    rw [if_pos (.inl hignored)]
    refine hnone a name rest hrel ha ?_
    rw [List.append_assoc, himage, copyImage, if_pos (by simp [hname])]
  · rw [Bool.not_eq_true] at hignored
    by_cases hspecial : e.kind = .special
    · rw [if_pos (.inr hspecial)]
      have hmissing : w'.fs.entry (dst ++ rel) = none := by
        cases e <;> simp_all [Entry.kind, copyImage, copiedEntry]
      rcases List.eq_nil_or_concat rel with rfl | ⟨a, name, rfl⟩
      · rw [List.append_nil] at hmissing
        rw [pathText_nil, List.append_nil, kindOf,
          hcopy.locate_follow hready.length_destination (by simp [hmissing])]
        simp [hmissing]
      · rw [List.concat_eq_append] at hmissing hignored hnone ⊢
        rw [List.any_append, Bool.or_eq_false_iff] at hignored
        exact hnone a name [] rfl hignored.1 (by rwa [List.append_assoc])
    · rw [if_neg (by simp [hignored, hspecial])]
      obtain ⟨e', he', hkind⟩ : ∃ e', copiedEntry host e = some e' ∧ e'.kind = e.kind := by
        cases e <;> simp_all [copiedEntry, Entry.kind]
      have hentry : w'.fs.entry (dst ++ rel) = some e' := by
        simp [himage, copyImage, hignored, he, he']
      rw [← hkind]
      refine (hcopy.descend_of_entry hentry).kindOf_eq ?_ hentry (hkind ▸ hlink) host.cwd
      exact (hready.fits rel hignored (by simp [he])).2

/-- Where the path names fit, a path that is redirected leads to a file of the same type in the copy
exactly when no component below the project is an ignored name and the file is not a special one. -/
theorem redirectAgrees_of_fit (hready : CopyReady w.fs (pathText proj) copy proj dst)
    (hcopied : (copyTree host (pathText proj) copy w).1 = true)
    (hvalue : w.fs.realpath host.cwd value = some (proj ++ rel))
    (hredirected :
      (rewritePath host (pathText proj) copy value (copyTree host (pathText proj) copy w).2).1 ≠
        value) :
    RedirectAgrees host (pathText proj) copy value w ↔
      rel.any ignoredName = false ∧ w.fs.kindOf host.cwd value ≠ some .special := by
  rcases hcopy : copyTree host (pathText proj) copy w with ⟨result, w'⟩
  rw [hcopy] at hcopied hredirected
  obtain rfl : result = true := hcopied
  have hdone := copyTree_spec hready hcopy
  have hne : proj ≠ [] := by
    rintro rfl
    exact hready.outside List.nil_prefix
  obtain ⟨e₀, he₀⟩ := Option.isSome_iff_exists.mp hready.present
  rcases hrewrite : rewritePath host (pathText proj) copy value w' with ⟨out, w''⟩
  rw [hrewrite] at hredirected
  obtain ⟨habs, rel', hrel', rfl⟩ :=
    (rewritePath_cases hne (valid_of_entry he₀) hrewrite).resolve_left hredirected
  have hsame := realpath_mono hvalue (hdone.1.growsTo hready.vacant)
  rw [hsame, Option.some.injEq, List.append_cancel_left_eq] at hrel'
  subst hrel'
  obtain ⟨e, he, hlink, hkind⟩ := kindOf_eq_of_realpath hvalue habs
  have hcopyKind := kindOf_copy hready hdone he hlink
  simp only [RedirectAgrees, hcopy, hrewrite, ne_eq, hredirected, not_false_eq_true, true_implies,
    hcopyKind, hkind]
  by_cases hignored : rel.any ignoredName = true
  · simp [hignored]
  · by_cases hspecial : e.kind = .special
    · simp [hspecial]
    · simp [hignored, hspecial]

/-- A path name that does not fit leads nowhere. -/
theorem kindOf_of_long {fs : FileSystem} {cwd : Path} {text : Text} (hlong : pathSize ≤ text.length) :
    fs.kindOf cwd text = none := by
  unfold kindOf
  split
  · next p hp => exact absurd (locate_eq_some hp).1 (Nat.not_lt.mpr hlong)
  · rfl

/-- A redirected path that leads to something in the copy fits the buffer. -/
theorem length_lt_of_redirectAgrees (hne : proj ≠ []) (hproj : ∀ name ∈ proj, ValidName name)
    (hvalue : w.fs.realpath host.cwd value = some (proj ++ rel))
    (hredirected :
      (rewritePath host (pathText proj) copy value (copyTree host (pathText proj) copy w).2).1 ≠
        value)
    (hagrees : RedirectAgrees host (pathText proj) copy value w) :
    (rewritePath host (pathText proj) copy value
      (copyTree host (pathText proj) copy w).2).1.length < pathSize := by
  by_contra hlong
  have hkinds := hagrees hredirected
  rw [kindOf_of_long (Nat.le_of_not_lt hlong)] at hkinds
  obtain ⟨habs, -⟩ := (rewritePath_cases hne hproj rfl).resolve_left hredirected
  obtain ⟨e, -, -, hkind⟩ := kindOf_eq_of_realpath hvalue habs
  rw [hkind] at hkinds
  cases hkinds

/-- **When the two decisions agree.** Where the path names of everything that is copied fit, no component
below the project is an ignored name and the file is not a special one, a path that is redirected leads to
a file of the same type in the copy. It leads there only if its own name fits, and, where all of them do,
only if neither keeps the file out of the copy. -/
theorem redirectAgrees_iff (hsite : CopySite w.fs (pathText proj) copy proj dst)
    (hcopied : (copyTree host (pathText proj) copy w).1 = true)
    (hvalue : w.fs.realpath host.cwd value = some (proj ++ rel))
    (hredirected :
      (rewritePath host (pathText proj) copy value (copyTree host (pathText proj) copy w).2).1 ≠
        value) :
    (NamesFit w.fs (pathText proj) copy proj ∧ rel.any ignoredName = false ∧
        w.fs.kindOf host.cwd value ≠ some .special →
      RedirectAgrees host (pathText proj) copy value w) ∧
    (RedirectAgrees host (pathText proj) copy value w →
      (rewritePath host (pathText proj) copy value
        (copyTree host (pathText proj) copy w).2).1.length < pathSize ∧
      (NamesFit w.fs (pathText proj) copy proj →
        rel.any ignoredName = false ∧ w.fs.kindOf host.cwd value ≠ some .special)) := by
  obtain ⟨e, he⟩ := Option.isSome_iff_exists.mp hsite.present
  have hagrees := fun hfit => redirectAgrees_of_fit (hsite.ready hfit) hcopied hvalue hredirected
  refine ⟨fun h => (hagrees h.1).mpr h.2, fun h => ⟨?_, fun hfit => (hagrees hfit).mp h⟩⟩
  exact length_lt_of_redirectAgrees hsite.source_ne_nil (valid_of_entry he) hvalue hredirected h

/-! ### A source file and a build directory -/

/-- The small project with a build directory in it. -/
def buildProject : FileSystem :=
  .ofEntries [(["tmp".toList], .directory 0o777), (["p".toList], .directory 0o755),
    (["p".toList, "a.c".toList], .regular 0o644 "x<y".toList),
    (["p".toList, "build".toList], .directory 0o755)]

theorem buildProject_site : CopySite buildProject (pathText ["p".toList]) "/tmp/c".toList
    ["p".toList] ["tmp".toList, "c".toList] where
  source_at := at_pathText (e := .directory 0o755) (by decide) (by decide +kernel)
  destination_at := (at_pathText (p := ["tmp".toList]) (e := .directory 0o777) (by decide)
    (by decide +kernel)).child (by decide +kernel) (by decide : ValidName "c".toList)
  present := by decide +kernel
  vacant := by decide +kernel
  outside := by decide

/-- The source file of that project is redirected to its copy. -/
theorem redirectAgrees_source :
    (rewritePath (exiting []) "/p".toList "/tmp/c".toList "/p/a.c".toList
      ⟨buildProject, none, 0, []⟩).1 = "/tmp/c/a.c".toList ∧
    RedirectAgrees (exiting []) (pathText ["p".toList]) "/tmp/c".toList "/p/a.c".toList
      ⟨buildProject, none, 0, []⟩ := by
  have hfit : NamesFit buildProject (pathText ["p".toList]) "/tmp/c".toList ["p".toList] :=
    fun rel _ => fits_of_keys (by decide) (by decide +kernel) rel
  have hvalue : buildProject.realpath [] "/p/a.c".toList = some (["p".toList] ++ ["a.c".toList]) := by
    decide +kernel
  exact ⟨by decide +kernel, (redirectAgrees_iff (w := ⟨buildProject, none, 0, []⟩) buildProject_site
    (by decide +kernel) hvalue (by decide +kernel)).1 ⟨hfit, by decide, by decide +kernel⟩⟩

/-- **The build directory.** It is redirected to a path that the copy, although it succeeds, does not
have. -/
theorem not_redirectAgrees_build :
    (copyTree (exiting []) "/p".toList "/tmp/c".toList ⟨buildProject, none, 0, []⟩).1 = true ∧
    buildProject.realpath [] "/p/build".toList = some ["p".toList, "build".toList] ∧
    ¬ RedirectAgrees (exiting []) "/p".toList "/tmp/c".toList "/p/build".toList
      ⟨buildProject, none, 0, []⟩ := by
  decide +kernel

end P101Test.Mutation
