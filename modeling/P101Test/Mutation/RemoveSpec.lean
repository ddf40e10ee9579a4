import P101Test.Mutation.Files

/-!
# Removal stays inside

The removal of the temporary directory only removes entries at or below it, whatever tree a command
left there. A path name it forms is either the temporary directory's joined with the names on the
way down, or it has been cut to the buffer; a cut name may end in a slash, in one or two dots, or in
part of a name, and even then denotes something at or below the temporary directory.

## Main definitions

* `Inside`: the path names the removal can form.

## Main results

* `Inside.location`, `Inside.child`: such a path name stays inside, and so do those formed from it.
* `removeTree_frame`: the removal changes nothing outside.
-/

namespace P101Test.Mutation

open FileSystem Stdio

variable {host : Host} {fs₀ fs : FileSystem} {temp text name : Text} {top q : Path}

/-- The path names formed while the tree at `temp` is removed, in terms of the file system in which
the removal starts. -/
inductive Inside (fs₀ : FileSystem) (temp : Text) (top : Path) : Text → Prop
  /-- The names on the way down, each of the directories on the way being one at the start. -/
  | full (names : Path) (hvalid : ∀ name ∈ names, ValidName name)
      (hdir : ∀ a b, names = a ++ b → b ≠ [] → fs₀.isDirectory (top ++ a) = true)
      (hlen : (temp ++ pathText names).length < pathSize) : Inside fs₀ temp top (temp ++ pathText names)
  /-- A path name that fills the buffer. -/
  | cut (text : Text) (hlen : text.length + 1 = pathSize)
      (hin : ∀ cwd q, fs₀.locate cwd false text = some q → top <+: q) : Inside fs₀ temp top text

namespace Inside

theorem top_mem (hlen : temp.length < pathSize) : Inside fs₀ temp top temp := by
  have h : Inside fs₀ temp top (temp ++ pathText []) := .full [] (by simp)
    (fun a b hab hb => by simp_all) (by simpa using hlen)
  simpa using h

/-- What such a path name denotes lies inside. -/
theorem location (h : Inside fs₀ temp top text) (htemp : fs₀.At temp top)
    (hgrow : fs.GrowsTo fs₀) {cwd : Path} (hloc : fs.locate cwd false text = some q) :
    top <+: q := by
  have hloc₀ := locate_mono hloc hgrow
  cases h with
  | full names hvalid hdir hlen =>
      rw [(htemp.descend hvalid hdir).eq_of_locate hloc₀]
      exact List.prefix_append top names
  | cut _ hlen hin => exact hin cwd q hloc₀

theorem childPath_of_full (hlen : text.length + 1 = pathSize) (name : Text) :
    childPath text name = text := by
  have hsize : text.length = pathSize - 1 := by omega
  rw [childPath, Stdio.cut, ← hsize, List.take_left']
  rfl

/-- The path name of an entry in a directory inside is inside. -/
theorem child (h : Inside fs₀ temp top text) (htemp : fs₀.At temp top)
    (hroom : temp.length + 4 < pathSize) (hgrow : fs.GrowsTo fs₀) {cwd : Path}
    (hloc : fs.locate cwd false text = some q) (hq : fs.isDirectory q = true)
    (hname : ValidName name) : Inside fs₀ temp top (childPath text name) := by
  cases h with
  | cut _ hlen hin =>
      rw [childPath_of_full hlen name]
      exact .cut text hlen hin
  | full names hvalid hdir hlen =>
      have hat := htemp.descend hvalid hdir
      obtain rfl := hat.eq_of_locate (locate_mono hloc hgrow)
      have hnames : fs₀.isDirectory (top ++ names) = true := hgrow.isDirectory hq
      by_cases hfits : (temp ++ pathText names ++ '/' :: name).length < pathSize
      · have hchild : childPath (temp ++ pathText names) name = temp ++ pathText (names ++ [name]) := by
          rw [childPath, cut_of_lt hfits]
          simp
        rw [hchild]
        refine .full _ ?_ ?_ (by simpa using hfits)
        · intro n hn
          rcases List.mem_append.mp hn with hn | hn
          · exact hvalid n hn
          · exact List.mem_singleton.mp hn ▸ hname
        · intro a b hab hb
          obtain ⟨init, last, rfl⟩ := (List.eq_nil_or_concat b).resolve_left hb
          rw [List.concat_eq_append, ← List.append_assoc] at hab
          obtain ⟨rfl, -⟩ := List.append_inj' hab rfl
          rcases eq_or_ne init [] with rfl | hinit
          · simpa using hnames
          · exact hdir a init rfl hinit
      by_cases hfull : (temp ++ pathText names).length + 1 = pathSize
      · rw [childPath_of_full hfull]
        exact .full names hvalid hdir hlen
      -- The name itself is cut, possibly to nothing or to dots.
      set path := temp ++ pathText names with hpath
      have hlong : pathSize ≤ path.length + 1 + name.length := by
        rw [List.length_append, List.length_cons] at hfits
        omega
      obtain ⟨k, hk⟩ : ∃ k, pathSize = path.length + 2 + k := ⟨pathSize - path.length - 2, by omega⟩
      have hchild : childPath path name = path ++ '/' :: name.take k := by
        rw [childPath, Stdio.cut, hk, List.take_append, List.take_of_length_le (by omega)]
        congr 1
        rw [show path.length + 2 + k - 1 - path.length = k + 1 by omega, List.take_succ_cons]
      rw [hchild]
      refine .cut _ ?_ fun cwd q hq₀ => ?_
      · simp only [List.length_append, List.length_cons, List.length_take]
        omega
      · have hslash : '/' ∉ name.take k := fun hmem => hname.no_slash (List.mem_of_mem_take hmem)
        rcases hat.join_cases hnames hslash hq₀ with rfl | ⟨hdd, rfl⟩ | rfl
        · exact List.prefix_append top names
        · have hnonempty : names ≠ [] := by
            rintro rfl
            have hdots : min k name.length = 2 := by simpa using congrArg List.length hdd
            simp only [hpath, pathText_nil, List.append_nil] at hk hlong
            omega
          rw [List.dropLast_append_of_ne_nil hnonempty]
          exact List.prefix_append top _
        · rw [List.append_assoc]
          exact List.prefix_append top _

end Inside

/-! ### The frame -/

variable {w w' : World}

/-- The frame of a removal: entries only disappear, and only inside. -/
def Removed (fs fs' : FileSystem) (top : Path) : Prop :=
  fs'.GrowsTo fs ∧ fs.ChangesUnder fs' top

theorem Removed.of_eq {fs fs' : FileSystem} (h : fs' = fs) : Removed fs fs' top :=
  ⟨h ▸ GrowsTo.refl _, .of_eq h⟩

theorem Removed.trans {fs fs' fs'' : FileSystem} (h : Removed fs fs' top)
    (h' : Removed fs' fs'' top) : Removed fs fs'' top :=
  ⟨h'.1.trans h.1, h.2.trans h'.2⟩

theorem Removed.of_clear {fs fs' : FileSystem} (h : fs.UpdatedAt fs' q none) (hq : top <+: q) :
    Removed fs fs' top :=
  ⟨h.growsTo_of_clear, h.changesUnder hq⟩

/-- One directory stream. -/
theorem removeEntries_frame {removeChild : Text → World → Bool × World}
    (hchild : ∀ {text w result w'}, Inside fs₀ temp top text → w.fs.GrowsTo fs₀ →
      removeChild text w = (result, w') → Removed w.fs w'.fs top)
    {names : List Text} {result result' : Bool} (hgrow : w.fs.GrowsTo fs₀)
    (hnames : ∀ name ∈ names, name = ".".toList ∨ name = "..".toList ∨
      Inside fs₀ temp top (childPath text name))
    (h : removeEntries host removeChild text names result w = (result', w')) :
    Removed w.fs w'.fs top := by
  induction names generalizing w result with
  | nil =>
      obtain ⟨-, rfl⟩ := Prod.mk.inj h
      exact .of_eq rfl
  | cons name rest ih =>
      have hrest : ∀ n ∈ rest, n = ".".toList ∨ n = "..".toList ∨
          Inside fs₀ temp top (childPath text n) := fun n hn => hnames n (List.mem_cons_of_mem _ hn)
      rcases hattempt : attemptOptional host w with ⟨_ | _, w₁⟩
      all_goals
        have hfs : w₁.fs = w.fs := by simpa [hattempt] using attemptOptional_fs host w
        simp only [removeEntries, hattempt] at h
      · obtain ⟨-, rfl⟩ := Prod.mk.inj h
        exact .of_eq hfs
      rw [← hfs] at hgrow ⊢
      split at h
      · exact ih hgrow hrest h
      · next hkeep =>
        rw [not_or] at hkeep
        have hin := ((hnames name List.mem_cons_self).resolve_left hkeep.1).resolve_left hkeep.2
        rcases hremove : removeChild (childPath text name) w₁ with ⟨removed, w₂⟩
        simp only [hremove] at h
        have hremoved := hchild hin hgrow hremove
        exact hremoved.trans (ih (hremoved.1.trans hgrow) hrest h)

/-- **The removal stays inside.** -/
theorem removeLevels_frame {levels : ℕ} {result : Bool} (htemp : fs₀.At temp top)
    (hroom : temp.length + 4 < pathSize) (hin : Inside fs₀ temp top text)
    (hgrow : w.fs.GrowsTo fs₀) (h : removeLevels host levels text w = (result, w')) :
    Removed w.fs w'.fs top := by
  induction levels generalizing text w result w' with
  | zero =>
      obtain ⟨-, rfl⟩ := Prod.mk.inj h
      exact .of_eq rfl
  | succ levels ih =>
      rcases hstat : callOptional host (lstat host.cwd text) w with ⟨_ | e, w₁⟩
      · simp only [removeLevels, hstat] at h
        obtain ⟨-, rfl⟩ := Prod.mk.inj h
        exact .of_eq (callOptional_none hstat).1
      obtain ⟨hfs₁, q, hq, he⟩ := lstat_eq_ok (callOptional_some hstat).1
      rw [← hfs₁] at hgrow hq he ⊢
      -- Every entry other than a directory is unlinked.
      have hunlink (hleaf : removeLevels host (levels + 1) text w =
          ((callOptional host (unlink host.cwd text) w₁).1.isSome,
            (callOptional host (unlink host.cwd text) w₁).2)) : Removed w₁.fs w'.fs top := by
        rw [h] at hleaf
        rcases hcall : callOptional host (unlink host.cwd text) w₁ with ⟨_ | u, w₂⟩
        all_goals
          rw [hcall] at hleaf
          obtain ⟨-, rfl⟩ := Prod.mk.inj hleaf
        · exact .of_eq (callOptional_none hcall).1
        · obtain ⟨p, e', hp, -, -, hup⟩ := unlink_eq_ok (callOptional_some hcall).1
          exact .of_clear hup (hin.location htemp hgrow hp)
      cases e with
      | regular mode bytes => exact hunlink (by rw [removeLevels, hstat])
      | link target => exact hunlink (by rw [removeLevels, hstat])
      | special => exact hunlink (by rw [removeLevels, hstat])
      | directory mode =>
          have hdir : w₁.fs.isDirectory q = true := w₁.fs.isDirectory_iff.mpr ⟨mode, he⟩
          rcases hopen : callOptional host (opendir host.cwd text) w₁ with ⟨_ | names, w₂⟩
          · simp only [removeLevels, hstat, hopen] at h
            obtain ⟨-, rfl⟩ := Prod.mk.inj h
            exact .of_eq (callOptional_none hopen).1
          obtain ⟨hfs₂, p, -, -, hnames⟩ := opendir_eq_ok (callOptional_some hopen).1
          rcases hentries : removeEntries host (removeLevels host levels) text names true w₂ with
            ⟨result', w₃⟩
          rw [← hfs₂] at hgrow hq hdir hnames ⊢
          have hlisted : ∀ name ∈ names, name = ".".toList ∨ name = "..".toList ∨
              Inside fs₀ temp top (childPath text name) := by
            intro name hname
            rw [hnames, List.mem_cons, List.mem_cons] at hname
            exact hname.imp_right fun h => h.imp_right fun h =>
              hin.child htemp hroom hgrow hq hdir (validName_of_mem_names h)
          have hremoved := removeEntries_frame ih hgrow hlisted hentries
          rcases hrmdir : callOptional host (rmdir host.cwd text) w₃ with ⟨_ | u, w₄⟩
          all_goals
            simp only [removeLevels, hstat, hopen, hentries, hrmdir] at h
            obtain ⟨-, rfl⟩ := Prod.mk.inj h
          · exact hremoved.trans (.of_eq (callOptional_none hrmdir).1)
          · obtain ⟨p', mode', hp', -, -, -, hup⟩ := rmdir_eq_ok (callOptional_some hrmdir).1
            exact hremoved.trans
              (.of_clear hup (hin.location htemp (hremoved.1.trans hgrow) hp'))

/-- **The removal of a tree.** Nothing changes except at or below what the path name denotes when
the removal starts; nothing changes at all if it denotes nothing. -/
theorem removeTree_frame {result : Bool} (hroom : temp.length + 4 < pathSize)
    (habs : isAbsolute temp = true) (hplain : temp.getLast? ≠ some '/')
    (h : removeTree host temp w = (result, w')) :
    w'.fs = w.fs ∨ ∃ top, w.fs.At temp top ∧ (w.fs.entry top).isSome = true ∧
      w.fs.ChangesUnder w'.fs top := by
  rcases hstat : callOptional host (lstat host.cwd temp) w with ⟨_ | e, w₁⟩
  · left
    simp only [removeTree, maxLevels, pathSize, removeLevels, hstat] at h
    obtain ⟨-, rfl⟩ := Prod.mk.inj h
    exact (callOptional_none hstat).1
  · right
    obtain ⟨-, top, hloc, he⟩ := lstat_eq_ok (callOptional_some hstat).1
    have htemp := at_of_locate hloc habs hplain
    refine ⟨top, htemp, by simp [he], ?_⟩
    exact (removeLevels_frame htemp hroom (.top_mem (by omega)) (GrowsTo.refl _) h).2

end P101Test.Mutation
