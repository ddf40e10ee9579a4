import P101Test.FileSystem.Resolve

/-!
# The locations path names name

A path name names a location whether or not anything exists there: the walk of its components goes on
until it meets nothing, and what follows is taken as it is spelled. Where a path name resolves, it names
what it resolves to.

## Main definitions

* `lexical`: components taken as they are spelled.
* `FileSystem.Names`: the location a path name names.

## Main results

* `names_of_realpath`: a path name that resolves names its canonical location.
* `names_below`: a rendered path joined to a path name names what lies below, when no link is on the way.
-/

namespace P101Test

/-- The location that components spell from a directory. -/
def lexical : Path → List Text → Path
  | base, [] => base
  | base, name :: rest =>
    if name = ".".toList then lexical base rest
    else if name = "..".toList then lexical base.dropLast rest
    else lexical (base ++ [name]) rest

theorem lexical_of_valid {rel : Path} (h : ∀ name ∈ rel, ValidName name) (base : Path) :
    lexical base rel = base ++ rel := by
  induction rel generalizing base with
  | nil => rw [lexical, List.append_nil]
  | cons name rest ih =>
      have hname := h name List.mem_cons_self
      rw [lexical, if_neg hname.ne_dot, if_neg hname.ne_dotdot,
        ih fun n hn => h n (List.mem_cons_of_mem _ hn), List.append_assoc, List.singleton_append]

namespace FileSystem

/-- The location a path name names: the walk arrives there, or it arrives where nothing is and the
remaining components are spelled out. -/
def Names (fs : FileSystem) (cwd : Path) (text : Text) (p : Path) : Prop :=
  ∃ heads tails d, components text = heads ++ tails ∧
    fs.walk true maxLinks (if isAbsolute text then [] else cwd) heads = some d ∧
    (tails = [] ∨ fs.entry d = none) ∧ p = lexical d tails

variable {fs : FileSystem} {base p q dst rel : Path} {text : Text} {comps tail : List Text} {cwd : Path}
  {links : ℕ}

/-! ### What is named -/

/-- Proper names along which there is no link are walked as they are spelled. -/
theorem Walks.eq_append {follow : Bool} (h : fs.Walks follow links base comps q)
    (hvalid : ∀ name ∈ comps, ValidName name)
    (hlink : ∀ a b, comps = a ++ b → ∀ target, fs.entry (base ++ a) ≠ some (.link target)) :
    q = base ++ comps := by
  induction h with
  | done => exact (List.append_nil _).symm
  | dot => exact absurd rfl (hvalid _ List.mem_cons_self).ne_dot
  | up => exact absurd rfl (hvalid _ List.mem_cons_self).ne_dotdot
  | @enter links base name rest q hname hdir h ih =>
      have := ih (fun n hn => hvalid n (List.mem_cons_of_mem _ hn)) fun a b hab target => by
        rw [List.append_assoc]
        exact hlink (name :: a) b (by rw [hab, List.cons_append]) target
      rw [this, List.append_assoc, List.singleton_append]
  | @link links base name rest q hname target hentry =>
      exact absurd hentry (hlink [name] rest rfl target)
  | last => rfl

theorem isDirectory_eq_false_of_none (h : fs.entry p = none) : fs.isDirectory p = false := by
  rw [Bool.eq_false_iff, ne_eq, isDirectory_iff]
  rintro ⟨mode, hmode⟩
  rw [h] at hmode
  cases hmode

/-- Something exists at a canonical location. -/
theorem entry_of_realpath (h : fs.realpath cwd text = some p) : ∃ e, fs.entry p = some e := by
  unfold realpath at h
  split at h
  · split at h
    · next hsome =>
      obtain rfl := Option.some.inj h
      exact Option.isSome_iff_exists.mp hsome
    · cases h
  · cases h

/-- An absolute path name that resolves names its canonical location. -/
theorem names_of_realpath (h : fs.realpath cwd text = some q) (habs : isAbsolute text = true)
    (hnames : fs.Names cwd text p) : p = q := by
  obtain ⟨heads, tails, d, hcomps, hwalk, hend, rfl⟩ := hnames
  have hq : fs.Walks true maxLinks [] (components text) q := by
    unfold realpath at h
    split at h
    · next q' hlocate =>
      split at h
      · obtain rfl := Option.some.inj h
        have := (locate_eq_some hlocate).2
        rwa [habs, if_pos rfl] at this
      · cases h
    · cases h
  rw [habs, if_pos rfl] at hwalk
  rw [hcomps] at hq
  by_cases htails : tails = []
  · subst htails
    rw [List.append_nil] at hq
    exact (walks_of_walk hwalk).unique hq
  · have hmissing := isDirectory_eq_false_of_none (hend.resolve_left htails)
    have hnone := (walks_of_walk hwalk).walk_append_eq_none true fs.isDirectory_nil hmissing htails
    rw [hq.walk_eq_some] at hnone
    cases hnone

/-- A rendered path joined to a path name names what lies below, when no link is on the way. -/
theorem names_below (h : fs.At text dst) (hvalid : ∀ name ∈ rel, ValidName name)
    (hlink : ∀ a b, rel = a ++ b → ∀ target, fs.entry (dst ++ a) ≠ some (.link target))
    (hnames : fs.Names cwd (text ++ pathText rel) p) : p = dst ++ rel := by
  obtain ⟨heads, tails, d, hcomps, hwalk, hend, rfl⟩ := hnames
  have habs : isAbsolute (text ++ pathText rel) = true := h.absolute_append _
  have hdst : fs.Walks true maxLinks [] (segments text) dst :=
    h.walks.following (by simpa using hlink [] rel rfl)
  rw [components_of_plain (getLast?_append_pathText h.plain hvalid),
    segments_append_pathText _ hvalid] at hcomps
  rw [habs, if_pos rfl] at hwalk
  replace hwalk := walks_of_walk hwalk
  have hmissing : ∀ tail, tail ≠ [] → tails ≠ [] → fs.walk true maxLinks [] (heads ++ tail) = none :=
    fun tail htail htails => hwalk.walk_append_eq_none true fs.isDirectory_nil
      (isDirectory_eq_false_of_none (hend.resolve_left htails)) htail
  rcases List.append_eq_append_iff.mp hcomps with ⟨a, rfl, rfl⟩ | ⟨a, hheads, rfl⟩
  · -- The walk ends below the path name itself.
    have hd : d = dst ++ a := by
      by_cases ha : a = []
      · subst ha
        rw [List.append_nil] at hwalk ⊢
        exact hwalk.unique hdst
      · cases hdir : fs.isDirectory dst with
        | false =>
            have hnone := hdst.walk_append_eq_none true fs.isDirectory_nil hdir ha
            rw [hwalk.walk_eq_some] at hnone
            cases hnone
        | true =>
            obtain ⟨n, hn⟩ := hdst.split hdir ha hwalk
            exact hn.eq_append (fun name hname => hvalid name (List.mem_append_left _ hname))
              fun b c hbc => hlink b (c ++ tails) (by rw [hbc, List.append_assoc])
    rw [hd, lexical_of_valid fun name hname => hvalid name (List.mem_append_right _ hname),
      List.append_assoc]
  · -- The walk ends on the way there, so that nothing is left.
    have ha : a = [] := by
      by_contra hne
      have hnone := hmissing a hne (by simp [hne])
      rw [← hheads, hdst.walk_eq_some] at hnone
      cases hnone
    subst ha
    rw [List.append_nil] at hheads
    rw [hdst.unique (hheads ▸ hwalk), List.nil_append, lexical_of_valid hvalid]

end FileSystem

end P101Test
