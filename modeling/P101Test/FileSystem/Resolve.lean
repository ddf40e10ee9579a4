import P101Test.FileSystem.Basic

/-!
# Resolving path names

The kernel walks the components of a path name from the root or the working directory. Symbolic
links on the way are followed within a budget; the last component is followed only on request.
`At fs text p` says that an absolute path name without a trailing slash names the location `p`
without following a final link. It passes from a directory to its entries, and it survives every
change that keeps the entries met on the way.

## Main definitions

* `FileSystem.walk`, `FileSystem.locate`: resolution of components and of path names.
* `FileSystem.Walks`: the same walk as a derivation, one constructor for each kind of component.
* `FileSystem.realpath`: the canonical location of an existing file.
* `FileSystem.At`: an absolute path name that denotes a location.
* `FileSystem.GrowsTo`: the second file system keeps every entry of the first, up to contents.

## Main results

* `walks_of_walk`, `Walks.walk_eq_some`: the walk finds a location exactly when it is derivable.
* `At.child`: joining a listed name denotes the entry of that name.
* `At.mono`: names keep their meaning when a file system grows.
* `at_pathText`: canonical path names denote what they spell.
-/

namespace P101Test

namespace FileSystem

variable (fs : FileSystem)

/-- One pass over the components, with `expand` restarting the walk at a link's target. -/
def walkFrom (follow : Bool) (expand : Path → List Text → Option Path) :
    Path → List Text → Option Path
  | base, [] => some base
  | base, name :: rest =>
    if name = ".".toList then walkFrom follow expand base rest
    else if name = "..".toList then walkFrom follow expand base.dropLast rest
    else
      match fs.entry (base ++ [name]) with
      | some (.directory _) => walkFrom follow expand (base ++ [name]) rest
      | some (.link target) =>
        if rest = [] ∧ follow = false then some (base ++ [name])
        else expand (if isAbsolute target then [] else base) (components target ++ rest)
      | _ => if rest = [] then some (base ++ [name]) else none

/-- Walk components from a directory, following at most `links` symbolic links. -/
def walk (follow : Bool) : ℕ → Path → List Text → Option Path
  | 0 => fs.walkFrom follow fun _ _ => none
  | links + 1 => fs.walkFrom follow (walk follow links)

/-- The number of links a resolution may follow. -/
def maxLinks : ℕ := 40

/-- The location a path name denotes, whether or not anything exists there yet. -/
def locate (cwd : Path) (follow : Bool) (text : Text) : Option Path :=
  if text = [] ∨ pathMax ≤ text.length then none
  else fs.walk follow maxLinks (if isAbsolute text then [] else cwd) (components text)

/-- The canonical location of an existing file. -/
def realpath (cwd : Path) (text : Text) : Option Path :=
  match fs.locate cwd true text with
  | some p => if (fs.entry p).isSome then some p else none
  | none => none

/-! ### Walks as derivations -/

/-- A component other than the two dots. -/
def Proper (name : Text) : Prop :=
  name ≠ ".".toList ∧ name ≠ "..".toList

/-- A walk of components that arrives at a location, with the budget of links it may follow. -/
inductive Walks (follow : Bool) : ℕ → Path → List Text → Path → Prop
  | done {links base} : Walks follow links base [] base
  | dot {links base rest q} (h : Walks follow links base rest q) :
      Walks follow links base (".".toList :: rest) q
  | up {links base rest q} (h : Walks follow links base.dropLast rest q) :
      Walks follow links base ("..".toList :: rest) q
  | enter {links base name rest q} (hname : Proper name)
      (hdir : fs.isDirectory (base ++ [name]) = true)
      (h : Walks follow links (base ++ [name]) rest q) : Walks follow links base (name :: rest) q
  | link {links base name rest q} (hname : Proper name) (target : Text)
      (hlink : fs.entry (base ++ [name]) = some (.link target)) (hfollow : ¬(rest = [] ∧ follow = false))
      (h : Walks follow links (if isAbsolute target then [] else base) (components target ++ rest) q) :
      Walks follow (links + 1) base (name :: rest) q
  | last {links base name} (hname : Proper name)
      (hdir : fs.isDirectory (base ++ [name]) = false)
      (hlink : follow = true → ∀ target, fs.entry (base ++ [name]) ≠ some (.link target)) :
      Walks follow links base [name] (base ++ [name])

variable {fs} {base p q : Path} {name : Text} {comps : List Text} {follow : Bool} {links : ℕ}

theorem proper_of_validName (h : ValidName name) : Proper name :=
  ⟨h.ne_dot, h.ne_dotdot⟩

theorem isDirectory_eq_false_of_entry {e : Entry} (h : fs.entry p = some e)
    (he : ∀ mode, e ≠ .directory mode) : fs.isDirectory p = false := by
  rw [Bool.eq_false_iff, ne_eq, isDirectory_iff]
  rintro ⟨mode, hmode⟩
  exact he mode (Option.some.inj (h.symm.trans hmode))

/-- The restart of a walk at a link's target, which costs one link of the budget. -/
private def expandLinks (fs : FileSystem) (follow : Bool) : ℕ → Path → List Text → Option Path
  | 0 => fun _ _ => none
  | links + 1 => fs.walk follow links

private theorem walk_eq (links : ℕ) :
    fs.walk follow links = fs.walkFrom follow (expandLinks fs follow links) := by
  cases links <;> rfl

private theorem walks_of_walkFrom
    (hexpand : ∀ b cs, expandLinks fs follow links b cs = some q →
      ∃ n, links = n + 1 ∧ fs.Walks follow n b cs q)
    (h : fs.walkFrom follow (expandLinks fs follow links) base comps = some q) :
    fs.Walks follow links base comps q := by
  induction comps generalizing base with
  | nil =>
      rw [walkFrom, Option.some.injEq] at h
      exact h ▸ .done
  | cons c cs ih =>
      rw [walkFrom] at h
      split at h
      · next hdot => exact hdot ▸ .dot (ih h)
      · next hdot =>
        split at h
        · next hdd => exact hdd ▸ .up (ih h)
        · next hdd =>
          split at h
          · next mode he => exact .enter ⟨hdot, hdd⟩ (fs.isDirectory_iff.mpr ⟨mode, he⟩) (ih h)
          · next target he =>
            split at h
            · next hfinal =>
              obtain ⟨rfl, rfl⟩ := hfinal
              rw [Option.some.injEq] at h
              exact h ▸ .last ⟨hdot, hdd⟩ (isDirectory_eq_false_of_entry he (by simp)) (by simp)
            · next hfollow =>
              obtain ⟨n, rfl, hw⟩ := hexpand _ _ h
              exact .link ⟨hdot, hdd⟩ target he hfollow hw
          · next hnd hnl =>
            split at h
            · next hnil =>
              subst hnil
              rw [Option.some.injEq] at h
              refine h ▸ .last ⟨hdot, hdd⟩ ?_ fun _ => hnl
              rw [Bool.eq_false_iff, ne_eq, isDirectory_iff]
              exact fun ⟨mode, hmode⟩ => hnd mode hmode
            · exact absurd h (by simp)

theorem walks_of_walk (h : fs.walk follow links base comps = some q) :
    fs.Walks follow links base comps q := by
  induction links generalizing base comps with
  | zero => exact walks_of_walkFrom (fun _ _ h => by simp [expandLinks] at h) h
  | succ links ih =>
      exact walks_of_walkFrom (fun b cs (h : fs.walk follow links b cs = some q) => ⟨links, rfl, ih h⟩) h

theorem Walks.walk_eq_some (h : fs.Walks follow links base comps q) :
    fs.walk follow links base comps = some q := by
  induction h with
  | done => rw [walk_eq, walkFrom]
  | dot h ih => rw [walk_eq] at ih ⊢; rw [walkFrom, if_pos rfl, ih]
  | up h ih =>
      rw [walk_eq] at ih ⊢
      rw [walkFrom, if_neg (by decide), if_pos rfl, ih]
  | enter hname hdir h ih =>
      obtain ⟨mode, hmode⟩ := fs.isDirectory_iff.mp hdir
      rw [walk_eq] at ih ⊢
      simp only [walkFrom, hname.1, hname.2, if_false, hmode, ih]
  | link hname target hlink hfollow h ih =>
      rw [walk_eq]
      simp only [walkFrom, hname.1, hname.2, if_false, hlink, hfollow, expandLinks, ih]
  | @last links base name hname hdir hlink =>
      rw [walk_eq]
      simp only [walkFrom, hname.1, hname.2, if_false, true_and]
      split
      · next mode he => exact absurd (fs.isDirectory_iff.mpr ⟨mode, he⟩) (by simp [hdir])
      · next target he =>
        cases follow with
        | false => simp
        | true => exact absurd he (hlink rfl target)
      · rfl

/-! ### Continuing, weakening and confining walks -/

/-- A walk that ends in a directory hands the components that follow to a walk from there, with what
is left of its budget. -/
theorem Walks.walk_append (h : fs.Walks true links base comps q) (hq : fs.isDirectory q = true)
    {tail : List Text} (htail : tail ≠ []) :
    ∃ n, fs.walk follow links base (comps ++ tail) = fs.walk follow n q tail := by
  induction h with
  | @done links base => exact ⟨links, rfl⟩
  | dot h ih =>
      obtain ⟨n, hn⟩ := ih hq
      refine ⟨n, ?_⟩
      rw [walk_eq, List.cons_append, walkFrom, if_pos rfl, ← walk_eq, hn]
  | up h ih =>
      obtain ⟨n, hn⟩ := ih hq
      refine ⟨n, ?_⟩
      rw [walk_eq, List.cons_append, walkFrom, if_neg (by decide), if_pos rfl, ← walk_eq, hn]
  | enter hname hdir h ih =>
      obtain ⟨mode, hmode⟩ := fs.isDirectory_iff.mp hdir
      obtain ⟨n, hn⟩ := ih hq
      refine ⟨n, ?_⟩
      rw [walk_eq] at hn ⊢
      simp only [List.cons_append, walkFrom, hname.1, hname.2, if_false, hmode, hn]
  | link hname target hlink hfollow h ih =>
      obtain ⟨n, hn⟩ := ih hq
      refine ⟨n, ?_⟩
      rw [List.append_assoc] at hn
      rw [walk_eq]
      simp only [List.cons_append, walkFrom, hname.1, hname.2, if_false, hlink,
        List.append_eq_nil_iff, htail, and_false, false_and, expandLinks, hn]
  | last hname hdir hlink => exact absurd hq (by simp [hdir])

/-- A walk that ends in something other than a directory cannot be continued. -/
theorem Walks.walk_append_eq_none (h : fs.Walks true links base comps q) (follow : Bool)
    (hbase : fs.isDirectory base = true) (hq : fs.isDirectory q = false) {tail : List Text}
    (htail : tail ≠ []) : fs.walk follow links base (comps ++ tail) = none := by
  induction h with
  | done => exact absurd hbase (by simp [hq])
  | dot h ih => rw [walk_eq, List.cons_append, walkFrom, if_pos rfl, ← walk_eq, ih hbase hq]
  | @up links base rest q h ih =>
      have hup : fs.isDirectory base.dropLast = true := by
        rcases List.eq_nil_or_concat base with rfl | ⟨init, last, rfl⟩
        · simp
        · obtain ⟨mode, hmode⟩ := fs.isDirectory_iff.mp hbase
          rw [List.concat_eq_append] at hmode ⊢
          rw [List.dropLast_concat]
          exact isDirectory_of_entry_concat hmode
      rw [walk_eq, List.cons_append, walkFrom, if_neg (by decide), if_pos rfl, ← walk_eq, ih hup hq]
  | enter hname hdir h ih =>
      obtain ⟨mode, hmode⟩ := fs.isDirectory_iff.mp hdir
      have hrest := ih hdir hq
      rw [walk_eq] at hrest ⊢
      simp only [List.cons_append, walkFrom, hname.1, hname.2, if_false, hmode, hrest]
  | @link links base name rest q hname target hlink hfollow h ih =>
      have htarget : fs.isDirectory (if isAbsolute target = true then [] else base) = true := by
        split
        · simp
        · exact hbase
      have hrest := ih htarget hq
      rw [List.append_assoc] at hrest
      rw [walk_eq]
      simp only [List.cons_append, walkFrom, hname.1, hname.2, if_false, hlink,
        List.append_eq_nil_iff, htail, and_false, false_and, expandLinks, hrest]
  | @last links base name hname hdir hlink =>
      rw [walk_eq]
      simp only [List.cons_append, List.nil_append, walkFrom, hname.1, hname.2, if_false, htail,
        false_and]
      split
      · next mode he => exact absurd (fs.isDirectory_iff.mpr ⟨mode, he⟩) (by simp [hdir])
      · next target he => exact absurd he (hlink rfl target)
      · rfl

theorem Walks.append {tail : List Text} {r : Path} (h : fs.Walks true links base comps q)
    (hq : fs.isDirectory q = true) (htail : tail ≠ []) (hrest : ∀ n, fs.Walks follow n q tail r) :
    fs.Walks follow links base (comps ++ tail) r := by
  obtain ⟨n, hn⟩ : ∃ n, fs.walk follow links base (comps ++ tail) = fs.walk follow n q tail :=
    h.walk_append hq htail
  exact walks_of_walk (hn.trans (hrest n).walk_eq_some)

/-- A walk through a directory passes that directory. -/
theorem Walks.split {tail : List Text} {r : Path} (h : fs.Walks true links base comps q)
    (hq : fs.isDirectory q = true) (htail : tail ≠ [])
    (hall : fs.Walks follow links base (comps ++ tail) r) : ∃ n, fs.Walks follow n q tail r := by
  obtain ⟨n, hn⟩ : ∃ n, fs.walk follow links base (comps ++ tail) = fs.walk follow n q tail :=
    h.walk_append hq htail
  exact ⟨n, walks_of_walk (hn.symm.trans hall.walk_eq_some)⟩

theorem Walks.concat (h : fs.Walks true links base comps q) (hq : fs.isDirectory q = true)
    (hname : Proper name)
    (hlink : follow = true → ∀ target, fs.entry (q ++ [name]) ≠ some (.link target)) :
    fs.Walks follow links base (comps ++ [name]) (q ++ [name]) := by
  refine h.append hq (by simp) fun n => ?_
  cases hdir : fs.isDirectory (q ++ [name]) with
  | true => exact .enter hname hdir .done
  | false => exact .last hname hdir hlink

/-- Following the last link changes nothing when the walk does not end in a link. -/
theorem Walks.following (h : fs.Walks false links base comps q)
    (hq : ∀ target, fs.entry q ≠ some (.link target)) : fs.Walks true links base comps q := by
  induction h with
  | done => exact .done
  | dot h ih => exact .dot (ih hq)
  | up h ih => exact .up (ih hq)
  | enter hn hdir h ih => exact .enter hn hdir (ih hq)
  | link hn target ht hfollow h ih => exact .link hn target ht (by simp) (ih hq)
  | last hn hdir _ => exact .last hn hdir fun _ => hq

/-- A walk along directories spells its own location. -/
theorem walks_of_entry {e : Entry} (h : fs.entry (base ++ comps) = some e) :
    fs.Walks false links base comps (base ++ comps) := by
  induction comps generalizing base with
  | nil => simpa using Walks.done
  | cons name comps ih =>
      have hname : Proper name := proper_of_validName (valid_of_entry h name (by simp))
      have hassoc : base ++ name :: comps = base ++ [name] ++ comps := by simp
      rw [hassoc] at h ⊢
      rcases eq_or_ne comps [] with rfl | hne
      · cases hdir : fs.isDirectory (base ++ [name]) with
        | true => exact .enter hname hdir (ih h)
        | false => simpa using Walks.last hname hdir (by simp)
      · exact .enter hname (isDirectory_of_entry_append h hne) (ih h)

theorem Walks.not_link (h : fs.Walks true links base comps q) (hbase : fs.isDirectory base = true)
    (target : Text) : fs.entry q ≠ some (.link target) := by
  induction h with
  | @done links base =>
      obtain ⟨mode, hmode⟩ := fs.isDirectory_iff.mp hbase
      simp [hmode]
  | dot h ih => exact ih hbase
  | @up links base rest q h ih =>
      refine ih ?_
      rcases List.eq_nil_or_concat base with rfl | ⟨init, last, rfl⟩
      · simp
      · obtain ⟨mode, hmode⟩ := fs.isDirectory_iff.mp hbase
        rw [List.concat_eq_append] at hmode ⊢
        rw [List.dropLast_concat]
        exact isDirectory_of_entry_concat hmode
  | enter hn hdir h ih => exact ih hdir
  | link hn target' ht hfollow h ih =>
      refine ih ?_
      split
      · simp
      · exact hbase
  | last hn hdir hlink => exact hlink rfl target

/-! ### Growth -/

end FileSystem

/-- Entries of one kind that agree on links: they may differ in contents and permissions. -/
def Entry.Alike : Entry → Entry → Prop
  | .link target, .link target' => target = target'
  | e, e' => e.kind = e'.kind

@[simp] theorem Entry.Alike.rfl' (e : Entry) : e.Alike e := by
  cases e <;> simp [Entry.Alike]

theorem Entry.Alike.trans {a b c : Entry} (h : a.Alike b) (h' : b.Alike c) : a.Alike c := by
  cases a <;> cases b <;> cases c <;> simp_all [Entry.Alike, Entry.kind]

namespace FileSystem

/-- Every entry is kept, up to contents and permissions. -/
def GrowsTo (fs fs' : FileSystem) : Prop :=
  ∀ p e, fs.entry p = some e → ∃ e', fs'.entry p = some e' ∧ e.Alike e'

variable {fs fs' fs'' : FileSystem} {base p q : Path} {name text : Text} {comps : List Text}
  {follow : Bool} {links : ℕ}

theorem GrowsTo.refl (fs : FileSystem) : fs.GrowsTo fs :=
  fun _ e h => ⟨e, h, Entry.Alike.rfl' e⟩

theorem GrowsTo.trans (h : fs.GrowsTo fs') (h' : fs'.GrowsTo fs'') : fs.GrowsTo fs'' := by
  intro p e he
  obtain ⟨e', he', hee'⟩ := h p e he
  obtain ⟨e'', he'', hee''⟩ := h' p e' he'
  exact ⟨e'', he'', hee'.trans hee''⟩

theorem GrowsTo.isDirectory (h : fs.GrowsTo fs') (hd : fs.isDirectory p = true) :
    fs'.isDirectory p = true := by
  obtain ⟨mode, hmode⟩ := fs.isDirectory_iff.mp hd
  obtain ⟨e', he', halike⟩ := h p _ hmode
  cases e' with
  | directory mode' => exact fs'.isDirectory_iff.mpr ⟨mode', he'⟩
  | _ => simp [Entry.Alike, Entry.kind] at halike

theorem GrowsTo.link (h : fs.GrowsTo fs') {target : Text} (hl : fs.entry p = some (.link target)) :
    fs'.entry p = some (.link target) := by
  obtain ⟨e', he', halike⟩ := h p _ hl
  cases e' with
  | link target' => rw [he', show target = target' from halike]
  | _ => simp [Entry.Alike, Entry.kind] at halike

/-- A walk to something that exists is not affected by growth. -/
theorem Walks.mono (h : fs.Walks follow links base comps q) (hgrow : fs.GrowsTo fs')
    (hq : ∃ e, fs.entry q = some e) : fs'.Walks follow links base comps q := by
  induction h with
  | done => exact .done
  | dot h ih => exact .dot (ih hq)
  | up h ih => exact .up (ih hq)
  | enter hn hdir h ih => exact .enter hn (hgrow.isDirectory hdir) (ih hq)
  | link hn target ht hfollow h ih => exact .link hn target (hgrow.link ht) hfollow (ih hq)
  | last hn hdir hlink =>
      obtain ⟨e, he⟩ := hq
      obtain ⟨e', he', halike⟩ := hgrow _ e he
      refine .last hn (isDirectory_eq_false_of_entry he' ?_) fun hf target ht => ?_
      · rintro mode rfl
        cases e with
        | directory mode' => simp [fs.isDirectory_iff.mpr ⟨mode', he⟩] at hdir
        | _ => simp [Entry.Alike, Entry.kind] at halike
      · obtain rfl := Option.some.inj (he'.symm.trans ht)
        cases e with
        | link target' => exact hlink hf target' he
        | _ => simp [Entry.Alike, Entry.kind] at halike

/-- A walk that does not follow a final link is not affected by growth, whether or not it arrives at
something. -/
theorem Walks.grow (h : fs.Walks false links base comps q) (hgrow : fs.GrowsTo fs') :
    fs'.Walks false links base comps q := by
  induction h with
  | done => exact .done
  | dot h ih => exact .dot ih
  | up h ih => exact .up ih
  | enter hn hdir h ih => exact .enter hn (hgrow.isDirectory hdir) ih
  | link hn target ht hfollow h ih => exact .link hn target (hgrow.link ht) hfollow ih
  | @last links base name hn hdir hlink =>
      cases hdir' : fs'.isDirectory (base ++ [name]) with
      | true => exact .enter hn hdir' .done
      | false => exact .last hn hdir' (by simp)

/-- Components determine where a walk arrives. -/
theorem Walks.unique (h : fs.Walks follow links base comps p)
    (h' : fs.Walks follow links base comps q) : p = q :=
  Option.some.inj (h.walk_eq_some.symm.trans h'.walk_eq_some)

/-! ### Path names that denote -/

/-- An absolute path name without a trailing slash, denoting `p` without following a final link. -/
structure At (fs : FileSystem) (text : Text) (p : Path) : Prop where
  absolute : isAbsolute text = true
  plain : text.getLast? ≠ some '/'
  walks : fs.Walks false maxLinks [] (segments text) p

namespace At

theorem ne_nil (h : fs.At text p) : text ≠ [] := by
  rintro rfl
  simpa [isAbsolute] using h.absolute

theorem absolute_append (h : fs.At text p) (more : Text) : isAbsolute (text ++ more) = true := by
  have := h.absolute
  cases text with
  | nil => exact absurd rfl h.ne_nil
  | cons c text => simpa [isAbsolute] using this

theorem locate (h : fs.At text p) (hlen : text.length < pathMax) (cwd : Path) :
    fs.locate cwd false text = some p := by
  rw [FileSystem.locate, if_neg (by simp [h.ne_nil, hlen]), h.absolute, if_pos rfl,
    components_of_plain h.plain]
  exact h.walks.walk_eq_some

theorem locate_follow (h : fs.At text p) (hlen : text.length < pathMax)
    (hlink : ∀ target, fs.entry p ≠ some (.link target)) (cwd : Path) :
    fs.locate cwd true text = some p := by
  rw [FileSystem.locate, if_neg (by simp [h.ne_nil, hlen]), h.absolute, if_pos rfl,
    components_of_plain h.plain]
  exact (h.walks.following hlink).walk_eq_some

theorem locate_directory (h : fs.At text p) (hdir : fs.isDirectory p = true) (hlen : text.length < pathMax)
    (cwd : Path) (follow : Bool) : fs.locate cwd follow text = some p := by
  obtain ⟨mode, hmode⟩ := fs.isDirectory_iff.mp hdir
  cases follow with
  | false => exact h.locate hlen cwd
  | true => exact h.locate_follow hlen (by simp [hmode]) cwd

/-- A name joined to a directory's path name denotes the entry of that name. -/
theorem child (h : fs.At text p) (hdir : fs.isDirectory p = true) (hname : ValidName name) :
    fs.At (text ++ '/' :: name) (p ++ [name]) where
  absolute := h.absolute_append _
  plain := by
    have := getLast?_ne_slash hname.ne_nil hname.no_slash (text ++ ['/'])
    simpa using this
  walks := by
    rw [segments_append_slash, segments_of_no_slash hname.ne_nil hname.no_slash]
    obtain ⟨mode, hmode⟩ := fs.isDirectory_iff.mp hdir
    exact (h.walks.following (by simp [hmode])).concat hdir (proper_of_validName hname) (by simp)

theorem mono (h : fs.At text p) (hgrow : fs.GrowsTo fs') : fs'.At text p :=
  ⟨h.absolute, h.plain, h.walks.grow hgrow⟩

/-- A rendered path joined to a path name denotes what lies below, as long as directories lie
between. -/
theorem descend (h : fs.At text p) {rel : Path} (hvalid : ∀ name ∈ rel, ValidName name)
    (hdir : ∀ a b, rel = a ++ b → b ≠ [] → fs.isDirectory (p ++ a) = true) :
    fs.At (text ++ pathText rel) (p ++ rel) := by
  induction rel using List.reverseRecOn with
  | nil => simpa using h
  | append_singleton rel name ih =>
      have hrel := ih (fun n hn => hvalid n (by simp [hn])) fun a b hab hb =>
        hdir a (b ++ [name]) (by rw [hab, List.append_assoc]) (by simp)
      have hchild := hrel.child (hdir rel [name] rfl (by simp)) (hvalid name (by simp))
      simpa using hchild

/-- A rendered path to an entry, joined to a path name, denotes the entry. -/
theorem descend_of_entry (h : fs.At text p) {rel : Path} {e : Entry}
    (he : fs.entry (p ++ rel) = some e) : fs.At (text ++ pathText rel) (p ++ rel) :=
  h.descend (fun name hname => valid_of_entry he name (by simp [hname])) fun a b hab hb =>
    isDirectory_of_entry_append (q := b) (by rw [List.append_assoc, ← hab, he]) hb

end At

/-- What a path name denotes is where the walk of its components arrives. -/
theorem locate_eq_some {cwd : Path} (h : fs.locate cwd follow text = some p) :
    text.length < pathMax ∧
      fs.Walks follow maxLinks (if isAbsolute text then [] else cwd) (components text) p := by
  unfold locate at h
  split at h
  · exact absurd h (by simp)
  · next hlen =>
    rw [not_or, Nat.not_le] at hlen
    exact ⟨hlen.2, walks_of_walk h⟩

/-- An absolute path name without a trailing slash that is found denotes its location. -/
theorem at_of_locate {cwd : Path} (h : fs.locate cwd false text = some p)
    (habs : isAbsolute text = true) (hplain : text.getLast? ≠ some '/') : fs.At text p where
  absolute := habs
  plain := hplain
  walks := by
    have hwalks := (locate_eq_some h).2
    rwa [habs, if_pos rfl, components_of_plain hplain] at hwalks

theorem locate_mono {cwd : Path} (h : fs.locate cwd false text = some p) (hgrow : fs.GrowsTo fs') :
    fs'.locate cwd false text = some p := by
  unfold locate at h ⊢
  split at h
  · exact absurd h (by simp)
  · next hlen =>
    rw [if_neg hlen]
    exact ((walks_of_walk h).grow hgrow).walk_eq_some

namespace At

theorem eq_of_locate (h : fs.At text p) {cwd : Path} (hloc : fs.locate cwd false text = some q) :
    q = p :=
  (at_of_locate hloc h.absolute h.plain).walks.unique h.walks

/-- What a text joined behind a directory's path name denotes, when the text has no slash but need
not be a name: the directory itself, its parent, or an entry in it. -/
theorem join_cases (h : fs.At text p) (hdir : fs.isDirectory p = true) {x : Text} (hx : '/' ∉ x)
    {cwd : Path} (hloc : fs.locate cwd false (text ++ '/' :: x) = some q) :
    q = p ∨ (x = "..".toList ∧ q = p.dropLast) ∨ q = p ++ [x] := by
  obtain ⟨mode, hmode⟩ := fs.isDirectory_iff.mp hdir
  have hfollow := h.walks.following (by simp [hmode])
  have habs : isAbsolute (text ++ '/' :: x) = true := h.absolute_append _
  have hwalks := (locate_eq_some hloc).2
  rw [habs, if_pos rfl] at hwalks
  rcases eq_or_ne x [] with rfl | hne
  · left
    have hseg : segments (text ++ ['/']) = segments text := by
      rw [segments_append_slash, segments_nil, List.append_nil]
    rw [components, hseg] at hwalks
    split at hwalks
    · exact hwalks.unique (hfollow.append hdir (by simp) fun _ => .dot .done)
    · exact hwalks.unique h.walks
  · have hplain : (text ++ '/' :: x).getLast? ≠ some '/' := by
      simpa using getLast?_ne_slash hne hx (text ++ ['/'])
    rw [components_of_plain hplain, segments_append_slash, segments_of_no_slash hne hx] at hwalks
    by_cases hdot : x = ".".toList
    · subst hdot
      exact .inl (hwalks.unique (hfollow.append hdir (by simp) fun _ => .dot .done))
    · by_cases hdd : x = "..".toList
      · subst hdd
        exact .inr (.inl ⟨rfl, hwalks.unique (hfollow.append hdir (by simp) fun _ => .up .done)⟩)
      · exact .inr (.inr (hwalks.unique (hfollow.concat hdir ⟨hdot, hdd⟩ (by simp))))

/-- A text joined behind a directory's path name denotes what a walk of the text from there arrives at. -/
theorem locate_join (h : fs.At text p) (hdir : fs.isDirectory p = true) {x : Text} (hne : x ≠ [])
    (hx : '/' ∉ x) (hlen : (text ++ '/' :: x).length < pathMax) (hwalk : ∀ follow n, fs.Walks follow n p [x] q)
    (cwd : Path) (follow : Bool) : fs.locate cwd follow (text ++ '/' :: x) = some q := by
  obtain ⟨mode, hmode⟩ := fs.isDirectory_iff.mp hdir
  have hfollow := h.walks.following (by simp [hmode])
  have hplain : (text ++ '/' :: x).getLast? ≠ some '/' := by
    simpa using getLast?_ne_slash hne hx (text ++ ['/'])
  rw [FileSystem.locate, if_neg (not_or.mpr ⟨by simp, Nat.not_le.mpr hlen⟩), h.absolute_append, if_pos rfl,
    components_of_plain hplain, segments_append_slash, segments_of_no_slash hne hx]
  exact (hfollow.append hdir (by simp) (hwalk follow)).walk_eq_some

theorem locate_slash (h : fs.At text p) (hdir : fs.isDirectory p = true)
    (hlen : (text ++ ['/']).length < pathMax) (cwd : Path) (follow : Bool) :
    fs.locate cwd follow (text ++ ['/']) = some p := by
  obtain ⟨mode, hmode⟩ := fs.isDirectory_iff.mp hdir
  have hfollow := h.walks.following (by simp [hmode])
  have hsegments : segments (text ++ ['/']) = segments text := by
    rw [segments_append_slash, segments_nil, List.append_nil]
  rw [FileSystem.locate, if_neg (not_or.mpr ⟨by simp, Nat.not_le.mpr hlen⟩), h.absolute_append, if_pos rfl,
    components, hsegments]
  split
  · exact (hfollow.append hdir (by simp) fun _ => .dot .done).walk_eq_some
  · cases follow with
    | false => exact h.walks.walk_eq_some
    | true => exact hfollow.walk_eq_some

end At

/-- The rendered form of an existing location denotes it. -/
theorem at_pathText {e : Entry} (hp : p ≠ []) (he : fs.entry p = some e) :
    fs.At (pathText p) p where
  absolute := by
    cases p with
    | nil => exact absurd rfl hp
    | cons name p => simp [isAbsolute]
  plain := by
    have := getLast?_append_pathText (by simp : ([] : Text).getLast? ≠ some '/') (valid_of_entry he)
    simpa using this
  walks := by
    rw [segments_pathText (valid_of_entry he)]
    simpa using walks_of_entry (by simpa using he : fs.entry ([] ++ p) = some e)

theorem realpath_mono {cwd : Path} (h : fs.realpath cwd text = some p) (hgrow : fs.GrowsTo fs') :
    fs'.realpath cwd text = some p := by
  unfold realpath at h ⊢
  split at h
  · next q hq =>
    split at h
    · next hsome =>
      obtain rfl := Option.some.inj h
      obtain ⟨e, he⟩ := Option.isSome_iff_exists.mp hsome
      obtain ⟨e', he', -⟩ := hgrow q e he
      have hq' : fs'.locate cwd true text = some q := by
        unfold locate at hq ⊢
        split at hq
        · exact absurd hq (by simp)
        · next hlen =>
          rw [if_neg hlen]
          exact ((walks_of_walk hq).mono hgrow ⟨e, he⟩).walk_eq_some
      simp [hq', he']
    · exact absurd h (by simp)
  · exact absurd h (by simp)

/-! ### File types by path name -/

variable (fs) in
/-- The file type a path name leads to, links followed; nothing if it leads nowhere. -/
def kindOf (cwd : Path) (text : Text) : Option Kind :=
  match fs.locate cwd true text with
  | some p => (fs.entry p).map Entry.kind
  | none => none

theorem At.kindOf_eq (h : fs.At text p) (hlen : text.length < pathMax) {e : Entry}
    (he : fs.entry p = some e) (hlink : e.kind ≠ .link) (cwd : Path) :
    fs.kindOf cwd text = some e.kind := by
  have hnot : ∀ target, fs.entry p ≠ some (.link target) := by
    rintro target ht
    rw [he, Option.some.injEq] at ht
    exact hlink (by rw [ht]; rfl)
  simp [kindOf, h.locate_follow hlen hnot, he]

/-- A path name through a directory that lacks the next name leads nowhere. -/
theorem At.kindOf_eq_none (h : fs.At text p) (hdir : fs.isDirectory p = true) (hname : ValidName name)
    (hmissing : fs.entry (p ++ [name]) = none) {rest : Path} (hrest : ∀ n ∈ rest, ValidName n)
    (cwd : Path) : fs.kindOf cwd (text ++ pathText (name :: rest)) = none := by
  have hvalid : ∀ n ∈ name :: rest, ValidName n := by
    simpa [hname] using hrest
  have habs : isAbsolute (text ++ pathText (name :: rest)) = true := h.absolute_append _
  obtain ⟨mode, hmode⟩ := fs.isDirectory_iff.mp hdir
  unfold kindOf
  split
  · next q hq =>
    have hwalks := (locate_eq_some hq).2
    rw [habs, if_pos rfl, components_of_plain (getLast?_append_pathText h.plain hvalid),
      segments_append_pathText _ hvalid] at hwalks
    obtain ⟨n, hn⟩ := (h.walks.following (by simp [hmode])).split hdir (by simp) hwalks
    cases hn with
    | dot => exact absurd rfl hname.ne_dot
    | up => exact absurd rfl hname.ne_dotdot
    | enter _ hd => simp [isDirectory, hmissing] at hd
    | link _ target ht => simp [hmissing] at ht
    | last => simp [hmissing]
  · rfl

/-- The canonical location of an absolute path name has its file type. -/
theorem kindOf_eq_of_realpath {cwd : Path} (h : fs.realpath cwd text = some p)
    (habs : isAbsolute text = true) :
    ∃ e, fs.entry p = some e ∧ e.kind ≠ .link ∧ fs.kindOf cwd text = some e.kind := by
  unfold realpath at h
  split at h
  · next q hq =>
    split at h
    · next hsome =>
      obtain rfl := Option.some.inj h
      obtain ⟨e, he⟩ := Option.isSome_iff_exists.mp hsome
      refine ⟨e, he, fun hk => ?_, by simp [kindOf, hq, he]⟩
      have hwalks := (locate_eq_some hq).2
      rw [habs, if_pos rfl] at hwalks
      cases e with
      | link target => exact hwalks.not_link (by simp) target he
      | _ => simp [Entry.kind] at hk
    · exact absurd h (by simp)
  · exact absurd h (by simp)

end FileSystem

end P101Test
