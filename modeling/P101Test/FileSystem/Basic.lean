import P101Test.FileSystem.Path
import Mathlib.Data.List.AList

/-!
# File systems

A file system is a finite table from locations to entries. The structure carries what every
real one keeps: the root is a directory, every entry sits in a directory, names are valid, and
the text of a symbolic link fits the system limit. Files are created, rewritten and removed by
operations whose proofs keep these fields, so no later proof has to restore them.

## Main definitions

* `Entry`, `Kind`: directories, regular files, symbolic links and everything else.
* `FileSystem`, `FileSystem.entry`, `FileSystem.names`: the table, a lookup, and the names that
  reading a directory delivers.
* `FileSystem.create`, `FileSystem.rewrite`, `FileSystem.remove`: the three ways a table changes.

## Main results

* `mem_names`, `nodup_names`: a directory is enumerated once and completely.
* `isDirectory_of_entry_append`: every proper ancestor of an entry is a directory.
* `entry_create`, `entry_rewrite`, `entry_remove`: what each operation leaves elsewhere.
-/

namespace P101Test

/-- What a name in a directory refers to. -/
inductive Entry
  | directory (mode : ℕ)
  | regular (mode : ℕ) (bytes : Text)
  | link (target : Text)
  | special
  deriving DecidableEq, Repr

/-- The file type bits of a mode. -/
inductive Kind
  | directory
  | regular
  | link
  | special
  deriving DecidableEq, Repr

/-- The file type of an entry. -/
def Entry.kind : Entry → Kind
  | .directory _ => .directory
  | .regular _ _ => .regular
  | .link _ => .link
  | .special => .special

/-- The system limit on the text of a path name or a symbolic link, terminator included. -/
def pathMax : ℕ := 4096

/-- A symbolic link's text respects the system limit. -/
def Entry.Short : Entry → Prop
  | .link target => target.length < pathMax
  | _ => True

instance (e : Entry) : Decidable e.Short := by
  cases e <;> simp only [Entry.Short] <;> infer_instance

theorem Entry.short_regular (mode : ℕ) (bytes : Text) : (Entry.regular mode bytes).Short :=
  trivial

/-- A finite tree of directory entries, as a table of locations. -/
structure FileSystem where
  table : AList fun _ : Path => Entry
  rooted : [] ∉ table
  valid : ∀ p ∈ table, ∀ name ∈ p, ValidName name
  closed : ∀ p name, p ++ [name] ∈ table → p = [] ∨ ∃ mode, table.lookup p = some (.directory mode)
  short : ∀ p e, table.lookup p = some e → e.Short

namespace FileSystem

/-- The file system that holds nothing but the root. -/
def empty : FileSystem where
  table := ∅
  rooted := by simp
  valid := by simp
  closed := by simp
  short := by simp

variable (fs : FileSystem) {p q : Path} {e : Entry} {name : Text}

/-- The entry at a location; the root is a directory. -/
def entry (p : Path) : Option Entry :=
  if p = [] then some (.directory 0o755) else fs.table.lookup p

/-- Whether a location holds a directory. -/
def isDirectory (p : Path) : Bool :=
  match fs.entry p with
  | some (.directory _) => true
  | _ => false

@[simp] theorem entry_nil : fs.entry [] = some (.directory 0o755) := by simp [entry]

theorem entry_of_ne_nil (h : p ≠ []) : fs.entry p = fs.table.lookup p := by simp [entry, h]

theorem isDirectory_iff : fs.isDirectory p = true ↔ ∃ mode, fs.entry p = some (.directory mode) := by
  unfold isDirectory
  split
  · next mode h => simp [h]
  · next h => simpa using fun mode => h mode

@[simp] theorem isDirectory_nil : fs.isDirectory [] = true := fs.isDirectory_iff.mpr ⟨_, entry_nil fs⟩

variable {fs}

theorem mem_table_of_entry (h : p ≠ []) (he : fs.entry p = some e) : p ∈ fs.table := by
  rw [← AList.lookup_isSome, ← fs.entry_of_ne_nil h, he]
  rfl

/-- The components of a location that exists are valid names. -/
theorem valid_of_entry (he : fs.entry p = some e) : ∀ name ∈ p, ValidName name := by
  rcases eq_or_ne p [] with rfl | hp
  · simp
  · exact fs.valid p (mem_table_of_entry hp he)

theorem short_of_entry (he : fs.entry p = some e) : e.Short := by
  rcases eq_or_ne p [] with rfl | hp
  · rw [entry_nil, Option.some.injEq] at he
    subst he
    trivial
  · exact fs.short p e (by rw [← fs.entry_of_ne_nil hp, he])

/-- An entry sits in a directory. -/
theorem isDirectory_of_entry_concat (he : fs.entry (p ++ [name]) = some e) :
    fs.isDirectory p = true := by
  have hmem := mem_table_of_entry (by simp) he
  rcases fs.closed _ _ hmem with rfl | ⟨mode, hmode⟩
  · simp
  · rcases eq_or_ne p [] with rfl | hp
    · simp
    · exact fs.isDirectory_iff.mpr ⟨mode, by rw [fs.entry_of_ne_nil hp, hmode]⟩

/-- Every proper ancestor of an entry is a directory. -/
theorem isDirectory_of_entry_append (he : fs.entry (p ++ q) = some e) (hq : q ≠ []) :
    fs.isDirectory p = true := by
  induction q using List.reverseRecOn generalizing e with
  | nil => exact absurd rfl hq
  | append_singleton q name ih =>
      rw [← List.append_assoc] at he
      have hdir := isDirectory_of_entry_concat he
      rcases eq_or_ne q [] with rfl | hq'
      · simpa using hdir
      · obtain ⟨mode, hmode⟩ := fs.isDirectory_iff.mp hdir
        exact ih hmode hq'

/-! ### Reading a directory -/

/-- The name under which a location is listed in a directory. -/
def nameIn (dir q : Path) : Option Text :=
  if q.dropLast = dir then q.getLast? else none

theorem nameIn_eq_some {dir : Path} : nameIn dir q = some name ↔ q = dir ++ [name] := by
  rcases List.eq_nil_or_concat q with rfl | ⟨init, last, rfl⟩
  · simp [nameIn]
  · simp only [nameIn, List.concat_eq_append, List.dropLast_concat, List.getLast?_append,
      List.getLast?_singleton, Option.some_or]
    constructor
    · intro h
      split at h
      · next hinit =>
        simp only [Option.some.injEq] at h
        rw [hinit, h]
      · exact absurd h (by simp)
    · intro h
      obtain ⟨rfl, hlast⟩ := List.append_inj' h rfl
      simp only [List.cons.injEq, and_true] at hlast
      simp [hlast]

variable (fs) in
/-- The names a directory holds, in the order in which reading it delivers them. -/
def names (dir : Path) : List Text :=
  fs.table.keys.filterMap (nameIn dir)

/-- A name is listed exactly when the directory holds an entry of that name. -/
theorem mem_names : name ∈ fs.names p ↔ ∃ e, fs.entry (p ++ [name]) = some e := by
  simp only [names, List.mem_filterMap]
  constructor
  · rintro ⟨q, hq, hname⟩
    rw [nameIn_eq_some] at hname
    subst hname
    obtain ⟨e, he⟩ := Option.isSome_iff_exists.mp (AList.lookup_isSome.mpr (AList.mem_keys.mpr hq))
    exact ⟨e, by rw [fs.entry_of_ne_nil (by simp), he]⟩
  · rintro ⟨e, he⟩
    exact ⟨p ++ [name], AList.mem_keys.mp (mem_table_of_entry (by simp) he),
      nameIn_eq_some.mpr rfl⟩

variable (fs) in
/-- No name is listed twice. -/
theorem nodup_names (dir : Path) : (fs.names dir).Nodup := by
  refine List.Nodup.filterMap ?_ fs.table.keys_nodup
  intro a b name ha hb
  rw [Option.mem_def, nameIn_eq_some] at ha hb
  rw [ha, hb]

theorem validName_of_mem_names (h : name ∈ fs.names p) : ValidName name := by
  obtain ⟨e, he⟩ := mem_names.mp h
  exact valid_of_entry he name (by simp)

/-! ### Changing the table -/

variable (fs) in
/-- A location where an entry may be created: free, validly named, and inside a directory. -/
def Vacant (p : Path) : Prop :=
  fs.entry p = none ∧ (∀ name ∈ p, ValidName name) ∧ fs.isDirectory p.dropLast = true

instance (p : Path) : Decidable (fs.Vacant p) :=
  inferInstanceAs (Decidable (_ ∧ _ ∧ _))

theorem Vacant.ne_nil (h : fs.Vacant p) : p ≠ [] := by
  rintro rfl
  simpa using h.1

theorem Vacant.notMem (h : fs.Vacant p) : p ∉ fs.table := by
  rw [← AList.lookup_eq_none, ← fs.entry_of_ne_nil h.ne_nil, h.1]

private theorem lookup_directory (h : fs.isDirectory p = true) (hp : p ≠ []) :
    ∃ mode, fs.table.lookup p = some (.directory mode) := by
  obtain ⟨mode, hmode⟩ := fs.isDirectory_iff.mp h
  exact ⟨mode, by rw [← fs.entry_of_ne_nil hp, hmode]⟩

variable (fs) in
/-- Add an entry at a vacant location. -/
def create (p : Path) (e : Entry) (h : fs.Vacant p) (hs : e.Short) : FileSystem where
  table := fs.table.insert p e
  rooted := by
    rw [AList.mem_insert, not_or]
    exact ⟨h.ne_nil.symm, fs.rooted⟩
  valid q hq := by
    rcases (AList.mem_insert _).mp hq with rfl | hq
    · exact h.2.1
    · exact fs.valid q hq
  closed q name hq := by
    rcases eq_or_ne q [] with rfl | hne
    · exact .inl rfl
    · right
      have hdir : ∃ mode, fs.table.lookup q = some (.directory mode) := by
        rcases (AList.mem_insert _).mp hq with rfl | hq
        · exact lookup_directory (by simpa using h.2.2) hne
        · exact (fs.closed q name hq).resolve_left hne
      obtain ⟨mode, hmode⟩ := hdir
      refine ⟨mode, ?_⟩
      rw [AList.lookup_insert_ne, hmode]
      rintro rfl
      exact h.notMem (AList.lookup_isSome.mp (by rw [hmode]; rfl))
  short q e' he := by
    rcases eq_or_ne q p with rfl | hne
    · rw [AList.lookup_insert, Option.some.injEq] at he
      exact he ▸ hs
    · rw [AList.lookup_insert_ne hne] at he
      exact fs.short q e' he

@[simp] theorem entry_create (h : fs.Vacant p) (hs : e.Short) (q : Path) :
    (fs.create p e h hs).entry q = if q = p then some e else fs.entry q := by
  rcases eq_or_ne q [] with rfl | hq
  · simp [h.ne_nil.symm]
  · rw [entry_of_ne_nil _ hq, entry_of_ne_nil _ hq]
    rcases eq_or_ne q p with rfl | hne
    · simp [create]
    · simp [create, hne]

/-- The file system with the given entries, each created where it can be. -/
def ofEntries (entries : List (Path × Entry)) : FileSystem :=
  entries.foldl (fun fs entry =>
    if h : fs.Vacant entry.1 ∧ entry.2.Short then fs.create entry.1 entry.2 h.1 h.2 else fs) empty

variable (fs) in
/-- A location that holds a regular file. -/
def isRegular (p : Path) : Bool :=
  match fs.entry p with
  | some (.regular _ _) => true
  | _ => false

theorem isRegular_iff : fs.isRegular p = true ↔ ∃ mode bytes, fs.entry p = some (.regular mode bytes) := by
  unfold isRegular
  split
  · next mode bytes h => simp [h]
  · next h => simpa using fun mode bytes => h mode bytes

variable (fs) in
/-- Replace the contents of a regular file. -/
def rewrite (p : Path) (mode : ℕ) (bytes : Text) (h : fs.isRegular p = true) : FileSystem where
  table := fs.table.insert p (.regular mode bytes)
  rooted := by
    rw [AList.mem_insert, not_or]
    refine ⟨?_, fs.rooted⟩
    rintro rfl
    simp [isRegular] at h
  valid q hq := by
    obtain ⟨m, b, he⟩ := isRegular_iff.mp h
    rcases (AList.mem_insert _).mp hq with rfl | hq
    · exact valid_of_entry he
    · exact fs.valid q hq
  closed q name hq := by
    obtain ⟨m, b, he⟩ := isRegular_iff.mp h
    rcases eq_or_ne q [] with rfl | hne
    · exact .inl rfl
    · right
      have hdir : ∃ mode, fs.table.lookup q = some (.directory mode) := by
        rcases (AList.mem_insert _).mp hq with rfl | hq
        · exact lookup_directory (isDirectory_of_entry_concat he) hne
        · exact (fs.closed q name hq).resolve_left hne
      obtain ⟨mode', hmode⟩ := hdir
      refine ⟨mode', ?_⟩
      rw [AList.lookup_insert_ne, hmode]
      rintro rfl
      rw [fs.entry_of_ne_nil hne, hmode] at he
      simp at he
  short q e' he := by
    rcases eq_or_ne q p with rfl | hne
    · rw [AList.lookup_insert, Option.some.injEq] at he
      exact he ▸ Entry.short_regular mode bytes
    · rw [AList.lookup_insert_ne hne] at he
      exact fs.short q e' he

@[simp] theorem entry_rewrite {mode : ℕ} {bytes : Text} (h : fs.isRegular p = true) (q : Path) :
    (fs.rewrite p mode bytes h).entry q = if q = p then some (.regular mode bytes) else fs.entry q := by
  have hp : p ≠ [] := by
    rintro rfl
    simp [isRegular] at h
  rcases eq_or_ne q [] with rfl | hq
  · simp [hp.symm]
  · rw [entry_of_ne_nil _ hq, entry_of_ne_nil _ hq]
    rcases eq_or_ne q p with rfl | hne
    · simp [rewrite]
    · simp [rewrite, hne]

variable (fs) in
/-- Remove an entry that holds no other entry. -/
def remove (p : Path) (h : fs.names p = []) : FileSystem where
  table := fs.table.erase p
  rooted hmem := fs.rooted (AList.mem_erase.mp hmem).2
  valid q hq := fs.valid q (AList.mem_erase.mp hq).2
  closed q name hq := by
    have hmem := (AList.mem_erase.mp hq).2
    rcases fs.closed q name hmem with rfl | ⟨mode, hmode⟩
    · exact .inl rfl
    · refine .inr ⟨mode, ?_⟩
      rw [AList.lookup_erase_ne, hmode]
      rintro rfl
      obtain ⟨e, he⟩ := Option.isSome_iff_exists.mp (AList.lookup_isSome.mpr hmem)
      have hlisted : name ∈ fs.names q := mem_names.mpr ⟨e, by rw [fs.entry_of_ne_nil (by simp), he]⟩
      rw [h] at hlisted
      exact absurd hlisted (by simp)
  short q e' he := by
    rcases eq_or_ne q p with rfl | hne
    · simp at he
    · rw [AList.lookup_erase_ne hne] at he
      exact fs.short q e' he

@[simp] theorem entry_remove (h : fs.names p = []) (q : Path) :
    (fs.remove p h).entry q = if q = p ∧ q ≠ [] then none else fs.entry q := by
  rcases eq_or_ne q [] with rfl | hq
  · simp
  · rw [entry_of_ne_nil _ hq, entry_of_ne_nil _ hq]
    rcases eq_or_ne q p with rfl | hne
    · simp [remove, hq]
    · simp [remove, hne]

end FileSystem

end P101Test
