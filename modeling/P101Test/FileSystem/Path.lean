import Mathlib.Data.List.Infix
import Mathlib.Tactic.Common

/-!
# Path names and their components

A path name is a text; the kernel reads it as a list of components. This file gives the two
readings and the lemmas that pass from one to the other: appending a name behind a slash appends
a component, and one rendered path is a textual prefix of another, up to a component boundary,
exactly when its list of components is a prefix.

## Main definitions

* `Text`, `Path`, `ValidName`: C strings, lists of components, and the names a directory can hold.
* `segments`, `components`: the components of a path name, with the single dot that stands for a
  trailing slash.
* `pathText`: the absolute path name of a list of components.

## Main results

* `segments_append_slash`: a joined path name has one more component.
* `segments_pathText`: a rendered path reads back as itself.
* `pathText_prefix_iff`: the prefix test on texts is the prefix test on components.
-/

namespace P101Test

/-- A C string, or the bytes of a file: a list of characters. -/
abbrev Text := List Char

/-- A location in a file system: the names met on the way down from the root. -/
abbrev Path := List Text

/-- The names a directory entry can carry. -/
def ValidName (name : Text) : Prop :=
  name ≠ [] ∧ '/' ∉ name ∧ name ≠ ".".toList ∧ name ≠ "..".toList

instance (name : Text) : Decidable (ValidName name) :=
  inferInstanceAs (Decidable (_ ∧ _ ∧ _ ∧ _))

namespace ValidName

variable {name : Text}

theorem ne_nil (h : ValidName name) : name ≠ [] := h.1

theorem no_slash (h : ValidName name) : '/' ∉ name := h.2.1

theorem ne_dot (h : ValidName name) : name ≠ ".".toList := h.2.2.1

theorem ne_dotdot (h : ValidName name) : name ≠ "..".toList := h.2.2.2

end ValidName

/-! ### Components -/

/-- The nonempty runs between slashes. -/
def segments (text : Text) : List Text :=
  (text.splitOn '/').filter (· ≠ [])

/-- The components the kernel walks: a trailing slash after some name stands for a final dot. -/
def components (text : Text) : List Text :=
  if text.getLast? = some '/' ∧ segments text ≠ [] then segments text ++ [".".toList]
  else segments text

/-- Whether a path name starts at the root. -/
def isAbsolute (text : Text) : Bool :=
  text.head? == some '/'

/-- Joining two texts by a slash joins their segments. -/
theorem segments_append_slash (a b : Text) :
    segments (a ++ '/' :: b) = segments a ++ segments b := by
  rw [segments, List.splitOn_append_cons_self, List.filter_append, segments, segments]

@[simp] theorem segments_nil : segments [] = [] := rfl

/-- A text without slashes is one segment. -/
theorem segments_of_no_slash {name : Text} (hne : name ≠ []) (h : '/' ∉ name) :
    segments name = [name] := by
  have hsplit : name.splitOn '/' = [name] := List.splitOn_eq_singleton h
  simp [segments, hsplit, hne]

theorem getLast?_ne_slash {name : Text} (hne : name ≠ []) (h : '/' ∉ name) (a : Text) :
    (a ++ name).getLast? ≠ some '/' := by
  rw [List.getLast?_append_of_ne_nil _ hne]
  intro hlast
  exact h (List.mem_of_getLast? hlast)

/-- Without a trailing slash the components are the segments. -/
theorem components_of_plain {text : Text} (h : text.getLast? ≠ some '/') :
    components text = segments text := by
  simp [components, h]

/-! ### Rendered paths -/

/-- The absolute path name of a nonempty list of components; empty for the root. -/
def pathText (path : Path) : Text :=
  path.flatMap fun name => '/' :: name

@[simp] theorem pathText_nil : pathText [] = [] := rfl

@[simp] theorem pathText_cons (name : Text) (path : Path) :
    pathText (name :: path) = '/' :: (name ++ pathText path) := by
  simp [pathText]

@[simp] theorem pathText_append (p q : Path) : pathText (p ++ q) = pathText p ++ pathText q := by
  simp [pathText]

theorem pathText_singleton (name : Text) : pathText [name] = '/' :: name := by simp

/-- A rendered path reads back as its components. -/
theorem segments_append_pathText (text : Text) {path : Path} (h : ∀ name ∈ path, ValidName name) :
    segments (text ++ pathText path) = segments text ++ path := by
  induction path generalizing text with
  | nil => simp
  | cons name path ih =>
      have hname := h name List.mem_cons_self
      have hjoin : text ++ pathText (name :: path) = (text ++ '/' :: name) ++ pathText path := by
        simp
      rw [hjoin, ih _ fun n hn => h n (List.mem_cons_of_mem _ hn), segments_append_slash,
        segments_of_no_slash hname.ne_nil hname.no_slash]
      simp

theorem segments_pathText {path : Path} (h : ∀ name ∈ path, ValidName name) :
    segments (pathText path) = path := by
  simpa using segments_append_pathText [] h

/-- A rendered path does not end in a slash. -/
theorem getLast?_append_pathText {text : Text} (htext : text.getLast? ≠ some '/') {path : Path}
    (h : ∀ name ∈ path, ValidName name) : (text ++ pathText path).getLast? ≠ some '/' := by
  rcases List.eq_nil_or_concat path with rfl | ⟨init, name, rfl⟩
  · simpa using htext
  · have hname := h name (by simp)
    have := getLast?_ne_slash hname.ne_nil hname.no_slash (text ++ pathText init ++ ['/'])
    simpa using this

/-- After a rendered path, either the text ends or a new component starts. -/
private theorem prefix_of_boundary {a b : Text} {x y : Text} (ha : '/' ∉ a) (hb : '/' ∉ b)
    (hx : x = [] ∨ x.head? = some '/') (hy : y = [] ∨ y.head? = some '/')
    (h : a ++ x = b ++ y) : a = b := by
  induction a generalizing b with
  | nil =>
      cases b with
      | nil => rfl
      | cons c b =>
          rcases hx with rfl | hx
          · simp at h
          · simp only [List.nil_append] at h
            subst h
            simp only [List.cons_append, List.head?_cons, Option.some.injEq] at hx
            exact absurd (by simp [hx]) hb
  | cons c a ih =>
      cases b with
      | nil =>
          rcases hy with rfl | hy
          · simp at h
          · simp only [List.nil_append] at h
            subst h
            simp only [List.cons_append, List.head?_cons, Option.some.injEq] at hy
            exact absurd (by simp [hy]) ha
      | cons d b =>
          simp only [List.cons_append, List.cons.injEq] at h
          simp only [List.mem_cons, not_or] at ha hb
          rw [h.1, ih ha.2 hb.2 h.2]

theorem pathText_boundary (path : Path) : pathText path = [] ∨ (pathText path).head? = some '/' := by
  cases path <;> simp

/-- **Component boundaries.** One rendered path followed by a boundary is another rendered path
exactly when its components are a prefix of the other's. -/
theorem pathText_prefix_iff {p q : Path} (hp : ∀ name ∈ p, ValidName name)
    (hq : ∀ name ∈ q, ValidName name) :
    (∃ rest, pathText q = pathText p ++ rest ∧ (rest = [] ∨ rest.head? = some '/')) ↔ p <+: q := by
  constructor
  · rintro ⟨rest, heq, hrest⟩
    induction p generalizing q with
    | nil => exact List.nil_prefix
    | cons name p ih =>
        cases q with
        | nil => simp at heq
        | cons name' q =>
            simp only [pathText_cons, List.cons_append, List.cons.injEq, true_and,
              List.append_assoc] at heq
            have hn := hp name List.mem_cons_self
            have hn' := hq name' List.mem_cons_self
            have hname : name' = name := by
              refine prefix_of_boundary hn'.no_slash hn.no_slash (pathText_boundary q) ?_ heq
              rcases pathText_boundary p with hnil | hhead
              · simpa [hnil] using hrest
              · right
                simp [List.head?_append, hhead]
            subst hname
            have htail := ih (fun n h => hp n (List.mem_cons_of_mem _ h))
              (fun n h => hq n (List.mem_cons_of_mem _ h)) (List.append_cancel_left heq)
            exact List.cons_prefix_cons.mpr ⟨rfl, htail⟩
  · rintro ⟨t, rfl⟩
    exact ⟨pathText t, by simp, pathText_boundary t⟩

end P101Test
