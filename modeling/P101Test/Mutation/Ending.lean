import P101Test.Mutation.Execution
import P101Test.Mutation.RemovalRun

/-!
# Executions that end

The copy descends by path text as the removal does, and a directory it finds at its destination does not stop
it: on a path name that was cut it can meet one directory again and again. A run of the copy with a number of
levels ends only where that many are enough. An execution ends where its copy and its removal do.

## Main definitions

* `copyEntriesWithin`, `copyDirectoryWithin`, `copyWithin`: runs of the copy.
* `executionEnds`: the copy and the removal of an execution end.

## Main results

* `copyTree_of_within`: a run that ends is the copy.
* `copyWithin_of_copied`: a copy that succeeds ends.
-/

namespace P101Test.Mutation

open FileSystem Stdio

variable (host : Host)

/-! ### Runs of the copy -/

/-- The loop of `p101_mutation_copy_tree` over one directory stream; nothing where the copy of an entry does
not end. -/
def copyEntriesWithin (copyChild : Text → Text → World → Option (Bool × World)) (source destination : Text) :
    List Text → World → Option (Bool × World)
  | [], w => some (true, (attempt host w).2)
  | name :: rest, w =>
    match attempt host w with
    | (false, w) => some (true, w)
    | (true, w) =>
      if w.hasError then some (true, w)
      else if name = ".".toList ∨ name = "..".toList ∨ ignoredName name then
        copyEntriesWithin copyChild source destination rest w
      else
        match copyChild (childPath source name) (childPath destination name) w with
        | none => none
        | some (false, w) => some (false, w)
        | some (true, w) => copyEntriesWithin copyChild source destination rest w

/-- The branch of `p101_mutation_copy_tree` for a directory; nothing where the loop over its stream does not
end. -/
def copyDirectoryWithin (copyChild : Text → Text → World → Option (Bool × World)) (source destination : Text)
    (mode : ℕ) (w : World) : Option (Bool × World) :=
  match call host (mkdir host.cwd destination (createdMode host mode)) w with
  | (made, w) =>
    if made.isNone ∧ w.err ≠ some (.errno .alreadyExists) then some (false, w)
    else
      match call host (opendir host.cwd source) (if w.hasError then w.reset else w) with
      | (none, w) => some (false, w)
      | (some names, w) =>
        match copyEntriesWithin host copyChild source destination names w with
        | none => none
        | some (result, w) => some (if w.hasError then false else result, w)

/-- `p101_mutation_copy_tree` within a number of levels of recursion; nothing where they are not enough. -/
def copyWithin : ℕ → Text → Text → World → Option (Bool × World)
  | 0, _, _, _ => none
  | levels + 1, source, destination, w =>
    match call host (lstat host.cwd source) w with
    | (none, w) => some (false, w)
    | (some (.directory mode), w) =>
      copyDirectoryWithin host (copyWithin levels) source destination mode w
    | (some (.link _), w) => some (copyLink host source destination w)
    | (some (.regular mode _), w) => some (copyFile host source destination mode w)
    | (some .special, w) => some (true, w)

/-- Both recursions of `p101_mutation_execute` end: that of the copy, and that of the removal on what the
commands leave of the temporary directory. -/
def executionEnds (arguments : Arguments) (candidate : Candidate) (w : World) : Bool :=
  match makeTemporary host w with
  | (none, _) => true
  | (some temp, w) =>
    (match call host (canonicalize host arguments.project) w with
      | (none, _) => true
      | (some project, w) => (copyWithin host maxLevels project (copyText temp) w).isSome) &&
    (removeWithin host maxLevels temp (executeIn host arguments candidate temp w).2.2).isSome

variable {host} {source destination : Text} {levels : ℕ} {names : List Text} {mode : ℕ} {w w' : World}
  {run : Bool × World}

/-! ### A run that ends is the copy -/

theorem copyEntries_of_within {copyChild : Text → Text → World → Option (Bool × World)}
    {copyChild' : Text → Text → World → Bool × World}
    (hchild : ∀ s d w run, copyChild s d w = some run → copyChild' s d w = run)
    (h : copyEntriesWithin host copyChild source destination names w = some run) :
    copyEntries host copyChild' source destination names w = run := by
  induction names generalizing w with
  | nil => exact Option.some.inj h
  | cons name rest ih =>
      rw [copyEntriesWithin] at h
      rw [copyEntries]
      generalize attempt host w = called at h ⊢
      rcases called with ⟨_ | _, w₁⟩
      · exact Option.some.inj h
      dsimp only at h ⊢
      by_cases herr : w₁.hasError = true
      · rw [if_pos herr] at h ⊢
        exact Option.some.inj h
      rw [if_neg herr] at h ⊢
      by_cases hskip : name = ".".toList ∨ name = "..".toList ∨ ignoredName name = true
      · rw [if_pos hskip] at h ⊢
        exact ih h
      rw [if_neg hskip] at h ⊢
      rcases hcopy : copyChild (childPath source name) (childPath destination name) w₁ with
        _ | ⟨_ | _, w₂⟩
      all_goals rw [hcopy] at h
      · cases h
      · rw [hchild _ _ _ _ hcopy]
        exact Option.some.inj h
      · rw [hchild _ _ _ _ hcopy]
        exact ih h

theorem copyDirectory_of_within {copyChild : Text → Text → World → Option (Bool × World)}
    {copyChild' : Text → Text → World → Bool × World}
    (hchild : ∀ s d w run, copyChild s d w = some run → copyChild' s d w = run)
    (h : copyDirectoryWithin host copyChild source destination mode w = some run) :
    copyDirectory host copyChild' source destination mode w = run := by
  rw [copyDirectoryWithin] at h
  rw [copyDirectory]
  generalize call host (mkdir host.cwd destination (createdMode host mode)) w = called at h ⊢
  rcases called with ⟨made, w₁⟩
  dsimp only at h ⊢
  by_cases hmade : made.isNone = true ∧ w₁.err ≠ some (.errno .alreadyExists)
  · rw [if_pos hmade] at h ⊢
    exact Option.some.inj h
  rw [if_neg hmade] at h ⊢
  generalize call host (opendir host.cwd source) (if w₁.hasError then w₁.reset else w₁) = called at h ⊢
  rcases called with ⟨_ | names, w₂⟩
  · exact Option.some.inj h
  dsimp only at h ⊢
  rcases hentries : copyEntriesWithin host copyChild source destination names w₂ with _ | entries
  all_goals rw [hentries] at h
  · cases h
  · rw [copyEntries_of_within hchild hentries]
    exact Option.some.inj h

theorem copyLevels_of_within (h : copyWithin host levels source destination w = some run) :
    copyLevels host levels source destination w = run := by
  induction levels generalizing source destination w run with
  | zero => cases h
  | succ levels ih =>
      rw [copyWithin] at h
      rw [copyLevels]
      generalize call host (lstat host.cwd source) w = called at h ⊢
      rcases called with ⟨_ | e, w₁⟩
      · exact Option.some.inj h
      cases e with
      | directory mode => exact copyDirectory_of_within (fun _ _ _ _ => ih) h
      | regular mode bytes => exact Option.some.inj h
      | link target => exact Option.some.inj h
      | special => exact Option.some.inj h

/-- A run that ends within the levels there are is the copy. -/
theorem copyTree_of_within (h : copyWithin host maxLevels source destination w = some run) :
    copyTree host source destination w = run := copyLevels_of_within h

/-! ### A copy that succeeds ends -/

theorem copyEntriesWithin_of_copied {copyChild : Text → Text → World → Option (Bool × World)}
    {copyChild' : Text → Text → World → Bool × World}
    (hchild : ∀ s d w w', copyChild' s d w = (true, w') → copyChild s d w = some (true, w'))
    (h : copyEntries host copyChild' source destination names w = (true, w')) :
    copyEntriesWithin host copyChild source destination names w = some (true, w') := by
  induction names generalizing w with
  | nil => exact congrArg some h
  | cons name rest ih =>
      rw [copyEntries] at h
      rw [copyEntriesWithin]
      generalize attempt host w = called at h ⊢
      rcases called with ⟨_ | _, w₁⟩
      · exact congrArg some h
      dsimp only at h ⊢
      by_cases herr : w₁.hasError = true
      · rw [if_pos herr] at h ⊢
        exact congrArg some h
      rw [if_neg herr] at h ⊢
      by_cases hskip : name = ".".toList ∨ name = "..".toList ∨ ignoredName name = true
      · rw [if_pos hskip] at h ⊢
        exact ih h
      rw [if_neg hskip] at h ⊢
      rcases hcopy : copyChild' (childPath source name) (childPath destination name) w₁ with ⟨_ | _, w₂⟩
      all_goals rw [hcopy] at h
      · cases h
      · rw [hchild _ _ _ _ hcopy]
        exact ih h

/-- A copy that succeeds ends within the levels there are. -/
theorem copyWithin_of_copied (h : copyLevels host levels source destination w = (true, w')) :
    copyWithin host levels source destination w = some (true, w') := by
  induction levels generalizing source destination w w' with
  | zero => cases h
  | succ levels ih =>
      rw [copyLevels] at h
      rw [copyWithin]
      generalize call host (lstat host.cwd source) w = called at h ⊢
      rcases called with ⟨_ | e, w₁⟩
      · cases h
      cases e with
      | directory mode =>
          dsimp only at h ⊢
          rw [copyDirectory] at h
          rw [copyDirectoryWithin]
          generalize call host (mkdir host.cwd destination (createdMode host mode)) w₁ = called at h ⊢
          rcases called with ⟨made, w₂⟩
          dsimp only at h ⊢
          split at h
          · cases h
          next hmade =>
          rw [if_neg hmade]
          generalize call host (opendir host.cwd source) (if w₂.hasError then w₂.reset else w₂) = called at h ⊢
          rcases called with ⟨_ | names, w₃⟩
          · cases h
          dsimp only at h ⊢
          rcases hentries : copyEntries host (copyLevels host levels) source destination names w₃ with
            ⟨result, w₄⟩
          rw [hentries] at h
          obtain ⟨hresult, rfl⟩ := Prod.mk.inj h
          dsimp only at hresult
          split at hresult
          · cases hresult
          next herr =>
          obtain rfl := hresult
          rw [copyEntriesWithin_of_copied (fun _ _ _ _ => ih) hentries]
          dsimp only
          rw [if_neg herr]
      | regular mode bytes => exact congrArg some h
      | link target => exact congrArg some h
      | special => exact congrArg some h

end P101Test.Mutation
