import P101Test.Mutation.Frames
import P101Test.Pointers.Slots

/-!
# Allocations of the mutation tool

The world together with the number of allocations so far. Which allocations fail is a pattern that is given:
a statement over all patterns covers every combination of failures. A failure is recorded.

## Main definitions

* `Heap`: the world and the number of allocations.
* `allocate`, `calloc`, `mutationCopyText`, `mutationRewritePath`: the functions that allocate.
* `Advances`: what a step may do to the heap.
* `Grants`: a number of allocations in a row succeed.

## Main results

* `Advances.trans`: steps put together.
* `mutationCopyText_of_granted`, `mutationRewritePath_of_granted`: steps whose allocation succeeds.
-/

namespace P101Test.Mutation

open FileSystem Stdio Pointers

/-- The world and the number of allocations so far. -/
structure Heap where
  world : World
  allocations : ℕ

namespace Heap

/-- `p101_error_has_error`. -/
def hasError (heap : Heap) : Bool := heap.world.hasError

/-- A heap with another world. -/
def withWorld (heap : Heap) (w : World) : Heap := ⟨w, heap.allocations⟩

end Heap

/-- `ENOMEM`. -/
def noMemory : ℕ := 12

variable (host : Host) (denied : ℕ → Bool)

/-- An allocation: whether it succeeds. -/
def allocate (heap : Heap) : Bool × Heap :=
  if denied heap.allocations then
    (false, ⟨heap.world.raise (.errno (.host noMemory)), heap.allocations + 1⟩)
  else (true, ⟨heap.world, heap.allocations + 1⟩)

/-- `p101_calloc` of an array of pointers to texts. -/
def calloc (count : ℕ) (heap : Heap) : Slots Text × Heap :=
  match allocate denied heap with
  | (false, heap) => (none, heap)
  | (true, heap) => (filled [] count, heap)

/-- `p101_mutation_copy_text`. -/
def mutationCopyText (text : Text) (heap : Heap) : Option Text × Heap :=
  match allocate denied heap with
  | (false, heap) => (none, heap)
  | (true, heap) => (some text, heap)

/-- `p101_mutation_rewrite_path`, whose result is allocated. -/
def mutationRewritePath (project copy value : Text) (heap : Heap) : Option Text × Heap :=
  let rewritten := rewritePath host project copy value heap.world
  mutationCopyText denied rewritten.1 (heap.withWorld rewritten.2)

/-! ### Steps -/

/-- What a step may do to the heap: it launches nothing, an error that is recorded stays recorded, and an
allocation that fails leaves an error on record. -/
structure Advances (heap heap' : Heap) : Prop where
  allocations_le : heap.allocations ≤ heap'.allocations
  launches_eq : heap'.world.launches = heap.world.launches
  hasError : heap.hasError = true → heap'.hasError = true
  recorded : ∀ k, heap.allocations ≤ k → k < heap'.allocations → denied k = true → heap'.hasError = true

/-- Some allocations in a row succeed. -/
def Grants (first count : ℕ) : Prop := ∀ k, first ≤ k → k < first + count → denied k = false

variable {host denied} {heap heap₁ heap₂ : Heap}

theorem Advances.refl (heap : Heap) : Advances denied heap heap :=
  ⟨le_rfl, rfl, id, fun _ hle hlt => absurd hle (Nat.not_le.mpr hlt)⟩

/-- Steps put together. -/
theorem Advances.trans (h : Advances denied heap heap₁) (h' : Advances denied heap₁ heap₂) :
    Advances denied heap heap₂ where
  allocations_le := h.allocations_le.trans h'.allocations_le
  launches_eq := h'.launches_eq.trans h.launches_eq
  hasError := h'.hasError ∘ h.hasError
  recorded k hle hlt hdenied := by
    by_cases hfirst : k < heap₁.allocations
    · exact h'.hasError (h.recorded k hle hfirst hdenied)
    · exact h'.recorded k (Nat.le_of_not_lt hfirst) hlt hdenied

/-- A step that only changes the world. -/
theorem Advances.withWorld {w : World} (hlaunches : w.launches = heap.world.launches)
    (herror : heap.hasError = true → w.hasError = true) : Advances denied heap (heap.withWorld w) :=
  ⟨le_rfl, hlaunches, herror, fun _ hle hlt => absurd hle (Nat.not_le.mpr hlt)⟩

/-- Without an error at the end of a step, its allocations succeed. -/
theorem Advances.grants (h : Advances denied heap heap₁) (hclean : heap₁.hasError = false) {count : ℕ}
    (hcount : heap₁.allocations = heap.allocations + count) : Grants denied heap.allocations count := by
  intro k hle hlt
  by_contra hdenied
  rw [Bool.not_eq_false] at hdenied
  rw [h.recorded k hle (hcount ▸ hlt) hdenied] at hclean
  cases hclean

theorem Grants.first {first count : ℕ} (h : Grants denied first (count + 1)) : denied first = false :=
  h first le_rfl (by omega)

theorem Grants.of_le {first count count' : ℕ} (h : Grants denied first count) (hle : count' ≤ count) :
    Grants denied first count' := fun k hfirst hlt => h k hfirst (by omega)

theorem Grants.rest {first count : ℕ} (h : Grants denied first (count + 1)) :
    Grants denied (first + 1) count := fun k hle hlt => h k (by omega) (by omega)

/-- Allocations in a row that succeed. -/
theorem Grants.advances {count : ℕ} (h : Grants denied heap.allocations count) :
    Advances denied heap ⟨heap.world, heap.allocations + count⟩ := by
  refine ⟨Nat.le_add_right _ _, rfl, id, fun k hle hlt hdenied => ?_⟩
  rw [h k hle hlt] at hdenied
  cases hdenied

/-! ### Allocations -/

theorem advances_allocate (denied : ℕ → Bool) (heap : Heap) : Advances denied heap (allocate denied heap).2 := by
  unfold allocate
  split
  · exact ⟨Nat.le_succ _, rfl, fun _ => rfl, fun _ _ _ _ => rfl⟩
  · next hgranted =>
    refine ⟨Nat.le_succ _, rfl, id, fun k hle hlt hdenied => ?_⟩
    rw [Nat.le_antisymm (Nat.le_of_lt_succ hlt) hle] at hdenied
    exact absurd hdenied hgranted

theorem allocate_of_denied (h : denied heap.allocations = true) :
    (allocate denied heap).1 = false ∧ (allocate denied heap).2.hasError = true := by
  rw [allocate, if_pos h]
  exact ⟨rfl, rfl⟩

theorem allocate_of_granted (h : denied heap.allocations = false) :
    allocate denied heap = (true, ⟨heap.world, heap.allocations + 1⟩) := if_neg (by simp [h])

/-- An array whose allocation succeeds. -/
theorem calloc_of_granted (count : ℕ) (h : denied heap.allocations = false) :
    calloc denied count heap = (filled [] count, ⟨heap.world, heap.allocations + 1⟩) := by
  rw [calloc, allocate_of_granted h]

theorem advances_calloc (denied : ℕ → Bool) (count : ℕ) (heap : Heap) :
    Advances denied heap (calloc denied count heap).2 := by
  have h := advances_allocate denied heap
  unfold calloc
  rcases hresult : allocate denied heap with ⟨_ | _, heap'⟩ <;> rwa [hresult] at h

/-- An array whose allocation fails. -/
theorem calloc_of_denied (count : ℕ) (h : denied heap.allocations = true) :
    (calloc denied count heap).1 = none ∧ (calloc denied count heap).2.hasError = true := by
  obtain ⟨hfails, herror⟩ := allocate_of_denied h
  unfold calloc
  rcases hresult : allocate denied heap with ⟨_ | _, heap'⟩ <;> rw [hresult] at hfails herror
  · exact ⟨rfl, herror⟩
  · cases hfails

theorem advances_mutationCopyText (denied : ℕ → Bool) (text : Text) (heap : Heap) :
    Advances denied heap (mutationCopyText denied text heap).2 := by
  have h := advances_allocate denied heap
  unfold mutationCopyText
  rcases hresult : allocate denied heap with ⟨_ | _, heap'⟩ <;> rwa [hresult] at h

theorem allocations_mutationCopyText (denied : ℕ → Bool) (text : Text) (heap : Heap) :
    (mutationCopyText denied text heap).2.allocations = heap.allocations + 1 := by
  unfold mutationCopyText allocate
  cases denied heap.allocations <;> rfl

/-- A copy whose allocation succeeds. -/
theorem mutationCopyText_of_granted (text : Text) (h : denied heap.allocations = false) :
    mutationCopyText denied text heap = (some text, ⟨heap.world, heap.allocations + 1⟩) := by
  rw [mutationCopyText, allocate_of_granted h]

/-- Rewriting a path name records nothing. -/
theorem rewritePath_err (host : Host) (project copy value : Text) (w : World) :
    (rewritePath host project copy value w).2.err = w.err := by
  grind [rewritePath]

theorem advances_mutationRewritePath (host : Host) (denied : ℕ → Bool) (project copy value : Text)
    (heap : Heap) :
    Advances denied heap (mutationRewritePath host denied project copy value heap).2 := by
  have hlaunches : (rewritePath host project copy value heap.world).2.launches = heap.world.launches :=
    rewritePath_launches project copy value heap.world
  have herr := rewritePath_err host project copy value heap.world
  refine (Advances.withWorld hlaunches fun h => ?_).trans (advances_mutationCopyText denied _ _)
  rw [World.hasError, herr]
  exact h

theorem allocations_mutationRewritePath (host : Host) (denied : ℕ → Bool) (project copy value : Text)
    (heap : Heap) :
    (mutationRewritePath host denied project copy value heap).2.allocations = heap.allocations + 1 :=
  allocations_mutationCopyText denied _ _

/-- A rewriting whose allocation succeeds. -/
theorem mutationRewritePath_of_granted (project copy value : Text) (h : denied heap.allocations = false) :
    mutationRewritePath host denied project copy value heap =
      (some (rewritePath host project copy value heap.world).1,
        ⟨(rewritePath host project copy value heap.world).2, heap.allocations + 1⟩) := by
  exact mutationCopyText_of_granted _ h

end P101Test.Mutation
