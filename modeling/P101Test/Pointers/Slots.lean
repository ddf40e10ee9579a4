import Mathlib.Data.List.Basic
import Mathlib.Data.List.TakeWhile

/-!
# Arrays of pointers

An array as a C program meets it: a null pointer, or its cells. The cells of an array of pointers are slots,
each of which is null or points to something. An access through a null pointer or outside of the cells is a
violation.

## Main definitions

* `Cells`, `Slots`, `Violation`: arrays, arrays of pointers, and what may go wrong with an access.
* `load`, `store`, `loadAll`: reading a cell, writing one, and reading the first ones in turn.
* `filled`: an array that is filled up to some slot.
* `untilNull`: what stands before the first null slot.

## Main results

* `loadAll_null`, `loadAll_some`: reading in turn goes wrong through a null pointer, and right for cells that
  are there.
* `load_filled`, `store_filled`: reading from a filled array and filling one more slot.
* `untilNull_filled`: a filled array ends at its first null slot.
-/

namespace P101Test.Pointers

/-- What may go wrong with an access. -/
inductive Violation
  | nullPointer
  | outOfBounds
  deriving DecidableEq, Repr

/-- An array: null, or its cells. -/
abbrev Cells (α : Type) := Option (List α)

/-- An array of pointers. -/
abbrev Slots (α : Type) := Cells (Option α)

variable {α : Type}

/-- Reading a cell. -/
def load (array : Cells α) (index : ℕ) : Except Violation α :=
  match array with
  | none => .error .nullPointer
  | some cells =>
    match cells[index]? with
    | none => .error .outOfBounds
    | some cell => .ok cell

/-- Writing a cell. -/
def store (array : Cells α) (index : ℕ) (cell : α) : Except Violation (Cells α) :=
  match array with
  | none => .error .nullPointer
  | some cells => if index < cells.length then .ok (some (cells.set index cell)) else .error .outOfBounds

/-- Reading a number of cells in turn, from an index on. -/
def loadFrom (array : Cells α) (index : ℕ) : ℕ → Except Violation (List α)
  | 0 => .ok []
  | count + 1 =>
    match load array index with
    | .error violation => .error violation
    | .ok cell =>
      match loadFrom array (index + 1) count with
      | .error violation => .error violation
      | .ok cells => .ok (cell :: cells)

/-- Reading the first cells in turn. -/
def loadAll (array : Cells α) (count : ℕ) : Except Violation (List α) := loadFrom array 0 count

/-- An array that holds some values, with room behind them. -/
def filled (values : List α) (room : ℕ) : Slots α := some (values.map some ++ List.replicate room none)

/-- What stands before the first null slot. -/
def untilNull (array : Slots α) : List α :=
  ((array.getD []).takeWhile Option.isSome).filterMap id

/-! ### Reading in turn -/

@[simp] theorem loadAll_zero (array : Cells α) : loadAll array 0 = .ok [] := rfl

theorem loadAll_null {count : ℕ} (h : 0 < count) :
    loadAll (none : Cells α) count = .error .nullPointer := by
  cases count with
  | zero => exact absurd h (Nat.lt_irrefl 0)
  | succ count => rfl

theorem loadFrom_some {cells : List α} {index count : ℕ} (h : index + count ≤ cells.length) :
    loadFrom (some cells) index count = .ok ((cells.drop index).take count) := by
  induction count generalizing index with
  | zero => rw [List.take_zero]; rfl
  | succ count ih =>
      have hindex : index < cells.length := by omega
      rw [loadFrom, load, List.getElem?_eq_getElem hindex]
      dsimp only
      rw [ih (by omega), List.drop_eq_getElem_cons hindex, List.take_succ_cons]

theorem loadAll_some {cells : List α} {count : ℕ} (h : count ≤ cells.length) :
    loadAll (some cells) count = .ok (cells.take count) := by
  rw [loadAll, loadFrom_some (by omega), List.drop_zero]

/-! ### Filled arrays -/

variable {values : List α} {room : ℕ}

theorem load_filled {index : ℕ} {value : α} (h : values[index]? = some value) :
    load (filled values room) index = .ok (some value) := by
  obtain ⟨hindex, hvalue⟩ := List.getElem?_eq_some_iff.mp h
  have hslot : (values.map some ++ List.replicate room none)[index]? = some (some value) := by
    rw [List.getElem?_append_left (by simpa using hindex), List.getElem?_map, h]
    rfl
  simp only [load, filled, hslot]

/-- Filling the first slot that is left. -/
theorem store_filled (values : List α) (room : ℕ) (value : α) :
    store (filled values (room + 1)) values.length (some value) = .ok (filled (values ++ [value]) room) := by
  have hlength : values.length < (values.map some ++ List.replicate (room + 1) none).length := by
    simp
  have hset : (values.map some ++ List.replicate (room + 1) none).set values.length (some value) =
      (values ++ [value]).map some ++ List.replicate room none := by
    rw [List.set_append_right _ _ (by simp), List.length_map, Nat.sub_self, List.replicate_succ,
      List.set_cons_zero, List.map_append, List.append_assoc]
    rfl
  simp only [store, filled, if_pos hlength, hset]

/-- A filled array ends at its first null slot. -/
theorem untilNull_filled (values : List α) (room : ℕ) : untilNull (filled values room) = values := by
  have hroom : (List.replicate room (none : Option α)).takeWhile Option.isSome = [] := by
    cases room <;> rfl
  have hvalues : ∀ slot ∈ values.map some, slot.isSome = true := by simp
  rw [untilNull, filled, Option.getD_some, List.takeWhile_append_of_pos hvalues, hroom, List.append_nil,
    List.filterMap_map]
  exact List.filterMap_some

theorem store_some {cells : List α} {index : ℕ} (cell : α) (h : index < cells.length) :
    store (some cells) index cell = .ok (some (cells.set index cell)) := if_pos h

end P101Test.Pointers
