import Mathlib.Data.List.Perm.Basic
import Mathlib.Tactic.Common

/-!
# Cells that are overwritten

A cell that is overwritten again and again holds the last value written. Which values it can hold behind
the same values in another order is a question about the values as a set; and one order of the rows from
which the values are read makes every cell hold a given value that can hold it at all.

## Main definitions

* `written`: the content of a cell behind the values written to it.
* `CanLeave`: a value that some order leaves in the cell.
* `favour`: the rows of a kind moved behind the others.

## Main results

* `canLeave_written`, `canLeave_perm`: what a cell holds, in this order and in another.
* `written_favour`: the order that favours a value.
-/

namespace P101Test.Table

variable {α β γ κ : Type}

/-! ### Cells -/

section Cells

variable {known b : β} {values values' : List β}

/-- The content of a cell behind the values written to it. -/
def written (known : β) (values : List β) : β := values.getLast?.getD known

/-- Some order of the values leaves a value in the cell: one of them, or what was there if there are
none. -/
def CanLeave (known : β) (values : List β) (b : β) : Prop := b ∈ values ∨ values = [] ∧ known = b

/-- The order at hand leaves what the cell holds. -/
theorem canLeave_written : CanLeave known values (written known values) := by
  rcases List.eq_nil_or_concat values with rfl | ⟨front, last, rfl⟩
  · exact .inr ⟨rfl, rfl⟩
  · left
    simp [written]

/-- What can be left does not depend on the order. -/
theorem canLeave_perm (h : values.Perm values') :
    CanLeave known values b ↔ CanLeave known values' b := by
  rw [CanLeave, CanLeave, h.mem_iff]
  exact or_congr_right (and_congr_left' ⟨fun hnil => (hnil ▸ h).nil_eq.symm,
    fun hnil => (hnil ▸ h).eq_nil⟩)

end Cells

/-! ### Favouring rows -/

/-- The rows of a kind, moved behind the others. -/
def favour (p : α → Bool) (rows : List α) : List α :=
  rows.filter (fun a => !p a) ++ rows.filter p

section favour

variable {p : α → Bool} {rows : List α}

theorem favour_perm : (favour p rows).Perm rows := by
  have h := List.filter_append_perm p rows
  exact List.perm_append_comm.trans h

/-- Favouring rows favours the records read from them. -/
theorem filterMap_favour {read : α → Option γ} {q : γ → Bool}
    (h : ∀ a c, read a = some c → p a = q c) :
    (favour p rows).filterMap read = favour q (rows.filterMap read) := by
  have hpart (r : α → Bool) (r' : γ → Bool) (hr : ∀ a c, read a = some c → r a = r' c) :
      (rows.filter r).filterMap read = (rows.filterMap read).filter r' := by
    rw [List.filterMap_filter, List.filter_filterMap]
    refine List.filterMap_congr fun a _ => ?_
    cases hread : read a with
    | none => split <;> rfl
    | some c => simp [hr a c hread, Option.filter]
  rw [favour, favour, List.filterMap_append, hpart p q h,
    hpart (fun a => !p a) (fun c => !q c) fun a c hread => by rw [h a c hread]]

theorem filter_favour (q : α → Bool) : (favour p rows).filter q = favour p (rows.filter q) := by
  simp only [favour, List.filter_append, List.filter_filter, Bool.and_comm]

end favour

/-- **Overwriting.** The order that favours a value leaves it exactly when some order does. -/
theorem written_favour [DecidableEq β] {known b : β} {values : List β} :
    written known (favour (fun value => value = b) values) = b ↔ CanLeave known values b := by
  constructor
  · intro h
    rw [← canLeave_perm favour_perm]
    exact h ▸ canLeave_written
  · rintro (hmem | ⟨rfl, rfl⟩)
    · have hne : values.filter (fun value => value = b) ≠ [] := by simpa using hmem
      have hend : (values.filter fun value => value = b).getLast hne = b := by
        have hlast := (List.mem_filter.mp (List.getLast_mem hne)).2
        exact of_decide_eq_true hlast
      rw [favour, ← List.dropLast_append_getLast hne, hend, written, ← List.append_assoc,
        List.getLast?_concat, Option.getD_some]
    · rfl

end P101Test.Table
