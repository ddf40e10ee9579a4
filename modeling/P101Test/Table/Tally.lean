import Mathlib.Algebra.BigOperators.Group.List.Basic
import Mathlib.Algebra.Order.Ring.Nat
import Mathlib.Data.List.Induction
import Mathlib.Data.List.Nodup
import Mathlib.Tactic.Common

/-!
# Tallies by key

Rows have keys and weights. The keys, each at its first occurrence, and the tally of the weights under
each key account for the rows: the tallies of all keys add up to the weight of all rows.

## Main definitions

* `keys`: the keys of rows in the order of their first occurrence.
* `under`: the rows with a key.
* `tally`: the weight of the rows with a key.

## Main results

* `sum_tally`: the tallies under distinct keys that cover the rows add up to the weight of the rows.
-/

namespace P101Test.Table

variable {κ ρ : Type} [DecidableEq κ] {key : ρ → κ} {weight : ρ → ℕ} {rows : List ρ} {row : ρ} {k : κ}

/-! ### The keys -/

/-- The keys of the rows, in the order of their first occurrence and without duplicates. -/
def keys (key : ρ → κ) (rows : List ρ) : List κ := (rows.map key).eraseDups

theorem mem_keys : k ∈ keys key rows ↔ ∃ row ∈ rows, key row = k := by
  rw [keys, List.mem_eraseDups, List.mem_map]

/-- One more row whose key occurred before. -/
theorem keys_append_of_mem (h : key row ∈ keys key rows) : keys key (rows ++ [row]) = keys key rows := by
  rw [keys, List.mem_eraseDups] at h
  rw [keys, List.map_append, List.eraseDups_append, List.map_singleton, List.removeAll,
    List.filter_cons_of_neg (by simpa using h), List.filter_nil, List.eraseDups_nil, List.append_nil, keys]

/-- One more row with a new key. -/
theorem keys_append_of_notMem (h : key row ∉ keys key rows) :
    keys key (rows ++ [row]) = keys key rows ++ [key row] := by
  rw [keys, List.mem_eraseDups] at h
  rw [keys, List.map_append, List.eraseDups_append, List.map_singleton, List.removeAll,
    List.filter_cons_of_pos (by simpa using h), List.filter_nil, keys]
  rfl

theorem nodup_keys (key : ρ → κ) (rows : List ρ) : (keys key rows).Nodup := by
  induction rows using List.reverseRecOn with
  | nil => exact List.nodup_nil
  | append_singleton rows row ih =>
      by_cases h : key row ∈ keys key rows
      · rwa [keys_append_of_mem h]
      · rw [keys_append_of_notMem h]
        exact List.nodup_append.mpr ⟨ih, List.nodup_singleton _, by
          rintro a ha b hb rfl
          rw [List.mem_singleton] at hb
          exact h (hb ▸ ha)⟩

/-- Changing the entry of one key in a list of entries by distinct keys. -/
theorem modify_findIdx? {α : Type} {ks : List κ} (entry : κ → α) (f : α → α) (hnodup : ks.Nodup)
    (hmem : k ∈ ks) :
    ∃ i, ks.findIdx? (fun k' => decide (k' = k)) = some i ∧
      (ks.map entry).modify i f = ks.map fun k' => if k' = k then f (entry k') else entry k' := by
  induction ks with
  | nil => exact absurd hmem List.not_mem_nil
  | cons k' rest ih =>
      obtain ⟨hnotMem, hrest⟩ := List.nodup_cons.mp hnodup
      rw [List.findIdx?_cons]
      by_cases hkey : k' = k
      · subst hkey
        have hsame : rest.map entry = rest.map fun k => if k = k' then f (entry k) else entry k :=
          List.map_congr_left fun k hk => (if_neg fun heq : k = k' => hnotMem (heq ▸ hk)).symm
        exact ⟨0, if_pos (decide_eq_true rfl), by simp [← hsame]⟩
      · obtain ⟨i, hi, hmodify⟩ := ih hrest ((List.mem_cons.mp hmem).resolve_left (Ne.symm hkey))
        exact ⟨i + 1, by simp [hkey, hi], by simp [hkey, hmodify]⟩

/-! ### The tallies -/

/-- The rows with a key. -/
def under (key : ρ → κ) (rows : List ρ) (k : κ) : List ρ := rows.filter fun row => key row = k

/-- The weight of the rows with a key. -/
def tally (key : ρ → κ) (weight : ρ → ℕ) (rows : List ρ) (k : κ) : ℕ :=
  ((under key rows k).map weight).sum

theorem under_append_of_eq (h : key row = k) :
    under key (rows ++ [row]) k = under key rows k ++ [row] := by
  rw [under, List.filter_append, List.filter_cons_of_pos (by simpa using h), List.filter_nil, under]

theorem under_append_of_ne (h : key row ≠ k) : under key (rows ++ [row]) k = under key rows k := by
  rw [under, List.filter_append, List.filter_cons_of_neg (by simpa using h), List.filter_nil,
    List.append_nil, under]

/-- No row has a key that does not occur. -/
theorem under_of_notMem (h : k ∉ keys key rows) : under key rows k = [] := by
  rw [under, List.filter_eq_nil_iff]
  intro row hrow hkey
  exact h (mem_keys.mpr ⟨row, hrow, of_decide_eq_true hkey⟩)

theorem tally_append_of_eq (h : key row = k) :
    tally key weight (rows ++ [row]) k = tally key weight rows k + weight row := by
  rw [tally, under_append_of_eq h, List.map_append, List.sum_append, List.map_singleton,
    List.sum_singleton, tally]

theorem tally_append_of_ne (h : key row ≠ k) :
    tally key weight (rows ++ [row]) k = tally key weight rows k := by
  rw [tally, under_append_of_ne h, tally]

/-- One more row adds its weight once. -/
theorem sum_tally_append {ks : List κ} (hnodup : ks.Nodup) (hmem : key row ∈ ks) :
    (ks.map (tally key weight (rows ++ [row]))).sum = (ks.map (tally key weight rows)).sum + weight row := by
  induction ks with
  | nil => exact absurd hmem List.not_mem_nil
  | cons k rest ih =>
      obtain ⟨hnotMem, hrest⟩ := List.nodup_cons.mp hnodup
      rw [List.map_cons, List.sum_cons, List.map_cons, List.sum_cons]
      by_cases hkey : key row = k
      · have hsame : rest.map (tally key weight (rows ++ [row])) = rest.map (tally key weight rows) :=
          List.map_congr_left fun k' hk' => tally_append_of_ne fun heq => hnotMem (hkey ▸ heq ▸ hk')
        rw [tally_append_of_eq hkey, hsame]
        omega
      · have hmem' := (List.mem_cons.mp hmem).resolve_left hkey
        rw [tally_append_of_ne hkey, ih hrest hmem']
        omega

/-- **Tallies.** The tallies under distinct keys that cover the rows add up to the weight of the
rows. -/
theorem sum_tally {ks : List κ} (hnodup : ks.Nodup) (hcover : ∀ row ∈ rows, key row ∈ ks) :
    (ks.map (tally key weight rows)).sum = (rows.map weight).sum := by
  induction rows using List.reverseRecOn with
  | nil =>
      have hzero : ks.map (tally key weight []) = List.replicate ks.length 0 :=
        List.map_eq_replicate_iff.mpr fun _ _ => rfl
      rw [hzero, List.sum_replicate_nat, Nat.mul_zero, List.map_nil, List.sum_nil]
  | append_singleton rows row ih =>
      rw [sum_tally_append hnodup (hcover row (by simp)),
        ih fun row' h => hcover row' (List.mem_append_left _ h), List.map_append, List.sum_append,
        List.map_singleton, List.sum_singleton]

/-- The number of rows with a key is the tally of ones. -/
theorem length_under (k : κ) : (under key rows k).length = tally key (fun _ => 1) rows k := by
  simp [tally]

end P101Test.Table
