import Mathlib.Data.List.Sort

/-!
# Insertion sort in an array

The sort that takes the items of an array one after the other and moves the greater ones before each of
them up by one place. It is the insertion sort of the items in reverse order, read backwards; so it
orders any array, and arrays with the same items alike.

## Main definitions

* `shift`: putting one item in its place.
* `sort`: the sort.

## Main results

* `sort_eq`: the sort is an insertion sort.
* `perm_sort`, `pairwise_sort`: the result has the same items, in order.
* `sort_eq_of_perm`: the result depends on the items alone.
-/

namespace P101Test.Sorting

variable {α : Type} (cmp : α → α → Ordering)

/-- The inner loop: from a cursor down, the items that are greater than a given one move up by one place,
and that one is put below them. -/
def shift (item : α) : ℕ → List α → List α
  | 0, items => items.set 0 item
  | cursor + 1, items =>
    match items[cursor]? with
    | none => items
    | some before =>
      if (cmp before item).isLE then items.set (cursor + 1) item
      else shift item cursor (items.set (cursor + 1) before)

/-- One round of the outer loop. -/
def round (items : List α) (index : ℕ) : List α :=
  match items[index]? with
  | none => items
  | some item => shift cmp item index items

/-- The sort. -/
def sort (items : List α) : List α :=
  (List.range' 1 (items.length - 1)).foldl (round cmp) items

/-- An item may come behind another one. -/
def Behind (a b : α) : Prop := (cmp b a).isLE = true

instance (a b : α) : Decidable (Behind cmp a b) := inferInstanceAs (Decidable (_ = true))

variable {cmp}

/-- The inner loop inserts an item into those before it. -/
theorem shift_append (item : α) (before : List α) (there : α) (rest : List α) :
    shift cmp item before.length (before.reverse ++ there :: rest) =
      (before.orderedInsert (Behind cmp) item).reverse ++ rest := by
  induction before generalizing there rest with
  | nil => rfl
  | cons last before ih =>
      have hlast : ((last :: before).reverse ++ there :: rest)[before.length]? = some last := by
        simp
      rw [List.length_cons, shift, hlast]
      dsimp only
      rw [List.orderedInsert_cons]
      split
      · next hle =>
        rw [if_pos (show Behind cmp item last from hle)]
        simp
      · next hgt =>
        have hmoved : ((last :: before).reverse ++ there :: rest).set (before.length + 1) last =
            before.reverse ++ last :: last :: rest := by
          simp
        rw [if_neg (show ¬Behind cmp item last from hgt), hmoved, ih]
        simp

/-- What the array holds after some rounds: the first items, sorted, and the others. -/
theorem foldl_round (items : List α) (n : ℕ) (hn : n < items.length) :
    (List.range' 1 n).foldl (round cmp) items =
      ((items.take (n + 1)).reverse.insertionSort (Behind cmp)).reverse ++ items.drop (n + 1) := by
  induction n with
  | zero =>
      cases items with
      | nil => cases hn
      | cons a rest => simp
  | succ n ih =>
      have hlength : ((items.take (n + 1)).reverse.insertionSort (Behind cmp)).length = n + 1 := by
        rw [List.length_insertionSort, List.length_reverse, List.length_take]
        omega
      have hdrop : items.drop (n + 1) = items[n + 1] :: items.drop (n + 2) :=
        List.drop_eq_getElem_cons hn
      have htake : (items.take (n + 2)).reverse = items[n + 1] :: (items.take (n + 1)).reverse := by
        rw [List.take_succ_eq_append_getElem hn, List.reverse_append]
        rfl
      rw [List.range'_1_concat, List.foldl_append, ih (by omega), List.foldl_cons, List.foldl_nil,
        Nat.add_comm 1 n, hdrop, htake, List.insertionSort_cons]
      generalize (items.take (n + 1)).reverse.insertionSort (Behind cmp) = sorted at hlength
      have hat : (sorted.reverse ++ items[n + 1] :: items.drop (n + 2))[n + 1]? = some items[n + 1] := by
        rw [List.getElem?_append_right (by simp [hlength])]
        simp [hlength]
      rw [round, hat]
      dsimp only
      generalize items[n + 1] = item
      generalize items.drop (n + 2) = rest
      have hshift := @shift_append _ cmp item sorted item rest
      rwa [hlength] at hshift

/-- **The sort.** It is the insertion sort of the items in reverse order, read backwards. -/
theorem sort_eq (items : List α) :
    sort cmp items = (items.reverse.insertionSort (Behind cmp)).reverse := by
  cases items with
  | nil => rfl
  | cons a rest =>
      have h := @foldl_round _ cmp (a :: rest) rest.length (by simp)
      simpa [sort] using h

theorem perm_sort (items : List α) : (sort cmp items).Perm items := by
  rw [sort_eq]
  exact (List.reverse_perm _).trans ((List.perm_insertionSort _ _).trans (List.reverse_perm _))

section Order

variable [Std.TransCmp cmp]

instance : Std.Total (Behind cmp) where
  total a b := by
    unfold Behind
    by_cases h : (cmp b a).isLE = true
    · exact .inl h
    · exact .inr (Ordering.isLE_of_eq_lt (Std.OrientedCmp.lt_of_not_isLE h))

instance : IsTrans α (Behind cmp) where
  trans _ _ _ hab hbc := Std.TransCmp.isLE_trans hbc hab

theorem pairwise_sort (items : List α) :
    (sort cmp items).Pairwise fun a b => (cmp a b).isLE = true := by
  rw [sort_eq, List.pairwise_reverse]
  exact List.pairwise_insertionSort (Behind cmp) items.reverse

variable [Std.LawfulEqCmp cmp]

/-- Arrays with the same items are sorted alike. -/
theorem sort_eq_of_perm {items items' : List α} (h : items.Perm items') :
    sort cmp items = sort cmp items' := by
  refine List.Perm.eq_of_pairwise (fun a b _ _ hab hba => ?_) (pairwise_sort items)
    (pairwise_sort items') ((perm_sort items).trans (h.trans (perm_sort items').symm))
  exact Std.LawfulEqCmp.eq_of_compare (Std.OrientedCmp.isLE_antisymm hab hba)

/-- Distinct items are sorted strictly. -/
theorem pairwise_lt_sort {items : List α} (h : items.Nodup) :
    (sort cmp items).Pairwise fun a b => cmp a b = .lt := by
  have hnodup : (sort cmp items).Pairwise fun a b => a ≠ b := (perm_sort items).nodup_iff.mpr h
  refine (List.Pairwise.and (pairwise_sort items) hnodup).imp fun {a b} ⟨hle, hne⟩ => ?_
  rcases Ordering.isLE_iff_eq_lt_or_eq_eq.mp hle with hlt | heq
  · exact hlt
  · exact absurd (Std.LawfulEqCmp.eq_of_compare heq) hne

end Order

end P101Test.Sorting
