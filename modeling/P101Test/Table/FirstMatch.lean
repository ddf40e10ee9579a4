import Mathlib.Data.List.Nodup
import Mathlib.Data.List.Perm.Subperm
import Mathlib.Tactic.Common

/-!
# Tables that are searched from the front

A table is a list whose entries have keys; a lookup finds the first entry with a key, and an update
changes that entry in place. An update never reaches the later entries with the same key, so that a
sequence of updates acts on every entry by itself: on the first entry of each key by the updates with
that key, on the others not at all.

## Main definitions

* `modifyFirst`: changing the first entry that passes a test.
* `updateAll`: a sequence of updates by key.
* `reaching`: the updates that reach an entry.
* `markAll`: marking entries by key, with the count of the keys that find no unmarked entry.

## Main results

* `getElem?_updateAll`: what a sequence of updates does to one entry.
* `markAll_complete_iff`: all entries end up marked and every key marks one exactly when the keys are
  those of the table, without duplicates.
-/

namespace P101Test.Table

variable {α κ ρ : Type} [DecidableEq κ]

/-- The table with the first entry that passes a test changed. -/
def modifyFirst (p : α → Bool) (f : α → α) : List α → List α
  | [] => []
  | a :: rest => if p a then f a :: rest else a :: modifyFirst p f rest

section modifyFirst

variable {p : α → Bool} {f : α → α} {table : List α}

theorem getElem?_modifyFirst (i : ℕ) :
    (modifyFirst p f table)[i]? =
      table[i]?.map fun a => if p a = true ∧ (table.take i).any p = false then f a else a := by
  induction table generalizing i with
  | nil => simp [modifyFirst]
  | cons a rest ih =>
      rw [modifyFirst]
      by_cases ha : p a = true
      · rw [if_pos ha]
        cases i with
        | zero => simp [ha]
        | succ i => simp [ha]
      · rw [if_neg ha]
        cases i with
        | zero => simp [ha]
        | succ i => simp [ih, ha]

theorem map_modifyFirst {β : Type} {g : α → β} (h : ∀ a, g (f a) = g a) :
    (modifyFirst p f table).map g = table.map g := by
  induction table with
  | nil => rfl
  | cons a rest ih =>
      rw [modifyFirst]
      split
      · simp [h]
      · simp [ih]

theorem modifyFirst_of_find?_eq_none (h : table.find? p = none) : modifyFirst p f table = table := by
  induction table with
  | nil => rfl
  | cons a rest ih =>
      rw [List.find?_cons] at h
      split at h
      · simp at h
      · next ha => rw [modifyFirst, if_neg (by simp [ha]), ih h]

theorem modifyFirst_of_find?_eq_some {a : α} (h : table.find? p = some a) (hf : f a = a) :
    modifyFirst p f table = table := by
  induction table with
  | nil => rfl
  | cons b rest ih =>
      rw [List.find?_cons] at h
      split at h
      · next hb =>
        obtain rfl := Option.some.inj h
        rw [modifyFirst, if_pos hb, hf]
      · next hb => rw [modifyFirst, if_neg (by simp [hb]), ih h]

theorem countP_modifyFirst {marked : α → Bool} {a : α} (h : table.find? p = some a)
    (ha : marked a = false) (hf : marked (f a) = true) :
    (modifyFirst p f table).countP marked = table.countP marked + 1 := by
  induction table with
  | nil => simp at h
  | cons b rest ih =>
      rw [List.find?_cons] at h
      split at h
      · next hb =>
        obtain rfl := Option.some.inj h
        rw [modifyFirst, if_pos hb, List.countP_cons_of_pos hf, List.countP_cons_of_neg (by simp [ha])]
      · next hb =>
        rw [modifyFirst, if_neg (by simp [hb]), List.countP_cons, List.countP_cons, ih h]
        omega

end modifyFirst

/-! ### Sequences of updates -/

/-- A sequence of updates: each row changes the first entry with its key. -/
def updateAll (key : α → κ) (rowKey : ρ → κ) (update : ρ → α → α) (rows : List ρ) (table : List α) :
    List α :=
  rows.foldl (fun table row => modifyFirst (fun a => key a = rowKey row) (update row) table) table

section updateAll

variable {key : α → κ} {rowKey : ρ → κ} {update : ρ → α → α} {rows : List ρ} {table : List α}

theorem map_updateAll {β : Type} {g : α → β} (h : ∀ row a, g (update row a) = g a) :
    (updateAll key rowKey update rows table).map g = table.map g := by
  induction rows generalizing table with
  | nil => rfl
  | cons row rest ih => rw [updateAll, List.foldl_cons, ← updateAll, ih, map_modifyFirst (h row)]

/-- The rows that reach an entry with a key, behind entries with given keys. -/
def reaching (rowKey : ρ → κ) (rows : List ρ) (earlier : List κ) (k : κ) : List ρ :=
  if k ∈ earlier then [] else rows.filter fun row => rowKey row = k

omit [DecidableEq κ] in
/-- Keys are distinct if none of them occurs before its place. -/
theorem nodup_iff_notMem_take {keys : List κ} :
    keys.Nodup ↔ ∀ i k, keys[i]? = some k → k ∉ keys.take i := by
  rw [List.Nodup, List.pairwise_iff_getElem]
  constructor
  · intro h i k hk hmem
    obtain ⟨hi, rfl⟩ := List.getElem?_eq_some_iff.mp hk
    obtain ⟨j, hj, heq⟩ := List.mem_take_iff_getElem.mp hmem
    exact h j i (by omega) hi (by omega) heq
  · intro h i j hi hj hij heq
    refine h j _ (List.getElem?_eq_getElem hj) ?_
    exact List.mem_take_iff_getElem.mpr ⟨i, by omega, heq⟩

theorem reaching_of_notMem {rows : List ρ} {rowKey : ρ → κ} {earlier : List κ} {k : κ}
    (h : k ∉ earlier) : reaching rowKey rows earlier k = rows.filter fun row => rowKey row = k :=
  if_neg h

/-- **One entry.** A sequence of updates acts on an entry by the rows that reach it. -/
theorem getElem?_updateAll (hkey : ∀ row a, key (update row a) = key a) (i : ℕ) :
    (updateAll key rowKey update rows table)[i]? = table[i]?.map fun a =>
      (reaching rowKey rows ((table.map key).take i) (key a)).foldl (fun a row => update row a) a := by
  induction rows generalizing table with
  | nil => simp [updateAll, reaching]
  | cons row rest ih =>
      have hkeys : (modifyFirst (fun a => key a = rowKey row) (update row) table).map key =
          table.map key := map_modifyFirst (hkey row)
      rw [updateAll, List.foldl_cons, ← updateAll, ih, getElem?_modifyFirst, Option.map_map]
      congr 1
      funext a
      rw [Function.comp_apply, hkeys, reaching, reaching, List.filter_cons]
      have hany : (table.take i).any (fun a => decide (key a = rowKey row)) =
          decide (rowKey row ∈ (table.map key).take i) := by
        rw [Bool.eq_iff_iff, List.any_eq_true, decide_eq_true_eq, ← List.map_take, List.mem_map]
        simp
      by_cases hrow : key a = rowKey row
      · by_cases hfirst : rowKey row ∈ (table.map key).take i
        · simp only [hany, hrow, hfirst, decide_true, Bool.true_eq_false, and_false, if_false, if_true,
            List.foldl_nil]
        · simp only [hany, hrow, hfirst, decide_true, decide_false, and_self, if_true, if_false, hkey,
            List.foldl_cons]
      · simp [hrow, Ne.symm hrow]

/-- What is left of updates that replace each other is the last one. -/
theorem foldl_of_replace (h : ∀ row row' a, update row (update row' a) = update row a) (a : α) :
    rows.foldl (fun a row => update row a) a = rows.getLast?.elim a fun row => update row a := by
  induction rows generalizing a with
  | nil => rfl
  | cons row rest ih =>
      rw [List.foldl_cons, ih, List.getLast?_cons]
      cases rest.getLast? with
      | none => rfl
      | some last => exact h last row a

end updateAll

/-! ### Marking entries -/

variable {key : α → κ} {marked : α → Bool} {mark : α → α}

/-- One key marks the first entry it finds; a key that finds no entry, or a marked one, is
counted. -/
def markOne (key : α → κ) (marked : α → Bool) (mark : α → α) (found : List α × ℕ) (k : κ) :
    List α × ℕ :=
  match found.1.find? fun a => key a = k with
  | none => (found.1, found.2 + 1)
  | some a =>
    if marked a then (found.1, found.2 + 1)
    else (modifyFirst (fun a => key a = k) mark found.1, found.2)

/-- A sequence of keys marks entries. -/
def markAll (key : α → κ) (marked : α → Bool) (mark : α → α) (keys : List κ) (table : List α) :
    List α × ℕ :=
  keys.foldl (markOne key marked mark) (table, 0)

section markAll

variable {keys : List κ} {table : List α}

theorem markOne_fst (hmarked : ∀ a, marked a = true → mark a = a) (found : List α × ℕ) (k : κ) :
    (markOne key marked mark found k).1 = modifyFirst (fun a => key a = k) mark found.1 := by
  unfold markOne
  split
  · next h => exact (modifyFirst_of_find?_eq_none h).symm
  · next a h =>
    split
    · next ha => exact (modifyFirst_of_find?_eq_some h (hmarked a ha)).symm
    · rfl

/-- One key either marks an entry or is counted. -/
theorem markOne_count (hmark : ∀ a, marked (mark a) = true) (found : List α × ℕ) (k : κ) :
    (markOne key marked mark found k).1.countP marked + (markOne key marked mark found k).2 =
      found.1.countP marked + found.2 + 1 := by
  unfold markOne
  split
  · rfl
  · next a h =>
    split
    · rfl
    · next ha =>
      show (modifyFirst _ mark found.1).countP marked + found.2 = _
      rw [countP_modifyFirst h (Bool.not_eq_true _ ▸ ha) (hmark a)]
      omega

theorem markAll_fst (hmarked : ∀ a, marked a = true → mark a = a) :
    (markAll key marked mark keys table).1 = updateAll key id (fun _ => mark) keys table := by
  have h : ∀ found : List α × ℕ, (keys.foldl (markOne key marked mark) found).1 =
      updateAll key id (fun _ => mark) keys found.1 := by
    induction keys with
    | nil => exact fun _ => rfl
    | cons k rest ih =>
        intro found
        rw [List.foldl_cons, ih, markOne_fst hmarked]
        rfl
  exact h (table, 0)

/-- **The count.** Every key has marked an entry or was counted. -/
theorem markAll_count (hmark : ∀ a, marked (mark a) = true) (hnone : ∀ a ∈ table, marked a = false) :
    (markAll key marked mark keys table).1.countP marked + (markAll key marked mark keys table).2 =
      keys.length := by
  have h : ∀ found : List α × ℕ,
      (keys.foldl (markOne key marked mark) found).1.countP marked +
        (keys.foldl (markOne key marked mark) found).2 =
          found.1.countP marked + found.2 + keys.length := by
    induction keys with
    | nil => exact fun _ => rfl
    | cons k rest ih =>
        intro found
        rw [List.foldl_cons, ih, markOne_count hmark, List.length_cons]
        omega
  have hzero : table.countP marked = 0 := by
    rw [List.countP_eq_zero]
    exact fun a ha => by simp [hnone a ha]
  rw [markAll, h, hzero]
  omega

/-- Which entries end up marked: the first one of each of the keys. -/
theorem marked_markAll (hkey : ∀ a, key (mark a) = key a) (hmark : ∀ a, marked (mark a) = true)
    (hmarked : ∀ a, marked a = true → mark a = a) (hnone : ∀ a ∈ table, marked a = false) {i : ℕ}
    {a : α} (ha : table[i]? = some a) :
    ∃ a', (markAll key marked mark keys table).1[i]? = some a' ∧
      (marked a' = true ↔ key a ∉ (table.take i).map key ∧ key a ∈ keys) := by
  rw [markAll_fst hmarked, getElem?_updateAll (fun _ => hkey), ha, Option.map_some]
  refine ⟨_, rfl, ?_⟩
  rw [reaching, ← List.map_take]
  split
  · next hdup =>
    rw [List.foldl_nil, hnone a (List.mem_of_getElem? ha)]
    exact ⟨fun h => absurd h (by decide), fun h => absurd hdup h.1⟩
  · next hfirst =>
    have hfold : ∀ rows : List κ, ∀ a, marked (rows.foldl (fun a _ => mark a) a) = true ↔
        marked a = true ∨ rows ≠ [] := by
      intro rows
      induction rows with
      | nil => simp
      | cons k rest ih => simp [ih, hmark]
    rw [hfold, hnone a (List.mem_of_getElem? ha), ne_eq, List.filter_eq_nil_iff]
    simp only [Bool.false_eq_true, false_or, hfirst, not_false_eq_true, true_and, id,
      decide_eq_true_eq, not_forall, not_not, exists_prop, exists_eq_right]

/-- **Complete marking.** Every entry ends up marked and every key marks one exactly when the keys are
those of the table in some order, and the table has no duplicates. -/
theorem markAll_complete_iff (hkey : ∀ a, key (mark a) = key a) (hmark : ∀ a, marked (mark a) = true)
    (hmarked : ∀ a, marked a = true → mark a = a) (hnone : ∀ a ∈ table, marked a = false) :
    ((∀ a ∈ (markAll key marked mark keys table).1, marked a = true) ∧
        (markAll key marked mark keys table).2 = 0) ↔
      keys.Perm (table.map key) ∧ (table.map key).Nodup := by
  have hcount : (markAll key marked mark keys table).1.countP marked +
      (markAll key marked mark keys table).2 = keys.length := markAll_count hmark hnone
  have hlength : (markAll key marked mark keys table).1.length = table.length := by
    have hkeys : (updateAll key id (fun _ => mark) keys table).map key = table.map key :=
      map_updateAll fun _ => hkey
    simpa [markAll_fst hmarked] using congrArg List.length hkeys
  have hentry : ∀ {i : ℕ} {a : α}, table[i]? = some a → ∃ a',
      (markAll key marked mark keys table).1[i]? = some a' ∧
        (marked a' = true ↔ key a ∉ (table.take i).map key ∧ key a ∈ keys) :=
    fun ha => marked_markAll hkey hmark hmarked hnone ha
  constructor
  · rintro ⟨hall, hzero⟩
    have hfirst : ∀ {i : ℕ} {a : α}, table[i]? = some a →
        key a ∉ (table.take i).map key ∧ key a ∈ keys := by
      intro i a ha
      obtain ⟨a', ha', hiff⟩ := hentry ha
      exact hiff.mp (hall a' (List.mem_of_getElem? ha'))
    have hnodup : (table.map key).Nodup := by
      refine nodup_iff_notMem_take.mpr fun i k hk => ?_
      rw [List.getElem?_map, Option.map_eq_some_iff] at hk
      obtain ⟨a, ha, rfl⟩ := hk
      rw [← List.map_take]
      exact (hfirst ha).1
    have hsubset : table.map key ⊆ keys := by
      intro k hk
      obtain ⟨a, ha, rfl⟩ := List.mem_map.mp hk
      obtain ⟨i, hi⟩ := List.mem_iff_getElem?.mp ha
      exact (hfirst hi).2
    rw [List.countP_eq_length.mpr hall, hzero, hlength] at hcount
    refine ⟨((hnodup.subperm hsubset).perm_of_length_le ?_).symm, hnodup⟩
    rw [List.length_map]
    omega
  · rintro ⟨hperm, hnodup⟩
    have hall : ∀ a ∈ (markAll key marked mark keys table).1, marked a = true := by
      intro a' ha'
      obtain ⟨i, hi⟩ := List.mem_iff_getElem?.mp ha'
      have hlt : i < table.length := hlength ▸ (List.getElem?_eq_some_iff.mp hi).1
      obtain ⟨a'', ha'', hiff⟩ := hentry (List.getElem?_eq_getElem hlt)
      obtain rfl : a' = a'' := Option.some.inj (hi.symm.trans ha'')
      refine hiff.mpr ⟨?_, ?_⟩
      · rw [List.map_take]
        exact nodup_iff_notMem_take.mp hnodup i _ (by simp [hlt])
      · exact hperm.mem_iff.mpr (List.mem_map_of_mem (List.getElem_mem hlt))
    refine ⟨hall, ?_⟩
    have hkeys := hperm.length_eq
    rw [List.length_map] at hkeys
    rw [List.countP_eq_length.mpr hall, hlength] at hcount
    omega

end markAll

end P101Test.Table
