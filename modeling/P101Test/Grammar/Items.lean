import Mathlib.Data.List.Basic

/-!
# Items written one after the other

A list of tokens splits into items, each of which is written as some tokens, and a rest the items do not
reach. Where an item is determined by the tokens it begins, there is at most one such split. A state that
takes up the items one after the other keeps, for a value that an item sets, the last one.

## Main definitions

* `Splits`: tokens are items, of an acceptable kind, and a rest.
* `Determined`: an item is determined by the tokens it begins.

## Main results

* `Splits.unique`: there is at most one split.
* `foldl_set`, `foldl_or`, `foldl_append`: what a state keeps of the items it takes up.
-/

namespace P101Test.Grammar

variable {Item Token : Type} (write : Item → List Token) (ok : Item → Prop) (ends : List Token → Prop)

/-- Tokens are acceptable items, written one after the other, and a rest. -/
structure Splits (tokens : List Token) (items : List Item) (rest : List Token) : Prop where
  tokens_eq : tokens = items.flatMap write ++ rest
  acceptable : ∀ item ∈ items, ok item
  ends : ends rest

/-- An item is determined by the tokens it begins, and no rest begins with an item. -/
structure Determined : Prop where
  item_eq : ∀ {item item' more more'}, ok item → ok item' →
    write item ++ more = write item' ++ more' → item = item'
  not_ends : ∀ {item more}, ok item → ¬ends (write item ++ more)

variable {write ok ends} {tokens rest rest' : List Token} {item : Item} {items items' : List Item}

namespace Splits

theorem nil (h : ends rest) : Splits write ok ends rest [] rest := ⟨rfl, by simp, h⟩

/-- One more item. -/
theorem cons (hitem : ok item) (h : Splits write ok ends tokens items rest) :
    Splits write ok ends (write item ++ tokens) (item :: items) rest where
  tokens_eq := by rw [List.flatMap_cons, List.append_assoc, ← h.tokens_eq]
  acceptable := by
    rintro other (_ | ⟨_, hother⟩)
    · exact hitem
    · exact h.acceptable other hother
  ends := h.ends

/-- The items behind the first one. -/
theorem tail (h : Splits write ok ends tokens (item :: items) rest) :
    tokens = write item ++ (items.flatMap write ++ rest) ∧ ok item ∧
      Splits write ok ends (items.flatMap write ++ rest) items rest := by
  refine ⟨?_, h.acceptable item List.mem_cons_self, rfl, ?_, h.ends⟩
  · rw [h.tokens_eq, List.flatMap_cons, List.append_assoc]
  · exact fun other hother => h.acceptable other (List.mem_cons_of_mem _ hother)

theorem ends_of_nil (h : Splits write ok ends tokens [] rest) : ends tokens := by
  rw [h.tokens_eq]
  exact h.ends

theorem not_ends_of_cons (hdetermined : Determined write ok ends)
    (h : Splits write ok ends tokens (item :: items) rest) : ¬ends tokens := by
  rw [h.tail.1]
  exact hdetermined.not_ends h.tail.2.1

/-- Where an item is determined by the tokens it begins, tokens split in one way. -/
theorem unique (hdetermined : Determined write ok ends) (h : Splits write ok ends tokens items rest)
    (h' : Splits write ok ends tokens items' rest') : items = items' ∧ rest = rest' := by
  induction items generalizing tokens items' with
  | nil =>
      cases items' with
      | nil => exact ⟨rfl, h.tokens_eq.symm.trans h'.tokens_eq⟩
      | cons item' items' => exact absurd h.ends_of_nil (h'.not_ends_of_cons hdetermined)
  | cons item items ih =>
      obtain ⟨heq, hitem, htail⟩ := h.tail
      cases items' with
      | nil => exact absurd h'.ends_of_nil (h.not_ends_of_cons hdetermined)
      | cons item' items' =>
          obtain ⟨heq', hitem', htail'⟩ := h'.tail
          obtain rfl := hdetermined.item_eq hitem hitem' (heq.symm.trans heq')
          rw [List.append_cancel_left (heq.symm.trans heq')] at htail
          obtain ⟨rfl, rfl⟩ := ih htail htail'
          exact ⟨rfl, rfl⟩

end Splits

/-! ### Taking up items -/

variable {State Value : Type} {take : State → Item → State}

/-- A value that an item may set is the last one set, or the one of the start. -/
theorem foldl_set (get : State → Value) (value : Item → Option Value)
    (htake : ∀ state item, get (take state item) = (value item).getD (get state)) (items : List Item)
    (state : State) :
    get (items.foldl take state) = ((items.filterMap value).getLast?).getD (get state) := by
  induction items generalizing state with
  | nil => rfl
  | cons item items ih =>
      rw [List.foldl_cons, ih, htake]
      cases hvalue : value item with
      | none => rw [List.filterMap_cons_none hvalue, Option.getD_none]
      | some set =>
          rw [List.filterMap_cons_some hvalue, Option.getD_some]
          cases hrest : items.filterMap value with
          | nil => rfl
          | cons other others =>
              rw [List.getLast?_cons_cons, List.getLast?_cons, Option.getD_some, Option.getD_some]

/-- A value that is not there at first and that an item may set. -/
theorem foldl_or (get : State → Option Value) (value : Item → Option Value)
    (htake : ∀ state item, get (take state item) = (value item).or (get state)) (items : List Item)
    (state : State) :
    get (items.foldl take state) = ((items.filterMap value).getLast?).or (get state) := by
  have hset : ∀ state item, get (take state item) = ((value item).map some).getD (get state) := by
    intro state item
    rw [htake]
    cases value item <;> rfl
  rw [foldl_set get _ hset, ← List.map_filterMap, List.getLast?_map]
  cases (items.filterMap value).getLast? <;> rfl

/-- Values that items add are kept in order. -/
theorem foldl_append (get : State → List Value) (value : Item → Option Value)
    (htake : ∀ state item, get (take state item) = get state ++ (value item).toList) (items : List Item)
    (state : State) : get (items.foldl take state) = get state ++ items.filterMap value := by
  induction items generalizing state with
  | nil => exact (List.append_nil _).symm
  | cons item items ih =>
      rw [List.foldl_cons, ih, htake, List.append_assoc]
      cases hvalue : value item with
      | none => rw [List.filterMap_cons_none hvalue]; rfl
      | some added => rw [List.filterMap_cons_some hvalue]; rfl

end P101Test.Grammar
