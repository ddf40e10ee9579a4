import Mathlib.Tactic.Common

/-!
# Loops over rows

A loop takes rows one after the other; a step on a row changes what has been loaded, or fails and ends
the loop. Where every step that succeeds does to an abstract value what the record read from its row
does, the loop as a whole does what the records do.

## Main definitions

* `Simulates`: a step follows the records read from the rows.

## Main results

* `Simulates.foldlM`: a loop that ends well has applied the record of every row.
* `foldlM_error_of_mem`: a row that is rejected ends the loop.
* `foldlM_ok_iff`: a loop ends well exactly when every row is accepted.
-/

namespace P101Test.Table

variable {σ τ ε α ρ : Type}

/-- A step that succeeds does what the record read from its row does, if there is one. -/
def Simulates (R : σ → τ → Prop) (read : α → Option ρ) (apply : τ → ρ → τ)
    (step : σ → α → Except ε σ) : Prop :=
  ∀ ⦃s t a s'⦄, R s t → step s a = .ok s' → R s' ((read a).elim t (apply t))

section Simulates

variable {R : σ → τ → Prop} {read : α → Option ρ} {apply : τ → ρ → τ} {step : σ → α → Except ε σ}
  {rows : List α} {s s' : σ} {t : τ}

/-- **Loops.** A loop that ends well has applied the record of every row. -/
theorem Simulates.foldlM (h : Simulates R read apply step) (hs : R s t)
    (hrun : rows.foldlM step s = .ok s') : R s' ((rows.filterMap read).foldl apply t) := by
  induction rows generalizing s t with
  | nil =>
      obtain rfl : s = s' := Except.ok.inj hrun
      exact hs
  | cons a rest ih =>
      rw [List.foldlM_cons] at hrun
      cases hstep : step s a with
      | error e => rw [hstep] at hrun; cases hrun
      | ok next =>
        rw [hstep] at hrun
        have hnext := ih (h hs hstep) hrun
        rw [List.filterMap_cons]
        cases hread : read a with
        | none => rwa [hread] at hnext
        | some row => rwa [hread] at hnext

end Simulates

/-- A loop that meets a row on which every step fails does not end well. -/
theorem foldlM_error_of_mem {step : σ → α → Except ε σ} {rows : List α} {a : α} (ha : a ∈ rows)
    (hstep : ∀ s, ∃ e, step s a = .error e) (s : σ) : ∃ e, rows.foldlM step s = .error e := by
  induction rows generalizing s with
  | nil => exact absurd ha List.not_mem_nil
  | cons b rest ih =>
      rw [List.foldlM_cons]
      cases hb : step s b with
      | error e => exact ⟨e, rfl⟩
      | ok next =>
        rcases List.mem_cons.mp ha with rfl | hrest
        · obtain ⟨e, he⟩ := hstep s
          rw [hb] at he
          cases he
        · exact ih hrest next

/-- Where the row alone decides whether a step succeeds, on the states that the steps keep to, a loop ends
well exactly when every row is accepted. -/
theorem foldlM_ok_iff {step : σ → α → Except ε σ} {keeps : σ → Prop} {accepted : α → Prop}
    (hstep : ∀ s a, keeps s → ((∃ s', step s a = .ok s') ↔ accepted a))
    (hkeeps : ∀ s a s', keeps s → step s a = .ok s' → keeps s') {rows : List α} {s : σ}
    (hs : keeps s) : (∃ s', rows.foldlM step s = .ok s') ↔ ∀ a ∈ rows, accepted a := by
  induction rows generalizing s with
  | nil => exact ⟨fun _ a ha => absurd ha List.not_mem_nil, fun _ => ⟨s, rfl⟩⟩
  | cons a rest ih =>
      rw [List.foldlM_cons, List.forall_mem_cons, ← hstep s a hs]
      cases hnext : step s a with
      | error e =>
        constructor
        · rintro ⟨s', h⟩
          cases h
        · rintro ⟨⟨s', h⟩, -⟩
          cases h
      | ok next =>
        refine (ih (hkeeps s a next hs hnext)).trans ?_
        exact ⟨fun hrest => ⟨⟨next, rfl⟩, hrest⟩, fun h => h.2⟩

end P101Test.Table
