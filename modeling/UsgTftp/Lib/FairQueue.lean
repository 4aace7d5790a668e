import Mathlib.Order.Filter.AtTopBot.Basic
import Mathlib.Tactic

set_option autoImplicit false

/-! # Queues that are emptied again and again

A queue along an infinite run: a step puts items at the end, and some steps take the first
item away before they do. If such steps happen again and again, every item gets to the front
and is taken away (`exists_pop_of_mem`).
-/

namespace FairQueue

open Filter

variable {α : Type} {queue : Nat → List α} {pops : Nat → Prop}

/-- The steps of a queue; `pops n` says that step `n` takes the first item away. -/
structure Steps (queue : Nat → List α) (pops : Nat → Prop) : Prop where
  keep : ∀ n, ¬pops n → ∃ added, queue (n + 1) = queue n ++ added
  pop : ∀ n, pops n → ∃ added, queue (n + 1) = (queue n).tail ++ added

/-- Up to the next step that takes an item away the queue only grows. -/
theorem exists_pop (h : Steps queue pops) (j : Nat) :
    ∀ n, pops (n + j) → ∃ k, n ≤ k ∧ pops k ∧ ∃ added, queue k = queue n ++ added := by
  induction j with
  | zero =>
      intro n hpop
      exact ⟨n, le_rfl, hpop, [], (List.append_nil _).symm⟩
  | succ j ih =>
      intro n hj
      by_cases hpop : pops n
      · exact ⟨n, le_rfl, hpop, [], (List.append_nil _).symm⟩
      · obtain ⟨added, hadded⟩ := h.keep n hpop
        obtain ⟨k, hk, hkpop, more, hmore⟩ := ih (n + 1) (by rwa [Nat.add_right_comm])
        refine ⟨k, by omega, hkpop, added ++ more, ?_⟩
        rw [hmore, hadded, List.append_assoc]

theorem exists_pop_from (h : Steps queue pops) (hoften : ∃ᶠ n in atTop, pops n) (n : Nat) :
    ∃ k, n ≤ k ∧ pops k ∧ ∃ added, queue k = queue n ++ added := by
  obtain ⟨m, hm, hpop⟩ := frequently_atTop.mp hoften n
  obtain ⟨j, rfl⟩ := Nat.exists_eq_add_of_le hm
  exact exists_pop h j n hpop

/-- **Every item gets to the front.** -/
theorem exists_pop_of_mem (h : Steps queue pops) (hoften : ∃ᶠ n in atTop, pops n) {n : Nat}
    {a : α} (ha : a ∈ queue n) : ∃ k, n ≤ k ∧ pops k ∧ (queue k).head? = some a := by
  obtain ⟨before, after, hqueue⟩ := List.append_of_mem ha
  clear ha
  -- by induction on the items in front of this one
  induction before generalizing n after with
  | nil =>
      obtain ⟨k, hk, hkpop, added, hadded⟩ := exists_pop_from h hoften n
      exact ⟨k, hk, hkpop, by rw [hadded, hqueue]; rfl⟩
  | cons x before ih =>
      obtain ⟨k, hk, hkpop, added, hadded⟩ := exists_pop_from h hoften n
      obtain ⟨more, hmore⟩ := h.pop k hkpop
      have hnext : queue (k + 1) = before ++ a :: (after ++ added ++ more) := by
        calc queue (k + 1) = (queue k).tail ++ more := hmore
          _ = (before ++ a :: (after ++ added)) ++ more := by rw [hadded, hqueue]; simp
          _ = before ++ a :: (after ++ added ++ more) := by simp
      obtain ⟨l, hl, hlpop, hhead⟩ := ih _ hnext
      exact ⟨l, by omega, hlpop, hhead⟩

/-- An item that is put into the queue again and again is taken away again and again. -/
theorem frequently_pop (h : Steps queue pops) (hoften : ∃ᶠ n in atTop, pops n) {a : α}
    (ha : ∃ᶠ n in atTop, a ∈ queue n) : ∃ᶠ n in atTop, (queue n).head? = some a ∧ pops n := by
  rw [frequently_atTop]
  intro n
  obtain ⟨m, hm, hmem⟩ := frequently_atTop.mp ha n
  obtain ⟨k, hk, hpop, hhead⟩ := exists_pop_of_mem h hoften hmem
  exact ⟨k, by omega, hhead, hpop⟩

end FairQueue
