import UsgTftp.Lib.Success

set_option autoImplicit false

/-! # Bounds on what a machine sends and how long it runs

Two rules for runs of a machine whose inputs are not known. A machine has a credit of outputs in
each state, and an input adds to it or does not; if each step pays for what it sends, then a whole
run sends at most the credit that it has had (`sentFrom_le_credit`). And a machine whose running
states have a rank that every step lowers stops after as many inputs as its rank
(`stopped_of_rank`).
-/

namespace Reactive.Machine

variable {σ ι ω : Type} {m : Machine σ ι ω} {inv : σ → Prop}

/-- **Credit rule.** What is sent is paid from the credit and from what the inputs add. -/
theorem sentFrom_le_credit (credit : σ → Nat) (gain : ι → Nat)
    (hinv : ∀ s i, inv s → m.running s = true → inv (m.step s i).1)
    (hpay : ∀ s i, inv s → m.running s = true →
      (m.step s i).2.length + credit (m.step s i).1 ≤ credit s + gain i) :
    ∀ (is : List ι) (s : σ), inv s →
      (m.sentFrom (fun _ => false) s is).length ≤ credit s + (is.map gain).sum := by
  intro is
  induction is with
  | nil => intro s _; exact Nat.zero_le _
  | cons i is ih =>
      intro s hs
      by_cases hrun : m.running s = true
      · have hrest := ih _ (hinv s i hs hrun)
        have hstep := hpay s i hs hrun
        rw [sentFrom_cons_running hrun, if_neg Bool.false_ne_true, List.length_append,
          List.map_cons, List.sum_cons]
        omega
      · rw [sentFrom_stopped (Bool.not_eq_true _ ▸ hrun)]
        exact Nat.zero_le _

/-- **Rank rule.** -/
theorem stopped_of_rank (rank : σ → Nat)
    (hinv : ∀ s i, inv s → m.running s = true → inv (m.step s i).1)
    (hpos : ∀ s, inv s → m.running s = true → 0 < rank s)
    (hrank : ∀ s i, inv s → m.running s = true → m.running (m.step s i).1 = true →
      rank (m.step s i).1 < rank s) :
    ∀ (is : List ι) (s : σ), inv s → rank s ≤ is.length → m.running (m.exec s is) = false := by
  intro is
  induction is with
  | nil =>
      intro s hs hle
      by_contra hrun
      have := hpos s hs (Bool.not_eq_false _ ▸ hrun)
      rw [List.length_nil] at hle
      omega
  | cons i is ih =>
      intro s hs hle
      by_cases hrun : m.running s = true
      · rw [exec_cons_running hrun]
        by_cases hnext : m.running (m.step s i).1 = true
        · have hlt := hrank s i hs hrun hnext
          rw [List.length_cons] at hle
          exact ih _ (hinv s i hs hrun) (by omega)
        · rw [Bool.not_eq_true] at hnext
          rw [exec_stopped hnext]
          exact hnext
      · rw [Bool.not_eq_true] at hrun
        rw [exec_stopped hrun]
        exact hrun

end Reactive.Machine
