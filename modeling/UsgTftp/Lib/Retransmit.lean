import UsgTftp.Lib.Reactive

set_option autoImplicit false

/-! # Retransmission over a lossy line

A machine sends an item, waits, and is told either the answer to what it has sent last or
that the wait was in vain. Which it is depends on the line: `through i k` says that the
`k`-th transmission of the `i`-th item and the answer to it both arrive. A wait after which
nothing new was sent has nothing to be answered.

`Repeats.completes` is the rule for machines that repeat an item until it is answered: if
they do it `limit` times and every item comes through once in that many transmissions, the
machine reaches its goal.
-/

namespace Reactive

variable {σ ι ω : Type}

/-- A machine in the middle of an exchange. -/
structure Exchange (σ ω : Type) where
  status : σ
  /-- The number of items that have been answered. -/
  item : Nat
  /-- The index of the latest transmission of the current item. -/
  attempt : Nat
  /-- What was sent when the current wait began. -/
  inFlight : List ω

namespace Exchange

/-- The end of one wait. -/
def next (m : Machine σ ι ω) (answer : List ω → ι) (silence : ι) (through : Nat → Nat → Bool)
    (x : Exchange σ ω) : Exchange σ ω :=
  if m.running x.status then
    if x.inFlight.isEmpty = false ∧ through x.item x.attempt = true then
      let (status, sent) := m.step x.status (answer x.inFlight)
      ⟨status, x.item + 1, 0, sent⟩
    else
      let (status, sent) := m.step x.status silence
      ⟨status, x.item, if sent.isEmpty then x.attempt else x.attempt + 1, sent⟩
  else x

/-- The exchange after `n` waits. -/
def after (m : Machine σ ι ω) (answer : List ω → ι) (silence : ι) (through : Nat → Nat → Bool)
    (x : Exchange σ ω) (n : Nat) : Exchange σ ω :=
  (next m answer silence through)^[n] x

/-- The exchange reaches a state with the property. -/
def Reaches (m : Machine σ ι ω) (answer : List ω → ι) (silence : ι)
    (through : Nat → Nat → Bool) (goal : σ → Prop) (x : Exchange σ ω) : Prop :=
  ∃ n, goal (after m answer silence through x n).status

section

variable {m : Machine σ ι ω} {answer : List ω → ι} {silence : ι} {through : Nat → Nat → Bool}
  {goal : σ → Prop} {x : Exchange σ ω}

theorem next_stopped (h : m.running x.status = false) : next m answer silence through x = x := by
  simp [next, h]

theorem next_answered (hrun : m.running x.status = true) (hsent : x.inFlight ≠ [])
    (hthrough : through x.item x.attempt = true) :
    next m answer silence through x = ⟨(m.step x.status (answer x.inFlight)).1, x.item + 1, 0,
      (m.step x.status (answer x.inFlight)).2⟩ := by
  have hempty : x.inFlight.isEmpty = false := List.isEmpty_eq_false_iff.mpr hsent
  rw [next, if_pos hrun, if_pos ⟨hempty, hthrough⟩]

theorem next_silent (hrun : m.running x.status = true)
    (hlost : x.inFlight = [] ∨ through x.item x.attempt = false) :
    next m answer silence through x = ⟨(m.step x.status silence).1, x.item,
      if (m.step x.status silence).2.isEmpty then x.attempt else x.attempt + 1,
      (m.step x.status silence).2⟩ := by
  have hnot : ¬(x.inFlight.isEmpty = false ∧ through x.item x.attempt = true) := by
    rintro ⟨hempty, hthrough⟩
    rcases hlost with h | h
    · simp [h] at hempty
    · simp [h] at hthrough
  rw [next, if_pos hrun, if_neg hnot]

/-- A step before the goal does not change whether it is reached. -/
theorem reaches_next (h : ¬goal x.status) :
    Reaches m answer silence through goal x
      ↔ Reaches m answer silence through goal (next m answer silence through x) := by
  constructor
  · rintro ⟨n, hn⟩
    cases n with
    | zero => exact absurd hn h
    | succ n => exact ⟨n, by rwa [after, Function.iterate_succ_apply] at hn⟩
  · rintro ⟨n, hn⟩
    exact ⟨n + 1, by rwa [after, Function.iterate_succ_apply]⟩

/-- **Invariant rule.** An invariant that excludes the goal is enough to never reach it. -/
theorem not_reaches_of_invariant (inv : Exchange σ ω → Prop)
    (hstep : ∀ y, inv y → inv (next m answer silence through y))
    (hgoal : ∀ y, inv y → ¬goal y.status) (h : inv x) :
    ¬Reaches m answer silence through goal x := by
  rintro ⟨n, hn⟩
  have hinv : inv (after m answer silence through x n) := by
    clear hn
    induction n with
    | zero => exact h
    | succ n ih =>
        rw [after, Function.iterate_succ_apply']
        exact hstep _ ih
  exact hgoal _ hinv hn

theorem not_reaches_of_stopped (hstop : m.running x.status = false) (h : ¬goal x.status) :
    ¬Reaches m answer silence through goal x := by
  refine not_reaches_of_invariant (fun y => y = x) ?_ ?_ rfl
  · rintro y rfl
    exact next_stopped hstop
  · rintro y rfl
    exact h

end

end Exchange

/-! ## Machines that repeat -/

/-- `waits rank retries s sent`: in the state `s` the machine waits for the answer to `sent`
and has repeated it `retries` times. It repeats an item up to `limit` transmissions, and an
answer brings it to the goal or to an item of a smaller rank. -/
structure Repeats (m : Machine σ ι ω) (answer : List ω → ι) (silence : ι) (limit : Nat)
    (waits : Nat → Nat → σ → List ω → Prop) (goal : σ → Prop) : Prop where
  running : ∀ {rank retries s sent}, waits rank retries s sent → m.running s = true
  sends : ∀ {rank retries s sent}, waits rank retries s sent → sent ≠ []
  silent : ∀ {rank retries s sent}, waits rank retries s sent → retries + 1 < limit →
    waits rank (retries + 1) (m.step s silence).1 (m.step s silence).2
  answered : ∀ {rank retries s sent}, waits rank retries s sent →
    goal (m.step s (answer sent)).1 ∨
      ∃ rank', rank' < rank ∧ waits rank' 0 (m.step s (answer sent)).1 (m.step s (answer sent)).2

section

variable {m : Machine σ ι ω} {answer : List ω → ι} {silence : ι} {limit : Nat}
  {waits : Nat → Nat → σ → List ω → Prop} {goal : σ → Prop} {through : Nat → Nat → Bool}

open Exchange

/-- The line loses the first `k` transmissions of an item: the machine has then sent it once
more than that. -/
theorem Repeats.after_lost (h : Repeats m answer silence limit waits goal) {rank item : Nat}
    {s : σ} {sent : List ω} (hw : waits rank 0 s sent) :
    ∀ k, k < limit → (∀ j, j < k → through item j = false) → ∃ s' sent',
      waits rank k s' sent' ∧
      after m answer silence through ⟨s, item, 0, sent⟩ k = ⟨s', item, k, sent'⟩ := by
  intro k
  induction k with
  | zero => intro _ _; exact ⟨s, sent, hw, rfl⟩
  | succ k ih =>
      intro hk hlost
      obtain ⟨s', sent', hw', heq⟩ := ih (by omega) (fun j hj => hlost j (by omega))
      have hnext := h.silent hw' hk
      have hsends : (m.step s' silence).2.isEmpty = false :=
        List.isEmpty_eq_false_iff.mpr (h.sends hnext)
      refine ⟨_, _, hnext, ?_⟩
      rw [after, Function.iterate_succ_apply', ← after, heq]
      rw [next_silent (h.running hw') (Or.inr (hlost k (by omega)))]
      simp only [hsends, Bool.false_eq_true, if_false]

/-- **Repetition completes.** If every item comes through in one of its first `limit`
transmissions, the goal is reached. The induction is on the rank of the item. -/
theorem Repeats.completes (h : Repeats m answer silence limit waits goal)
    (hthrough : ∀ i, ∃ k, k < limit ∧ through i k = true) :
    ∀ (rank item : Nat) (s : σ) (sent : List ω), waits rank 0 s sent →
      Reaches m answer silence through goal ⟨s, item, 0, sent⟩ := by
  intro rank
  induction rank using Nat.strong_induction_on with
  | _ rank ih =>
      intro item s sent hw
      -- the first transmission that comes through
      have hfirst := Nat.find_spec (hthrough item)
      have hbefore : ∀ j, j < Nat.find (hthrough item) → through item j = false := by
        intro j hj
        have hmin := Nat.find_min (hthrough item) hj
        have hlt : j < limit := by omega
        simpa [hlt] using hmin
      obtain ⟨s', sent', hw', heq⟩ := h.after_lost hw _ hfirst.1 hbefore
      have hnext : after m answer silence through ⟨s, item, 0, sent⟩
          (Nat.find (hthrough item) + 1)
            = ⟨(m.step s' (answer sent')).1, item + 1, 0, (m.step s' (answer sent')).2⟩ := by
        rw [after, Function.iterate_succ_apply', ← after, heq]
        exact next_answered (h.running hw') (h.sends hw') hfirst.2
      rcases h.answered hw' with hgoal | ⟨rank', hlt, hw''⟩
      · exact ⟨_, by rw [hnext]; exact hgoal⟩
      · obtain ⟨n, hn⟩ := ih rank' hlt (item + 1) _ _ hw''
        refine ⟨n + (Nat.find (hthrough item) + 1), ?_⟩
        rw [after, Function.iterate_add_apply, ← after, ← after, hnext]
        exact hn

end

end Reactive
