import Mathlib.Logic.Relation
import Mathlib.Tactic

set_option autoImplicit false

/-! # Reactive machines and their composition

An asynchronous function that sends and receives is a machine that is suspended at its
receive points. It starts by emitting some outputs, then consumes one input at a time and
answers each with outputs, until it returns; inputs that arrive after that are not read.

The file has the machine with its runs and traces, the simulation rule that transfers a
trace from one machine to another (`Simulates.trace`), and two ways to join a pair of
machines by a network: lossless FIFO channels (`FifoStep`) and a network that keeps every
message ever sent and may deliver any of them at any time, any number of times
(`LossyStep`). A lost message is one that is never delivered.
-/

namespace Reactive

/-! ## Machines and traces -/

/-- One event of a run, as an observer at the machine's port sees it. -/
inductive Event (ι ω : Type) where
  | input (i : ι)
  | output (o : ω)
  deriving DecidableEq, Repr

structure Machine (σ ι ω : Type) where
  /-- The first suspended state and what is sent before it is reached. -/
  start : σ × List ω
  step : σ → ι → σ × List ω
  /-- `false` once the function has returned. -/
  running : σ → Bool

namespace Machine

variable {σ τ ι ω : Type}

/-- The state after a list of inputs. -/
def exec (m : Machine σ ι ω) (s : σ) : List ι → σ
  | [] => s
  | i :: is => if m.running s then m.exec (m.step s i).1 is else s

/-- The events caused by a list of inputs. -/
def events (m : Machine σ ι ω) (s : σ) : List ι → List (Event ι ω)
  | [] => []
  | i :: is =>
      if m.running s then
        .input i :: ((m.step s i).2.map .output ++ m.events (m.step s i).1 is)
      else []

/-- The state after a list of inputs, from the start. -/
def stateAfter (m : Machine σ ι ω) (is : List ι) : σ := m.exec m.start.1 is

/-- The whole trace of a run, the outputs of the start included. -/
def trace (m : Machine σ ι ω) (is : List ι) : List (Event ι ω) :=
  m.start.2.map .output ++ m.events m.start.1 is

theorem exec_cons_running {m : Machine σ ι ω} {s : σ} (h : m.running s = true) (i : ι)
    (is : List ι) : m.exec s (i :: is) = m.exec (m.step s i).1 is := by
  simp [exec, h]

theorem events_cons_running {m : Machine σ ι ω} {s : σ} (h : m.running s = true) (i : ι)
    (is : List ι) : m.events s (i :: is)
      = .input i :: ((m.step s i).2.map .output ++ m.events (m.step s i).1 is) := by
  simp [events, h]

theorem exec_stopped {m : Machine σ ι ω} {s : σ} (h : m.running s = false) (is : List ι) :
    m.exec s is = s := by
  cases is with
  | nil => rfl
  | cons i is => simp [exec, h]

theorem exec_append (m : Machine σ ι ω) (s : σ) (is js : List ι) :
    m.exec s (is ++ js) = m.exec (m.exec s is) js := by
  induction is generalizing s with
  | nil => rfl
  | cons i is ih =>
      by_cases h : m.running s = true
      · rw [List.cons_append, exec_cons_running h, exec_cons_running h, ih]
      · have hstop : m.running s = false := by simpa using h
        rw [exec_stopped hstop, exec_stopped hstop, exec_stopped hstop]

theorem events_stopped {m : Machine σ ι ω} {s : σ} (h : m.running s = false) (is : List ι) :
    m.events s is = [] := by
  cases is with
  | nil => rfl
  | cons i is => simp [events, h]

/-- **Run invariants.** A property of the state that every step from a running state keeps,
under a condition on state and input, holds after every run whose steps meet it. -/
theorem exec_invariant (m : Machine σ ι ω) (inv : σ → Prop) (ok : σ → ι → Prop)
    (hstep : ∀ s i, m.running s = true → inv s → ok s i → inv (m.step s i).1) :
    ∀ (is : List ι) (s : σ), inv s →
      (∀ pre i post, is = pre ++ i :: post → ok (m.exec s pre) i) → inv (m.exec s is) := by
  intro is
  induction is with
  | nil => intro s hs _; exact hs
  | cons i is ih =>
      intro s hs hok
      by_cases hr : m.running s = true
      · rw [exec_cons_running hr]
        refine ih _ (hstep s i hr hs (hok [] i is rfl)) ?_
        intro pre j post hsplit
        have h := hok (i :: pre) j post (by rw [hsplit]; rfl)
        rwa [exec_cons_running hr] at h
      · rw [exec_stopped (by simpa using hr)]
        exact hs

/-! ## Conditions and events along a run -/

/-- Every step of the run meets the condition. -/
def Always (m : Machine σ ι ω) (p : σ → ι → Prop) (s : σ) : List ι → Prop
  | [] => True
  | i :: is => m.running s = true → p s i ∧ m.Always p (m.step s i).1 is

/-- Some step of the run has the property. -/
def Happens (m : Machine σ ι ω) (q : σ → ι → Prop) (s : σ) : List ι → Prop
  | [] => False
  | i :: is => m.running s = true ∧ (q s i ∨ m.Happens q (m.step s i).1 is)

theorem not_happens_stopped {m : Machine σ ι ω} {q : σ → ι → Prop} {s : σ}
    (h : m.running s = false) (is : List ι) : ¬m.Happens q s is := by
  cases is with
  | nil => exact id
  | cons i is =>
      intro hq
      rw [Happens, h] at hq
      exact absurd hq.1 Bool.false_ne_true

/-- **Runs up to an event.** If each step that meets the condition keeps the invariant, or
stops the machine well together with the event, or stops it otherwise without the event,
then so does each run whose steps all meet the condition. -/
theorem exec_until {m : Machine σ ι ω} {inv good bad : σ → Prop} {p q : σ → ι → Prop}
    (hstep : ∀ s i, inv s → m.running s = true → p s i →
      (inv (m.step s i).1 ∧ m.running (m.step s i).1 = true ∧ ¬q s i) ∨
      (good (m.step s i).1 ∧ m.running (m.step s i).1 = false ∧ q s i) ∨
      (bad (m.step s i).1 ∧ m.running (m.step s i).1 = false ∧ ¬q s i)) :
    ∀ (is : List ι) (s : σ), inv s → m.running s = true → m.Always p s is →
      (inv (m.exec s is) ∧ m.running (m.exec s is) = true ∧ ¬m.Happens q s is) ∨
      (good (m.exec s is) ∧ m.running (m.exec s is) = false ∧ m.Happens q s is) ∨
      (bad (m.exec s is) ∧ m.running (m.exec s is) = false ∧ ¬m.Happens q s is) := by
  intro is
  induction is with
  | nil => intro s hinv hrun _; exact Or.inl ⟨hinv, hrun, id⟩
  | cons i is ih =>
      intro s hinv hrun halways
      obtain ⟨hp, hrest⟩ := halways hrun
      rw [exec_cons_running hrun]
      rcases hstep s i hinv hrun hp with ⟨hinv', hrun', hq⟩ | ⟨hgood, hstop, hq⟩ |
        ⟨hbad, hstop, hq⟩
      · have hiff : m.Happens q s (i :: is) ↔ m.Happens q (m.step s i).1 is := by
          simp [Happens, hrun, hq]
        rw [hiff]
        exact ih _ hinv' hrun' hrest
      · rw [exec_stopped hstop]
        exact Or.inr (Or.inl ⟨hgood, hstop, hrun, Or.inl hq⟩)
      · rw [exec_stopped hstop]
        refine Or.inr (Or.inr ⟨hbad, hstop, ?_⟩)
        rintro ⟨-, h | h⟩
        · exact hq h
        · exact not_happens_stopped hstop is h

/-! ## Simulation -/

/-- `c` does what `a` does, state for state under the map `γ`, in all states of `a` that
satisfy the invariant `inv`. -/
structure Simulates (a : Machine σ ι ω) (c : Machine τ ι ω) (γ : σ → τ) (inv : σ → Prop) :
    Prop where
  start : c.start = (γ a.start.1, a.start.2)
  running : ∀ s, c.running (γ s) = a.running s
  step : ∀ s i, inv s → a.running s = true → c.step (γ s) i = (γ (a.step s i).1, (a.step s i).2)
  inv_start : inv a.start.1
  inv_step : ∀ s i, inv s → a.running s = true → inv (a.step s i).1

variable {a : Machine σ ι ω} {c : Machine τ ι ω} {γ : σ → τ} {inv : σ → Prop}

theorem Simulates.exec (h : Simulates a c γ inv) :
    ∀ (is : List ι) (s : σ), inv s → c.exec (γ s) is = γ (a.exec s is) := by
  intro is
  induction is with
  | nil => intro s _; rfl
  | cons i is ih =>
      intro s hinv
      by_cases hr : a.running s = true
      · rw [exec_cons_running hr, exec_cons_running (by rw [h.running, hr]), h.step s i hinv hr,
          ih _ (h.inv_step s i hinv hr)]
      · have hs : a.running s = false := by simpa using hr
        rw [exec_stopped hs, exec_stopped (by rw [h.running, hs])]

theorem Simulates.events (h : Simulates a c γ inv) :
    ∀ (is : List ι) (s : σ), inv s → c.events (γ s) is = a.events s is := by
  intro is
  induction is with
  | nil => intro s _; rfl
  | cons i is ih =>
      intro s hinv
      by_cases hr : a.running s = true
      · rw [events_cons_running hr, events_cons_running (by rw [h.running, hr]),
          h.step s i hinv hr, ih _ (h.inv_step s i hinv hr)]
      · have hs : a.running s = false := by simpa using hr
        rw [events_stopped hs, events_stopped (by rw [h.running, hs])]

theorem Simulates.stateAfter (h : Simulates a c γ inv) (is : List ι) :
    c.stateAfter is = γ (a.stateAfter is) := by
  rw [Machine.stateAfter, h.start, h.exec is _ h.inv_start, Machine.stateAfter]

/-- **Simulation preserves traces.** -/
theorem Simulates.trace (h : Simulates a c γ inv) (is : List ι) : c.trace is = a.trace is := by
  rw [Machine.trace, h.start, h.events is _ h.inv_start, Machine.trace]

end Machine

/-! ## Two machines on a network -/

/-- A pair of machines with the messages travelling to each of them. -/
structure Duplex (σ τ μ ν : Type) where
  left : σ
  right : τ
  toLeft : List μ
  toRight : List ν

/-- A pair of machines on lossless channels, with a log of what the right one has sent. -/
structure Fifo (σ τ μ ν : Type) extends Duplex σ τ μ ν where
  sent : List μ

section

variable {σ τ μ ν : Type} (stepL : σ → μ → σ × List ν) (stepR : τ → ν → τ × List μ)

/-- Lossless channels: the oldest message of either queue is delivered. -/
inductive FifoStep : Fifo σ τ μ ν → Fifo σ τ μ ν → Prop where
  | left (s : Fifo σ τ μ ν) (m : μ) (rest : List μ) (h : s.toLeft = m :: rest) :
      FifoStep s { s with left := (stepL s.left m).1, toLeft := rest,
                          toRight := s.toRight ++ (stepL s.left m).2 }
  | right (s : Fifo σ τ μ ν) (m : ν) (rest : List ν) (h : s.toRight = m :: rest) :
      FifoStep s { s with right := (stepR s.right m).1, toRight := rest,
                          toLeft := s.toLeft ++ (stepR s.right m).2,
                          sent := s.sent ++ (stepR s.right m).2 }

/-- A network that loses, duplicates and reorders: any message ever sent may be delivered,
and stays available. `tickL` and `tickR` are the machines' timers, which may fire at any
time. -/
inductive LossyStep (tickL : σ → σ × List ν) (tickR : τ → τ × List μ) :
    Duplex σ τ μ ν → Duplex σ τ μ ν → Prop where
  | left (s : Duplex σ τ μ ν) (m : μ) (h : m ∈ s.toLeft) :
      LossyStep tickL tickR s { s with left := (stepL s.left m).1,
                                       toRight := s.toRight ++ (stepL s.left m).2 }
  | right (s : Duplex σ τ μ ν) (m : ν) (h : m ∈ s.toRight) :
      LossyStep tickL tickR s { s with right := (stepR s.right m).1,
                                       toLeft := s.toLeft ++ (stepR s.right m).2 }
  | timerL (s : Duplex σ τ μ ν) :
      LossyStep tickL tickR s { s with left := (tickL s.left).1,
                                       toRight := s.toRight ++ (tickL s.left).2 }
  | timerR (s : Duplex σ τ μ ν) :
      LossyStep tickL tickR s { s with right := (tickR s.right).1,
                                       toLeft := s.toLeft ++ (tickR s.right).2 }

end

/-! ## Reachability -/

section

variable {σ : Type} {step : σ → σ → Prop}

/-- **Invariant rule.** -/
theorem invariant_of_step (inv : σ → Prop) (hstep : ∀ s t, inv s → step s t → inv t) {s₀ s : σ}
    (h₀ : inv s₀) (h : Relation.ReflTransGen step s₀ s) : inv s := by
  induction h with
  | refl => exact h₀
  | tail _ hst ih => exact hstep _ _ ih hst

/-- **Rank rule.** If every step lowers the rank of a state that has one, then a ranked
state starts no infinite run. -/
theorem acc_of_ranked (inv : Nat → σ → Prop)
    (hstep : ∀ n s t, inv n s → step s t → ∃ m, m < n ∧ inv m t) :
    ∀ n s, inv n s → Acc (fun t s => step s t) s := by
  intro n
  induction n using Nat.strong_induction_on with
  | _ n ih =>
      intro s hs
      refine Acc.intro s fun t hst => ?_
      obtain ⟨m, hm, ht⟩ := hstep n s t hs hst
      exact ih m hm t ht

/-- Every run from the state ends, and it ends in a state with the property. -/
def EndsIn (step : σ → σ → Prop) (s : σ) (p : σ → Prop) : Prop :=
  Acc (fun t s => step s t) s ∧
  ∀ t, Relation.ReflTransGen step s t → (∀ u, ¬ step t u) → p t

/-- A state from which every run ends has a run to its end. -/
theorem exists_final {s : σ} (h : Acc (fun t s => step s t) s) :
    ∃ t, Relation.ReflTransGen step s t ∧ ∀ u, ¬ step t u := by
  induction h with
  | intro s _ ih =>
      by_cases hstep : ∃ t, step s t
      · obtain ⟨t, ht⟩ := hstep
        obtain ⟨u, hu, hend⟩ := ih t ht
        exact ⟨u, .head ht hu, hend⟩
      · exact ⟨s, .refl, fun t ht => hstep ⟨t, ht⟩⟩

/-- **Outcome rule.** If every run ends with an outcome, and an outcome has the property exactly
under a condition, then the runs end with the property exactly under that condition. -/
theorem EndsIn.iff_of_outcome {outcome p : σ → Prop} {cond : Prop} {s : σ}
    (h : EndsIn step s outcome) (hiff : ∀ t, outcome t → (p t ↔ cond)) :
    EndsIn step s p ↔ cond := by
  constructor
  · intro hp
    obtain ⟨t, ht, hend⟩ := exists_final h.1
    exact (hiff t (h.2 t ht hend)).mp (hp.2 t ht hend)
  · intro hcond
    exact ⟨h.1, fun t ht hend => (hiff t (h.2 t ht hend)).mpr hcond⟩

end

/-! ## Runs of a step function -/

section

variable {σ ι : Type} {step : σ → ι → σ}

/-- Every input of the run meets the condition, in the state that it finds. -/
def Along (step : σ → ι → σ) (p : σ → ι → Prop) (s : σ) : List ι → Prop
  | [] => True
  | i :: is => p s i ∧ Along step p (step s i) is

/-- What every input meets is met along every run. -/
theorem along_always {p : σ → ι → Prop} (h : ∀ s i, p s i) :
    ∀ (is : List ι) (s : σ), Along step p s is := by
  intro is
  induction is with
  | nil => intro s; trivial
  | cons i is ih => intro s; exact ⟨h s i, ih _⟩

/-- A condition that each of the inputs meets by itself is met along the run. -/
theorem along_of_forall_mem {ok : ι → Prop} :
    ∀ {is : List ι} (s : σ), (∀ i ∈ is, ok i) → Along step (fun _ i => ok i) s is := by
  intro is
  induction is with
  | nil => intro s _; trivial
  | cons i is ih =>
      intro s h
      exact ⟨h i List.mem_cons_self, ih _ fun j hj => h j (List.mem_cons_of_mem _ hj)⟩

/-- If each input that meets the condition keeps the invariant and is good, so is each input of
a run whose inputs all meet the condition. -/
theorem along_of_invariant {inv : σ → Prop} {ok good : σ → ι → Prop}
    (hstep : ∀ s i, inv s → ok s i → inv (step s i) ∧ good s i) :
    ∀ (is : List ι) (s : σ), inv s → Along step ok s is → Along step good s is := by
  intro is
  induction is with
  | nil => intro s _ _; trivial
  | cons i is ih =>
      rintro s hs ⟨hok, hrest⟩
      obtain ⟨hinv, hgood⟩ := hstep s i hs hok
      exact ⟨hgood, ih _ hinv hrest⟩

/-- Where two conditions on an input agree, so do those on the run. -/
theorem along_congr {hyp p q : σ → ι → Prop} (h : ∀ s i, hyp s i → (p s i ↔ q s i)) :
    ∀ (is : List ι) (s : σ), Along step hyp s is → (Along step p s is ↔ Along step q s is) := by
  intro is
  induction is with
  | nil => intro s _; exact Iff.rfl
  | cons i is ih =>
      rintro s ⟨hi, hrest⟩
      exact and_congr (h s i hi) (ih _ hrest)

theorem foldl_invariant {inv : σ → Prop} (hstep : ∀ s i, inv s → inv (step s i)) :
    ∀ (is : List ι) (s : σ), inv s → inv (is.foldl step s) := by
  intro is
  induction is with
  | nil => intro s hs; exact hs
  | cons i is ih => intro s hs; exact ih _ (hstep s i hs)

/-- **Exact conditions on runs.** If a good state stays good by exactly the inputs that meet
the condition, and a bad one stays bad, then a run from a good state ends in one just if all
its inputs meet the condition. -/
theorem foldl_iff_along {inv good : σ → Prop} {ok : σ → ι → Prop}
    (hinv : ∀ s i, inv s → inv (step s i)) (hbad : ∀ s i, inv s → good (step s i) → good s)
    (hgood : ∀ s i, inv s → good s → (good (step s i) ↔ ok s i)) :
    ∀ (is : List ι) (s : σ), inv s → good s → (good (is.foldl step s) ↔ Along step ok s is) := by
  have hback : ∀ (is : List ι) (s : σ), inv s → good (is.foldl step s) → good s := by
    intro is
    induction is with
    | nil => intro s _ h; exact h
    | cons i is ih => intro s hs h; exact hbad s i hs (ih _ (hinv s i hs) h)
  intro is
  induction is with
  | nil => intro s _ hs; exact iff_of_true hs trivial
  | cons i is ih =>
      intro s hs hgood'
      rw [List.foldl_cons, Along, ← hgood s i hs hgood']
      constructor
      · intro h
        have hnext := hback is _ (hinv s i hs) h
        exact ⟨hnext, (ih _ (hinv s i hs) hnext).mp h⟩
      · rintro ⟨hnext, h⟩
        exact (ih _ (hinv s i hs) hnext).mpr h

end

/-! ## Infinite runs -/

/-- **Rank rule for infinite runs.** If the rank never grows, and falls again and again until
the goal is reached, then the goal is reached. -/
theorem eventually_of_rank {σ : Type} {states : Nat → σ} {rank : σ → Nat} {goal : σ → Prop}
    {n : Nat} (hstep : ∀ m, n ≤ m → rank (states (m + 1)) ≤ rank (states m))
    (hfall : ∀ m, n ≤ m → ¬goal (states m) →
      ∃ k, m ≤ k ∧ rank (states (k + 1)) < rank (states k)) :
    ∃ m, n ≤ m ∧ goal (states m) := by
  have hmono : ∀ m k, n ≤ m → m ≤ k → rank (states k) ≤ rank (states m) := by
    intro m k hm hk
    induction k, hk using Nat.le_induction with
    | base => exact le_rfl
    | succ k hk ih => exact le_trans (hstep k (le_trans hm hk)) ih
  have hmain : ∀ r m, n ≤ m → rank (states m) = r → ∃ m, n ≤ m ∧ goal (states m) := by
    intro r
    induction r using Nat.strong_induction_on with
    | _ r ih =>
        intro m hm hr
        by_cases hgoal : goal (states m)
        · exact ⟨m, hm, hgoal⟩
        · obtain ⟨k, hk, hlt⟩ := hfall m hm hgoal
          have hle := hmono m k hm hk
          exact ih (rank (states (k + 1))) (by omega) (k + 1) (by omega) rfl
  exact hmain _ n le_rfl rfl

end Reactive
