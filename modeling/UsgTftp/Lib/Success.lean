import UsgTftp.Lib.WindowSender

set_option autoImplicit false

/-! # Runs whose waits succeed

What a machine has sent by the end of a run, and the runs in which every wait succeeds
(`SendsWhen`). A relation between the state and what is still to be sent, which every such
step keeps while a rank falls, settles such runs (`SendsWhen.of_rank`). The window sender
sends its packets in them, each one once (`WindowSender.sendsWhen`); in any other run that
finishes it does so too, up to repetitions (`WindowSender.sentFrom_finished`).
-/

namespace Reactive.Machine

variable {σ ι ω : Type}

/-! ## What a run sends -/

/-- What the steps of a run send, but for the steps into the states to skip. -/
def sentFrom (m : Machine σ ι ω) (skip : σ → Bool) (s : σ) : List ι → List ω
  | [] => []
  | i :: is =>
      if m.running s then
        (if skip (m.step s i).1 then [] else (m.step s i).2) ++ m.sentFrom skip (m.step s i).1 is
      else []

/-- All that is sent in a run. -/
def sent (m : Machine σ ι ω) (is : List ι) : List ω :=
  m.start.2 ++ m.sentFrom (fun _ => false) m.start.1 is

theorem sentFrom_cons_running {m : Machine σ ι ω} {s : σ} (h : m.running s = true)
    (skip : σ → Bool) (i : ι) (is : List ι) : m.sentFrom skip s (i :: is)
      = (if skip (m.step s i).1 then [] else (m.step s i).2)
        ++ m.sentFrom skip (m.step s i).1 is := by
  rw [sentFrom, if_pos h]

theorem sentFrom_stopped {m : Machine σ ι ω} {s : σ} (h : m.running s = false)
    (skip : σ → Bool) (is : List ι) : m.sentFrom skip s is = [] := by
  cases is with
  | nil => rfl
  | cons i is => rw [sentFrom, if_neg (by rw [h]; exact Bool.false_ne_true)]

/-- **Sent and still to be sent.** If each step of the run sends the front of what is to be sent,
so does the whole run. -/
theorem sentFrom_append {m : Machine σ ι ω} {ok : σ → ι → Prop} (skip : σ → Bool)
    (left : List ω → σ → Prop)
    (hstep : ∀ rest s i, left rest s → m.running s = true → ok s i →
      ∃ rest', (if skip (m.step s i).1 then [] else (m.step s i).2) ++ rest' = rest ∧
        left rest' (m.step s i).1) :
    ∀ (is : List ι) (rest : List ω) (s : σ), left rest s → m.Always ok s is →
      ∃ rest', m.sentFrom skip s is ++ rest' = rest ∧ left rest' (m.exec s is) := by
  intro is
  induction is with
  | nil => intro rest s hs _; exact ⟨rest, rfl, hs⟩
  | cons i is ih =>
      intro rest s hs halways
      by_cases hrun : m.running s = true
      · obtain ⟨hok, hrest⟩ := halways hrun
        obtain ⟨rest₁, hsent₁, hs₁⟩ := hstep rest s i hs hrun hok
        obtain ⟨rest₂, hsent₂, hs₂⟩ := ih rest₁ _ hs₁ hrest
        refine ⟨rest₂, ?_, ?_⟩
        · rw [sentFrom_cons_running hrun, List.append_assoc, hsent₂, hsent₁]
        · rw [exec_cons_running hrun]
          exact hs₂
      · rw [Bool.not_eq_true] at hrun
        rw [sentFrom_stopped hrun, exec_stopped hrun]
        exact ⟨rest, rfl, hs⟩

theorem Simulates.sentFrom {τ : Type} {a : Machine σ ι ω} {c : Machine τ ι ω} {γ : σ → τ}
    {inv : σ → Prop} (h : Simulates a c γ inv) (skip : τ → Bool) :
    ∀ (is : List ι) (s : σ), inv s → c.sentFrom skip (γ s) is = a.sentFrom (skip ∘ γ) s is := by
  intro is
  induction is with
  | nil => intro s _; rfl
  | cons i is ih =>
      intro s hinv
      by_cases hr : a.running s = true
      · rw [sentFrom_cons_running hr, sentFrom_cons_running (by rw [h.running, hr]),
          h.step s i hinv hr, ih _ (h.inv_step s i hinv hr)]
        rfl
      · have hs : a.running s = false := by simpa using hr
        rw [sentFrom_stopped hs, sentFrom_stopped (by rw [h.running, hs])]

/-! ## Successful runs -/

/-- Wherever the machine waits a wait can succeed, and if all of them do it returns and has sent
these messages. -/
structure SendsWhen (m : Machine σ ι ω) (ok : σ → ι → Prop) (ps : List ω) : Prop where
  possible : ∀ is, m.Always ok m.start.1 is → m.running (m.stateAfter is) = true →
    ∃ i, ok (m.stateAfter is) i
  returns : ∃ n, ∀ is : List ι, m.Always ok m.start.1 is → n ≤ is.length →
    m.running (m.stateAfter is) = false
  sent_eq : ∀ is, m.Always ok m.start.1 is → m.running (m.stateAfter is) = false → m.sent is = ps

section

variable {m : Machine σ ι ω} {ok : σ → ι → Prop} {ps : List ω}

theorem always_concat (is : List ι) (i : ι) :
    ∀ s, m.Always ok s is → (m.running (m.exec s is) = true → ok (m.exec s is) i) →
      m.Always ok s (is ++ [i]) := by
  induction is with
  | nil => intro s _ h hrun; exact ⟨h hrun, trivial⟩
  | cons j is ih =>
      intro s halways h hrun
      obtain ⟨hj, hrest⟩ := halways hrun
      rw [exec_cons_running hrun] at h
      exact ⟨hj, ih _ hrest h⟩

theorem always_of_forall {p : σ → ι → Prop} (h : ∀ s i, p s i) (is : List ι) :
    ∀ s, m.Always p s is := by
  induction is with
  | nil => intro s; trivial
  | cons i is ih => intro s _; exact ⟨h s i, ih _⟩

/-- There is a successful run to the end. -/
theorem SendsWhen.exists_run (h : SendsWhen m ok ps) :
    ∃ is, m.Always ok m.start.1 is ∧ m.running (m.stateAfter is) = false := by
  obtain ⟨n, hn⟩ := h.returns
  have hmain : ∀ k, ∃ is : List ι, m.Always ok m.start.1 is ∧
      (m.running (m.stateAfter is) = false ∨ is.length = k) := by
    intro k
    induction k with
    | zero => exact ⟨[], trivial, Or.inr rfl⟩
    | succ k ih =>
        obtain ⟨is, halways, hstop | hlen⟩ := ih
        · exact ⟨is, halways, Or.inl hstop⟩
        by_cases hrun : m.running (m.stateAfter is) = true
        · obtain ⟨i, hi⟩ := h.possible is halways hrun
          exact ⟨is ++ [i], always_concat is i _ halways (fun _ => hi),
            Or.inr (by rw [List.length_append, List.length_singleton, hlen])⟩
        · rw [Bool.not_eq_true] at hrun
          exact ⟨is, halways, Or.inl hrun⟩
  obtain ⟨is, halways, hstop | hlen⟩ := hmain n
  · exact ⟨is, halways, hstop⟩
  · exact ⟨is, halways, hn is halways (by omega)⟩

/-- What is sent is determined. -/
theorem SendsWhen.unique {ps' : List ω} (h : SendsWhen m ok ps) (h' : SendsWhen m ok ps') :
    ps = ps' := by
  obtain ⟨is, halways, hstop⟩ := h.exists_run
  rw [← h.sent_eq is halways hstop, h'.sent_eq is halways hstop]

/-- **Rank rule for successful runs.** `left n rest s`: in the state `s` there are `rest` still to
be sent, and `n` steps to go at most. -/
theorem SendsWhen.of_rank (left : Nat → List ω → σ → Prop) {n : Nat} {rest : List ω}
    (hstart : left n rest m.start.1) (hps : m.start.2 ++ rest = ps)
    (hstop : ∀ n rest s, left n rest s → m.running s = false → rest = [])
    (hpossible : ∀ n rest s, left n rest s → m.running s = true → ∃ i, ok s i)
    (hstep : ∀ n rest s i, left n rest s → m.running s = true → ok s i →
      ∃ k rest', k < n ∧ (m.step s i).2 ++ rest' = rest ∧ left k rest' (m.step s i).1) :
    SendsWhen m ok ps := by
  have hleft : ∀ is, m.Always ok m.start.1 is →
      ∃ rest', m.sentFrom (fun _ => false) m.start.1 is ++ rest' = rest ∧
        ∃ k, left k rest' (m.stateAfter is) := by
    intro is halways
    refine sentFrom_append (fun _ => false) (fun rest s => ∃ k, left k rest s) ?_ is rest _
      ⟨n, hstart⟩ halways
    rintro rest s i ⟨k, hk⟩ hrun hok
    obtain ⟨k', rest', -, hsent, hleft⟩ := hstep k rest s i hk hrun hok
    exact ⟨rest', hsent, k', hleft⟩
  have hrank : ∀ (is : List ι) (n : Nat) (rest : List ω) (s : σ), left n rest s →
      m.Always ok s is → m.running (m.exec s is) = true → is.length ≤ n := by
    intro is
    induction is with
    | nil => intro n _ _ _ _ _; exact Nat.zero_le n
    | cons i is ih =>
        intro n rest s hs halways hrun
        by_cases hs' : m.running s = true
        · obtain ⟨hok, hrest⟩ := halways hs'
          obtain ⟨k, rest', hk, -, hleft⟩ := hstep n rest s i hs hs' hok
          rw [exec_cons_running hs'] at hrun
          have := ih k rest' _ hleft hrest hrun
          rw [List.length_cons]
          omega
        · rw [Bool.not_eq_true] at hs'
          rw [exec_stopped hs', hs'] at hrun
          cases hrun
  refine ⟨fun is halways hrun => ?_, ⟨n + 1, fun is halways hlen => ?_⟩,
    fun is halways hend => ?_⟩
  · obtain ⟨rest', -, k, hk⟩ := hleft is halways
    exact hpossible k rest' _ hk hrun
  · by_contra hrun
    rw [Bool.not_eq_false] at hrun
    have := hrank is n rest _ hstart halways hrun
    omega
  · obtain ⟨rest', hsent, k, hk⟩ := hleft is halways
    rw [hstop k rest' _ hk hend, List.append_nil] at hsent
    rw [sent, hsent, hps]

end

end Reactive.Machine

namespace WindowSender

open Reactive

variable {P R : Type} {acks : P → R → Bool} {ps : List P} {W maxRetries : Nat}

/-- **In successful runs the sender sends its packets**, each one once. -/
theorem sendsWhen {τ : Type} {c : Machine τ R P} {γ : State → τ} {ok : τ → R → Prop}
    (hW : 0 < W) (hps : ps ≠ []) (hmax : 0 < maxRetries)
    (h : Machine.Simulates (machine acks ps W maxRetries) c γ (Valid ps maxRetries))
    (hok : ∀ pos retries r, pos < ps.length →
      (ok (γ (.awaiting pos retries)) r ↔ acked acks ps W pos r = true))
    (hacks : ∀ pos, pos < ps.length → ∃ r, acked acks ps W pos r = true) :
    c.SendsWhen ok ps := by
  have hpos₀ : 0 < ps.length := List.length_pos_of_ne_nil hps
  have hstart : c.start = (γ (.awaiting 0 0), window ps W 0) := h.start
  refine Machine.SendsWhen.of_rank
    (fun n rest s => (∃ pos retries, s = γ (.awaiting pos retries) ∧ pos < ps.length ∧
        retries < maxRetries ∧ rest = ps.drop (pos + W) ∧ n = ps.length - pos) ∨
      (s = γ .finished ∧ rest = []))
    (Or.inl ⟨0, 0, ?_, hpos₀, hmax, rfl, (Nat.sub_zero ps.length).symm⟩) ?_ ?_ ?_ ?_
  · rw [hstart]
  · rw [hstart]
    exact window_append_drop ps W 0
  · rintro n rest s (⟨pos, retries, rfl, -⟩ | ⟨-, rfl⟩) hrun
    · rw [h.running] at hrun
      cases hrun
    · rfl
  · rintro n rest s (⟨pos, retries, rfl, hpos, -⟩ | ⟨rfl, -⟩) hrun
    · obtain ⟨r, hr⟩ := hacks pos hpos
      exact ⟨r, (hok pos retries r hpos).mpr hr⟩
    · rw [h.running] at hrun
      cases hrun
  · rintro n rest s r (⟨pos, retries, rfl, hpos, hretries, rfl, rfl⟩ | ⟨rfl, -⟩) hrun hr
    · have hstep : (machine acks ps W maxRetries).step (.awaiting pos retries) r
          = step acks ps W maxRetries (.awaiting pos retries) r := rfl
      rw [h.step (.awaiting pos retries) r ⟨hpos, hretries⟩ rfl, hstep, step,
        if_pos ((hok pos retries r hpos).mp hr)]
      by_cases hmore : pos + W < ps.length
      · rw [if_pos hmore]
        exact ⟨ps.length - (pos + W), ps.drop (pos + W + W), by omega,
          window_append_drop ps W (pos + W), Or.inl ⟨pos + W, 0, rfl, hmore, hmax, rfl, rfl⟩⟩
      · rw [if_neg hmore]
        refine ⟨0, [], by omega, ?_, Or.inr ⟨rfl, rfl⟩⟩
        rw [List.drop_eq_nil_of_le (by omega), List.append_nil]
    · rw [h.running] at hrun
      cases hrun

/-- The sender repeats a window. -/
def repeating : State → Bool
  | .awaiting _ retries => 0 < retries
  | _ => false

/-- What is still to be sent. -/
inductive Left (ps : List P) (W : Nat) : List P → State → Prop where
  | awaiting (pos retries : Nat) : Left ps W (ps.drop (pos + W)) (.awaiting pos retries)
  | finished : Left ps W [] .finished
  | gaveUp (rest : List P) (pos : Nat) : Left ps W rest (.gaveUp pos)

theorem Left.step {rest : List P} {s : State} (h : Left ps W rest s) (r : R) :
    ∃ rest', (if repeating (step acks ps W maxRetries s r).1 then []
        else (step acks ps W maxRetries s r).2) ++ rest' = rest ∧
      Left ps W rest' (step acks ps W maxRetries s r).1 := by
  cases h with
  | finished => exact ⟨[], rfl, .finished⟩
  | gaveUp rest pos => exact ⟨rest, rfl, .gaveUp rest pos⟩
  | awaiting pos retries =>
      rw [WindowSender.step]
      by_cases hacked : acked acks ps W pos r = true
      · rw [if_pos hacked]
        by_cases hmore : pos + W < ps.length
        · rw [if_pos hmore]
          exact ⟨_, window_append_drop ps W (pos + W), .awaiting (pos + W) 0⟩
        · rw [if_neg hmore]
          refine ⟨[], ?_, .finished⟩
          rw [List.drop_eq_nil_of_le (by omega)]
          rfl
      · rw [if_neg hacked]
        by_cases hretry : retries + 1 < maxRetries
        · rw [if_pos hretry]
          refine ⟨_, ?_, .awaiting pos (retries + 1)⟩
          rw [repeating, decide_eq_true (Nat.succ_pos retries), if_pos rfl, List.nil_append]
        · rw [if_neg hretry]
          exact ⟨_, rfl, .gaveUp _ pos⟩

/-- **A finished run sends its packets**, if repetitions are not counted. -/
theorem sentFrom_finished (rs : List R)
    (hend : (machine acks ps W maxRetries).stateAfter rs = .finished) :
    window ps W 0 ++ (machine acks ps W maxRetries).sentFrom repeating (.awaiting 0 0) rs
      = ps := by
  obtain ⟨rest, hsent, hleft⟩ := Machine.sentFrom_append (m := machine acks ps W maxRetries)
    repeating (Left ps W) (fun _ _ r h _ _ => h.step r) rs _ (.awaiting 0 0) (.awaiting 0 0)
    (Machine.always_of_forall (fun _ _ => trivial) rs _)
  have hnil : rest = [] := by
    rw [show (machine acks ps W maxRetries).exec (.awaiting 0 0) rs = .finished from hend]
      at hleft
    cases hleft
    rfl
  rw [hnil, List.append_nil] at hsent
  rw [hsent]
  exact window_append_drop ps W 0

/-- There is such a run if every window can be acknowledged. -/
theorem exists_finished (hps : ps ≠ []) (hW : 0 < W)
    (hacks : ∀ pos, pos < ps.length → ∃ r, acked acks ps W pos r = true) :
    ∃ rs, (machine acks ps W maxRetries).stateAfter rs = .finished := by
  have hfrom : ∀ left pos, pos < ps.length → ps.length - pos ≤ left →
      ∃ rs, (machine acks ps W maxRetries).exec (.awaiting pos 0) rs = .finished := by
    intro left
    induction left with
    | zero => intro pos hpos hle; omega
    | succ left ih =>
        intro pos hpos hle
        obtain ⟨r, hr⟩ := hacks pos hpos
        have hstep : ((machine acks ps W maxRetries).step (.awaiting pos 0) r).1
            = if pos + W < ps.length then .awaiting (pos + W) 0 else .finished := by
          show (step acks ps W maxRetries _ r).1 = _
          rw [step, if_pos hr]
          split_ifs <;> rfl
        by_cases hmore : pos + W < ps.length
        · obtain ⟨rs, hrs⟩ := ih (pos + W) hmore (by omega)
          refine ⟨r :: rs, ?_⟩
          rw [Machine.exec_cons_running (m := machine acks ps W maxRetries) rfl, hstep,
            if_pos hmore, hrs]
        · refine ⟨[r], ?_⟩
          rw [Machine.exec_cons_running (m := machine acks ps W maxRetries) rfl, hstep,
            if_neg hmore]
          rfl
  exact hfrom ps.length 0 (List.length_pos_of_ne_nil hps) (Nat.sub_le _ _)

end WindowSender
