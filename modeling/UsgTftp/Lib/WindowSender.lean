import UsgTftp.Lib.Reactive

set_option autoImplicit false

/-! # A sender that repeats a window until its last packet is acknowledged

The abstract sender has a list of packets `ps` and a window width `W`. It sends the window
at `pos`, waits for one reply, moves on by `W` if the reply acknowledges the last packet of
the window, and otherwise sends the same window again, `maxRetries` times at most.

`trace_groups` describes every finished run: its trace is a sequence of groups, each a
window of `ps` sent between `1` and `maxRetries` times; a group is followed by another only
if its last reply acknowledges its last packet; and the groups concatenate to `ps` unless
the last one used up its attempts. `stateAfter_done` says that the sender always finishes.
-/

namespace WindowSender

open Reactive

variable {P R : Type}

inductive State where
  /-- The window at `pos` is in flight for the `retries + 1`-st time. -/
  | awaiting (pos retries : Nat)
  | finished
  | gaveUp (pos : Nat)
  deriving DecidableEq, Repr

/-- The window at `pos`. -/
def window (ps : List P) (W pos : Nat) : List P := (ps.drop pos).take W

/-- The reply acknowledges the last packet of the window at `pos`. -/
def acked (acks : P → R → Bool) (ps : List P) (W pos : Nat) (r : R) : Bool :=
  (window ps W pos).getLast?.any (acks · r)

def step (acks : P → R → Bool) (ps : List P) (W maxRetries : Nat) : State → R → State × List P
  | .awaiting pos retries, r =>
      if acked acks ps W pos r then
        if pos + W < ps.length then (.awaiting (pos + W) 0, window ps W (pos + W))
        else (.finished, [])
      else if retries + 1 < maxRetries then (.awaiting pos (retries + 1), window ps W pos)
      else (.gaveUp pos, [])
  | s, _ => (s, [])

def running : State → Bool
  | .awaiting _ _ => true
  | _ => false

def machine (acks : P → R → Bool) (ps : List P) (W maxRetries : Nat) : Machine State R P where
  start := (.awaiting 0 0, window ps W 0)
  step := step acks ps W maxRetries
  running := running

/-! ## Groups -/

/-- A window together with the replies read after each time it was sent. -/
structure Group (P R : Type) where
  packets : List P
  rounds : List (List R)

/-- What an observer sees of a group. -/
def Group.events (g : Group P R) : List (Event R P) :=
  g.rounds.flatMap fun replies => g.packets.map .output ++ replies.map .input

/-- The last reply of the group acknowledges the last packet of the group. -/
def Group.Acked (acks : P → R → Bool) (g : Group P R) : Prop :=
  ∃ p r, g.packets.getLast? = some p ∧ g.rounds.flatten.getLast? = some r ∧ acks p r = true

/-- **The grouped trace of a sender.** -/
structure Grouped (acks : P → R → Bool) (ps : List P) (W maxRetries : Nat)
    (gs : List (Group P R)) : Prop where
  width : ∀ g ∈ gs, g.packets ≠ [] ∧ g.packets.length ≤ W
  attempts : ∀ g ∈ gs, 1 ≤ g.rounds.length ∧ g.rounds.length ≤ maxRetries
  handover : gs.IsChain fun g _ => g.Acked acks
  order : gs.flatMap (·.packets) <+: ps
  complete : gs.flatMap (·.packets) = ps ∨ ∃ g ∈ gs, g.rounds.length = maxRetries

theorem window_ne_nil {ps : List P} {W pos : Nat} (hW : 0 < W) (h : pos < ps.length) :
    window ps W pos ≠ [] := by
  intro hnil
  have := congrArg List.length hnil
  simp only [window, List.length_take, List.length_drop, List.length_nil] at this
  omega

theorem length_window_le (ps : List P) (W pos : Nat) : (window ps W pos).length ≤ W := by
  simp [window]

theorem window_append_drop (ps : List P) (W pos : Nat) :
    window ps W pos ++ ps.drop (pos + W) = ps.drop pos := by
  rw [window, ← List.drop_drop, List.take_append_drop]

theorem window_eq_drop {ps : List P} {W pos : Nat} (h : ps.length ≤ pos + W) :
    window ps W pos = ps.drop pos := by
  rw [window, List.take_of_length_le]
  simp only [List.length_drop]; omega

/-! ## Runs -/

section

variable {acks : P → R → Bool} {ps : List P} {W maxRetries : Nat}

theorem acked_of_single {pos : Nat} {r : R} (h : acked acks ps W pos r = true) :
    (Group.mk (window ps W pos) [[r]] : Group P R).Acked acks := by
  obtain ⟨p, hp, ha⟩ := (Option.any_eq_true _ _).mp h
  exact ⟨p, r, hp, rfl, ha⟩

/-- Adding an earlier failed round to a group keeps what its last reply says. -/
theorem Group.Acked.cons_round {g : Group P R} (h : g.Acked acks) (r : R) :
    (Group.mk g.packets ([r] :: g.rounds)).Acked acks := by
  obtain ⟨p, r', hp, hr, ha⟩ := h
  refine ⟨p, r', hp, ?_, ha⟩
  have hne : g.rounds.flatten ≠ [] := by
    intro hnil; rw [hnil] at hr; simp at hr
  rw [List.flatten_cons, List.getLast?_append_of_ne_nil _ hne, hr]

/-- The groups of the part of a run that starts with the window at `pos` in flight after
`retries` failed attempts; the first group counts only the attempts from here on. -/
structure GroupedFrom (acks : P → R → Bool) (ps : List P) (W maxRetries pos retries : Nat)
    (g : Group P R) (gs : List (Group P R)) : Prop where
  head : g.packets = window ps W pos
  headAttempts : 1 ≤ g.rounds.length ∧ g.rounds.length + retries ≤ maxRetries
  width : ∀ h ∈ g :: gs, h.packets ≠ [] ∧ h.packets.length ≤ W
  attempts : ∀ h ∈ gs, 1 ≤ h.rounds.length ∧ h.rounds.length ≤ maxRetries
  handover : (g :: gs).IsChain fun g _ => g.Acked acks
  order : (g :: gs).flatMap (·.packets) <+: ps.drop pos
  complete : (g :: gs).flatMap (·.packets) = ps.drop pos ∨
    g.rounds.length + retries = maxRetries ∨ ∃ h ∈ gs, h.rounds.length = maxRetries

/-- One reply ends the run: the run is one group of one attempt. -/
theorem groupedFrom_single {pos retries : Nat} {r : R} (hW : 0 < W) (hpos : pos < ps.length)
    (hr : retries < maxRetries)
    (hend : ps.length ≤ pos + W ∨ retries + 1 = maxRetries) :
    GroupedFrom acks ps W maxRetries pos retries ⟨window ps W pos, [[r]]⟩ [] where
  head := rfl
  headAttempts := ⟨Nat.le_refl _, by simp only [List.length_singleton]; omega⟩
  width := by
    intro h hh
    rw [List.mem_singleton.mp hh]
    exact ⟨window_ne_nil hW hpos, length_window_le _ _ _⟩
  attempts := by intro h hh; cases hh
  handover := List.isChain_singleton _
  order := by
    rw [List.flatMap_singleton, ← window_append_drop ps W pos]
    exact List.prefix_append _ _
  complete := by
    rcases hend with h | h
    · left; rw [List.flatMap_singleton, window_eq_drop h]
    · right; left; simp only [List.length_singleton]; omega

/-- The reply acknowledges the window: it becomes a group of its own before the groups of
the rest. -/
theorem GroupedFrom.acked_cons {pos retries : Nat} {r : R} {g : Group P R}
    {gs : List (Group P R)} (hW : 0 < W) (hpos : pos < ps.length) (hr : retries < maxRetries)
    (ha : acked acks ps W pos r = true)
    (h : GroupedFrom acks ps W maxRetries (pos + W) 0 g gs) :
    GroupedFrom acks ps W maxRetries pos retries ⟨window ps W pos, [[r]]⟩ (g :: gs) where
  head := rfl
  headAttempts := ⟨Nat.le_refl _, by simp only [List.length_singleton]; omega⟩
  width := by
    intro k hk
    rcases List.mem_cons.mp hk with rfl | hk
    · exact ⟨window_ne_nil hW hpos, length_window_le _ _ _⟩
    · exact h.width k hk
  attempts := by
    intro k hk
    rcases List.mem_cons.mp hk with rfl | hk
    · exact ⟨h.headAttempts.1, by have := h.headAttempts.2; omega⟩
    · exact h.attempts k hk
  handover := by
    rw [List.isChain_cons_cons]
    exact ⟨acked_of_single ha, h.handover⟩
  order := by
    rw [List.flatMap_cons, ← window_append_drop ps W pos]
    exact List.prefix_append_right_inj _ |>.mpr h.order
  complete := by
    rcases h.complete with hc | hc | ⟨k, hk, hc⟩
    · left; rw [List.flatMap_cons, hc, window_append_drop]
    · right; right; exact ⟨g, List.mem_cons_self, by omega⟩
    · right; right; exact ⟨k, List.mem_cons_of_mem _ hk, hc⟩

/-- The reply does not acknowledge the window: the first group of the rest gets one attempt
more. -/
theorem GroupedFrom.retry_cons {pos retries : Nat} {g : Group P R} {gs : List (Group P R)}
    (h : GroupedFrom acks ps W maxRetries pos (retries + 1) g gs) (r : R) :
    GroupedFrom acks ps W maxRetries pos retries ⟨g.packets, [r] :: g.rounds⟩ gs where
  head := h.head
  headAttempts := by
    have := h.headAttempts
    simp only [List.length_cons]; omega
  width := by
    intro k hk
    rcases List.mem_cons.mp hk with rfl | hk
    · exact h.width g List.mem_cons_self
    · exact h.width k (List.mem_cons_of_mem _ hk)
  attempts := h.attempts
  handover := by
    have hc := h.handover
    cases gs with
    | nil => exact List.isChain_singleton _
    | cons k ks =>
        rw [List.isChain_cons_cons] at hc ⊢
        exact ⟨hc.1.cons_round r, hc.2⟩
  order := by simpa only [List.flatMap_cons] using h.order
  complete := by
    rcases h.complete with hc | hc | hc
    · left; simpa only [List.flatMap_cons] using hc
    · right; left; simp only [List.length_cons]; omega
    · right; right; exact hc

/-- Every run that has finished decomposes into groups. The induction is on the replies;
the three cases are an acknowledging reply, a repetition and the last attempt. -/
theorem events_groups (hW : 0 < W) :
    ∀ (rs : List R) (pos retries : Nat), pos < ps.length → retries < maxRetries →
      running ((machine acks ps W maxRetries).exec (.awaiting pos retries) rs) = false →
      ∃ g gs, GroupedFrom acks ps W maxRetries pos retries g gs ∧
        (window ps W pos).map .output
            ++ (machine acks ps W maxRetries).events (.awaiting pos retries) rs
          = (g :: gs).flatMap Group.events := by
  intro rs
  induction rs with
  | nil => intro pos retries _ _ hdone; exact absurd hdone (by simp [Machine.exec, running])
  | cons r rs ih =>
      intro pos retries hpos hr hdone
      have hrun : (machine acks ps W maxRetries).running (.awaiting pos retries) = true := rfl
      rw [Machine.exec_cons_running hrun] at hdone
      rw [Machine.events_cons_running hrun]
      have hstep : (machine acks ps W maxRetries).step (.awaiting pos retries) r
          = step acks ps W maxRetries (.awaiting pos retries) r := rfl
      rw [hstep] at hdone ⊢
      -- acknowledged: a new group; else one more round of the group at the head
      by_cases ha : acked acks ps W pos r = true
      · by_cases hmore : pos + W < ps.length
        · simp only [step, ha, hmore, if_true] at hdone ⊢
          obtain ⟨g, gs, hg, hev⟩ := ih (pos + W) 0 hmore (by omega) hdone
          refine ⟨⟨window ps W pos, [[r]]⟩, g :: gs, hg.acked_cons hW hpos hr ha, ?_⟩
          rw [hev, List.flatMap_cons]
          simp [Group.events]
        · simp only [step, ha, hmore, if_true, if_false] at hdone ⊢
          refine ⟨_, _, groupedFrom_single (r := r) hW hpos hr (Or.inl (by omega)), ?_⟩
          rw [Machine.events_stopped rfl]
          simp [Group.events]
      · by_cases hmore : retries + 1 < maxRetries
        · simp only [step, ha, hmore, if_true, if_false, Bool.false_eq_true] at hdone ⊢
          obtain ⟨g, gs, hg, hev⟩ := ih pos (retries + 1) hpos hmore hdone
          refine ⟨_, _, hg.retry_cons r, ?_⟩
          rw [hev, List.flatMap_cons, List.flatMap_cons, ← hg.head]
          simp [Group.events]
        · simp only [step, ha, hmore, if_false, Bool.false_eq_true] at hdone ⊢
          refine ⟨_, _, groupedFrom_single (r := r) hW hpos hr (Or.inr (by omega)), ?_⟩
          rw [Machine.events_stopped rfl]
          simp [Group.events]

/-- **The trace of a finished sender is grouped.** -/
theorem trace_groups (hW : 0 < W) (hps : ps ≠ []) (hmax : 0 < maxRetries) (rs : List R)
    (hdone : running ((machine acks ps W maxRetries).stateAfter rs) = false) :
    ∃ gs, Grouped acks ps W maxRetries gs ∧
      (machine acks ps W maxRetries).trace rs = gs.flatMap Group.events := by
  obtain ⟨g, gs, hg, hev⟩ :=
    events_groups hW rs 0 0 (List.length_pos_of_ne_nil hps) hmax hdone
  refine ⟨g :: gs, ⟨hg.width, ?_, hg.handover, hg.order, ?_⟩, hev⟩
  · intro h hh
    rcases List.mem_cons.mp hh with rfl | hh
    · exact ⟨hg.headAttempts.1, by have := hg.headAttempts.2; omega⟩
    · exact hg.attempts h hh
  · rcases hg.complete with hc | hc | ⟨h, hh, hc⟩
    · exact Or.inl hc
    · exact Or.inr ⟨g, List.mem_cons_self, by omega⟩
    · exact Or.inr ⟨h, List.mem_cons_of_mem _ hh, hc⟩

/-! ## Reachable states and termination -/

/-- What holds in every state of a run: the window in flight is not empty and has attempts
left. -/
def Valid (ps : List P) (maxRetries : Nat) : State → Prop
  | .awaiting pos retries => pos < ps.length ∧ retries < maxRetries
  | _ => True

theorem valid_start (hps : ps ≠ []) (hmax : 0 < maxRetries) :
    Valid ps maxRetries (machine acks ps W maxRetries).start.1 :=
  ⟨List.length_pos_of_ne_nil hps, hmax⟩

theorem valid_step {s : State} (hs : Valid ps maxRetries s) (r : R) :
    Valid ps maxRetries (step acks ps W maxRetries s r).1 := by
  cases s with
  | finished => trivial
  | gaveUp pos => trivial
  | awaiting pos retries =>
      simp only [step]
      split_ifs with ha hmore hretry
      · exact ⟨hmore, by have := hs.2; omega⟩
      · trivial
      · exact ⟨hs.1, hretry⟩
      · trivial

theorem mem_of_mem_window {pos : Nat} {p : P} (h : p ∈ window ps W pos) : p ∈ ps :=
  List.mem_of_mem_drop (List.mem_of_mem_take h)

theorem mem_of_mem_step {s : State} {r : R} {p : P}
    (h : p ∈ (step acks ps W maxRetries s r).2) : p ∈ ps := by
  cases s with
  | finished => cases h
  | gaveUp pos => cases h
  | awaiting pos retries =>
      simp only [step] at h
      split_ifs at h with ha hmore hretry
      · exact mem_of_mem_window h
      · cases h
      · exact mem_of_mem_window h
      · cases h

/-- The sender finishes only on an acknowledgement of a window that reaches the end. -/
theorem step_eq_finished {pos retries : Nat} {r : R}
    (h : (step acks ps W maxRetries (.awaiting pos retries) r).1 = .finished) :
    acked acks ps W pos r = true ∧ ps.length ≤ pos + W := by
  simp only [step] at h
  split_ifs at h with ha hmore hretry
  exact ⟨ha, by omega⟩

/-- Replies the sender can still read: an acknowledgement uses up a packet, any other reply
an attempt. -/
def budget (ps : List P) (maxRetries : Nat) : State → Nat
  | .awaiting pos retries => (ps.length - pos) * (maxRetries + 1) + (maxRetries - retries)
  | _ => 0

theorem budget_step (hW : 0 < W) {s : State} (hs : Valid ps maxRetries s)
    (hrun : running s = true) (r : R) :
    budget ps maxRetries (step acks ps W maxRetries s r).1 < budget ps maxRetries s := by
  cases s with
  | finished => cases hrun
  | gaveUp pos => cases hrun
  | awaiting pos retries =>
      obtain ⟨hpos, hr⟩ := hs
      obtain ⟨d, hd⟩ : ∃ d, ps.length - pos = d + 1 := ⟨ps.length - pos - 1, by omega⟩
      have hmul : (d + 1) * (maxRetries + 1) = d * (maxRetries + 1) + maxRetries + 1 := by ring
      simp only [step]
      split_ifs with ha hmore hretry
      · have hle : (ps.length - (pos + W)) * (maxRetries + 1) ≤ d * (maxRetries + 1) :=
          Nat.mul_le_mul_right _ (by omega)
        simp only [budget, hd]
        omega
      · simp only [budget, hd]; omega
      · simp only [budget]; omega
      · simp only [budget, hd]; omega

theorem exec_done_of_budget (hW : 0 < W) :
    ∀ (rs : List R) (s : State), Valid ps maxRetries s → budget ps maxRetries s ≤ rs.length →
      running ((machine acks ps W maxRetries).exec s rs) = false := by
  intro rs
  induction rs with
  | nil =>
      intro s hs hb
      cases s with
      | finished => rfl
      | gaveUp pos => rfl
      | awaiting pos retries =>
          have := hs.2
          simp only [budget, List.length_nil] at hb
          omega
  | cons r rs ih =>
      intro s hs hb
      by_cases hrun : running s = true
      · rw [Machine.exec_cons_running hrun]
        have hlt :
            budget ps maxRetries (step acks ps W maxRetries s r).1 < budget ps maxRetries s :=
          budget_step hW hs hrun r
        rw [List.length_cons] at hb
        exact ih _ (valid_step hs r) (by
          show budget ps maxRetries (step acks ps W maxRetries s r).1 ≤ rs.length
          omega)
      · rw [Bool.not_eq_true] at hrun
        rw [Machine.exec_stopped hrun]
        exact hrun

/-- **The sender finishes**, whatever replies it reads. -/
theorem stateAfter_done (hW : 0 < W) (hps : ps ≠ []) (hmax : 0 < maxRetries)
    (replies : Nat → R) :
    ∃ n, running ((machine acks ps W maxRetries).stateAfter ((List.range n).map replies))
      = false :=
  ⟨budget ps maxRetries (.awaiting 0 0),
    exec_done_of_budget hW _ (.awaiting 0 0) ⟨List.length_pos_of_ne_nil hps, hmax⟩ (by simp)⟩

end

end WindowSender
