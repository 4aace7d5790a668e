import Mathlib.Data.List.Basic
import Mathlib.Logic.Function.Basic

set_option autoImplicit false

/-! # Bounded channels

A sender with one bounded channel to each of several receivers. A message is refused when its
channel is full, and a receiver takes the messages of its channel in the order in which they were
sent.

`Carries` says that nothing is lost, repeated or reordered between the sender and the receivers;
sending and taking keep it (`Carries.send`, `Carries.take`), and no channel gets longer than its
capacity (`Within.send`, `Within.take`).
-/

namespace Channels

variable {ι α : Type} [DecidableEq ι]

/-- The messages in the channels, and those that the receivers have taken, the oldest first. -/
structure State (ι α : Type) where
  queue : ι → List α
  taken : ι → List α

def empty : State ι α := ⟨fun _ => [], fun _ => []⟩

/-- There is room for a message to `i`. -/
def State.hasRoom (capacity : Nat) (s : State ι α) (i : ι) : Bool :=
  decide ((s.queue i).length < capacity)

/-- A message to `i`, for which there is room. -/
def State.send (i : ι) (a : α) (s : State ι α) : State ι α :=
  { s with queue := Function.update s.queue i (s.queue i ++ [a]) }

/-- Receiver `i` takes the oldest message in its channel. -/
def State.take (i : ι) (s : State ι α) : State ι α :=
  match s.queue i with
  | [] => s
  | a :: rest =>
      { queue := Function.update s.queue i rest
        taken := Function.update s.taken i (s.taken i ++ [a]) }

/-- The messages to `i`. -/
def sentTo (i : ι) (sent : List (ι × α)) : List α :=
  sent.filterMap fun m => if m.1 = i then some m.2 else none

/-- **Exactly once, in order.** What a receiver has taken and what is in its channel are the
messages that were sent to it. -/
def Carries (s : State ι α) (sent : List (ι × α)) : Prop :=
  ∀ i, s.taken i ++ s.queue i = sentTo i sent

def Within (capacity : Nat) (s : State ι α) : Prop := ∀ i, (s.queue i).length ≤ capacity

section

variable {s : State ι α} {sent : List (ι × α)} {capacity : Nat} {i : ι} {a : α}

theorem sentTo_append (i : ι) (sent sent' : List (ι × α)) :
    sentTo i (sent ++ sent') = sentTo i sent ++ sentTo i sent' :=
  List.filterMap_append

theorem carries_empty : Carries (empty : State ι α) [] := fun _ => rfl

theorem Carries.send (h : Carries s sent) : Carries (s.send i a) (sent ++ [(i, a)]) := by
  intro j
  rw [sentTo_append, ← h j]
  by_cases hj : j = i
  · subst hj
    simp [State.send, sentTo]
  · simp [State.send, sentTo, Function.update_of_ne hj, Ne.symm hj]

theorem Carries.take (h : Carries s sent) : Carries (s.take i) sent := by
  intro j
  rw [← h j]
  unfold State.take
  split
  · rfl
  · rename_i a rest hqueue
    by_cases hj : j = i
    · subst hj
      simp [hqueue]
    · simp [Function.update_of_ne hj]

theorem Within.send (h : Within capacity s) (hroom : s.hasRoom capacity i = true) :
    Within capacity (s.send i a) := by
  intro j
  by_cases hj : j = i
  · subst hj
    have hlt : (s.queue j).length + 1 ≤ capacity := of_decide_eq_true hroom
    simpa [State.send] using hlt
  · simpa [State.send, Function.update_of_ne hj] using h j

theorem Within.take (h : Within capacity s) : Within capacity (s.take i) := by
  intro j
  unfold State.take
  split
  · exact h j
  · rename_i a rest hqueue
    by_cases hj : j = i
    · subst hj
      have hle := h j
      rw [hqueue, List.length_cons] at hle
      show (Function.update s.queue j rest j).length ≤ capacity
      rw [Function.update_self]
      omega
    · simpa [Function.update_of_ne hj] using h j

omit [DecidableEq ι] in
/-- A channel without room is full. -/
theorem Within.hasRoom_iff (h : Within capacity s) (i : ι) :
    s.hasRoom capacity i = false ↔ (s.queue i).length = capacity := by
  have hle := h i
  unfold State.hasRoom
  rw [decide_eq_false_iff_not]
  omega

/-- What is taken was sent. -/
theorem Carries.taken_prefix (h : Carries s sent) (i : ι) : s.taken i <+: sentTo i sent :=
  ⟨s.queue i, h i⟩

theorem mem_sentTo {b : α} : b ∈ sentTo i sent ↔ (i, b) ∈ sent := by
  unfold sentTo
  rw [List.mem_filterMap]
  constructor
  · rintro ⟨⟨j, c⟩, hmem, heq⟩
    split_ifs at heq with hj
    cases heq
    cases hj
    exact hmem
  · intro hmem
    exact ⟨(i, b), hmem, if_pos rfl⟩

/-- The messages to one receiver are some of all messages. -/
theorem sentTo_sublist (i : ι) (sent : List (ι × α)) :
    (sentTo i sent).Sublist (sent.map Prod.snd) := by
  induction sent with
  | nil => exact List.Sublist.slnil
  | cons m sent ih =>
      unfold sentTo
      rw [List.filterMap_cons, List.map_cons]
      by_cases hm : m.1 = i
      · rw [if_pos hm]
        exact ih.cons_cons m.2
      · rw [if_neg hm]
        exact ih.cons m.2

end

end Channels
