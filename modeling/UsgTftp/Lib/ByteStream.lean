import Mathlib.Data.List.Basic
import Mathlib.Tactic

set_option autoImplicit false

/-! # Byte streams in pieces

A stream is the data that is still to come, up to its end, and how it arrives: how much of it is
there at each of the next calls. A call of `read` takes what is there, `peek` leaves it, and both
wait for at least one item unless the stream has ended.

A function whose result depends on the data alone gives the same result however the data arrives.
The rule for `readExact` is `readExact_eq`.
-/

/-- The data to come, and how much of it is there at the next calls (all of it after the last of
them). -/
structure ByteStream (α : Type) where
  data : List α
  arrivals : List Nat
  deriving DecidableEq, Repr

namespace ByteStream

variable {α : Type}

/-- How much a call with a buffer for `room` items gets. Only at the end of the stream, or with an
empty buffer, it is nothing. -/
def arrived (s : ByteStream α) (room : Nat) : Nat :=
  min (max 1 (s.arrivals.headD room)) (min room s.data.length)

def read (s : ByteStream α) (room : Nat) : List α × ByteStream α :=
  (s.data.take (s.arrived room), ⟨s.data.drop (s.arrived room), s.arrivals.tail⟩)

/-- A `read` that takes nothing away. -/
def peek (s : ByteStream α) (room : Nat) : List α × ByteStream α :=
  (s.data.take (s.arrived room), ⟨s.data, s.arrivals.tail⟩)

theorem arrived_le (s : ByteStream α) (room : Nat) : s.arrived room ≤ room :=
  le_trans (min_le_right _ _) (min_le_left _ _)

theorem arrived_le_length (s : ByteStream α) (room : Nat) : s.arrived room ≤ s.data.length :=
  le_trans (min_le_right _ _) (min_le_right _ _)

theorem arrived_eq_zero {s : ByteStream α} {room : Nat} :
    s.arrived room = 0 ↔ room = 0 ∨ s.data = [] := by
  rw [← List.length_eq_zero_iff, arrived]
  omega

/-- `read_exact`: reads until there are `n` items, or the stream ends and that is an error. -/
def readExact (s : ByteStream α) (n : Nat) : Option (List α) × ByteStream α :=
  if n = 0 then (some [], s)
  else
    let (got, s') := s.read n
    if got = [] then (none, s')
    else
      let (more, s'') := s'.readExact (n - got.length)
      (more.map (got ++ ·), s'')
termination_by n
decreasing_by
  rename_i hgot
  have := List.length_pos_iff.mpr hgot
  omega

/-- **`readExact`** gives the next `n` items if there are as many, and takes them away, however they
arrive. -/
theorem readExact_eq (n : Nat) (s : ByteStream α) :
    (s.readExact n).1 = (if n ≤ s.data.length then some (s.data.take n) else none) ∧
      (s.readExact n).2.data = s.data.drop n := by
  induction n using Nat.strong_induction_on generalizing s with
  | _ n ih =>
      rw [readExact]
      by_cases hn : n = 0
      · subst hn
        simp
      · rw [if_neg hn]
        simp only [read, List.take_eq_nil_iff]
        have hle := s.arrived_le n
        have hlen := s.arrived_le_length n
        have hlength : (s.data.take (s.arrived n)).length = s.arrived n := by
          rw [List.length_take, min_eq_left hlen]
        by_cases hend : s.data = []
        · have hz : s.arrived n = 0 := arrived_eq_zero.mpr (Or.inr hend)
          simp [hend, hn]
        · have hpos : s.arrived n ≠ 0 := by
            rw [Ne, arrived_eq_zero]
            tauto
          rw [if_neg (by tauto)]
          obtain ⟨hgot, hrest⟩ := ih (n - s.arrived n) (by omega)
            ⟨s.data.drop (s.arrived n), s.arrivals.tail⟩
          simp only [hlength, hgot, hrest, List.length_drop, List.drop_drop]
          refine ⟨?_, by rw [Nat.add_sub_cancel' hle]⟩
          by_cases henough : n ≤ s.data.length
          · rw [if_pos (by omega), if_pos henough, Option.map_some, ← List.take_add,
              Nat.add_sub_cancel' hle]
          · rw [if_neg (by omega), if_neg henough, Option.map_none]

end ByteStream
