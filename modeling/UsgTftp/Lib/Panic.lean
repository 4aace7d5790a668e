import UsgTftp.Lib.Reactive

set_option autoImplicit false

/-! # Computations that may panic

A computation that may panic gives an `Option`, and `none` is the panic. The primitives of a
cursor over a buffer and of fixed-width arithmetic are here with the bounds that they check,
and so are runs of a machine whose steps may panic.

A development that has a total model of a program states the same program again over these
primitives and proves that it gives `some` of the total model. A machine with such steps does
not panic in the runs whose steps meet the conditions of those equations (`exec_isSome_iff`).
-/

namespace Panicking

/-! ## Buffers -/

section Buffers

variable {α : Type}

/-- `&xs[..n]`. -/
def sliceTo (xs : List α) (n : Nat) : Option (List α) :=
  if n ≤ xs.length then some (xs.take n) else none

/-- The first `n` elements, and the rest. -/
def splitTo (xs : List α) (n : Nat) : Option (List α × List α) :=
  if n ≤ xs.length then some (xs.take n, xs.drop n) else none

/-- The rest after the first `n` elements. -/
def advance (xs : List α) (n : Nat) : Option (List α) :=
  if n ≤ xs.length then some (xs.drop n) else none

/-- The first element, and the rest. -/
def getFirst : List α → Option (α × List α)
  | [] => none
  | x :: xs => some (x, xs)

theorem sliceTo_eq {xs : List α} {n : Nat} (h : n ≤ xs.length) :
    sliceTo xs n = some (xs.take n) := if_pos h

theorem splitTo_eq {xs : List α} {n : Nat} (h : n ≤ xs.length) :
    splitTo xs n = some (xs.take n, xs.drop n) := if_pos h

theorem advance_eq {xs : List α} {n : Nat} (h : n ≤ xs.length) :
    advance xs n = some (xs.drop n) := if_pos h

/-- What one receive leaves in a buffer, and its size: a longer message is cut off, and after a
shorter one the end of the buffer keeps what it held. -/
def receiveInto (buffer message : List α) : List α × Nat :=
  let size := min buffer.length message.length
  (message.take size ++ buffer.drop size, size)

theorem receiveInto_size (buffer message : List α) :
    (receiveInto buffer message).2 = (message.take buffer.length).length :=
  List.length_take.symm

/-- The filled part is within the buffer, and what the buffer held before is not in it. -/
theorem sliceTo_receiveInto (buffer message : List α) :
    sliceTo (receiveInto buffer message).1 (receiveInto buffer message).2
      = some (message.take buffer.length) := by
  have hsize : (message.take (min buffer.length message.length)).length
      = min buffer.length message.length := by
    rw [List.length_take]
    omega
  have hfits : min buffer.length message.length
      ≤ (message.take (min buffer.length message.length)
          ++ buffer.drop (min buffer.length message.length)).length := by
    rw [List.length_append, hsize]
    exact Nat.le_add_right _ _
  simp only [receiveInto]
  rw [sliceTo_eq hfits, List.take_append_of_le_length (le_of_eq hsize.symm), List.take_take,
    Nat.min_self]
  congr 1
  rcases Nat.le_total buffer.length message.length with h | h
  · rw [Nat.min_eq_left h]
  · rw [Nat.min_eq_right h, List.take_length, List.take_of_length_le h]

end Buffers

/-! ## Arithmetic -/

/-- `x - y` of unsigned numbers. -/
def sub (x y : Nat) : Option Nat := if y ≤ x then some (x - y) else none

/-- `x % y`. -/
def rem16 (x y : UInt16) : Option UInt16 := if y = 0 then none else some (x % y)

/-- `x + y`. -/
def add16 (x y : UInt16) : Option UInt16 :=
  if x.toNat + y.toNat < 2 ^ 16 then some (x + y) else none

/-- A remainder and one more do not overflow. -/
theorem add16_rem_one {x y : UInt16} (h : y ≠ 0) : add16 (x % y) 1 = some (x % y + 1) := by
  have hpos : 0 < y.toNat := Nat.pos_of_ne_zero fun h0 => h (UInt16.toNat_inj.mp h0)
  have hlt := Nat.mod_lt x.toNat hpos
  have hy := y.toNat_lt
  refine if_pos ?_
  rw [UInt16.toNat_mod, show (1 : UInt16).toNat = 1 from rfl]
  omega

/-! ## Runs -/

section Runs

open Reactive

variable {σ ι ω : Type}

/-- A run whose steps may panic. -/
def exec (running : σ → Bool) (step : σ → ι → Option (σ × List ω)) (s : σ) :
    List ι → Option σ
  | [] => some s
  | i :: is =>
      if running s then (step s i).bind fun r => exec running step r.1 is else some s

/-- The machine does not panic in the run if its steps are these. -/
def survives (m : Machine σ ι ω) (step : σ → ι → Option (σ × List ω)) (is : List ι) : Bool :=
  (exec m.running step m.start.1 is).isSome

/-- **Runs without a panic.** If the steps that meet a condition are those of a machine, and the
others panic, then a run does not panic if and only if all its steps meet the condition. -/
theorem exec_isSome_iff {m : Machine σ ι ω} {step : σ → ι → Option (σ × List ω)}
    {ok : σ → ι → Prop}
    (hok : ∀ s i, m.running s = true → ok s i → step s i = some (m.step s i))
    (hpanic : ∀ s i, m.running s = true → ¬ok s i → step s i = none) :
    ∀ (is : List ι) (s : σ), (exec m.running step s is).isSome = true ↔ m.Always ok s is := by
  intro is
  induction is with
  | nil => intro s; exact ⟨fun _ => trivial, fun _ => rfl⟩
  | cons i is ih =>
      intro s
      by_cases hrun : m.running s = true
      · rw [exec, if_pos hrun]
        by_cases h : ok s i
        · rw [hok s i hrun h, Option.bind_some, ih]
          exact ⟨fun hrest _ => ⟨h, hrest⟩, fun hall => (hall hrun).2⟩
        · rw [hpanic s i hrun h, Option.bind_none]
          exact ⟨fun hnone => absurd hnone Bool.false_ne_true, fun hall => absurd (hall hrun).1 h⟩
      · rw [exec, if_neg hrun]
        exact ⟨fun _ h => absurd h hrun, fun _ => rfl⟩

/-- A machine whose steps cannot panic runs as the machine without the checks. -/
theorem exec_eq {m : Machine σ ι ω} {step : σ → ι → Option (σ × List ω)}
    (h : ∀ s i, m.running s = true → step s i = some (m.step s i)) :
    ∀ (is : List ι) (s : σ), exec m.running step s is = some (m.exec s is) := by
  intro is
  induction is with
  | nil => intro s; rfl
  | cons i is ih =>
      intro s
      by_cases hrun : m.running s = true
      · rw [exec, if_pos hrun, h s i hrun, Option.bind_some, ih, Machine.exec_cons_running hrun]
      · rw [exec, if_neg hrun, Machine.exec_stopped (by simpa using hrun)]

theorem survives_of_eq {m : Machine σ ι ω} {step : σ → ι → Option (σ × List ω)}
    (h : ∀ s i, m.running s = true → step s i = some (m.step s i)) (is : List ι) :
    survives m step is = true := by
  rw [survives, exec_eq h]
  rfl

end Runs

end Panicking
