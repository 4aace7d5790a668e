import Mathlib.Data.List.Perm.Basic
import Mathlib.Data.List.Nodup
import Mathlib.Data.List.Induction

set_option autoImplicit false

/-! # Free lists

A pool keeps objects that are not in use, at most `cap` of them. Whoever needs an object takes the
one that came back last, or a new one if there is none; an object that comes back is thrown away
when the pool is full. Objects are told apart by a number, which a new object gets from a counter.

`Owned` says that each object has one owner: the pool, or one of those who hold it. It is kept by
every operation (`Owned.acquire`, `Owned.release`, `Owned.discard`), and a pool from which at most
`n` objects are held at a time never needs more than `n` of them, or those that it had at the
start (`total_acquire`).
-/

namespace FreeList

variable {α : Type}

/-- The objects that are free, the last one that came back first, and the number of the next new
object. -/
structure Pool (α : Type) where
  free : List α
  next : Nat

/-- The last free object, or a new one. -/
def Pool.acquire (create : Nat → α) (p : Pool α) : α × Pool α :=
  match p.free with
  | a :: free => (a, { p with free := free })
  | [] => (create p.next, { p with next := p.next + 1 })

/-- The object is kept if there is room for it. -/
def Pool.release (cap : Nat) (a : α) (p : Pool α) : Pool α :=
  if p.free.length < cap then { p with free := a :: p.free } else p

/-- **Each object has one owner**: the pool, or one of those who hold the objects of `held`. -/
structure Owned (number : α → Nat) (cap : Nat) (p : Pool α) (held : List α) : Prop where
  nodup : ((p.free ++ held).map number).Nodup
  lt : ∀ a ∈ p.free ++ held, number a < p.next
  le : p.free.length ≤ cap

section Owners

variable {number : α → Nat} {create : Nat → α} {cap : Nat} {p : Pool α} {a b : α}
  {held held' : List α}

/-- What counts is which objects are held, and not by whom. -/
theorem Owned.perm (h : Owned number cap p held) (hp : held.Perm held') :
    Owned number cap p held' where
  nodup := ((hp.append_left p.free).map number).nodup_iff.mp h.nodup
  lt := fun a ha => h.lt a ((hp.append_left p.free).mem_iff.mpr ha)
  le := h.le

/-- An object whose number stays is the same object. -/
theorem Owned.change (h : Owned number cap p (a :: held)) (hb : number b = number a) :
    Owned number cap p (b :: held) where
  nodup := by
    have hsame : (p.free ++ b :: held).map number = (p.free ++ a :: held).map number := by
      simp [hb]
    rw [hsame]
    exact h.nodup
  lt := by
    intro c hc
    rcases List.mem_append.mp hc with hfree | hheld
    · exact h.lt c (List.mem_append_left _ hfree)
    · rcases List.mem_cons.mp hheld with rfl | hheld
      · rw [hb]
        exact h.lt a (by simp)
      · exact h.lt c (by simp [hheld])
  le := h.le

theorem Owned.acquire (hnew : ∀ n, number (create n) = n) (h : Owned number cap p held) :
    Owned number cap (p.acquire create).2 ((p.acquire create).1 :: held) := by
  obtain ⟨free, next⟩ := p
  cases free with
  | cons a free =>
      have hswap : (a :: free ++ held).Perm (free ++ a :: held) := List.perm_middle.symm
      refine ⟨(hswap.map number).nodup_iff.mp h.nodup, fun c hc => ?_, ?_⟩
      · exact h.lt c (hswap.mem_iff.mpr hc)
      · exact Nat.le_of_succ_le h.le
  | nil =>
      have hlt : ∀ c ∈ held, number c < next := h.lt
      refine ⟨List.nodup_cons.mpr ⟨?_, h.nodup⟩, ?_, Nat.zero_le _⟩
      · show number (create next) ∉ held.map number
        rw [hnew, List.mem_map]
        rintro ⟨c, hc, hcn⟩
        exact absurd (hlt c hc) (by omega)
      · intro c hc
        show number c < next + 1
        rcases List.mem_cons.mp hc with rfl | hc
        · show number (create next) < next + 1
          rw [hnew]
          exact Nat.lt_succ_self _
        · exact Nat.lt_succ_of_lt (hlt c hc)

theorem Owned.discard (h : Owned number cap p (a :: held)) : Owned number cap p held where
  nodup := by
    have hsub : (p.free ++ held).Sublist (p.free ++ a :: held) :=
      (List.sublist_cons_self a held).append_left p.free
    exact h.nodup.sublist (hsub.map number)
  lt := fun c hc => h.lt c (by
    rcases List.mem_append.mp hc with hc | hc
    · simp [hc]
    · simp [hc])
  le := h.le

theorem Owned.release (h : Owned number cap p (a :: held)) :
    Owned number cap (p.release cap a) held := by
  unfold Pool.release
  split_ifs with hroom
  · have hswap : (p.free ++ a :: held).Perm (a :: p.free ++ held) := List.perm_middle
    exact ⟨(hswap.map number).nodup_iff.mp h.nodup, fun c hc => h.lt c (hswap.mem_iff.mpr hc),
      hroom⟩
  · exact h.discard

end Owners

/-! ## How many objects there are -/

section Total

variable {create : Nat → α} {cap : Nat} (p : Pool α) (a : α)

/-- A new object is made only when all are held. -/
theorem total_acquire (held : Nat) :
    (p.acquire create).2.free.length + (held + 1) ≤ max (p.free.length + held) (held + 1) := by
  obtain ⟨free, next⟩ := p
  cases free with
  | cons a free =>
      show free.length + (held + 1) ≤ max (free.length + 1 + held) (held + 1)
      omega
  | nil =>
      show 0 + (held + 1) ≤ max (0 + held) (held + 1)
      omega

theorem total_release (held : Nat) :
    (p.release cap a).free.length + held ≤ p.free.length + (held + 1) := by
  unfold Pool.release
  split_ifs
  · show p.free.length + 1 + held ≤ _
    omega
  · omega

/-- What is free after an operation was free before, or has come back, or is the new one. -/
theorem mem_free_release {b : α} (h : b ∈ (p.release cap a).free) : b ∈ p.free ∨ b = a := by
  unfold Pool.release at h
  split_ifs at h
  · exact (List.mem_cons.mp h).symm
  · exact Or.inl h

theorem mem_free_acquire {b : α} (h : b ∈ (p.acquire create).2.free) : b ∈ p.free := by
  obtain ⟨free, next⟩ := p
  cases free with
  | cons a free => exact List.mem_cons_of_mem a h
  | nil => exact h

end Total

end FreeList
