import Mathlib.Data.List.AList
import Mathlib.Tactic

set_option autoImplicit false

/-! # Hash maps and hash sets

A hash map is an association list without repeated keys; a hash set is a hash map of units.
The order in which a program visits the entries is not specified: it is an `Order`, a choice
of a permutation of the entries for every map, and programs that iterate take one as a
parameter. Results about them then hold for every order.
-/

namespace HashTable

abbrev Table (K V : Type) := AList fun _ : K => V

/-- A set of keys. -/
abbrev KeySet (K : Type) := Table K Unit

/-- The order in which the entries of each map are visited. -/
structure Order (K V : Type) where
  iter : Table K V → List ((_ : K) × V)
  perm : ∀ m, (iter m).Perm m.entries

/-- One possible order: the newest entry first. -/
def Order.newest (K V : Type) : Order K V := ⟨AList.entries, fun _ => .refl _⟩

variable {K V : Type}

/-- The number of entries. -/
def size (m : Table K V) : Nat := m.entries.length

theorem size_eq_keys (m : Table K V) : size m = m.keys.length := by
  simp [size, AList.keys, List.keys]

@[simp] theorem size_empty : size (∅ : Table K V) = 0 := rfl

theorem size_eq_zero {m : Table K V} : size m = 0 ↔ ∀ a, a ∉ m := by
  rw [size_eq_keys, List.length_eq_zero_iff, List.eq_nil_iff_forall_not_mem]
  rfl

theorem size_pos_of_mem {a : K} {m : Table K V} (h : a ∈ m) : 0 < size m := by
  rw [Nat.pos_iff_ne_zero]
  exact fun hz => size_eq_zero.mp hz a h

/-- A table has no more entries than there are keys. -/
theorem size_le_of_injective {f : K → Nat} (hf : Function.Injective f) {n : Nat}
    (hlt : ∀ a, f a < n) (m : Table K V) : size m ≤ n := by
  have hnodup : (m.keys.map f).Nodup := m.keys_nodup.map hf
  have hsub : m.keys.map f ⊆ List.range n := by
    intro i hi
    obtain ⟨a, -, rfl⟩ := List.mem_map.mp hi
    exact List.mem_range.mpr (hlt a)
  calc size m = (m.keys.map f).length := by rw [size_eq_keys, List.length_map]
    _ ≤ (List.range n).length := (List.subperm_of_subset hnodup hsub).length_le
    _ = n := List.length_range

theorem Order.iter_eq_nil {order : Order K V} {m : Table K V} :
    order.iter m = [] ↔ size m = 0 := by
  rw [size, List.length_eq_zero_iff]
  constructor
  · intro h
    have := order.perm m
    rw [h] at this
    exact this.symm.eq_nil
  · intro h
    have := order.perm m
    rw [h] at this
    exact this.eq_nil

theorem Order.length_iter (order : Order K V) (m : Table K V) :
    (order.iter m).length = size m :=
  (order.perm m).length_eq

variable [DecidableEq K]

/-- Change the value at a key, if there is one. -/
def modify (a : K) (f : V → V) (m : Table K V) : Table K V :=
  match m.lookup a with
  | some v => m.insert a (f v)
  | none => m

/-! ## Lookups -/

theorem lookup_modify (a a' : K) (f : V → V) (m : Table K V) :
    (modify a f m).lookup a' = if a' = a then (m.lookup a').map f else m.lookup a' := by
  unfold modify
  cases hlook : m.lookup a with
  | none =>
      by_cases h : a' = a
      · subst h
        simp [hlook]
      · simp [h]
  | some v =>
      by_cases h : a' = a
      · subst h
        simp [hlook]
      · simp [h, AList.lookup_insert_ne h]

theorem mem_iff_lookup {a : K} {m : Table K V} : a ∈ m ↔ ∃ v, m.lookup a = some v := by
  rw [← AList.lookup_isSome, Option.isSome_iff_exists]

@[simp] theorem mem_modify {a a' : K} {f : V → V} {m : Table K V} :
    a' ∈ modify a f m ↔ a' ∈ m := by
  rw [mem_iff_lookup, mem_iff_lookup, lookup_modify]
  by_cases h : a' = a
  · simp [h]
  · simp [h]

theorem modify_of_notMem {a : K} {f : V → V} {m : Table K V} (h : a ∉ m) : modify a f m = m := by
  rw [modify, AList.lookup_eq_none.mpr h]

theorem lookup_erase_eq (a a' : K) (m : Table K V) :
    (m.erase a).lookup a' = if a' = a then none else m.lookup a' := by
  by_cases h : a' = a
  · subst h
    simp
  · rw [if_neg h, AList.lookup_erase_ne h]

theorem lookup_insert_eq (a a' : K) (v : V) (m : Table K V) :
    (m.insert a v).lookup a' = if a' = a then some v else m.lookup a' := by
  by_cases h : a' = a
  · subst h
    simp
  · rw [if_neg h, AList.lookup_insert_ne h]

/-! ## Sizes -/

theorem size_insert_of_mem {a : K} {v : V} {m : Table K V} (h : a ∈ m) :
    size (m.insert a v) = size m := by
  have hpos : 0 < m.keys.length := List.length_pos_of_mem h
  rw [size_eq_keys, size_eq_keys, AList.keys_insert, List.length_cons,
    List.length_erase_of_mem h]
  omega

theorem size_insert_of_notMem {a : K} {v : V} {m : Table K V} (h : a ∉ m) :
    size (m.insert a v) = size m + 1 := by
  rw [size_eq_keys, size_eq_keys, AList.keys_insert, List.length_cons,
    List.erase_of_not_mem h]

theorem size_insert_le (a : K) (v : V) (m : Table K V) : size (m.insert a v) ≤ size m + 1 := by
  by_cases h : a ∈ m
  · rw [size_insert_of_mem h]
    omega
  · rw [size_insert_of_notMem h]

theorem size_erase_le (a : K) (m : Table K V) : size (m.erase a) ≤ size m := by
  rw [size_eq_keys, size_eq_keys, AList.keys_erase]
  exact List.length_erase_le

@[simp] theorem size_modify (a : K) (f : V → V) (m : Table K V) :
    size (modify a f m) = size m := by
  unfold modify
  cases hlook : m.lookup a with
  | none => rfl
  | some v => exact size_insert_of_mem (mem_iff_lookup.mpr ⟨v, hlook⟩)

/-! ## Iteration -/

theorem Order.mem_iter {order : Order K V} {m : Table K V} {a : K} {v : V} :
    (⟨a, v⟩ : (_ : K) × V) ∈ order.iter m ↔ m.lookup a = some v := by
  rw [(order.perm m).mem_iff]
  exact AList.mem_lookup_iff.symm

end HashTable
