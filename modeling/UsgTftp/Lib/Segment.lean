import Mathlib.Tactic

set_option autoImplicit false

/-! # Cutting a list into blocks

A file transfer that ends on a short block cuts its data into consecutive slices of `b`
elements followed by the remainder, which is shorter than `b` and may be empty. Block `i`
(counted from `0`) is `block b l i`; there are `blockCount b l` of them. The two facts the
transfer proofs rest on are `take_append_block`, which extends a prefix of whole blocks by
the next one, and `length_block_lt_iff`: only the last block is short.
-/

namespace Segment

variable {α : Type}

/-- Block `i` of `l`: the slice of at most `b` elements that starts at `i * b`. -/
def block (b : Nat) (l : List α) (i : Nat) : List α := (l.drop (i * b)).take b

/-- The number of blocks, the short one at the end included. -/
def blockCount (b : Nat) (l : List α) : Nat := l.length / b + 1

/-- All blocks of `l` in order. -/
def segment (b : Nat) (l : List α) : List (List α) := (List.range (blockCount b l)).map (block b l)

@[simp] theorem length_segment (b : Nat) (l : List α) :
    (segment b l).length = blockCount b l := by
  simp [segment]

@[simp] theorem getElem_segment (b : Nat) (l : List α) (i : Nat) (h : i < (segment b l).length) :
    (segment b l)[i] = block b l i := by
  simp [segment]

theorem blockCount_pos (b : Nat) (l : List α) : 0 < blockCount b l := Nat.succ_pos _

theorem length_block (b : Nat) (l : List α) (i : Nat) :
    (block b l i).length = min b (l.length - i * b) := by
  simp [block]

theorem length_block_le (b : Nat) (l : List α) (i : Nat) : (block b l i).length ≤ b := by
  rw [length_block]; exact Nat.min_le_left _ _

/-- The block count in terms of offsets: block `i` exists iff it starts inside `l` or at its
end. -/
theorem lt_blockCount_iff {b : Nat} (hb : 0 < b) (l : List α) (i : Nat) :
    i < blockCount b l ↔ i * b ≤ l.length := by
  rw [blockCount, Nat.lt_succ_iff, Nat.le_div_iff_mul_le hb]

/-- Among the existing blocks exactly the last one is shorter than `b`. -/
theorem length_block_lt_iff {b : Nat} (hb : 0 < b) (l : List α) {i : Nat}
    (hi : i < blockCount b l) : (block b l i).length < b ↔ i + 1 = blockCount b l := by
  have hstart := (lt_blockCount_iff hb l i).mp hi
  have hnext := lt_blockCount_iff hb l (i + 1)
  have hmul : (i + 1) * b = i * b + b := by ring
  rw [length_block]
  constructor
  · intro h
    have : ¬ i + 1 < blockCount b l := by
      rw [hnext, hmul]; omega
    omega
  · intro h
    have : ¬ i + 1 < blockCount b l := by omega
    rw [hnext, hmul] at this
    omega

theorem length_block_of_lt {b : Nat} (hb : 0 < b) (l : List α) {i : Nat}
    (hi : i + 1 < blockCount b l) : (block b l i).length = b := by
  have hle := length_block_le b l i
  have hlt := length_block_lt_iff hb l (i := i) (by omega)
  omega

/-- A prefix of `i` whole blocks followed by block `i` is a prefix of `i + 1` blocks. -/
theorem take_append_block (b : Nat) (l : List α) (i : Nat) :
    l.take (i * b) ++ block b l i = l.take ((i + 1) * b) := by
  have hmul : (i + 1) * b = i * b + b := by ring
  rw [block, hmul, List.take_add]

theorem take_blockCount_mul {b : Nat} (hb : 0 < b) (l : List α) :
    l.take (blockCount b l * b) = l := by
  apply List.take_of_length_le
  have h := lt_blockCount_iff hb l (blockCount b l)
  omega

theorem flatten_take_segment {b : Nat} (l : List α) {k : Nat} (hk : k ≤ blockCount b l) :
    ((segment b l).take k).flatten = l.take (k * b) := by
  induction k with
  | zero => simp
  | succ k ih =>
      have hlt : k < (segment b l).length := by rw [length_segment]; omega
      rw [List.take_succ_eq_append_getElem hlt, List.flatten_append, ih (by omega),
        getElem_segment, List.flatten_singleton, take_append_block]

theorem flatten_segment {b : Nat} (hb : 0 < b) (l : List α) : (segment b l).flatten = l := by
  have h := flatten_take_segment (b := b) l (Nat.le_refl _)
  rwa [List.take_of_length_le (by rw [length_segment]), take_blockCount_mul hb] at h

/-! ## Lists of blocks that end on a short one -/

/-- The last block is short, and all before it are whole. -/
inductive EndsShort (b : Nat) : List (List α) → Prop where
  | last (d : List α) (h : d.length < b) : EndsShort b [d]
  | whole (d : List α) (ds : List (List α)) (h : d.length = b) (hds : EndsShort b ds) :
      EndsShort b (d :: ds)

theorem segment_of_lt {b : Nat} {l : List α} (h : l.length < b) : segment b l = [l] := by
  rw [segment, blockCount, Nat.div_eq_of_lt h]
  simp [block, List.take_of_length_le h.le]

theorem segment_append {b : Nat} (hb : 0 < b) {d : List α} (hd : d.length = b) (l : List α) :
    segment b (d ++ l) = d :: segment b l := by
  have hcount : blockCount b (d ++ l) = blockCount b l + 1 := by
    rw [blockCount, blockCount, List.length_append, hd, Nat.add_comm b, Nat.add_div_right _ hb]
  rw [segment, hcount, List.range_succ_eq_map, List.map_cons, List.map_map]
  refine congrArg₂ List.cons ?_ (List.map_congr_left fun i _ => ?_)
  · rw [block, Nat.zero_mul, List.drop_zero, List.take_left' hd]
  · have hmul : (i + 1) * b = d.length + i * b := by rw [hd]; ring
    rw [Function.comp_apply, block, hmul, ← List.drop_drop, List.drop_left, block]

/-- **Blocks that end on a short one are a segmentation** of what they hold together. -/
theorem EndsShort.segment_flatten {b : Nat} (hb : 0 < b) {ds : List (List α)}
    (h : EndsShort b ds) : segment b ds.flatten = ds := by
  induction h with
  | last d h => rw [List.flatten_singleton, segment_of_lt h]
  | whole d ds h _ ih => rw [List.flatten_cons, segment_append hb h, ih]

theorem endsShort_append_singleton {b : Nat} {ds : List (List α)} {d : List α} :
    EndsShort b (ds ++ [d]) ↔ (∀ x ∈ ds, x.length = b) ∧ d.length < b := by
  induction ds with
  | nil =>
      constructor
      · rintro (⟨_, h⟩ | ⟨_, _, _, ⟨⟩⟩)
        exact ⟨fun _ hx => absurd hx List.not_mem_nil, h⟩
      · exact fun h => .last d h.2
  | cons x ds ih =>
      rw [List.cons_append, List.forall_mem_cons, and_assoc, ← ih]
      constructor
      · intro h
        generalize hl : x :: (ds ++ [d]) = l at h
        cases h with
        | last y hy =>
            have := congrArg List.length hl
            simp at this
        | whole y ys hy hys =>
            cases hl
            exact ⟨hy, hys⟩
      · exact fun h => .whole x _ h.1 h.2

end Segment
