import UsgTftp.Server.Write

set_option autoImplicit false

/-! # When a window of an upload is acknowledged

The receive loop of `handle_write_request` computes the place of a block in its window from the
block number that it carries, which starts again after `65536` blocks. The blocks of a file are
delivered in order here, and `ack_cadence_iff` says for which windows and files the loop
acknowledges the ends of the windows all the same.
-/

namespace UsgTftp

open Reactive Segment SeqNum

/-! ## Windows and cycles -/

theorem mod_add_one_eq_iff {W : Nat} (hW : 0 < W) (n : Nat) : n % W + 1 = W ↔ W ∣ n + 1 := by
  have hlt := Nat.mod_lt n hW
  have hsplit : W ∣ n + 1 ↔ W ∣ n % W + 1 := by
    have hn : n + 1 = W * (n / W) + (n % W + 1) := by
      have := Nat.div_add_mod n W
      omega
    rw [hn, Nat.dvd_add_right (Nat.dvd_mul_right W _)]
  rw [hsplit]
  constructor
  · intro h
    rw [h]
  · intro h
    have := Nat.le_of_dvd (Nat.succ_pos _) h
    omega

/-- The ends of the windows are the multiples of `W`. Counted within a cycle of `M` they are so
up to the first multiple that is not in the first cycle, and beyond it if the cycle is made of
whole windows. -/
theorem window_ends_iff {W M : Nat} (hW : 1 ≤ W ∧ W ≤ M) (N : Nat) :
    (∀ j, 1 ≤ j → j < N → (W ∣ (j - 1) % M + 1 ↔ W ∣ j)) ↔
      W ∣ M ∨ N ≤ W * (M / W + 1) := by
  have hmul : W * (M / W + 1) = W * (M / W) + W := by ring
  have hdiv := Nat.div_add_mod M W
  have hmod := Nat.mod_lt M hW.1
  -- behind the first cycle the place in the second one is counted
  have hsecond : ∀ j, M < j → j < M + W → (j - 1) % M + 1 = j - M := by
    intro j hlo hhi
    rw [Nat.mod_eq_sub_mod (by omega), Nat.mod_eq_of_lt (by omega)]
    omega
  have hinside : ∀ j, M < j → j < M + W → ¬W ∣ j - M := by
    intro j hlo hhi hdvd
    have := Nat.le_of_dvd (by omega) hdvd
    omega
  constructor
  · intro h
    by_contra hcon
    rw [not_or, Nat.not_le] at hcon
    obtain ⟨hdvd, hlong⟩ := hcon
    have hrest : 0 < M % W := Nat.pos_of_ne_zero fun h0 => hdvd (Nat.dvd_of_mod_eq_zero h0)
    have hnext := (h (W * (M / W + 1)) (by omega) hlong).mpr (Nat.dvd_mul_right _ _)
    rw [hsecond _ (by omega) (by omega)] at hnext
    exact hinside _ (by omega) (by omega) hnext
  · rintro (hdvd | hshort) j hj hlt
    · have hj' : j = M * ((j - 1) / M) + ((j - 1) % M + 1) := by
        have := Nat.div_add_mod (j - 1) M
        omega
      conv_rhs => rw [hj']
      rw [Nat.dvd_add_right (hdvd.mul_right _)]
    · by_cases hfirst : j ≤ M
      · rw [Nat.mod_eq_of_lt (by omega), Nat.sub_add_cancel hj]
      · rw [hsecond j (by omega) (by omega)]
        refine iff_of_false (hinside j (by omega) (by omega)) ?_
        -- two neighbouring multiples of `W` lie around `j`
        rintro ⟨i, rfl⟩
        have hlo : M / W < i := Nat.lt_of_mul_lt_mul_left (a := W) (by omega)
        have hhi : i < M / W + 1 := Nat.lt_of_mul_lt_mul_left (a := W) (by omega)
        omega

/-! ## Uploads in order -/

section

variable {q : WriteRequest} {b : Nat} {file : Bytes} {order : IterOrder}

/-- The loop when it has read the first `k` blocks. -/
def receivedBlocks (b : Nat) (file : Bytes) (k : Nat) : ReceiveState :=
  ⟨file.take (k * b), wire (k + 1)⟩

/-- What is sent for block `k + 1`. -/
def cadenceAnswer (q : WriteRequest) (order : IterOrder) (b : Nat) (file : Bytes) (k : Nat) :
    List Bytes :=
  ((handleWriteRequest q order).step
    ((handleWriteRequest q order).stateAfter
      (((segPackets b file).take k).map .datagram)) (.datagram (segPacket b file k))).2

/-- The test of the loop for the end of a window. -/
theorem window_full_iff (hW : 1 ≤ q.options.windowsize ∧ q.options.windowsize ≤ 65535) (k : Nat) :
    (wire (k + 1) - 1) % UInt16.ofNat q.options.windowsize + 1
        = UInt16.ofNat q.options.windowsize ↔ q.options.windowsize ∣ k % 65536 + 1 := by
  have hlt := Nat.mod_lt (k % 65536) hW.1
  rw [wire_sub_one, ← UInt16.toNat_inj, UInt16.toNat_add, UInt16.toNat_mod, toNat_wire,
    toNat_ofNat_windowsize hW, UInt16.toNat_one, Nat.mod_eq_of_lt (by omega),
    mod_add_one_eq_iff hW.1]

/-- **Step lemma.** The next block is taken in, and acknowledged at the end of a window and of
the file. -/
theorem step_receivedBlocks (hb : 0 < b ∧ b ≤ maxBlockSize) (hq : q.options.blockSize = b)
    (hW : 1 ≤ q.options.windowsize ∧ q.options.windowsize ≤ 65535) (hfits : q.Fits file) {k : Nat}
    (hk : k < blockCount b file) :
    (q.step (.receiving (receivedBlocks b file k)) (.datagram (segPacket b file k))).2
        = (if q.options.windowsize ∣ k % 65536 + 1 ∨ k + 1 = blockCount b file
            then [ackPacket (wire (k + 1))] else []) ∧
    (k + 1 < blockCount b file →
      (q.step (.receiving (receivedBlocks b file k)) (.datagram (segPacket b file k))).1
        = .receiving (receivedBlocks b file (k + 1))) := by
  have hfit : ¬q.exceeds (receivedBlocks b file k) (block b file k) := fun hlarge =>
    (WriteAt.receiving (q := q) _ hk rfl rfl).not_fits hlarge hfits
  have hshort := length_block_lt_iff hb.1 file hk
  rw [step_segPacket hb.2, WriteRequest.receiveData, if_neg (fun h => h rfl), if_neg hfit,
    WriteRequest.appendBlock, if_neg (ofNat_windowsize_ne_zero hW), hq]
  simp only [window_full_iff hW, hshort]
  constructor
  · split_ifs <;> rfl
  · intro hmore
    rw [if_neg (by omega)]
    simp only [receivedBlocks, take_append_block, wire_add_one]

/-- **Run lemma.** -/
theorem exec_segPackets (hb : 0 < b ∧ b ≤ maxBlockSize) (hq : q.options.blockSize = b)
    (hW : 1 ≤ q.options.windowsize ∧ q.options.windowsize ≤ 65535) (hfits : q.Fits file)
    {k : Nat} (hk : k < blockCount b file) :
    (handleWriteRequest q order).stateAfter (((segPackets b file).take k).map .datagram)
      = .receiving (receivedBlocks b file k) := by
  have hrange : (segPackets b file).take k = (List.range' 0 k).map (segPacket b file) := by
    rw [segPackets, ← List.map_take, List.take_range, Nat.min_eq_left hk.le, List.range_eq_range']
  have hrun : ∀ n i, i + n ≤ k → (handleWriteRequest q order).exec
      (.receiving (receivedBlocks b file i))
        (((List.range' i n).map (segPacket b file)).map .datagram)
      = .receiving (receivedBlocks b file (i + n)) := by
    intro n
    induction n with
    | zero => intro i _; rfl
    | succ n ih =>
        intro i hi
        obtain ⟨-, hnext⟩ := @step_receivedBlocks q b file hb hq hW hfits i (by omega)
        rw [List.range'_succ, List.map_cons, List.map_cons,
          Machine.exec_cons_running (m := handleWriteRequest q order) rfl]
        show (handleWriteRequest q order).exec (q.step _ _).1 _ = _
        rw [hnext (by omega), ih (i + 1) (by omega), show i + 1 + n = i + (n + 1) by omega]
  have hstart : (handleWriteRequest q order).start.1 = .receiving (receivedBlocks b file 0) := by
    rw [receivedBlocks, Nat.zero_mul, List.take_zero]
    rfl
  rw [Machine.stateAfter, hrange, hstart, hrun k 0 (by omega), Nat.zero_add]

/-- **What is sent for a block**: the place in the window is counted within a cycle of `65536`
blocks. -/
theorem answerTo_eq (hb : 0 < b ∧ b ≤ maxBlockSize) (hq : q.options.blockSize = b)
    (hW : 1 ≤ q.options.windowsize ∧ q.options.windowsize ≤ 65535) (hfits : q.Fits file)
    {k : Nat} (hk : k < blockCount b file) :
    cadenceAnswer q order b file k
      = if q.options.windowsize ∣ k % 65536 + 1 ∨ k + 1 = blockCount b file
        then [ackPacket (wire (k + 1))] else [] := by
  rw [cadenceAnswer, exec_segPackets hb hq hW hfits hk]
  exact (step_receivedBlocks hb hq hW hfits hk).1

end

/-- **Where the windows of an upload are acknowledged at their ends**, and nothing else but the
end of the file is: if a cycle of the block numbers is made of whole windows, or if the file ends
with the first window that reaches into the second cycle, or before. -/
theorem ack_cadence_iff (q : WriteRequest) (order : IterOrder) (b : Nat) (file : Bytes)
    (hb : 8 ≤ b ∧ b ≤ 65464) (hq : q.options.blockSize = b)
    (hW : 1 ≤ q.options.windowsize ∧ q.options.windowsize ≤ 65535) (hfits : q.Fits file) :
    (∀ j, 1 ≤ j → j ≤ blockCount b file →
      cadenceAnswer q order b file (j - 1)
        = if q.options.windowsize ∣ j ∨ j = blockCount b file
          then [ackPacket (wire j)] else []) ↔
    q.options.windowsize ∣ 65536 ∨
      blockCount b file ≤ q.options.windowsize * (65536 / q.options.windowsize + 1) := by
  rw [← window_ends_iff (by omega)]
  have hanswer : ∀ j, 1 ≤ j → j ≤ blockCount b file → cadenceAnswer q order b file (j - 1)
      = if q.options.windowsize ∣ (j - 1) % 65536 + 1 ∨ j = blockCount b file
        then [ackPacket (wire j)] else [] := by
    intro j hj hle
    have h := @answerTo_eq q b file order (by unfold maxBlockSize; omega) hq hW hfits (j - 1)
      (by omega)
    rwa [Nat.sub_add_cancel hj] at h
  constructor
  · intro h j hj hlt
    have hlast : j ≠ blockCount b file := by omega
    have hsame := h j hj hlt.le
    rw [hanswer j hj hlt.le] at hsame
    simp only [hlast, or_false] at hsame
    constructor
    · intro hcycle
      by_contra hmultiple
      rw [if_pos hcycle, if_neg hmultiple] at hsame
      cases hsame
    · intro hmultiple
      by_contra hcycle
      rw [if_neg hcycle, if_pos hmultiple] at hsame
      cases hsame
  · intro h j hj hle
    rw [hanswer j hj hle]
    by_cases hlast : j = blockCount b file
    · rw [if_pos (Or.inr hlast), if_pos (Or.inr hlast)]
    · exact if_congr (or_congr_left (h j hj (by omega))) rfl rfl

/-- Three bytes in one block, in windows of three blocks. -/
theorem ack_cadence_three_bytes :
    blockCount 8 [65, 66, 67] = 1 ∧
    ∀ j, 1 ≤ j → j ≤ blockCount 8 [65, 66, 67] →
      cadenceAnswer ⟨.octet, { blockSize := 8, windowsize := 3 }, ∅, 0⟩ .entries 8 [65, 66, 67]
          (j - 1)
        = if 3 ∣ j ∨ j = blockCount 8 [65, 66, 67] then [ackPacket (wire j)] else [] :=
  ⟨rfl, (ack_cadence_iff ⟨.octet, { blockSize := 8, windowsize := 3 }, ∅, 0⟩ .entries 8
    [65, 66, 67] (by decide) rfl (by decide) (fun h => absurd rfl h)).mpr (by decide)⟩

/-- Windows of three blocks: block `65538` ends the window after `65535`, and is not
acknowledged. -/
theorem ack_cadence_slips :
    let q : WriteRequest := ⟨.octet, { blockSize := 8, windowsize := 3 }, ∅, 0⟩
    let file := List.replicate 524304 65
    3 ∣ 65538 ∧ 65538 < blockCount 8 file ∧ cadenceAnswer q .entries 8 file (65538 - 1) = [] := by
  have hcount : blockCount 8 (List.replicate 524304 (65 : UInt8)) = 65539 := by
    rw [blockCount, List.length_replicate]
  refine ⟨by decide, by rw [hcount]; decide, ?_⟩
  rw [answerTo_eq (by decide) rfl (by decide) (fun h => absurd rfl h) (by rw [hcount]; decide),
    hcount]
  exact if_neg (by decide)

end UsgTftp
