import UsgTftp.Client.Get

set_option autoImplicit false

/-! # Reassembly at the client

`TftpClient::get` compares block numbers as integers, not on the sixteen-bit circle: a number
below the expected one is a duplicate, one above it is a future block and is buffered under
its number. For copies of blocks that arrive near the client's position this file shows what
follows. A future block of the next cycle counts as a duplicate and is dropped, which loses
nothing. But a duplicate of the previous cycle counts as a future block: it stays in the
buffer and is written a whole cycle later, in place of the block that has its number then.

`reassembly_exact` covers every delivery without such a duplicate, for files of any length.
-/

namespace UsgTftp

open Reactive Segment SeqNum

/-! ## Deliveries -/

/-- The runs of the receive loop in which copies of the blocks of `file` arrive, each with
the client's position: the number of blocks by which the expected number has moved. A copy
is displaced by at most two windows, and `ok k j` may say more about the copies of the
absolute block `j` at position `k`. -/
inductive Deliveries (c : TftpClient) (file : Bytes) (tid : SocketAddr)
    (ok : Nat → Nat → Prop) : Nat → GetStatus → Prop where
  | start : Deliveries c file tid ok 0 (.receiving {})
  | copy (k : Nat) (st : GetStatus) (j : Nat) (h : Deliveries c file tid ok k st)
      (hj : 1 ≤ j ∧ j ≤ blockCount c.blockSize file)
      (hnear : j ≤ k + 1 + 2 * c.windowsize ∧ k + 1 ≤ j + 2 * c.windowsize) (hok : ok k j) :
      Deliveries c file tid ok
        (k + ((c.getStep st
            (.datagram (segPacket c.blockSize file (j - 1)) tid)).1.state.expectedBlock
          - st.state.expectedBlock).toNat)
        (c.getStep st (.datagram (segPacket c.blockSize file (j - 1)) tid)).1

/-- A copy of an earlier block has been numbered since the last wrap. -/
def NotStale (k j : Nat) : Prop := j ≤ k → j / 65536 = (k + 1) / 65536

/-! ## The invariant -/

/-- Block `i` lies ahead of the position `k`, near it and in the same cycle. -/
structure Ahead (k i : Nat) : Prop where
  le : k ≤ i
  near : i ≤ k + 32768
  cycle : (i + 1) / 65536 = (k + 1) / 65536

/-- The client has written the first `k` blocks, and what it has buffered lies ahead. -/
structure Assembled (b : Nat) (file : Bytes) (tid : SocketAddr) (k : Nat) (g : GetState) :
    Prop where
  written : g.written = file.take (k * b)
  expected : g.expectedBlock = wire (k + 1)
  server : g.serverTid = none ∨ g.serverTid = some tid
  bound : k ≤ blockCount b file
  buffered : ∀ n d, g.blockBuffer.lookup n = some d →
    ∃ i, i < blockCount b file ∧ Ahead k i ∧ n = wire (i + 1) ∧ d = block b file i
  gap : g.blockBuffer.lookup (wire (k + 1)) = none

inductive AssembledAt (b : Nat) (file : Bytes) (tid : SocketAddr) (k : Nat) : GetStatus → Prop where
  | receiving (g : GetState) (h : Assembled b file tid k g) :
      AssembledAt b file tid k (.receiving g)
  | returned (g : GetState) (h : g.written = file) :
      AssembledAt b file tid k (.returned (.ok ()) g)

section

variable {c : TftpClient} {file : Bytes} {tid : SocketAddr} {k : Nat} {g : GetState}

/-- A copy with a greater number is a block ahead, unless it is a stale duplicate. -/
theorem ahead_of_wire_lt {i : Nat} (hnear : i ≤ k + 32768) (hback : k ≤ i + 32768)
    (hstale : NotStale k (i + 1)) (hlt : wire (k + 1) < wire (i + 1)) : Ahead k i ∧ i ≠ k := by
  rw [UInt16.lt_iff_toNat_lt, toNat_wire, toNat_wire] at hlt
  unfold NotStale at hstale
  have hle : k < i := by
    by_contra hge
    have hcycle : i < k → (i + 1) / 65536 = (k + 1) / 65536 := fun h => hstale (by omega)
    omega
  exact ⟨⟨by omega, hnear, by omega⟩, by omega⟩

theorem Assembled.insert (h : Assembled c.blockSize file tid k g) {i : Nat}
    (hi : i < blockCount c.blockSize file) (hahead : Ahead k i) (hne : i ≠ k) :
    Assembled c.blockSize file tid k { g with
      blockBuffer := g.blockBuffer.insert (wire (i + 1)) (block c.blockSize file i) } where
  written := h.written
  expected := h.expected
  server := h.server
  bound := h.bound
  buffered := by
    intro n d hn
    by_cases hni : n = wire (i + 1)
    · rw [hni, AList.lookup_insert] at hn
      cases hn
      exact ⟨i, hi, hahead, hni, rfl⟩
    · rw [AList.lookup_insert_ne hni] at hn
      exact h.buffered n d hn
  gap := by
    have hwire : wire (k + 1) ≠ wire (i + 1) := by
      have := hahead.le
      have := hahead.near
      rw [ne_eq, wire_inj (by omega) (by omega)]
      omega
    rw [AList.lookup_insert_ne hwire]
    exact h.gap

/-- What the buffer loop leaves after the expected block has been written. -/
theorem Assembled.drain (h : Assembled c.blockSize file tid k g)
    (hk : k < blockCount c.blockSize file) :
    ∃ k' buffer, k < k' ∧ k' ≤ k + 32769 ∧ k' ≤ blockCount c.blockSize file ∧
      UsgTftp.drain g.blockBuffer.keys.length (g.expectedBlock + 1) g.blockBuffer
        (g.written ++ block c.blockSize file k)
          = (wire (k' + 1), buffer, file.take (k' * c.blockSize)) ∧
      (∀ n d, buffer.lookup n = some d → ∃ i, i < blockCount c.blockSize file ∧ Ahead k' i ∧
        n = wire (i + 1) ∧ d = block c.blockSize file i) ∧
      buffer.lookup (wire (k' + 1)) = none := by
  have hstart : g.expectedBlock + 1 = wire (k + 1 + 1) := by rw [h.expected, wire_add_one]
  have hdata : g.written ++ block c.blockSize file k = file.take ((k + 1) * c.blockSize) := by
    rw [h.written, take_append_block]
  -- what is buffered lies ahead within half a cycle, so its number tells its place
  have hbuf : ∀ n d, g.blockBuffer.lookup n = some d →
      ∃ i, (i < blockCount c.blockSize file ∧ Ahead k i) ∧ k + 1 ≤ i ∧ i < k + 32769 ∧
        n = wire (i + 1) ∧ d = block c.blockSize file i := by
    intro n d hn
    obtain ⟨i, hi, hahead, hni, hd⟩ := h.buffered n d hn
    have hne : i ≠ k := by
      rintro rfl
      rw [hni, h.gap] at hn
      cases hn
    have := hahead.le
    have := hahead.near
    exact ⟨i, ⟨hi, hahead⟩, by omega, by omega, hni, hd⟩
  have hgap := drain_lookup g.blockBuffer.keys.length (wire (k + 1 + 1)) g.blockBuffer
    (file.take ((k + 1) * c.blockSize)) (Nat.le_refl _)
  obtain ⟨k', hle, hlast, hexp, hwritten, hleft⟩ :=
    drain_ahead (take_append_block c.blockSize file) g.blockBuffer.keys.length (k + 1)
      g.blockBuffer (by omega) hbuf
  rw [hstart, hdata]
  rw [hexp] at hgap
  refine ⟨k', (UsgTftp.drain g.blockBuffer.keys.length (wire (k + 1 + 1)) g.blockBuffer
    (file.take ((k + 1) * c.blockSize))).2.1, by omega, by omega, ?_, ?_, ?_, hgap⟩
  · rcases hlast with rfl | ⟨⟨hin, -⟩, -⟩
    · omega
    · omega
  · rw [← hexp, ← hwritten]
  · intro n d hn
    obtain ⟨i, ⟨hi, hahead⟩, hle', hlt, hni, hd⟩ := hleft n d hn
    have := hahead.cycle
    exact ⟨i, hi, ⟨hle', by omega, by omega⟩, hni, hd⟩

/-- **The expected block** is written, and with it what the buffer holds after it. -/
theorem Assembled.getData_expected (h : Assembled c.blockSize file tid k g)
    (hb : 0 < c.blockSize) (hk : k < blockCount c.blockSize file)
    (htid : g.serverTid = some tid) :
    ∃ k', k ≤ k' ∧ k' ≤ k + 32769 ∧
      (c.getData g tid (wire (k + 1)) (block c.blockSize file k)).1.state.expectedBlock
        = wire (k' + 1) ∧
      AssembledAt c.blockSize file tid k'
        (c.getData g tid (wire (k + 1)) (block c.blockSize file k)).1 := by
  obtain ⟨k', buffer, hlt, hnear, hbound, hdrain, hbuf, hgap⟩ := h.drain hk
  have hfinal := length_block_lt_iff hb file hk
  rw [TftpClient.getData, h.expected, if_neg (UInt16.lt_irrefl _), if_neg (UInt16.lt_irrefl _),
    ← h.expected, hdrain]
  simp only [decide_eq_true_eq]
  refine ⟨k', by omega, hnear, ?_, ?_⟩
  · split_ifs <;> rfl
  · by_cases hshort : (block c.blockSize file k).length < c.blockSize
    · -- nothing of the file lies behind the final block
      have hall : file.take (k' * c.blockSize) = file := by
        have := hfinal.mp hshort
        rw [show k' = blockCount c.blockSize file by omega, take_blockCount_mul hb]
      rw [if_pos hshort]
      refine .returned _ ?_
      split_ifs <;> exact hall
    · rw [if_neg hshort]
      refine .receiving _ ?_
      split_ifs
      · exact ⟨rfl, rfl, Or.inr htid, hbound, hbuf, hgap⟩
      · exact ⟨rfl, rfl, Or.inr htid, hbound, hbuf, hgap⟩

/-- **Step lemma.** A copy that is near the position and not stale keeps the invariant. -/
theorem Assembled.getStep (h : Assembled c.blockSize file tid k g) (hb : 0 < c.blockSize)
    {i : Nat} (hi : i < blockCount c.blockSize file) (hnear : i ≤ k + 32768)
    (hback : k ≤ i + 32768) (hstale : NotStale k (i + 1)) :
    ∃ k', k ≤ k' ∧ k' ≤ k + 32769 ∧
      (c.getStep (.receiving g)
          (.datagram (segPacket c.blockSize file i) tid)).1.state.expectedBlock
        = wire (k' + 1) ∧
      AssembledAt c.blockSize file tid k'
        (c.getStep (.receiving g) (.datagram (segPacket c.blockSize file i) tid)).1 := by
  have hg : Assembled c.blockSize file tid k { g with serverTid := some tid } :=
    ⟨h.written, h.expected, Or.inr rfl, h.bound, h.buffered, h.gap⟩
  have htid : ({ g with serverTid := some tid } : GetState).serverTid = some tid := rfl
  rw [getStep_server h.server, getPacket_segPacket]
  generalize ({ g with serverTid := some tid } : GetState) = g' at hg htid ⊢
  by_cases hik : i = k
  · subst hik
    exact hg.getData_expected hb hi htid
  · have hne : wire (i + 1) ≠ wire (k + 1) := by
      rw [ne_eq, wire_inj (by omega) (by omega)]
      omega
    rw [TftpClient.getData]
    -- a duplicate by its number, or a block to keep, which then is one that is ahead
    by_cases hlt : wire (i + 1) < wire (k + 1)
    · rw [if_pos (by rwa [hg.expected])]
      exact ⟨k, Nat.le_refl _, by omega, hg.expected, .receiving _ hg⟩
    · have hgt : wire (k + 1) < wire (i + 1) :=
        UInt16.lt_of_le_of_ne (UInt16.not_lt.mp hlt) (Ne.symm hne)
      obtain ⟨hahead, hne'⟩ := ahead_of_wire_lt hnear hback hstale hgt
      rw [if_neg (by rwa [hg.expected]), if_pos (by rwa [hg.expected])]
      exact ⟨k, Nat.le_refl _, by omega, hg.expected, .receiving _ (hg.insert hi hahead hne')⟩

/-- **Run lemma.** -/
theorem Deliveries.assembledAt {st : GetStatus} (hb : 0 < c.blockSize)
    (hW : c.windowsize ≤ 16384) (h : Deliveries c file tid NotStale k st) :
    AssembledAt c.blockSize file tid k st := by
  induction h with
  | start =>
      refine .receiving _ ⟨?_, rfl, Or.inl rfl, Nat.zero_le _, ?_, rfl⟩
      · simp
      · intro n d hn
        cases hn
  | copy k st j _ hj hnear hstale ih =>
      cases ih with
      | returned g hg => exact .returned g hg
      | receiving g hg =>
          have hj' : j - 1 + 1 = j := by omega
          obtain ⟨k', hle, hnear', hexp, hat⟩ := @Assembled.getStep c file tid k g hg hb (j - 1)
            (by omega) (by omega) (by omega) (by rwa [hj'])
          have hmoved : k + ((c.getStep (.receiving g) (.datagram
              (segPacket c.blockSize file (j - 1)) tid)).1.state.expectedBlock
                - (GetStatus.receiving g).state.expectedBlock).toNat = k' := by
            have hold : (GetStatus.receiving g).state.expectedBlock = wire (k + 1) := hg.expected
            rw [hexp, hold, toNat_wire_sub_of_le (by omega) (by omega)]
            omega
          rw [hmoved]
          exact hat

end

/-- **Reassembly is exact** without stale duplicates: what the client writes is at every
moment a prefix of the file, and the whole file when `get` returns `Ok`. -/
theorem reassembly_exact (c : TftpClient) (file : Bytes) (tid : SocketAddr)
    (hb : 0 < c.blockSize) (hW : 1 ≤ c.windowsize ∧ c.windowsize ≤ 16384) (k : Nat)
    (st : GetStatus) (h : Deliveries c file tid NotStale k st) :
    st.state.written <+: file ∧ ∀ g, st = .returned (.ok ()) g → g.written = file := by
  have hat := h.assembledAt hb hW.2
  cases hat with
  | receiving g hg =>
      refine ⟨?_, by intro g' hst; cases hst⟩
      show g.written <+: file
      rw [hg.written]
      exact List.take_prefix _ _
  | returned g hg =>
      refine ⟨?_, ?_⟩
      · show g.written <+: file
        rw [hg]
      · intro g' hst
        cases hst
        exact hg

/-- A duplicate of the first block, between it and the second one. -/
theorem reassembly_exact_duplicate :
    let c : TftpClient := ⟨⟨.v4 1, 69⟩, .octet, 8, 1⟩
    let file : Bytes := List.replicate 8 65
    ∃ k st, Deliveries c file ⟨.v4 1, 50000⟩ NotStale k st ∧ st.state.written = file := by
  intro c file
  have hstale : ∀ k j, k + 1 < 65536 → NotStale k j := by
    intro k j hk hj
    omega
  have h1 := Deliveries.copy 0 _ 1 (@Deliveries.start c file ⟨.v4 1, 50000⟩ NotStale)
    (by decide) (by decide) (hstale _ _ (by decide))
  have h2 := Deliveries.copy _ _ 1 h1 (by decide) (by decide +kernel)
    (hstale _ _ (by decide +kernel))
  have h3 := Deliveries.copy _ _ 2 h2 (by decide) (by decide +kernel)
    (hstale _ _ (by decide +kernel))
  have hprefix := (reassembly_exact c file _ (by decide) (by decide) _ _ h3).1
  exact ⟨_, _, h3, hprefix.eq_of_length (by decide +kernel)⟩

/-! ## A stale duplicate -/

section

variable {c : TftpClient} {file : Bytes} {tid : SocketAddr} {k : Nat} {g : GetState}
  {buffer : BlockBuffer}

/-- The client has written `k` blocks and holds `buffer`. -/
structure Holding (c : TftpClient) (file : Bytes) (tid : SocketAddr) (buffer : BlockBuffer)
    (k : Nat) (g : GetState) : Prop where
  expected : g.expectedBlock = wire (k + 1)
  server : g.serverTid = none ∨ g.serverTid = some tid
  buffer : g.blockBuffer = buffer
  written : g.written = file.take (k * c.blockSize)

theorem drain_none {e : UInt16} (h : buffer.lookup e = none) (fuel : Nat) (w : Bytes) :
    UsgTftp.drain fuel e buffer w = (e, buffer, w) := by
  cases fuel with
  | zero => rfl
  | succ fuel => simp [UsgTftp.drain, h]

/-- A copy that does not move the expected number does not move the position. -/
theorem Deliveries.copy_moved {ok : Nat → Nat → Prop} {m i : Nat} {st : GetStatus}
    (h : Deliveries c file tid ok k (.receiving g)) (hi : i < blockCount c.blockSize file)
    (hnear : i ≤ k + 2 * c.windowsize ∧ k ≤ i + 2 * c.windowsize) (hok : ok k (i + 1))
    (hstep : (c.getStep (.receiving g) (.datagram (segPacket c.blockSize file i) tid)).1 = st)
    (hmoved : k + (st.state.expectedBlock - g.expectedBlock).toNat = m) :
    Deliveries c file tid ok m st := by
  have hcopy := Deliveries.copy k _ (i + 1) h (by omega) (by omega) hok
  rw [Nat.add_sub_cancel, hstep] at hcopy
  rw [← hmoved]
  exact hcopy

/-- The next block, when the one after it is not buffered. -/
theorem Holding.getStep (h : Holding c file tid buffer k g) (hb : 0 < c.blockSize)
    (hk : k + 1 < blockCount c.blockSize file) :
    ∃ g', g'.expectedBlock
        = (UsgTftp.drain buffer.keys.length (wire (k + 1 + 1)) buffer
          (file.take ((k + 1) * c.blockSize))).1 ∧
      (g'.serverTid = none ∨ g'.serverTid = some tid) ∧
      g'.blockBuffer = (UsgTftp.drain buffer.keys.length (wire (k + 1 + 1)) buffer
        (file.take ((k + 1) * c.blockSize))).2.1 ∧
      g'.written = (UsgTftp.drain buffer.keys.length (wire (k + 1 + 1)) buffer
        (file.take ((k + 1) * c.blockSize))).2.2 ∧
      (c.getStep (.receiving g) (.datagram (segPacket c.blockSize file k) tid)).1
        = .receiving g' := by
  have hfull : ¬(block c.blockSize file k).length < c.blockSize := by
    rw [length_block_lt_iff hb file (by omega)]
    omega
  rw [getStep_server h.server, getPacket_segPacket, TftpClient.getData, h.expected,
    if_neg (UInt16.lt_irrefl _), if_neg (UInt16.lt_irrefl _), h.buffer, h.written,
    take_append_block, wire_add_one]
  simp only [hfull, decide_false, Bool.false_eq_true, if_false]
  split_ifs
  · exact ⟨_, rfl, Or.inr rfl, rfl, rfl, rfl⟩
  · exact ⟨_, rfl, Or.inr rfl, rfl, rfl, rfl⟩

/-- **In-order delivery** up to block `m`, past a buffer that holds none of the blocks. -/
theorem Deliveries.in_order (hb : 0 < c.blockSize)
    (hstart : Deliveries c file tid (fun _ _ => True) k (.receiving g))
    (hg : Holding c file tid buffer k g) :
    ∀ m, k ≤ m → m < blockCount c.blockSize file →
      (∀ i, k < i → i ≤ m → buffer.lookup (wire (i + 1)) = none) →
      ∃ g', Deliveries c file tid (fun _ _ => True) m (.receiving g') ∧
        Holding c file tid buffer m g' := by
  intro m hkm
  induction m, hkm using Nat.le_induction with
  | base => intro _ _; exact ⟨g, hstart, hg⟩
  | succ m hkm ih =>
      intro hm hnone
      obtain ⟨g', hg', hold⟩ := ih (by omega) (fun i h h' => hnone i h (by omega))
      obtain ⟨g'', hexp, hserver, hbuffer, hwritten, hstep⟩ := hold.getStep hb hm
      have hdrain := drain_none (hnone (m + 1) (by omega) (Nat.le_refl _))
        buffer.keys.length (file.take ((m + 1) * c.blockSize))
      rw [hdrain] at hexp hbuffer hwritten
      refine ⟨g'', hg'.copy_moved (by omega) (by omega) trivial hstep ?_, hexp, hserver,
        hbuffer, hwritten⟩
      show m + (g''.expectedBlock - g'.expectedBlock).toNat = m + 1
      rw [hexp, hold.expected, toNat_wire_sub_of_le (by omega) (by omega)]
      omega

/-- **A stale duplicate is written.** In a file of `131071` blocks a duplicate of block
`65535` right after the number has wrapped stays in the buffer, and is written in place of
block `131071`, the final one. -/
theorem stale_duplicate_written (hb : 0 < c.blockSize) (hW : 1 ≤ c.windowsize)
    (hN : blockCount c.blockSize file = 131071) :
    ∃ k st, Deliveries c file tid (fun _ _ => True) k st ∧
      st.state.written.length = 131071 * c.blockSize := by
  -- the first cycle, in order
  have hinit : Holding c file tid ∅ 0 {} := ⟨rfl, Or.inl rfl, rfl, by simp⟩
  obtain ⟨g, hg, hold⟩ := Deliveries.in_order hb .start hinit 65535 (by omega) (by omega)
    (fun _ _ _ => AList.lookup_empty _)
  -- the duplicate
  have hgt : wire (65534 + 1) > g.expectedBlock := by rw [hold.expected]; decide
  have hdup : (c.getStep (.receiving g) (.datagram (segPacket c.blockSize file 65534) tid)).1
      = .receiving { g with
          serverTid := some tid
          blockBuffer := g.blockBuffer.insert (wire (65534 + 1)) (block c.blockSize file 65534) }
      := by
    have hlt : ¬wire (65534 + 1) < g.expectedBlock :=
      fun h => absurd (UInt16.lt_trans h hgt) (UInt16.lt_irrefl _)
    rw [getStep_server hold.server, getPacket_segPacket, TftpClient.getData, if_neg hlt,
      if_pos hgt]
  obtain ⟨g₁, hg₁, hold₁⟩ : ∃ g₁, Deliveries c file tid (fun _ _ => True) 65535 (.receiving g₁) ∧
      Holding c file tid ((∅ : BlockBuffer).insert (wire (65534 + 1))
        (block c.blockSize file 65534)) 65535 g₁ :=
    ⟨_, hg.copy_moved (by omega) (by omega) trivial hdup (by simp [GetStatus.state]),
      hold.expected, Or.inr rfl, by rw [hold.buffer], hold.written⟩
  -- the second cycle, in order up to the last block but one
  obtain ⟨g₂, hg₂, hold₂⟩ := hg₁.in_order hb hold₁ 131069 (by omega) (by omega) (by
    intro i hi hi'
    have hne : wire (i + 1) ≠ wire (65534 + 1) := by
      rw [ne_eq, ← UInt16.toNat_inj, toNat_wire, toNat_wire]
      omega
    rw [AList.lookup_insert_ne hne]
    rfl)
  obtain ⟨g₃, -, -, -, hwritten, hstep⟩ := hold₂.getStep hb (by omega)
  refine ⟨_, _, hg₂.copy_moved (by omega) (by omega) trivial hstep rfl, ?_⟩
  -- the number of block `131071` is the number of the duplicate
  have hsame : wire (131069 + 1 + 1) = wire (65534 + 1) := by decide
  have hfuel : ((∅ : BlockBuffer).insert (wire (65534 + 1))
      (block c.blockSize file 65534)).keys.length = 1 := by
    rw [AList.keys_insert]
    rfl
  rw [hfuel, hsame, UsgTftp.drain, AList.lookup_insert] at hwritten
  simp only [UsgTftp.drain] at hwritten
  have hroom : 131070 * c.blockSize ≤ file.length :=
    (lt_blockCount_iff hb file 131070).mp (by omega)
  have hblock : (block c.blockSize file 65534).length = c.blockSize :=
    length_block_of_lt hb file (by omega)
  show g₃.written.length = _
  rw [hwritten, List.length_append, List.length_take, Nat.min_eq_left hroom, hblock]
  ring

end

/-- The reassembly of a file of `131071` blocks of eight bytes, window by window of one block:
more is written than the file holds. -/
theorem stale_duplicate_breaks_reassembly :
    let c : TftpClient := ⟨⟨.v4 1, 69⟩, .octet, 8, 1⟩
    let file : Bytes := List.replicate 1048560 0
    ∃ k st, Deliveries c file ⟨.v4 1, 50000⟩ (fun _ _ => True) k st ∧
      ¬st.state.written <+: file := by
  intro c file
  have hlen : file.length = 1048560 := List.length_replicate
  have hb : c.blockSize = 8 := rfl
  have hN : blockCount c.blockSize file = 131071 := by
    rw [blockCount, hlen, hb]
  obtain ⟨k, st, hst, hwritten⟩ :=
    @stale_duplicate_written c file ⟨.v4 1, 50000⟩ (by decide) (by decide) hN
  refine ⟨k, st, hst, fun hprefix => ?_⟩
  have hle := hprefix.length_le
  rw [hwritten, hlen, hb] at hle
  omega

end UsgTftp
