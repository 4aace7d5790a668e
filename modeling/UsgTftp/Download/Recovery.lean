import UsgTftp.Lib.SingleLoss
import UsgTftp.Download.Lossless

set_option autoImplicit false

/-! # How a download recovers from a lost block

What `TftpClient::get` answers to whole windows, and `send_file_data_streaming` to whole rows
of ACKs, when one block of a window has been lost. The client buffers what follows the hole.
When the window comes again it answers each block that it has already with the last ACK it
sent, writes the missing block with all that it has buffered, and acknowledges the window; the
blocks after that are duplicates again. The sender repeats its window for every ACK that is
not the expected one, until its retries are used up.
-/

namespace UsgTftp

open Reactive Segment SeqNum

/-! ## The two sides -/

/-- A datagram of the server's transfer address at the client, and what it answers there. -/
def clientReads (c : TftpClient) (tid : SocketAddr) (st : GetStatus) (d : Bytes) :
    GetStatus × List Bytes :=
  ((c.getStep st (.datagram d tid)).1, (c.getStep st (.datagram d tid)).2.map Prod.snd)

def senderReads (c : TftpClient) (file : Bytes) (s : SendStatus StreamState) (d : Bytes) :
    SendStatus StreamState × List Bytes :=
  sendFileDataStreamingStep file .octet c.blockSize c.windowsize s (.datagram d)

def senderTimeout (c : TftpClient) (file : Bytes) (s : SendStatus StreamState) :
    SendStatus StreamState × List Bytes :=
  sendFileDataStreamingStep file .octet c.blockSize c.windowsize s .timeout

section

variable {c : TftpClient} {file : Bytes} {tid : SocketAddr}

/-- The packets of the window at `pos`. -/
def windowAt (c : TftpClient) (file : Bytes) (pos : Nat) : List Bytes :=
  WindowSender.window (segPackets c.blockSize file) c.windowsize pos

theorem windowAt_eq (c : TftpClient) (file : Bytes) (pos : Nat) :
    windowAt c file pos = (List.range' pos (windowLen c.blockSize file c.windowsize pos)).map
      (segPacket c.blockSize file) := window_segPackets

theorem windowAt_full {pos : Nat} (h : pos + c.windowsize ≤ blockCount c.blockSize file) :
    windowAt c file pos
      = (List.range' pos c.windowsize).map (segPacket c.blockSize file) := by
  rw [windowAt_eq, show windowLen c.blockSize file c.windowsize pos = c.windowsize by
    unfold windowLen; omega]

theorem windowAt_last {pos : Nat} (h : blockCount c.blockSize file ≤ pos + c.windowsize) :
    windowAt c file pos = (List.range' pos (blockCount c.blockSize file - pos)).map
      (segPacket c.blockSize file) := by
  rw [windowAt_eq, show windowLen c.blockSize file c.windowsize pos
    = blockCount c.blockSize file - pos by unfold windowLen; omega]

/-! ## The client reads blocks in order -/

theorem feed_singleton {σ μ ν : Type} (step : σ → μ → σ × List ν) (s : σ) (m : μ) :
    feed step s [m] = step s m := by
  simp [feed]

theorem clientReads_eq {st st' : GetStatus} {d : Bytes} {out : List (SocketAddr × Bytes)}
    (h : c.getStep st (.datagram d tid) = (st', out)) :
    clientReads c tid st d = (st', out.map Prod.snd) := by
  rw [clientReads, h]

/-- Blocks within a window are written and not acknowledged. -/
theorem feed_blocks (hb : 0 < c.blockSize) (hW : c.windowsize ≤ 65535) {a : Nat} :
    ∀ (m k : Nat) (g : GetState), ClientIn c.blockSize file tid k a g → a ≤ k →
      k + m < a + c.windowsize → k + m < blockCount c.blockSize file →
      ∃ g', ClientIn c.blockSize file tid (k + m) a g' ∧
        feed (clientReads c tid) (.receiving g)
          ((List.range' k m).map (segPacket c.blockSize file)) = (.receiving g', []) := by
  intro m
  induction m with
  | zero => intro k g hg _ _ _; exact ⟨g, hg, rfl⟩
  | succ m ih =>
      intro k g hg ha hka hk
      obtain ⟨g₁, hg₁, hstep⟩ := getStep_segPacket hg hb (by omega) ha (by omega) hW
      have hnot : ¬(k + 1 = a + c.windowsize ∨ k + 1 = blockCount c.blockSize file) := by omega
      rw [if_neg hnot] at hg₁
      rw [if_neg (by omega), if_neg hnot] at hstep
      obtain ⟨g₂, hg₂, hfeed⟩ := ih (k + 1) g₁ hg₁ (by omega) (by omega) (by omega)
      refine ⟨g₂, by rwa [Nat.add_right_comm] at hg₂, ?_⟩
      rw [List.range'_succ, List.map_cons, feed, clientReads_eq hstep, hfeed]
      rfl

/-- **A whole window** that is not the last one is answered with one ACK. -/
theorem feed_window (hb : 0 < c.blockSize) (hW : 1 ≤ c.windowsize ∧ c.windowsize ≤ 65535)
    {pos : Nat} {g : GetState} (hg : ClientIn c.blockSize file tid pos pos g)
    (hmore : pos + c.windowsize < blockCount c.blockSize file) :
    ∃ g', ClientIn c.blockSize file tid (pos + c.windowsize) (pos + c.windowsize) g' ∧
      feed (clientReads c tid) (.receiving g) (windowAt c file pos)
        = (.receiving g', [ackPacket (wire (pos + c.windowsize))]) := by
  -- all blocks but the last one are silent
  obtain ⟨w, hw⟩ : ∃ w, c.windowsize = w + 1 := ⟨c.windowsize - 1, by omega⟩
  obtain ⟨g₁, hg₁, hfeed⟩ := feed_blocks hb hW.2 w pos g hg (Nat.le_refl _) (by omega) (by omega)
  obtain ⟨g₂, hg₂, hstep⟩ := getStep_segPacket hg₁ hb (by omega) (by omega) (by omega) hW.2
  have hend : pos + w + 1 = pos + c.windowsize ∨ pos + w + 1 = blockCount c.blockSize file :=
    Or.inl (by omega)
  rw [if_pos hend, show pos + w + 1 = pos + c.windowsize by omega] at hg₂
  rw [if_neg (by omega), if_pos hend] at hstep
  refine ⟨g₂, hg₂, ?_⟩
  rw [windowAt_full (by omega), hw, List.range'_concat, Nat.one_mul, List.map_append, feed_append,
    hfeed, List.map_singleton, feed_singleton, clientReads_eq hstep]
  simp only [List.map_cons, List.map_nil, List.nil_append]
  rw [show pos + w + 1 = pos + (w + 1) by omega]

/-- **The last window** in order ends the download. -/
theorem feed_last (hb : 0 < c.blockSize) (hW : 1 ≤ c.windowsize ∧ c.windowsize ≤ 65535)
    {pos : Nat} {g : GetState} (hg : ClientIn c.blockSize file tid pos pos g)
    (hpos : pos < blockCount c.blockSize file)
    (hlast : blockCount c.blockSize file ≤ pos + c.windowsize) :
    ∃ g', g'.written = file ∧
      (feed (clientReads c tid) (.receiving g) (windowAt c file pos)).1
        = .returned (.ok ()) g' := by
  obtain ⟨w, hw⟩ : ∃ w, blockCount c.blockSize file = pos + w + 1 :=
    ⟨blockCount c.blockSize file - pos - 1, by omega⟩
  obtain ⟨g₁, hg₁, hfeed⟩ := feed_blocks hb hW.2 w pos g hg (Nat.le_refl _) (by omega) (by omega)
  obtain ⟨g₂, hg₂, hstep⟩ := getStep_segPacket hg₁ hb (by omega) (by omega) (by omega) hW.2
  rw [if_pos hw.symm] at hstep
  have hwritten : g₂.written = file := by
    rw [hg₂.written, ← hw, take_blockCount_mul hb]
  refine ⟨g₂, hwritten, ?_⟩
  rw [windowAt_last hlast, show blockCount c.blockSize file - pos = w + 1 by omega,
    List.range'_concat, Nat.one_mul, List.map_append, feed_append, hfeed, List.map_singleton,
    feed_singleton, clientReads_eq hstep]

/-! ## The client reads duplicates -/

/-- The state but for the server's address, which the first packet fixes. -/
structure SameState (tid : SocketAddr) (g g' : GetState) : Prop where
  expected : g'.expectedBlock = g.expectedBlock
  buffer : g'.blockBuffer = g.blockBuffer
  lastAck : g'.lastAckSent = g.lastAckSent
  written : g'.written = g.written
  server : g'.serverTid = none ∨ g'.serverTid = some tid

theorem ClientIn.congr {b k a : Nat} {g g' : GetState} (h : ClientIn b file tid k a g)
    (hsame : SameState tid g g') : ClientIn b file tid k a g' :=
  ⟨hsame.expected.trans h.expected, hsame.server, hsame.buffer.trans h.buffer,
    hsame.lastAck.trans h.lastAck, hsame.written.trans h.written⟩

/-- **Blocks that have been written** are answered with the last ACK, each one. -/
theorem feed_duplicates {k : Nat} (hk : k < 65535) :
    ∀ (l : List Nat) (g : GetState), (∀ i ∈ l, i < k) → g.expectedBlock = wire (k + 1) →
      (g.serverTid = none ∨ g.serverTid = some tid) →
      ∃ g', SameState tid g g' ∧
        feed (clientReads c tid) (.receiving g) (l.map (segPacket c.blockSize file))
          = (.receiving g', List.replicate l.length (ackPacket g.lastAckSent)) := by
  intro l
  induction l with
  | nil => intro g _ _ hserver; exact ⟨g, ⟨rfl, rfl, rfl, rfl, hserver⟩, rfl⟩
  | cons i l ih =>
      intro g hl hexp hserver
      have hi := hl i List.mem_cons_self
      have hlt : wire (i + 1) < g.expectedBlock := by
        rw [hexp, UInt16.lt_iff_toNat_lt, toNat_wire, toNat_wire]
        omega
      have hstep : c.getStep (.receiving g) (.datagram (segPacket c.blockSize file i) tid)
          = (.receiving { g with serverTid := some tid }, [(tid, ackPacket g.lastAckSent)]) := by
        rw [getStep_server hserver, getPacket_segPacket, TftpClient.getData, if_pos hlt]
      obtain ⟨g', hsame, hfeed⟩ := ih { g with serverTid := some tid }
        (fun i' hi' => hl i' (List.mem_cons_of_mem _ hi')) hexp (Or.inr rfl)
      refine ⟨g', ⟨hsame.expected, hsame.buffer, hsame.lastAck, hsame.written, hsame.server⟩, ?_⟩
      rw [List.map_cons, feed, clientReads_eq hstep, hfeed, List.length_cons,
        List.replicate_succ]
      rfl

/-! ## The client with a hole -/

/-- The client has the first `x` blocks, misses block `x` and has buffered those after it,
up to `e`. -/
structure HoleIn (b : Nat) (file : Bytes) (tid : SocketAddr) (x e a : Nat) (g : GetState) :
    Prop where
  expected : g.expectedBlock = wire (x + 1)
  server : g.serverTid = none ∨ g.serverTid = some tid
  lastAck : g.lastAckSent = wire a
  written : g.written = file.take (x * b)
  buffered : ∀ t, x < t → t < e → g.blockBuffer.lookup (wire (t + 1)) = some (block b file t)
  only : ∀ n d, g.blockBuffer.lookup n = some d → ∃ t, x < t ∧ t < e ∧ n = wire (t + 1)

theorem HoleIn.congr {b x e a : Nat} {g g' : GetState} (h : HoleIn b file tid x e a g)
    (hsame : SameState tid g g') : HoleIn b file tid x e a g' where
  expected := hsame.expected.trans h.expected
  server := hsame.server
  lastAck := hsame.lastAck.trans h.lastAck
  written := hsame.written.trans h.written
  buffered := by rw [hsame.buffer]; exact h.buffered
  only := by rw [hsame.buffer]; exact h.only

theorem ClientIn.holeIn {b x a : Nat} {g : GetState} (h : ClientIn b file tid x a g) :
    HoleIn b file tid x (x + 1) a g where
  expected := h.expected
  server := h.server
  lastAck := h.lastAck
  written := h.written
  buffered := by intro t h1 h2; omega
  only := by
    intro n d hn
    rw [h.buffer] at hn
    cases hn

/-- **Blocks after the hole** are buffered and not acknowledged. -/
theorem feed_after_hole {x a : Nat} :
    ∀ (m e : Nat) (g : GetState), HoleIn c.blockSize file tid x e a g → x < e → e + m ≤ 65535 →
      ∃ g', HoleIn c.blockSize file tid x (e + m) a g' ∧
        feed (clientReads c tid) (.receiving g)
          ((List.range' e m).map (segPacket c.blockSize file)) = (.receiving g', []) := by
  intro m
  induction m with
  | zero => intro e g hg _ _; exact ⟨g, hg, rfl⟩
  | succ m ih =>
      intro e g hg hxe hem
      have hgt : g.expectedBlock < wire (e + 1) := by
        rw [hg.expected, UInt16.lt_iff_toNat_lt, toNat_wire, toNat_wire]
        omega
      have hlt : ¬wire (e + 1) < g.expectedBlock :=
        fun h => absurd (UInt16.lt_trans h hgt) (UInt16.lt_irrefl _)
      have hstep : c.getStep (.receiving g) (.datagram (segPacket c.blockSize file e) tid)
          = (.receiving { g with
              serverTid := some tid
              blockBuffer := g.blockBuffer.insert (wire (e + 1)) (block c.blockSize file e) },
            []) := by
        rw [getStep_server hg.server, getPacket_segPacket, TftpClient.getData, if_neg hlt,
          if_pos hgt]
      -- the number of the new block is none of those in the buffer
      have hhole : HoleIn c.blockSize file tid x (e + 1) a { g with
          serverTid := some tid
          blockBuffer := g.blockBuffer.insert (wire (e + 1)) (block c.blockSize file e) } := by
        refine ⟨hg.expected, Or.inr rfl, hg.lastAck, hg.written, ?_, ?_⟩
        · intro t hxt hte
          by_cases hte' : t = e
          · subst hte'
            exact AList.lookup_insert _
          · have hne : wire (t + 1) ≠ wire (e + 1) := by
              rw [ne_eq, wire_inj (by omega) (by omega)]
              omega
            rw [AList.lookup_insert_ne hne]
            exact hg.buffered t hxt (by omega)
        · intro n d hn
          by_cases hne : n = wire (e + 1)
          · exact ⟨e, hxe, by omega, hne⟩
          · rw [AList.lookup_insert_ne hne] at hn
            obtain ⟨t, hxt, hte, hnt⟩ := hg.only n d hn
            exact ⟨t, hxt, by omega, hnt⟩
      obtain ⟨g', hg', hfeed⟩ := ih (e + 1) _ hhole (by omega) (by omega)
      refine ⟨g', by rwa [Nat.add_right_comm] at hg', ?_⟩
      rw [List.range'_succ, List.map_cons, feed, clientReads_eq hstep, hfeed]
      rfl

/-- **The missing block** is written with all that follows it. It is acknowledged if a window
is complete or the block itself is the final one, and only then does `get` return. -/
theorem getStep_fill (hb : 0 < c.blockSize) {x e a : Nat} {g : GetState}
    (hg : HoleIn c.blockSize file tid x e a g) (hxe : x < e)
    (hx : x < blockCount c.blockSize file) (ha : a ≤ e) (he : e ≤ 65535) :
    let acked := e - a ≥ c.windowsize ∨ x + 1 = blockCount c.blockSize file
    ∃ g', g'.expectedBlock = wire (e + 1) ∧ g'.serverTid = some tid ∧ g'.blockBuffer = ∅ ∧
      g'.lastAckSent = wire (if acked then e else a) ∧
      g'.written = file.take (e * c.blockSize) ∧
      c.getStep (.receiving g) (.datagram (segPacket c.blockSize file x) tid)
        = (if x + 1 = blockCount c.blockSize file then .returned (.ok ()) g' else .receiving g',
          if acked then [(tid, ackPacket (wire e))] else []) := by
  intro acked
  have hfinal := length_block_lt_iff hb file hx
  have hstart : wire (x + 1) + 1 = wire (x + 1 + 1) := wire_add_one _
  have hdrain : drain g.blockBuffer.keys.length (wire (x + 1 + 1)) g.blockBuffer
      (file.take ((x + 1) * c.blockSize)) = (wire (e + 1), ∅, file.take (e * c.blockSize)) := by
    refine drain_all (take_append_block c.blockSize file) _ (x + 1) g.blockBuffer
      (Nat.le_refl _) hxe (by omega) ?_ ?_
    · intro t hxt hte
      exact hg.buffered t (by omega) hte
    · intro n d hn
      obtain ⟨t, hxt, hte, hnt⟩ := hg.only n d hn
      exact ⟨t, by omega, hte, hnt⟩
  -- `blocks_from_last_ack` counts the drained blocks too
  have hcount : (wire (e + 1) - (wire a + 1)).toNat = e - a := by
    rw [wire_add_one, toNat_wire_sub_of_le (by omega) (by omega)]
    omega
  rw [getStep_server hg.server, getPacket_segPacket, TftpClient.getData]
  simp only [hg.expected, UInt16.lt_irrefl, if_false, gt_iff_lt, hg.written, take_append_block,
    hstart, hdrain, hg.lastAck, hcount, wire_sub_one, decide_eq_true_eq, hfinal]
  by_cases hack : acked
  · rw [if_pos hack, if_pos hack, if_pos hack]
    refine ⟨⟨wire (e + 1), some tid, ∅, wire e, _⟩, rfl, rfl, rfl, rfl, rfl, ?_⟩
    split_ifs <;> rfl
  · rw [if_neg hack, if_neg hack, if_neg hack]
    refine ⟨⟨wire (e + 1), some tid, ∅, wire a, _⟩, rfl, rfl, rfl, rfl, rfl, ?_⟩
    split_ifs <;> rfl

/-! ## The window of the lost block -/

/-- A window around one of its blocks. -/
theorem windowAt_split {pos x e : Nat}
    (he : e = pos + windowLen c.blockSize file c.windowsize pos) (hpos : pos ≤ x) (hx : x < e) :
    windowAt c file pos
      = (List.range' pos (x - pos)).map (segPacket c.blockSize file)
        ++ segPacket c.blockSize file x
          :: (List.range' (x + 1) (e - x - 1)).map (segPacket c.blockSize file) := by
  have hlen : windowLen c.blockSize file c.windowsize pos = x - pos + (e - x - 1 + 1) := by omega
  rw [windowAt_eq, hlen, ← List.range'_append_1, List.map_append, List.range'_succ,
    List.map_cons, show pos + (x - pos) = x by omega]

/-- The window without the lost block leaves a hole. -/
theorem feed_lost_window (hb : 0 < c.blockSize) (hW : 1 ≤ c.windowsize ∧ c.windowsize ≤ 65535)
    (hn : blockCount c.blockSize file ≤ 65535) {pos x e : Nat} {g : GetState}
    (hg : ClientIn c.blockSize file tid pos pos g)
    (he : e = pos + windowLen c.blockSize file c.windowsize pos) (hpos : pos ≤ x) (hx : x < e)
    (hen : e ≤ blockCount c.blockSize file) :
    ∃ g', HoleIn c.blockSize file tid x e pos g' ∧
      feed (clientReads c tid) (.receiving g) ((windowAt c file pos).eraseIdx (x - pos))
        = (.receiving g', []) := by
  have hwidth : windowLen c.blockSize file c.windowsize pos ≤ c.windowsize := by
    unfold windowLen; omega
  -- up to the hole the blocks come in order, after it they are buffered
  obtain ⟨g₁, hg₁, hfeed₁⟩ := feed_blocks hb hW.2 (x - pos) pos g hg (Nat.le_refl _) (by omega)
    (by omega)
  rw [show pos + (x - pos) = x by omega] at hg₁
  obtain ⟨g₂, hg₂, hfeed₂⟩ := @feed_after_hole c file tid x pos (e - x - 1) (x + 1) g₁
    hg₁.holeIn (by omega) (by omega)
  refine ⟨g₂, by rwa [show x + 1 + (e - x - 1) = e by omega] at hg₂, ?_⟩
  rw [windowAt_split he hpos hx, List.eraseIdx_append_of_length_le (by simp)]
  simp only [List.length_map, List.length_range', Nat.sub_self, List.eraseIdx_cons_zero]
  rw [feed_append, hfeed₁, hfeed₂]
  rfl

/-- The repetition up to the missing block: the blocks before it are duplicates. -/
theorem feed_to_hole (hn : blockCount c.blockSize file ≤ 65535) {pos x e : Nat} {g : GetState}
    (hg : HoleIn c.blockSize file tid x e pos g) (hpos : pos ≤ x)
    (hx : x < blockCount c.blockSize file) :
    ∃ g', HoleIn c.blockSize file tid x e pos g' ∧
      feed (clientReads c tid) (.receiving g)
        ((List.range' pos (x - pos)).map (segPacket c.blockSize file))
        = (.receiving g', List.replicate (x - pos) (ackPacket (wire pos))) := by
  obtain ⟨g', hsame, hfeed⟩ := @feed_duplicates c file tid x (by omega)
    (List.range' pos (x - pos)) g (by
      intro i hi
      rw [List.mem_range'_1] at hi
      omega) hg.expected hg.server
  rw [List.length_range', hg.lastAck] at hfeed
  exact ⟨g', hg.congr hsame, hfeed⟩

/-- **The repeated window**, if more windows follow: an ACK of the window before for each
block up to the missing one, and an ACK of this window for each block from there on. -/
theorem feed_repeated_window (hb : 0 < c.blockSize)
    (hn : blockCount c.blockSize file ≤ 65535) {pos x : Nat} {g : GetState}
    (hg : HoleIn c.blockSize file tid x (pos + c.windowsize) pos g) (hpos : pos ≤ x)
    (hx : x < pos + c.windowsize)
    (hmore : pos + c.windowsize < blockCount c.blockSize file) :
    ∃ g', ClientIn c.blockSize file tid (pos + c.windowsize) (pos + c.windowsize) g' ∧
      feed (clientReads c tid) (.receiving g) (windowAt c file pos)
        = (.receiving g', List.replicate (x - pos) (ackPacket (wire pos))
          ++ List.replicate (pos + c.windowsize - x)
              (ackPacket (wire (pos + c.windowsize)))) := by
  have hlen : windowLen c.blockSize file c.windowsize pos = c.windowsize := by
    unfold windowLen; omega
  obtain ⟨g₁, hg₁, hfeed₁⟩ := feed_to_hole hn hg hpos (by omega)
  obtain ⟨g₂, hexp, hserver, hbuf, hlast, hwritten, hstep⟩ :=
    getStep_fill hb hg₁ hx (by omega) (by omega) (by omega)
  -- with the drained blocks the window is complete, so it is acknowledged here
  have hacked : pos + c.windowsize - pos ≥ c.windowsize ∨ x + 1 = blockCount c.blockSize file :=
    Or.inl (by omega)
  rw [if_pos hacked] at hlast
  rw [if_neg (by omega), if_pos hacked] at hstep
  obtain ⟨g₃, hsame, hfeed₃⟩ := @feed_duplicates c file tid (pos + c.windowsize) (by omega)
    (List.range' (x + 1) (pos + c.windowsize - x - 1)) g₂ (by
      intro i hi
      rw [List.mem_range'_1] at hi
      omega) hexp (Or.inr hserver)
  have hclient : ClientIn c.blockSize file tid (pos + c.windowsize) (pos + c.windowsize) g₂ :=
    ⟨hexp, Or.inr hserver, hbuf, hlast, hwritten⟩
  refine ⟨g₃, hclient.congr hsame, ?_⟩
  rw [windowAt_split (by rw [hlen]) hpos hx, feed_append, hfeed₁, feed, clientReads_eq hstep,
    hfeed₃, List.length_range', hlast]
  have hsucc : pos + c.windowsize - x = pos + c.windowsize - x - 1 + 1 := by omega
  rw [hsucc, List.replicate_succ]
  rfl

/-- If the final block of the file was lost, its repetition ends the download. -/
theorem feed_repeated_final (hb : 0 < c.blockSize)
    (hn : blockCount c.blockSize file ≤ 65535) {pos x : Nat} {g : GetState}
    (hg : HoleIn c.blockSize file tid x (blockCount c.blockSize file) pos g) (hpos : pos ≤ x)
    (hx : x + 1 = blockCount c.blockSize file)
    (hlast : blockCount c.blockSize file ≤ pos + c.windowsize) :
    ∃ g', g'.written = file ∧
      (feed (clientReads c tid) (.receiving g) (windowAt c file pos)).1
        = .returned (.ok ()) g' := by
  obtain ⟨g₁, hg₁, hfeed₁⟩ := feed_to_hole hn hg hpos (by omega)
  obtain ⟨g₂, -, -, -, -, hwritten, hstep⟩ :=
    getStep_fill hb hg₁ (by omega) (by omega) (by omega) hn
  rw [take_blockCount_mul hb] at hwritten
  rw [if_pos hx] at hstep
  refine ⟨g₂, hwritten, ?_⟩
  have hwin : blockCount c.blockSize file
      = pos + windowLen c.blockSize file c.windowsize pos := by unfold windowLen; omega
  -- nothing follows the final block in the window
  have hnone : blockCount c.blockSize file - x - 1 = 0 := by omega
  rw [windowAt_split hwin hpos (by omega), hnone, List.range'_zero, List.map_nil, feed_append,
    hfeed₁, feed_singleton, clientReads_eq hstep]

/-- If another block of the last window was lost, the client has the whole file after the
repetition, but waits for the block after the final one. -/
theorem feed_repeated_last (hb : 0 < c.blockSize)
    (hn : blockCount c.blockSize file ≤ 65535) {pos x : Nat} {g : GetState}
    (hg : HoleIn c.blockSize file tid x (blockCount c.blockSize file) pos g) (hpos : pos ≤ x)
    (hx : x + 1 < blockCount c.blockSize file) :
    ∃ g', g'.expectedBlock = wire (blockCount c.blockSize file + 1) ∧
      g'.serverTid = some tid ∧
      (feed (clientReads c tid) (.receiving g)
        ((List.range' pos (x - pos)).map (segPacket c.blockSize file)
          ++ [segPacket c.blockSize file x])).1 = .receiving g' := by
  obtain ⟨g₁, hg₁, hfeed₁⟩ := feed_to_hole hn hg hpos (by omega)
  obtain ⟨g₂, hexp, hserver, -, -, -, hstep⟩ :=
    getStep_fill hb hg₁ (by omega) (by omega) (by omega) hn
  rw [if_neg (by omega)] at hstep
  refine ⟨g₂, hexp, hserver, ?_⟩
  rw [feed_append, hfeed₁, feed_singleton, clientReads_eq hstep]

/-! ## The sender -/

/-- The state in which the window at `pos` has been repeated `retries` times. -/
def sending (c : TftpClient) (file : Bytes) (pos retries : Nat) : SendStatus StreamState :=
  streamStatus c.blockSize file c.windowsize (.awaiting pos retries)

/-- A reply that does not acknowledge the window repeats it or ends the transfer. -/
theorem sendingStep_repeats (hb : 0 < c.blockSize) (hW : 0 < c.windowsize) {pos retries : Nat}
    (hpos : pos < blockCount c.blockSize file) {r : Recv}
    (hnot : ¬IsAck (wire (pos + windowLen c.blockSize file c.windowsize pos)) r) :
    sendFileDataStreamingStep file .octet c.blockSize c.windowsize (sending c file pos retries) r
      = if retries + 1 < maxRetries then (sending c file pos (retries + 1), windowAt c file pos)
        else (.done (.maxRetriesExceeded (wire (pos + 1))), []) := by
  have hacked : ¬WindowSender.acked acksPacket (segPackets c.blockSize file) c.windowsize pos r
      = true := by rwa [acked_segPackets hW hpos]
  rw [sending, streamStatus, sendFileDataStreamingStep_eq hb hW hpos, WindowSender.step,
    if_neg hacked]
  split_ifs
  · rfl
  · rfl

theorem senderTimeout_eq (hb : 0 < c.blockSize) (hW : 0 < c.windowsize) {pos retries : Nat}
    (hpos : pos < blockCount c.blockSize file) (hmore : retries + 1 < maxRetries) :
    senderTimeout c file (sending c file pos retries)
      = (sending c file pos (retries + 1), windowAt c file pos) := by
  rw [senderTimeout, sendingStep_repeats hb hW hpos (not_isAck_timeout _), if_pos hmore]

/-- The ACK of the window before. -/
theorem senderReads_duplicate (hb : 0 < c.blockSize) (hW : 1 ≤ c.windowsize ∧ c.windowsize ≤ 65535)
    {pos : Nat} (hpos : pos < blockCount c.blockSize file) (retries : Nat) :
    senderReads c file (sending c file pos retries) (ackPacket (wire pos))
      = if retries + 1 < maxRetries then (sending c file pos (retries + 1), windowAt c file pos)
        else (.done (.maxRetriesExceeded (wire (pos + 1))), []) := by
  have hlen := windowLen_pos hW.1 hpos
  have hwidth : windowLen c.blockSize file c.windowsize pos ≤ c.windowsize := by
    unfold windowLen; omega
  have hnot : ¬IsAck (wire (pos + windowLen c.blockSize file c.windowsize pos))
      (.datagram (ackPacket (wire pos))) := by
    rw [isAck_ackPacket, wire_inj (by omega) (by omega)]
    omega
  rw [senderReads, sendingStep_repeats hb hW.1 hpos hnot]

/-- The ACK of a window that is not the last one. -/
theorem senderReads_ack (hb : 0 < c.blockSize) (hW : 0 < c.windowsize) {pos : Nat}
    (hmore : pos + c.windowsize < blockCount c.blockSize file) (retries : Nat) :
    senderReads c file (sending c file pos retries) (ackPacket (wire (pos + c.windowsize)))
      = (sending c file (pos + c.windowsize) 0, windowAt c file (pos + c.windowsize)) := by
  have hpos : pos < blockCount c.blockSize file := by omega
  rw [senderReads, sending, streamStatus, sendFileDataStreamingStep_eq hb hW hpos,
    WindowSender.step, if_pos (acked_ackPacket hW hpos (by omega)), length_segPackets,
    if_pos hmore]
  rfl

/-- **Surplus ACKs** within the limit: the window is repeated for each of them. -/
theorem feed_surplus (hb : 0 < c.blockSize) (hW : 1 ≤ c.windowsize ∧ c.windowsize ≤ 65535)
    {pos : Nat} (hpos : pos < blockCount c.blockSize file) :
    ∀ (m retries : Nat), retries + m < maxRetries →
      feed (senderReads c file) (sending c file pos retries)
          (List.replicate m (ackPacket (wire pos)))
        = (sending c file pos (retries + m), (List.replicate m (windowAt c file pos)).flatten) := by
  intro m
  induction m with
  | zero => intro retries _; rfl
  | succ m ih =>
      intro retries hm
      rw [List.replicate_succ, feed, senderReads_duplicate hb hW hpos, if_pos (by omega)]
      simp only
      rw [ih (retries + 1) (by omega), List.replicate_succ, List.flatten_cons,
        show retries + 1 + m = retries + (m + 1) by omega]

theorem feed_done (e : SendExit) (ds : List Bytes) :
    feed (senderReads c file) (.done e) ds = (.done e, []) := by
  induction ds with
  | nil => rfl
  | cons d ds ih =>
      have hstep : senderReads c file (.done e) d = (.done e, []) := rfl
      rw [feed, hstep, ih]
      rfl

/-- Too many surplus ACKs: the sender gives up, and has sent nothing but this window. -/
theorem feed_too_many (hb : 0 < c.blockSize) (hW : 1 ≤ c.windowsize ∧ c.windowsize ≤ 65535)
    {pos : Nat} (hpos : pos < blockCount c.blockSize file) :
    ∀ (m retries : Nat), retries < maxRetries → maxRetries ≤ retries + m →
      ∃ e, (feed (senderReads c file) (sending c file pos retries)
          (List.replicate m (ackPacket (wire pos)))).1 = .done e ∧
        ∀ d ∈ (feed (senderReads c file) (sending c file pos retries)
          (List.replicate m (ackPacket (wire pos)))).2, d ∈ windowAt c file pos := by
  intro m
  induction m with
  | zero => intro retries hlt hle; omega
  | succ m ih =>
      intro retries hlt hle
      rw [List.replicate_succ, feed, senderReads_duplicate hb hW hpos]
      by_cases hmore : retries + 1 < maxRetries
      · rw [if_pos hmore]
        obtain ⟨e, hdone, hmem⟩ := ih (retries + 1) hmore (by omega)
        refine ⟨e, hdone, fun d hd => ?_⟩
        rcases List.mem_append.mp hd with hd | hd
        · exact hd
        · exact hmem d hd
      · rw [if_neg hmore]
        simp only [feed_done]
        exact ⟨_, rfl, fun d hd => absurd hd (by simp)⟩

end

end UsgTftp
