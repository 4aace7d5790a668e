import UsgTftp.Lib.FairQueue
import UsgTftp.Server.Write

set_option autoImplicit false

/-! # Uploads over a network that loses DATA packets

A sender of RFC 7440 sends a window of blocks, goes on behind the block that an ACK names, and
sends its window again when nothing comes. The network loses some of the DATA packets and
keeps the rest in order.

A block that is ahead of the expected one ends the upload (`outOfOrder_of_ahead`), so a block
that is lost is survived only if every later block of its window is lost with it:
`upload_survives_iff` says that the file is stored if and only if no block arrives out of
order.
-/

namespace UsgTftp

open Reactive Segment SeqNum Filter

/-! ## Blocks out of order -/

/-- The number is neither the expected one nor in the half of the circle behind it. -/
def ReceiveState.OutOfOrder (st : ReceiveState) (n : UInt16) : Prop :=
  n ≠ st.expectedBlock ∧ ¬ (0 < st.expectedBlock - n ∧ st.expectedBlock - n < 32768)

instance (st : ReceiveState) (n : UInt16) : Decidable (st.OutOfOrder n) :=
  inferInstanceAs (Decidable (_ ∧ _))

/-- The upload goes on after a packet that is `d` blocks ahead: nothing changes, and the last
block in sequence is acknowledged again. -/
def WriteRequest.SurvivesLoss (q : WriteRequest) (st : ReceiveState) (d : Nat) (data : Bytes) :
    Prop :=
  q.step (.receiving st) (.datagram (dataPacket (st.expectedBlock + wire d) data))
    = (.receiving st, [ackPacket (st.expectedBlock - 1)])

instance (q : WriteRequest) (st : ReceiveState) (d : Nat) (data : Bytes) :
    Decidable (q.SurvivesLoss st d data) :=
  inferInstanceAs (Decidable (_ = _))

theorem receiveData_outOfOrder {q : WriteRequest} {st : ReceiveState} {n : UInt16} {data : Bytes}
    (h : st.OutOfOrder n) :
    q.receiveData st n data
      = (.ended .outOfOrder st, [errorPacket .illegalOperation "Out of order block"]) := by
  rw [WriteRequest.receiveData, if_pos h.1, mismatchedBlock]
  exact if_neg h.2

theorem outOfOrder_of_ahead (st : ReceiveState) {d : Nat} (hd : 1 ≤ d ∧ d ≤ 32768) :
    st.OutOfOrder (st.expectedBlock + wire d) := by
  have hbehind : (st.expectedBlock - (st.expectedBlock + wire d)).toNat = 65536 - d := by
    rw [UInt16.toNat_sub, UInt16.toNat_add, toNat_wire]
    have := st.expectedBlock.toNat_lt
    omega
  constructor
  · intro h
    rw [h, UInt16.sub_self] at hbehind
    have : (0 : UInt16).toNat = 0 := rfl
    omega
  · rintro ⟨-, hlt⟩
    rw [UInt16.lt_iff_toNat_lt, hbehind] at hlt
    have : (32768 : UInt16).toNat = 32768 := rfl
    omega

/-- In every state of the loop a packet ahead ends the transfer with an ERROR. -/
theorem step_ahead (q : WriteRequest) (st : ReceiveState) {d : Nat} (hd : 1 ≤ d ∧ d ≤ 32768)
    (data : Bytes) :
    q.step (.receiving st) (.datagram (dataPacket (st.expectedBlock + wire d) data))
      = (.ended .outOfOrder st, [errorPacket .illegalOperation "Out of order block"]) := by
  rw [WriteRequest.step, header_recvInto (by decide), header_dataPacket]
  simp only [Option.map_some]
  rw [if_neg (by decide), if_neg (by simp)]
  exact receiveData_outOfOrder (outOfOrder_of_ahead st hd)

/-! ## The system -/

/-- The sender, the server and the two channels between them. -/
structure LossyUpload where
  /-- The number of blocks the sender has an acknowledgement for. -/
  acked : Nat
  /-- The DATA packets in flight, by the index of their block. -/
  data : List Nat
  server : WriteStatus
  replies : List Bytes

inductive LossyEvent where
  /-- The sender's timer fires. -/
  | timer
  /-- The first DATA packet in flight arrives. -/
  | deliver
  /-- It is lost. -/
  | lose
  /-- The first reply in flight arrives. -/
  | reply
  deriving DecidableEq, Repr

section System

variable (q : WriteRequest) (order : IterOrder) (b : Nat) (file : Bytes)

/-- How many blocks the sender has in its window. -/
def WriteRequest.room (acked : Nat) : Nat :=
  min q.options.windowsize (blockCount b file - acked)

/-- The blocks of the window. -/
def WriteRequest.window (acked : Nat) : List Nat := List.range' acked (q.room b file acked)

/-- The sender reads a reply: an ACK of a block of the window, or of the last block before it,
moves the window. Other packets are ignored. -/
def WriteRequest.resume (acked : Nat) (d : Bytes) : Option Nat :=
  match header d with
  | none => none
  | some (opcode, field, _) =>
      let offset := (field - wire acked).toNat
      if opcode = Opcode.ack.toU16 ∧ offset ≤ q.room b file acked then some (acked + offset)
      else none

/-- The OACK or ACK `0` has arrived, and the first window is in flight. -/
def lossyUploadStart : LossyUpload :=
  ⟨0, q.window b file 0, (handleWriteRequest q order).start.1, []⟩

def LossyUpload.step (s : LossyUpload) : LossyEvent → LossyUpload
  | .timer => { s with data := s.data ++ q.window b file s.acked }
  | .lose => { s with data := s.data.tail }
  | .deliver =>
      match s.data with
      | [] => s
      | i :: rest =>
          let (server, out) := q.step s.server (.datagram (segPacket b file i))
          { s with data := rest, server := server, replies := s.replies ++ out }
  | .reply =>
      match s.replies with
      | [] => s
      | d :: rest =>
          match q.resume b file s.acked d with
          | none => { s with replies := rest }
          | some acked =>
              { s with acked := acked, data := s.data ++ q.window b file acked, replies := rest }

/-- The state before event `n`. -/
def lossyUploadAt (es : Nat → LossyEvent) : Nat → LossyUpload
  | 0 => lossyUploadStart q order b file
  | n + 1 => (lossyUploadAt es n).step q b file (es n)

/-- The event takes the packet of block `i` off the network. -/
def LossyUpload.Takes (s : LossyUpload) (e : LossyEvent) (i : Nat) : Prop :=
  s.data.head? = some i ∧ (e = .deliver ∨ e = .lose)

/-- **What a network must let through.** The sender's timer fires again and again, packets and
replies in flight arrive or are lost in the end, and a block that is sent again and again
arrives again and again. -/
structure LossyFair (es : Nat → LossyEvent) : Prop where
  timer : ∃ᶠ n in atTop, es n = .timer
  arrivals : ∃ᶠ n in atTop, es n = .deliver ∨ es n = .lose
  replies : ∃ᶠ n in atTop, es n = .reply
  through : ∀ i, (∃ᶠ n in atTop, (lossyUploadAt q order b file es n).Takes (es n) i) →
    ∃ᶠ n in atTop, (lossyUploadAt q order b file es n).Takes (es n) i ∧ es n = .deliver

/-- The event does not deliver a block out of order. -/
def LossyUpload.InOrder (s : LossyUpload) (e : LossyEvent) : Prop :=
  match e, s.data, s.server with
  | .deliver, i :: _, .receiving st => ¬ st.OutOfOrder (wire (i + 1))
  | _, _, _ => True

instance (s : LossyUpload) (e : LossyEvent) : Decidable (s.InOrder e) := by
  unfold LossyUpload.InOrder
  split <;> infer_instance

/-- `write_file_safely` is called with the data of the file. -/
def LossyStored (es : Nat → LossyEvent) : Prop :=
  ∃ n st, (lossyUploadAt q order b file es n).server = .commit st (q.finalData file)

end System

section Runs

variable {q : WriteRequest} {order : IterOrder} {b : Nat} {file : Bytes}

/-! ## What a delivery does -/

/-- The block that the loop answers in order: the next one is appended, unless the file gets
too large, and one of the last `32768` is acknowledged again. -/
inductive Delivery (q : WriteRequest) (b : Nat) (file : Bytes) (k i : Nat) (st : ReceiveState) :
    WriteStatus × List Bytes → Prop where
  | appended (next : WriteStatus) (out : List Bytes) (hi : i = k)
      (hnext : WriteAt q b file (k + 1) next) (hlive : ∀ e st', next ≠ .ended e st')
      (hgrows : next.running = false ∨
        st.receivedData.length < next.state.receivedData.length)
      (hout : out = [] ∨ out = [ackPacket (wire (k + 1))]) : Delivery q b file k i st (next, out)
  | duplicate (hi : i < k) : Delivery q b file k i st (.receiving st, [ackPacket (wire (i + 1))])
  | tooLarge (out : List Bytes) (hi : i = k) (hfit : q.exceeds st (block b file k)) :
      Delivery q b file k i st (.ended .tooLarge st, out)

theorem appendBlock_delivery (hb : 8 ≤ b) (hq : q.options.blockSize = b)
    (hW : 2 ≤ q.options.windowsize ∧ q.options.windowsize ≤ 32768) {k : Nat} {st : ReceiveState}
    (h : WriteAt q b file k (.receiving st)) (hfit : ¬ q.exceeds st (block b file k)) :
    Delivery q b file k k st (q.appendBlock st (wire (k + 1)) (block b file k)) := by
  have hnext := writeAt_appendBlock (by omega) hq h hfit
  have hwindow : UInt16.ofNat q.options.windowsize ≠ 0 := by
    intro h0
    have h0 := congrArg UInt16.toNat h0
    rw [UInt16.toNat_ofNat'] at h0
    have : (0 : UInt16).toNat = 0 := rfl
    omega
  rw [WriteRequest.appendBlock, if_neg hwindow] at hnext ⊢
  simp only at hnext ⊢
  have hout : ∀ c : Prop, [Decidable c] → (if c then [ackPacket (wire (k + 1))] else [])
      = ([] : List Bytes) ∨ (if c then [ackPacket (wire (k + 1))] else [])
        = [ackPacket (wire (k + 1))] := by
    intro c _
    by_cases hc : c
    · exact Or.inr (if_pos hc)
    · exact Or.inl (if_neg hc)
  by_cases hfinal : (block b file k).length < q.options.blockSize
  · rw [if_pos hfinal] at hnext ⊢
    exact .appended _ _ rfl hnext (by intro e st' h; cases h) (Or.inl rfl) (hout _)
  · rw [if_neg hfinal] at hnext ⊢
    refine .appended _ _ rfl hnext (by intro e st' h; cases h) (Or.inr ?_) (hout _)
    -- a block that is not the last one has the full size
    show st.receivedData.length < (st.receivedData ++ block b file k).length
    rw [List.length_append]
    omega

/-- **Inversion of a delivery in order.** -/
theorem delivery_of_inOrder (hb : 8 ≤ b ∧ b ≤ 65464) (hq : q.options.blockSize = b)
    (hW : 2 ≤ q.options.windowsize ∧ q.options.windowsize ≤ 32768) {k i : Nat}
    {st : ReceiveState} (h : WriteAt q b file k (.receiving st))
    (hnear : i < k + q.options.windowsize ∧ k ≤ i + q.options.windowsize)
    (hin : ¬ st.OutOfOrder (wire (i + 1))) :
    Delivery q b file k i st (q.step (.receiving st) (.datagram (segPacket b file i))) := by
  have hstate := h
  cases hstate with
  | receiving _ hk hdata hexp =>
      rw [step_segPacket hb.2, WriteRequest.receiveData]
      by_cases hne : wire (i + 1) = st.expectedBlock
      · have hik : i = k := by
          rw [hexp, wire_inj (by omega) (by omega)] at hne
          omega
        subst hik
        rw [if_neg (by simpa using hne)]
        by_cases hfit : q.exceeds st (block b file i)
        · rw [if_pos hfit]
          exact .tooLarge _ rfl hfit
        · rw [if_neg hfit]
          exact appendBlock_delivery hb.1 hq hW h hfit
      · have hbehind : 0 < st.expectedBlock - wire (i + 1) ∧
            st.expectedBlock - wire (i + 1) < 32768 := by
          by_contra hbehind
          exact hin ⟨hne, hbehind⟩
        rw [if_pos hne, mismatchedBlock, if_pos hbehind]
        refine .duplicate ?_
        -- a block ahead would be less than `32768` ahead
        by_contra hge
        have hsub := toNat_wire_sub_of_lt (n := k + 1) (m := i + 1)
          (by rcases Nat.lt_or_ge k i with hlt | hge'
              · omega
              · exact absurd (by rw [hexp, Nat.le_antisymm hge' (by omega)]) hne) (by omega)
        have hlt := hbehind.2
        rw [hexp, UInt16.lt_iff_toNat_lt, hsub] at hlt
        have : (32768 : UInt16).toNat = 32768 := rfl
        omega

/-! ## The invariant -/

/-- The DATA packets in flight are of blocks that the window held when they were sent, so they
are at most a window behind what came before them. -/
structure DataInFlight (q : WriteRequest) (b : Nat) (file : Bytes) (acked k : Nat)
    (data : List Nat) : Prop where
  bound : ∀ i ∈ data, i < blockCount b file ∧ i < acked + q.options.windowsize ∧
    k ≤ i + q.options.windowsize
  order : data.Pairwise fun j i => j < i + q.options.windowsize

/-- The replies in flight acknowledge blocks that were received. -/
structure RepliesInFlight (W acked k : Nat) (ys : List Nat) : Prop where
  bound : ∀ y ∈ ys, 1 ≤ y ∧ y ≤ k ∧ acked < y + W
  order : ys.Pairwise fun y' y => y' < y + W

/-- **The invariant**: `k` blocks have been received, and the sender knows of them or of
fewer, but no more than a window. -/
structure LossyUpload.Sound (q : WriteRequest) (b : Nat) (file : Bytes) (s : LossyUpload)
    (k : Nat) : Prop where
  server : WriteAt q b file k s.server
  live : ∀ e st, s.server ≠ .ended e st
  acked_le : s.acked ≤ k
  le_acked : k ≤ s.acked + q.options.windowsize
  data : DataInFlight q b file s.acked k s.data
  replies : ∃ ys : List Nat, s.replies = ys.map (fun y => ackPacket (wire y)) ∧
    RepliesInFlight q.options.windowsize s.acked k ys

theorem mem_window {acked i : Nat} :
    i ∈ q.window b file acked ↔ acked ≤ i ∧ i < acked + q.room b file acked :=
  List.mem_range'_1

theorem room_le (acked : Nat) : q.room b file acked ≤ q.options.windowsize := Nat.min_le_left _ _

theorem add_room_le {acked : Nat} (h : acked ≤ blockCount b file) :
    acked + q.room b file acked ≤ blockCount b file := by
  have := Nat.min_le_right q.options.windowsize (blockCount b file - acked)
  unfold WriteRequest.room
  omega

/-- Another window is sent. -/
theorem DataInFlight.send {acked k a : Nat} {data : List Nat}
    (h : DataInFlight q b file acked k data)
    (ha : acked ≤ a ∧ a ≤ k) (hk : k ≤ acked + q.options.windowsize) (hN : k ≤ blockCount b file) :
    DataInFlight q b file a k (data ++ q.window b file a) := by
  have hroom : q.room b file a ≤ q.options.windowsize := room_le a
  have hend : a + q.room b file a ≤ blockCount b file := add_room_le (by omega)
  constructor
  · intro i hi
    rcases List.mem_append.mp hi with hi | hi
    · have := h.bound i hi
      omega
    · have := mem_window.mp hi
      omega
  · refine List.pairwise_append.mpr ⟨h.order, ?_, ?_⟩
    · refine (List.pairwise_lt_range' : (q.window b file a).Pairwise (· < ·)).imp ?_
      intro j i hji
      omega
    · intro j hj i hi
      have := h.bound j hj
      have := mem_window.mp hi
      omega

theorem DataInFlight.tail {acked k i : Nat} {rest : List Nat}
    (h : DataInFlight q b file acked k (i :: rest)) : DataInFlight q b file acked k rest :=
  ⟨fun j hj => h.bound j (List.mem_cons_of_mem _ hj), (List.pairwise_cons.mp h.order).2⟩

/-- The next block leaves the network. -/
theorem DataInFlight.next {acked k : Nat} {rest : List Nat}
    (h : DataInFlight q b file acked k (k :: rest)) :
    DataInFlight q b file acked (k + 1) rest := by
  refine ⟨?_, h.tail.order⟩
  intro i hi
  have := h.tail.bound i hi
  have := (List.pairwise_cons.mp h.order).1 i hi
  omega

theorem RepliesInFlight.tail {W acked k y : Nat} {ys : List Nat}
    (h : RepliesInFlight W acked k (y :: ys)) : RepliesInFlight W acked k ys :=
  ⟨fun y' hy => h.bound y' (List.mem_cons_of_mem _ hy), (List.pairwise_cons.mp h.order).2⟩

/-- An acknowledgement moves the window. -/
theorem RepliesInFlight.move {W acked k y : Nat} {ys : List Nat}
    (h : RepliesInFlight W acked k (y :: ys)) : RepliesInFlight W y k ys := by
  refine ⟨?_, h.tail.order⟩
  intro y' hy
  have := h.tail.bound y' hy
  have := (List.pairwise_cons.mp h.order).1 y' hy
  omega

/-- Block `y` is acknowledged when `k'` blocks have been received. -/
theorem RepliesInFlight.push {W acked k k' y : Nat} {ys : List Nat}
    (h : RepliesInFlight W acked k ys) (hk : k ≤ k') (hy : 1 ≤ y ∧ y ≤ k')
    (hnear : k < y + W) (hacked : acked ≤ k) : RepliesInFlight W acked k' (ys ++ [y]) := by
  constructor
  · intro y' hy'
    rcases List.mem_append.mp hy' with hy' | hy'
    · have := h.bound y' hy'
      omega
    · have := List.mem_singleton.mp hy'
      omega
  · refine List.pairwise_append.mpr ⟨h.order, List.pairwise_singleton _ _, ?_⟩
    intro y' hy' y'' hy''
    have := h.bound y' hy'
    have := List.mem_singleton.mp hy''
    omega

theorem RepliesInFlight.grow {W acked k k' : Nat} {ys : List Nat}
    (h : RepliesInFlight W acked k ys) (hk : k ≤ k') : RepliesInFlight W acked k' ys := by
  refine ⟨?_, h.order⟩
  intro y hy
  have := h.bound y hy
  omega

/-- The sender finds out which block of the window an ACK names. -/
theorem resume_ackPacket {acked k y : Nat} (hW : q.options.windowsize ≤ 32768)
    (hy : y ≤ k) (hk : k ≤ acked + q.options.windowsize) (hN : k ≤ blockCount b file)
    (hnear : acked < y + q.options.windowsize) :
    q.resume b file acked (ackPacket (wire y)) = if acked ≤ y then some y else none := by
  have hroom : q.room b file acked ≤ q.options.windowsize := room_le acked
  rw [WriteRequest.resume, header_ackPacket]
  simp only
  by_cases hle : acked ≤ y
  · have hoffset : (wire y - wire acked).toNat = y - acked :=
      toNat_wire_sub_of_le hle (by omega)
    have hwithin : y - acked ≤ q.room b file acked :=
      le_min (by omega) (by omega)
    rw [if_pos hle, hoffset, if_pos ⟨trivial, hwithin⟩, Nat.add_sub_cancel' hle]
  · -- an ACK from before the window is too far away on the circle
    have hoffset : (wire y - wire acked).toNat = 65536 - (acked - y) :=
      toNat_wire_sub_of_lt (by omega) (by omega)
    rw [if_neg hle, hoffset, if_neg (by omega)]

/-! ## Steps -/

/-- What is left to do: bytes to receive, blocks to acknowledge, and the write. -/
def LossyUpload.rank (b : Nat) (file : Bytes) (s : LossyUpload) : Nat :=
  (file.length - s.server.state.receivedData.length) + (blockCount b file - s.acked) +
    if s.server.running then 1 else 0

/-- The step does some of it, or changes nothing but what is in flight. -/
def LossyUpload.Advances (b : Nat) (file : Bytes) (s s' : LossyUpload) : Prop :=
  s'.rank b file < s.rank b file ∨ (s'.acked = s.acked ∧ s'.server = s.server)

theorem rank_lt_of_acked {s s' : LossyUpload} (hserver : s'.server = s.server)
    (hacked : s.acked < s'.acked) (hN : s.acked < blockCount b file) :
    s'.rank b file < s.rank b file := by
  unfold LossyUpload.rank
  rw [hserver]
  omega

/-- A server that has stopped without an error has the file. -/
theorem WriteAt.eq_commit {k : Nat} {st : WriteStatus} (h : WriteAt q b file k st)
    (hlive : ∀ e st', st ≠ .ended e st') (hstop : st.running = false) :
    ∃ st', st = .commit st' (q.finalData file) ∧ st'.receivedData = file ∧ q.Fits file := by
  cases h with
  | receiving s hk hdata hexp => cases hstop
  | commit s hk hdata hmax => exact ⟨s, rfl, hdata, hmax⟩
  | ended e s hk hdata => exact absurd rfl (hlive e s)

theorem sound_start (order : IterOrder) :
    (lossyUploadStart q order b file).Sound q b file 0 where
  server := writeAt_start order
  live := by intro e st h; cases h
  acked_le := le_rfl
  le_acked := Nat.zero_le _
  data := by
    have hnone : DataInFlight q b file 0 0 [] := ⟨(by intro i hi; cases hi), .nil⟩
    exact hnone.send ⟨le_rfl, le_rfl⟩ (Nat.zero_le _) (Nat.zero_le _)
  replies := ⟨[], rfl, (by intro y hy; cases hy), .nil⟩

section Steps

variable {s : LossyUpload} {k : Nat}

theorem inOrder_deliver_iff : s.InOrder .deliver ↔ ∀ i st, s.data.head? = some i →
    s.server = .receiving st → ¬ st.OutOfOrder (wire (i + 1)) := by
  unfold LossyUpload.InOrder
  cases s.data with
  | nil => simp
  | cons i rest =>
      cases s.server with
      | receiving st => simp
      | commit st finalData => simp
      | ended e st => simp

theorem LossyUpload.Sound.timer (h : s.Sound q b file k) :
    (s.step q b file .timer).Sound q b file k :=
  { h with data := h.data.send ⟨le_rfl, h.acked_le⟩ h.le_acked h.server.le }

theorem LossyUpload.Sound.lose (h : s.Sound q b file k) :
    (s.step q b file .lose).Sound q b file k := by
  refine { h with data := ?_ }
  show DataInFlight q b file s.acked k s.data.tail
  cases hdata : s.data with
  | nil => exact ⟨(by intro i hi; cases hi), .nil⟩
  | cons i rest =>
      have hflight := h.data
      rw [hdata] at hflight
      exact hflight.tail

/-- A reply arrives: it moves the window, or is ignored. -/
theorem LossyUpload.Sound.reply (hW : q.options.windowsize ≤ 32768) (h : s.Sound q b file k) :
    (s.step q b file .reply).Sound q b file k ∧
      s.Advances b file (s.step q b file .reply) := by
  obtain ⟨ys, hys, hflight⟩ := h.replies
  have hk := h.le_acked
  have hacked := h.acked_le
  have hN := h.server.le
  cases ys with
  | nil =>
      have hnone : s.step q b file .reply = s := by
        rw [LossyUpload.step, hys]
        rfl
      rw [hnone]
      exact ⟨h, Or.inr ⟨rfl, rfl⟩⟩
  | cons y ys =>
      have hy := hflight.bound y List.mem_cons_self
      have hresume : q.resume b file s.acked (ackPacket (wire y))
          = if s.acked ≤ y then some y else none :=
        resume_ackPacket hW hy.2.1 hk hN hy.2.2
      rw [LossyUpload.step, hys, List.map_cons]
      simp only
      rw [hresume]
      by_cases hle : s.acked ≤ y
      · rw [if_pos hle]
        refine ⟨⟨h.server, h.live, hy.2.1, by show k ≤ y + _; omega, ?_, ys, rfl, ?_⟩, ?_⟩
        · exact h.data.send ⟨hle, hy.2.1⟩ hk hN
        · exact hflight.move
        · rcases Nat.eq_or_lt_of_le hle with heq | hlt
          · exact Or.inr ⟨heq.symm, rfl⟩
          · exact Or.inl (rank_lt_of_acked rfl hlt (by omega))
      · rw [if_neg hle]
        exact ⟨⟨h.server, h.live, hacked, hk, h.data, ys, rfl, hflight.tail⟩, Or.inr ⟨rfl, rfl⟩⟩

/-- A block arrives in order. -/
theorem LossyUpload.Sound.deliver (hb : 8 ≤ b ∧ b ≤ 65464) (hq : q.options.blockSize = b)
    (hW : 2 ≤ q.options.windowsize ∧ q.options.windowsize ≤ 32768) (h : s.Sound q b file k)
    (hin : s.InOrder .deliver) :
    (∃ st, (s.step q b file .deliver).server = .ended .tooLarge st ∧ ¬ q.Fits file) ∨
    ∃ k', (s.step q b file .deliver).Sound q b file k' ∧
      s.Advances b file (s.step q b file .deliver) := by
  have hin := inOrder_deliver_iff.mp hin
  have hk := h.le_acked
  have hacked := h.acked_le
  have hflight := h.data
  obtain ⟨ys, hys, hreplies⟩ := h.replies
  unfold LossyUpload.step
  cases hdata : s.data with
  | nil => exact Or.inr ⟨k, h, Or.inr ⟨rfl, rfl⟩⟩
  | cons i rest =>
      rw [hdata] at hin hflight
      have hi := hflight.bound i List.mem_cons_self
      have hserver := h.server
      simp only
      cases hstatus : s.server with
      | ended e st => exact absurd hstatus (h.live e st)
      | commit st finalData =>
          refine Or.inr ⟨k, ⟨?_, ?_, hacked, hk, hflight.tail, ys, ?_, hreplies⟩,
            Or.inr ⟨rfl, hstatus.symm⟩⟩
          · rw [hstatus] at hserver
            exact hserver
          · intro e st' hended
            cases hended
          · rw [hys]
            exact List.append_nil _
      | receiving st =>
          rw [hstatus] at hserver
          have hdelivery := delivery_of_inOrder hb hq hW hserver (by omega)
            (hin i st rfl hstatus)
          generalize q.step (.receiving st) (.datagram (segPacket b file i)) = r at hdelivery ⊢
          cases hdelivery with
          | tooLarge out hik hfit =>
              subst hik
              exact Or.inl ⟨st, rfl, hserver.not_fits hfit⟩
          | duplicate hik =>
              refine Or.inr ⟨k, ⟨hserver, ?_, hacked, hk, hflight.tail, ys ++ [i + 1], ?_, ?_⟩,
                Or.inr ⟨rfl, hstatus.symm⟩⟩
              · intro e st' hended
                cases hended
              · rw [hys, List.map_append]
                rfl
              · exact hreplies.push le_rfl (by omega) (by omega) hacked
          | appended next out hik hnext hlive hgrows hout =>
              subst hik
              refine Or.inr ⟨i + 1, ⟨hnext, hlive, by show s.acked ≤ i + 1; omega,
                by show i + 1 ≤ s.acked + _; omega, hflight.next, ?_⟩, Or.inl ?_⟩
              · rcases hout with rfl | rfl
                · exact ⟨ys, by rw [hys]; exact List.append_nil _, hreplies.grow (by omega)⟩
                · refine ⟨ys ++ [i + 1], by rw [hys, List.map_append]; rfl, ?_⟩
                  exact hreplies.push (by omega) (by omega) (by omega) hacked
              · -- more bytes have been received, or the file is complete
                show (file.length - next.state.receivedData.length) +
                    (blockCount b file - s.acked) + (if next.running then 1 else 0) < s.rank b file
                rw [LossyUpload.rank, hstatus]
                have hlen := hnext.length_le
                have hbefore := hserver.length_le
                rcases hgrows with hstop | hgrows
                · obtain ⟨st', rfl, hfile, -⟩ := hnext.eq_commit hlive hstop
                  show (file.length - st'.receivedData.length) + _ + 0 < _ + _ + 1
                  rw [hfile]
                  omega
                · have hrun : (if next.running then 1 else 0) ≤ 1 := by split <;> omega
                  show _ < (file.length - st.receivedData.length) + _ + 1
                  omega

/-- **Step lemma**: an event in order keeps the invariant, unless the file is too large. -/
theorem LossyUpload.Sound.step (hb : 8 ≤ b ∧ b ≤ 65464) (hq : q.options.blockSize = b)
    (hW : 2 ≤ q.options.windowsize ∧ q.options.windowsize ≤ 32768) (h : s.Sound q b file k)
    {e : LossyEvent} (hin : s.InOrder e) :
    (∃ st, (s.step q b file e).server = .ended .tooLarge st ∧ ¬ q.Fits file) ∨
    ∃ k', (s.step q b file e).Sound q b file k' ∧ s.Advances b file (s.step q b file e) := by
  cases e with
  | timer => exact Or.inr ⟨k, h.timer, Or.inr ⟨rfl, rfl⟩⟩
  | lose => exact Or.inr ⟨k, h.lose, Or.inr ⟨rfl, rfl⟩⟩
  | reply => exact Or.inr ⟨k, h.reply hW.2⟩
  | deliver => exact h.deliver hb hq hW hin

/-- The first block of the window arrives: the server moves on, or acknowledges it again. -/
theorem LossyUpload.Sound.deliver_first (hb : 8 ≤ b ∧ b ≤ 65464) (hq : q.options.blockSize = b)
    (hW : 2 ≤ q.options.windowsize ∧ q.options.windowsize ≤ 32768) (h : s.Sound q b file k)
    (hin : s.InOrder .deliver) (hhead : s.data.head? = some s.acked) {st : ReceiveState}
    (hstatus : s.server = .receiving st) :
    (s.step q b file .deliver).server ≠ s.server ∨
      ackPacket (wire (s.acked + 1)) ∈ (s.step q b file .deliver).replies := by
  have hin := inOrder_deliver_iff.mp hin s.acked st hhead hstatus
  have hserver := h.server
  obtain ⟨rest, hrest⟩ := List.head?_eq_some_iff.mp hhead
  have hi := h.data.bound s.acked (by rw [hrest]; exact List.mem_cons_self)
  have hacked := h.acked_le
  rw [hstatus] at hserver
  have hdelivery := delivery_of_inOrder hb hq hW hserver (by omega) hin
  unfold LossyUpload.step
  rw [hrest, hstatus]
  simp only
  generalize q.step (.receiving st) (.datagram (segPacket b file s.acked)) = r at hdelivery ⊢
  cases hdelivery with
  | tooLarge out hik hfit =>
      left
      intro heq
      cases heq
  | duplicate hik => exact Or.inr (List.mem_append_right _ List.mem_cons_self)
  | appended next out hik hnext hlive hgrows hout =>
      left
      intro heq
      have heq : next = .receiving st := heq
      rw [heq] at hgrows
      rcases hgrows with hstop | hgrows
      · cases hstop
      · exact absurd hgrows (lt_irrefl _)

theorem LossyUpload.step_stopped (hstop : s.server.running = false) (e : LossyEvent) :
    (s.step q b file e).server = s.server := by
  cases e with
  | timer => rfl
  | lose => rfl
  | reply =>
      unfold LossyUpload.step
      cases s.replies with
      | nil => rfl
      | cons d rest =>
          simp only
          cases q.resume b file s.acked d with
          | none => rfl
          | some acked => rfl
  | deliver =>
      unfold LossyUpload.step
      cases s.data with
      | nil => rfl
      | cons i rest =>
          simp only
          cases hserver : s.server with
          | receiving st => rw [hserver] at hstop; cases hstop
          | commit st finalData => rfl
          | ended exit st => rfl

/-- The sender accepts an ACK of the first block of its window. -/
theorem resume_first {acked : Nat} (hW : 1 ≤ q.options.windowsize)
    (hN : acked < blockCount b file) :
    q.resume b file acked (ackPacket (wire (acked + 1))) = some (acked + 1) := by
  have hoffset : (wire (acked + 1) - wire acked).toNat = 1 := by
    rw [toNat_wire_sub_of_le (by omega) (by omega)]
    omega
  have hroom : 1 ≤ q.room b file acked := le_min hW (by omega)
  rw [WriteRequest.resume, header_ackPacket]
  simp only
  rw [hoffset, if_pos ⟨trivial, hroom⟩]

end Steps

/-! ## Whole runs -/

section At

variable {es : Nat → LossyEvent}

theorem lossyUploadAt_stopped {n m : Nat}
    (hstop : (lossyUploadAt q order b file es n).server.running = false) (hm : n ≤ m) :
    (lossyUploadAt q order b file es m).server = (lossyUploadAt q order b file es n).server := by
  induction m, hm using Nat.le_induction with
  | base => rfl
  | succ m hm ih =>
      rw [lossyUploadAt, LossyUpload.step_stopped (by rw [ih]; exact hstop), ih]

theorem dataSteps : FairQueue.Steps (fun n => (lossyUploadAt q order b file es n).data)
    (fun n => es n = .deliver ∨ es n = .lose) := by
  constructor
  · intro n hkeep
    show ∃ added, ((lossyUploadAt q order b file es n).step q b file (es n)).data = _
    cases he : es n with
    | deliver => exact absurd (Or.inl he) hkeep
    | lose => exact absurd (Or.inr he) hkeep
    | timer => exact ⟨_, rfl⟩
    | reply =>
        unfold LossyUpload.step
        cases (lossyUploadAt q order b file es n).replies with
        | nil => exact ⟨[], (List.append_nil _).symm⟩
        | cons d rest =>
            simp only
            cases q.resume b file (lossyUploadAt q order b file es n).acked d with
            | none => exact ⟨[], (List.append_nil _).symm⟩
            | some acked => exact ⟨_, rfl⟩
  · intro n hpop
    show ∃ added, ((lossyUploadAt q order b file es n).step q b file (es n)).data = _
    refine ⟨[], ?_⟩
    rw [List.append_nil]
    rcases hpop with he | he
    · rw [he]
      unfold LossyUpload.step
      cases hdata : (lossyUploadAt q order b file es n).data with
      | nil => exact hdata
      | cons i rest => rfl
    · rw [he]
      rfl

theorem replySteps : FairQueue.Steps (fun n => (lossyUploadAt q order b file es n).replies)
    (fun n => es n = .reply) := by
  constructor
  · intro n hkeep
    show ∃ added, ((lossyUploadAt q order b file es n).step q b file (es n)).replies = _
    cases he : es n with
    | reply => exact absurd he hkeep
    | timer => exact ⟨[], (List.append_nil _).symm⟩
    | lose => exact ⟨[], (List.append_nil _).symm⟩
    | deliver =>
        unfold LossyUpload.step
        cases (lossyUploadAt q order b file es n).data with
        | nil => exact ⟨[], (List.append_nil _).symm⟩
        | cons i rest => exact ⟨_, rfl⟩
  · intro n hpop
    show ∃ added, ((lossyUploadAt q order b file es n).step q b file (es n)).replies = _
    refine ⟨[], ?_⟩
    rw [List.append_nil, hpop]
    unfold LossyUpload.step
    cases hreplies : (lossyUploadAt q order b file es n).replies with
    | nil => exact hreplies
    | cons d rest =>
        simp only
        cases q.resume b file (lossyUploadAt q order b file es n).acked d with
        | none => rfl
        | some acked => rfl

/-- **Run lemma**: a run in order keeps the invariant, unless the file is too large. -/
theorem sound_or_tooLarge (hb : 8 ≤ b ∧ b ≤ 65464) (hq : q.options.blockSize = b)
    (hW : 2 ≤ q.options.windowsize ∧ q.options.windowsize ≤ 32768)
    (hin : ∀ n, (lossyUploadAt q order b file es n).InOrder (es n)) (n : Nat) :
    (∃ st, (lossyUploadAt q order b file es n).server = .ended .tooLarge st ∧ ¬ q.Fits file) ∨
    ∃ k, (lossyUploadAt q order b file es n).Sound q b file k := by
  induction n with
  | zero => exact Or.inr ⟨0, sound_start order⟩
  | succ n ih =>
      rcases ih with ⟨st, hst, hfit⟩ | ⟨k, hsound⟩
      · refine Or.inl ⟨st, ?_, hfit⟩
        rw [lossyUploadAt, LossyUpload.step_stopped (by rw [hst]; rfl), hst]
      · rcases hsound.step hb hq hW (hin n) with hlarge | ⟨k', hsound', -⟩
        · exact Or.inl hlarge
        · exact Or.inr ⟨k', hsound'⟩

/-- What has been received and acknowledged stays as it is if no step does anything. -/
theorem unchanged_of_not_falling {m : Nat}
    (hadv : ∀ n, (lossyUploadAt q order b file es n).Advances b file
      (lossyUploadAt q order b file es (n + 1)))
    (hno : ∀ n, m ≤ n → ¬ (lossyUploadAt q order b file es (n + 1)).rank b file
      < (lossyUploadAt q order b file es n).rank b file) {n : Nat} (hn : m ≤ n) :
    (lossyUploadAt q order b file es n).acked = (lossyUploadAt q order b file es m).acked ∧
    (lossyUploadAt q order b file es n).server = (lossyUploadAt q order b file es m).server := by
  induction n, hn using Nat.le_induction with
  | base => exact ⟨rfl, rfl⟩
  | succ n hn ih =>
      rcases hadv n with hlt | ⟨hacked, hserver⟩
      · exact absurd hlt (hno n hn)
      · exact ⟨hacked.trans ih.1, hserver.trans ih.2⟩

/-- **Progress**: as long as the server receives, more is received or acknowledged. -/
theorem exists_rank_lt (hb : 8 ≤ b ∧ b ≤ 65464) (hq : q.options.blockSize = b)
    (hW : 2 ≤ q.options.windowsize ∧ q.options.windowsize ≤ 32768)
    (hfair : LossyFair q order b file es)
    (hin : ∀ n, (lossyUploadAt q order b file es n).InOrder (es n))
    (hsound : ∀ n, ∃ k, (lossyUploadAt q order b file es n).Sound q b file k)
    (hadv : ∀ n, (lossyUploadAt q order b file es n).Advances b file
      (lossyUploadAt q order b file es (n + 1))) {m : Nat}
    (hrun : (lossyUploadAt q order b file es m).server.running ≠ false) :
    ∃ n, m ≤ n ∧ (lossyUploadAt q order b file es (n + 1)).rank b file
      < (lossyUploadAt q order b file es n).rank b file := by
  by_contra hno
  have hno : ∀ n, m ≤ n → ¬ (lossyUploadAt q order b file es (n + 1)).rank b file
      < (lossyUploadAt q order b file es n).rank b file := by
    intro n hn hlt
    exact hno ⟨n, hn, hlt⟩
  have hsame : ∀ n, m ≤ n → _ := fun n hn => unchanged_of_not_falling hadv hno hn
  -- the first block of the window, which is sent whenever the timer fires
  generalize hfirst : (lossyUploadAt q order b file es m).acked = first at hsame
  obtain ⟨k, hk⟩ := hsound m
  obtain ⟨st, hst⟩ : ∃ st, (lossyUploadAt q order b file es m).server = .receiving st := by
    cases hserver : (lossyUploadAt q order b file es m).server with
    | receiving st => exact ⟨st, rfl⟩
    | commit st finalData => rw [hserver] at hrun; exact absurd rfl hrun
    | ended e st => exact absurd hserver (hk.live e st)
  have hN : first < blockCount b file := by
    have hserver := hk.server
    have hle := hk.acked_le
    rw [hst] at hserver
    cases hserver with
    | receiving _ hlt _ _ => omega
  have hsent : ∃ᶠ n in atTop, first ∈ (lossyUploadAt q order b file es n).data := by
    rw [frequently_atTop]
    intro n
    obtain ⟨l, hl, htimer⟩ := frequently_atTop.mp hfair.timer (max n m)
    refine ⟨l + 1, by omega, ?_⟩
    rw [lossyUploadAt, htimer]
    refine List.mem_append_right _ (mem_window.mpr ?_)
    rw [(hsame l (by omega)).1]
    have hroom : 1 ≤ q.room b file first := le_min (by omega) (by omega)
    omega
  -- so it arrives, and as the server does not move on, it is acknowledged again
  have htaken := FairQueue.frequently_pop dataSteps hfair.arrivals hsent
  obtain ⟨n, hn, ⟨hhead, -⟩, hdeliver⟩ := frequently_atTop.mp (hfair.through first htaken) m
  obtain ⟨k', hk'⟩ := hsound n
  have hinorder := hin n
  rw [hdeliver] at hinorder
  have hstn := (hsame n hn).2.trans hst
  rw [← (hsame n hn).1] at hhead
  have hacked := hk'.deliver_first hb hq hW hinorder hhead hstn
  have hnext : lossyUploadAt q order b file es (n + 1)
      = (lossyUploadAt q order b file es n).step q b file .deliver := by
    rw [← hdeliver]
    rfl
  rw [← hnext] at hacked
  rcases hacked with hserver | hreply
  · exact hserver ((hsame (n + 1) (by omega)).2.trans (hsame n hn).2.symm)
  -- the ACK arrives, and moves the window after all
  obtain ⟨l, hl, hpop, hhead⟩ := FairQueue.exists_pop_of_mem replySteps hfair.replies hreply
  have hmoved : (lossyUploadAt q order b file es (l + 1)).acked = first + 1 := by
    obtain ⟨rest, hrest⟩ := List.head?_eq_some_iff.mp hhead
    rw [lossyUploadAt, hpop, LossyUpload.step, hrest]
    simp only
    rw [(hsame n hn).1, (hsame l (by omega)).1, resume_first (by omega) hN]
  rw [(hsame (l + 1) (by omega)).1] at hmoved
  omega

/-- **Lost blocks are survived in order only.** A run in which every block is let through in
the end has the file stored if and only if no block arrives out of order and the file is
within the size limit. -/
theorem upload_survives_iff (hb : 8 ≤ b ∧ b ≤ 65464) (hq : q.options.blockSize = b)
    (hW : 2 ≤ q.options.windowsize ∧ q.options.windowsize ≤ 32768)
    (hfair : LossyFair q order b file es) :
    LossyStored q order b file es ↔
      (∀ n, (lossyUploadAt q order b file es n).InOrder (es n)) ∧ q.Fits file := by
  constructor
  · rintro ⟨n, st, hn⟩
    have hin : ∀ m, (lossyUploadAt q order b file es m).InOrder (es m) := by
      intro m
      by_cases hdeliver : es m = .deliver
      swap
      · unfold LossyUpload.InOrder
        split
        · exact absurd ‹_› hdeliver
        · trivial
      rw [hdeliver, inOrder_deliver_iff]
      intro i st' hhead hst' hout
      rcases Nat.lt_or_ge m n with hlt | hge
      · -- the ERROR would have ended the transfer before it was stored
        obtain ⟨rest, hrest⟩ := List.head?_eq_some_iff.mp hhead
        have hended : (lossyUploadAt q order b file es (m + 1)).server
            = .ended .outOfOrder st' := by
          rw [lossyUploadAt, hdeliver, LossyUpload.step, hrest, hst']
          dsimp only
          rw [step_segPacket hb.2, receiveData_outOfOrder hout]
        have hlater := lossyUploadAt_stopped (m := n) (by rw [hended]; rfl) hlt
        rw [hn, hended] at hlater
        cases hlater
      · have hlater := lossyUploadAt_stopped (m := m) (by rw [hn]; rfl) hge
        rw [hn, hst'] at hlater
        cases hlater
    refine ⟨hin, ?_⟩
    rcases sound_or_tooLarge hb hq hW hin n with ⟨st', hst', -⟩ | ⟨k, hsound⟩
    · rw [hn] at hst'
      cases hst'
    · obtain ⟨-, -, -, hfits⟩ := hsound.server.eq_commit hsound.live (by rw [hn]; rfl)
      exact hfits
  · rintro ⟨hin, hfits⟩
    have hsound : ∀ n, ∃ k, (lossyUploadAt q order b file es n).Sound q b file k := by
      intro n
      rcases sound_or_tooLarge hb hq hW hin n with ⟨-, -, hlarge⟩ | hsound
      · exact absurd hfits hlarge
      · exact hsound
    have hadv : ∀ n, (lossyUploadAt q order b file es n).Advances b file
        (lossyUploadAt q order b file es (n + 1)) := by
      intro n
      obtain ⟨k, hk⟩ := hsound n
      rcases hk.step hb hq hW (hin n) with ⟨-, -, hlarge⟩ | ⟨-, -, hadv⟩
      · exact absurd hfits hlarge
      · exact hadv
    have hle : ∀ m, 0 ≤ m → (lossyUploadAt q order b file es (m + 1)).rank b file
        ≤ (lossyUploadAt q order b file es m).rank b file := by
      intro m _
      rcases hadv m with hlt | ⟨hacked, hserver⟩
      · exact Nat.le_of_lt hlt
      · unfold LossyUpload.rank
        rw [hacked, hserver]
    obtain ⟨n, -, hstop⟩ := @eventually_of_rank _ (lossyUploadAt q order b file es) _
      (fun s => s.server.running = false) 0 hle
      (fun m _ hrun => exists_rank_lt hb hq hW hfair hin hsound hadv hrun)
    obtain ⟨k, hk⟩ := hsound n
    obtain ⟨st, hst, -⟩ := hk.server.eq_commit hk.live hstop
    exact ⟨n, st, hst⟩

end At

end Runs

/-- **A lost block aborts the upload.** In every state that the loop can reach, a packet that
is ahead of the expected block, by less than the window, ends the transfer with an ERROR. So a
sender that goes on behind the acknowledged block gets its file stored if and only if no block
arrives out of order. -/
theorem lost_block_aborts (q : WriteRequest) (order : IterOrder) (b : Nat) (file : Bytes)
    (hb : 8 ≤ b ∧ b ≤ 65464) (hq : q.options.blockSize = b)
    (hW : 2 ≤ q.options.windowsize ∧ q.options.windowsize ≤ 32768) :
    (∀ rs st d data, (handleWriteRequest q order).stateAfter rs = .receiving st →
      1 ≤ d → d < q.options.windowsize →
      ¬ q.SurvivesLoss st d data ∧
      q.step (.receiving st) (.datagram (dataPacket (st.expectedBlock + wire d) data))
        = (.ended .outOfOrder st, [errorPacket .illegalOperation "Out of order block"])) ∧
    ∀ es, LossyFair q order b file es →
      (LossyStored q order b file es ↔
        (∀ n, (lossyUploadAt q order b file es n).InOrder (es n)) ∧ q.Fits file) := by
  constructor
  · intro rs st d data _ hd hdW
    have hstep := step_ahead q st ⟨hd, by omega⟩ data
    refine ⟨?_, hstep⟩
    intro hsurvives
    rw [WriteRequest.SurvivesLoss, hstep] at hsurvives
    cases hsurvives
  · intro es hfair
    exact upload_survives_iff hb hq hW hfair

/-! ## Two runs -/

/-- The events of a list, and after them every kind in turn but losses. -/
def thenLossless (events : List LossyEvent) (n : Nat) : LossyEvent :=
  events.getD n (match n % 3 with
    | 0 => .deliver
    | 1 => .timer
    | _ => .reply)

theorem thenLossless_of_le {events : List LossyEvent} {n : Nat} (h : events.length ≤ n) :
    thenLossless events n = match n % 3 with
      | 0 => .deliver
      | 1 => .timer
      | _ => .reply := by
  rw [thenLossless, List.getD_eq_getElem?_getD, List.getElem?_eq_none h]
  rfl

/-- Such a run is fair, whatever its first events are. -/
theorem lossyFair_thenLossless (q : WriteRequest) (order : IterOrder) (b : Nat) (file : Bytes)
    (events : List LossyEvent) : LossyFair q order b file (thenLossless events) := by
  have hturn : ∀ n r, ∃ m, n ≤ m ∧ thenLossless events m = match (r : Fin 3) with
      | 0 => .deliver
      | 1 => .timer
      | 2 => .reply := by
    intro n r
    refine ⟨3 * max n events.length + r, by omega, ?_⟩
    rw [thenLossless_of_le (by omega), Nat.mul_add_mod, Nat.mod_eq_of_lt r.isLt]
    match r with
    | 0 => rfl
    | 1 => rfl
    | 2 => rfl
  constructor
  · exact frequently_atTop.mpr fun n => hturn n 1
  · refine frequently_atTop.mpr fun n => ?_
    obtain ⟨m, hm, hdeliver⟩ := hturn n 0
    exact ⟨m, hm, Or.inl hdeliver⟩
  · exact frequently_atTop.mpr fun n => hturn n 2
  · intro i htaken
    refine frequently_atTop.mpr fun n => ?_
    obtain ⟨m, hm, htakes⟩ := frequently_atTop.mp htaken (max n events.length)
    refine ⟨m, by omega, htakes, ?_⟩
    rcases htakes.2 with hdeliver | hlose
    · exact hdeliver
    · rw [thenLossless_of_le (by omega)] at hlose
      split at hlose <;> cases hlose

/-- Blocks of eight bytes in windows of two. -/
def pairRequest : WriteRequest := ⟨.octet, { blockSize := 8, windowsize := 2 }, ∅, 0⟩

/-- Two blocks. -/
def twoBlocks : Bytes := List.replicate 9 1

/-- The second block is lost, and the whole window sent again: the file is stored. -/
theorem lost_block_aborts_pair :
    ¬ pairRequest.SurvivesLoss {} 1 [1] ∧
    LossyStored pairRequest .entries 8 twoBlocks
      (thenLossless [.deliver, .lose, .timer, .deliver, .deliver]) := by
  obtain ⟨hahead, hruns⟩ :=
    lost_block_aborts pairRequest .entries 8 twoBlocks (by decide) rfl (by decide)
  refine ⟨(hahead [] {} 1 [1] rfl le_rfl (by decide)).1,
    (hruns _ (lossyFair_thenLossless _ _ _ _ _)).mpr ⟨?_, by intro h; cases h rfl⟩⟩
  intro n
  rcases Nat.lt_or_ge n 5 with hlt | hge
  · have hfive : ∀ n < 5, (lossyUploadAt pairRequest .entries 8 twoBlocks
        (thenLossless [.deliver, .lose, .timer, .deliver, .deliver]) n).InOrder
          (thenLossless [.deliver, .lose, .timer, .deliver, .deliver] n) := by
      decide +kernel
    exact hfive n hlt
  · -- the file is complete after five events
    have hcommit : (lossyUploadAt pairRequest .entries 8 twoBlocks
        (thenLossless [.deliver, .lose, .timer, .deliver, .deliver]) 5).server
          = .commit { receivedData := twoBlocks, expectedBlock := 2 } twoBlocks := by
      decide +kernel
    have hlater := lossyUploadAt_stopped (m := n) (by rw [hcommit]; rfl) hge
    rw [hcommit] at hlater
    unfold LossyUpload.InOrder
    rw [hlater]
    split
    · rename_i h
      cases h
    · trivial

/-- The first block is lost and the second one arrives: nothing that comes later helps. -/
theorem first_of_pair_lost :
    ¬ pairRequest.SurvivesLoss {} 1 [1] ∧
    LossyFair pairRequest .entries 8 twoBlocks (thenLossless [.lose, .deliver]) ∧
    pairRequest.Fits twoBlocks ∧
    (lossyUploadAt pairRequest .entries 8 twoBlocks (thenLossless [.lose, .deliver]) 2).replies
      = [errorPacket .illegalOperation "Out of order block"] ∧
    ¬ LossyStored pairRequest .entries 8 twoBlocks (thenLossless [.lose, .deliver]) := by
  have hfair := lossyFair_thenLossless pairRequest .entries 8 twoBlocks [.lose, .deliver]
  refine ⟨by decide +kernel, hfair, (by intro h; cases h rfl), by decide +kernel, ?_⟩
  intro hstored
  have hin := ((upload_survives_iff (by decide) rfl (by decide) hfair).mp hstored).1 1
  revert hin
  decide +kernel

end UsgTftp
