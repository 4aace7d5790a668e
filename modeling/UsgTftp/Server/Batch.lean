import UsgTftp.Lib.Panic
import UsgTftp.Server.Pool

set_option autoImplicit false

/-! # Datagrams received in batches

`recvmmsg` fills one buffer for each message. `batch_recv_packets` of the server leaves out the
messages without a usable address, and the loop in `run` then takes the buffers in the order of
those that are left. The worker pool keeps the index of each message instead.

`dispatch_paired_iff` says when each request is handled with its own bytes: a message before it
that was left out shifts it to the buffer of another one.
-/

namespace UsgTftp

open Panicking

/-! ## Batches -/

/-- The address that the kernel gives for a sender. -/
inductive SockaddrStorage where
  | in4 (ip : BitVec 32) (port : UInt16)
  | in6 (ip : BitVec 128) (port : UInt16)
  | other
  deriving DecidableEq, Repr

/-- A result of `recvmmsg`: the length of the message and its sender. -/
structure RecvMsg where
  bytes : Nat
  address : Option SockaddrStorage
  deriving DecidableEq, Repr

/-- What `recvmmsg` leaves: message `k` is at the head of buffer `k`. -/
structure RecvBatch where
  buffers : List Bytes
  msgs : List RecvMsg
  length_le : msgs.length ≤ buffers.length
  buffer_length : ∀ buffer ∈ buffers, buffer.length = maxPacketSize
  bytes_le : ∀ m ∈ msgs, m.bytes ≤ maxPacketSize

def SockaddrStorage.socketAddr : SockaddrStorage → Option SocketAddr
  | .in4 ip port => some ⟨.v4 ip, port⟩
  | .in6 ip port => some ⟨.v6 ip, port⟩
  | .other => none

/-- The usable address of a message. -/
def RecvMsg.sender (m : RecvMsg) : Option SocketAddr := m.address.bind SockaddrStorage.socketAddr

/-! ## The server -/

/-- `batch_recv_packets`: the lengths and the senders of the messages that are kept. -/
def batchRecvPackets (msgs : List RecvMsg) : List (Nat × SocketAddr) :=
  msgs.filterMap fun m => m.sender.map fun addr => (m.bytes, addr)

/-- `&buffers[i][..size]`, or `none` if that panics. -/
def bufferSlice (buffers : List Bytes) (i size : Nat) : Option Bytes :=
  buffers[i]?.bind fun buffer => sliceTo buffer size

/-- The loop over the packets in `run`: the calls of `handle_client`, from packet `i` on. -/
def dispatchFrom (buffers : List Bytes) :
    Nat → List (Nat × SocketAddr) → Option (List IncomingPacket)
  | _, [] => some []
  | i, (size, clientAddr) :: packets =>
      (bufferSlice buffers i size).bind fun data =>
        (dispatchFrom buffers (i + 1) packets).map (⟨data, clientAddr⟩ :: ·)

/-- The calls of `handle_client` for a batch. -/
def RecvBatch.dispatch (batch : RecvBatch) : Option (List IncomingPacket) :=
  dispatchFrom batch.buffers 0 (batchRecvPackets batch.msgs)

/-! ## The worker pool -/

/-- `sockaddr_to_std`. -/
def sockaddrToStd (storage : SockaddrStorage) : Except TftpError SocketAddr :=
  match storage.socketAddr with
  | some addr => .ok addr
  | none => .error (.tftp "Unsupported address family")

/-- The messages with an address, and their indices from `i` on. -/
def msgInfo : Nat → List RecvMsg → List (Nat × Nat × SockaddrStorage)
  | _, [] => []
  | i, m :: msgs =>
      match m.address with
      | some storage => (i, m.bytes, storage) :: msgInfo (i + 1) msgs
      | none => msgInfo (i + 1) msgs

/-- The loop over them in `batch_recv_packets_internal`. -/
def collectPackets (buffers : List Bytes) :
    List (Nat × Nat × SockaddrStorage) → Option (Except TftpError (List IncomingPacket))
  | [] => some (.ok [])
  | (i, bytesReceived, storage) :: info =>
      match sockaddrToStd storage with
      | .error e => some (.error e)
      | .ok addr =>
          (bufferSlice buffers i bytesReceived).bind fun data =>
            (collectPackets buffers info).map fun results => results.map (⟨data, addr⟩ :: ·)

/-- `batch_recv_packets_internal` after a `recvmmsg` that succeeds. -/
def RecvBatch.recvInternal (batch : RecvBatch) : Option (Except TftpError (List IncomingPacket)) :=
  collectPackets batch.buffers (msgInfo 0 batch.msgs)

/-! ## Messages and their own bytes -/

/-- The messages with a usable address from message `k` on, with their own bytes. -/
def ownFrom (buffers : List Bytes) : Nat → List RecvMsg → List IncomingPacket
  | _, [] => []
  | k, m :: msgs =>
      match m.sender with
      | some addr => ⟨(buffers.getD k []).take m.bytes, addr⟩ :: ownFrom buffers (k + 1) msgs
      | none => ownFrom buffers (k + 1) msgs

def RecvBatch.own (batch : RecvBatch) : List IncomingPacket := ownFrom batch.buffers 0 batch.msgs

/-- How many of the messages before message `k` are kept. This is the buffer that the server reads
for it. -/
def keptBefore (msgs : List RecvMsg) (k : Nat) : Nat :=
  (msgs.take k).countP fun m => m.sender.isSome

/-- Each message with a usable address finds its own bytes in the buffer that is read for it. -/
def RecvBatch.Unshifted (batch : RecvBatch) : Prop :=
  ∀ k m, batch.msgs[k]? = some m → m.sender ≠ none →
    (batch.buffers.getD (keptBefore batch.msgs k) []).take m.bytes
      = (batch.buffers.getD k []).take m.bytes

section

variable {buffers : List Bytes}

theorem bufferSlice_eq (hlen : ∀ buffer ∈ buffers, buffer.length = maxPacketSize) {i size : Nat}
    (hi : i < buffers.length) (hsize : size ≤ maxPacketSize) :
    bufferSlice buffers i size = some ((buffers.getD i []).take size) := by
  have hbuffer := hlen buffers[i] (List.getElem_mem hi)
  rw [bufferSlice, List.getElem?_eq_getElem hi, Option.bind_some,
    sliceTo_eq (by rw [hbuffer]; exact hsize), List.getD_eq_getElem?_getD,
    List.getElem?_eq_getElem hi, Option.getD_some]

/-- The messages with a usable address, with the buffers from `i` on. -/
def readFrom (buffers : List Bytes) : Nat → List RecvMsg → List IncomingPacket
  | _, [] => []
  | i, m :: msgs =>
      match m.sender with
      | some addr => ⟨(buffers.getD i []).take m.bytes, addr⟩ :: readFrom buffers (i + 1) msgs
      | none => readFrom buffers i msgs

/-- No buffer is missing. -/
theorem dispatchFrom_eq (hlen : ∀ buffer ∈ buffers, buffer.length = maxPacketSize) :
    ∀ (msgs : List RecvMsg) (i : Nat), i + msgs.length ≤ buffers.length →
      (∀ m ∈ msgs, m.bytes ≤ maxPacketSize) →
      dispatchFrom buffers i (batchRecvPackets msgs) = some (readFrom buffers i msgs) := by
  intro msgs
  induction msgs with
  | nil =>
      intro i _ _
      rfl
  | cons m msgs ih =>
      intro i hi hbytes
      rw [List.length_cons] at hi
      have hrest : ∀ m ∈ msgs, m.bytes ≤ maxPacketSize := fun m' h =>
        hbytes m' (List.mem_cons_of_mem m h)
      cases hm : m.sender with
      | none =>
          have hkept : batchRecvPackets (m :: msgs) = batchRecvPackets msgs := by
            rw [batchRecvPackets, List.filterMap_cons, hm]
            rfl
          rw [hkept, readFrom, hm]
          exact ih i (by omega) hrest
      | some addr =>
          have hkept : batchRecvPackets (m :: msgs)
              = (m.bytes, addr) :: batchRecvPackets msgs := by
            rw [batchRecvPackets, List.filterMap_cons, hm]
            rfl
          rw [hkept, dispatchFrom, bufferSlice_eq hlen (by omega) (hbytes m List.mem_cons_self),
            Option.bind_some, ih (i + 1) (by omega) hrest, readFrom, hm]
          rfl

theorem keptBefore_cons_none {m : RecvMsg} (hm : m.sender = none) (msgs : List RecvMsg) (k : Nat) :
    keptBefore (m :: msgs) (k + 1) = keptBefore msgs k := by
  rw [keptBefore, List.take_succ_cons, List.countP_cons, hm]
  rfl

theorem keptBefore_cons_some {m : RecvMsg} {addr : SocketAddr} (hm : m.sender = some addr)
    (msgs : List RecvMsg) (k : Nat) :
    keptBefore (m :: msgs) (k + 1) = keptBefore msgs k + 1 := by
  rw [keptBefore, List.take_succ_cons, List.countP_cons, hm]
  rfl

theorem forall_getElem?_cons {α : Type} {p : Nat → α → Prop} {x : α} {xs : List α} :
    (∀ j y, (x :: xs)[j]? = some y → p j y) ↔
      p 0 x ∧ ∀ j y, xs[j]? = some y → p (j + 1) y := by
  constructor
  · intro h
    exact ⟨h 0 x rfl, fun j y hy => h (j + 1) y hy⟩
  · rintro ⟨hhead, htail⟩ j y hy
    cases j with
    | zero =>
        cases hy
        exact hhead
    | succ j => exact htail j y hy

/-- **Message by message**, the buffers that are read hold what the own buffers do. -/
theorem readFrom_eq_iff : ∀ (msgs : List RecvMsg) (i k : Nat),
    readFrom buffers i msgs = ownFrom buffers k msgs ↔
      ∀ j m, msgs[j]? = some m → m.sender ≠ none →
        (buffers.getD (i + keptBefore msgs j) []).take m.bytes
          = (buffers.getD (k + j) []).take m.bytes := by
  intro msgs
  induction msgs with
  | nil =>
      intro i k
      refine iff_of_true rfl fun j m hm => ?_
      simp at hm
  | cons m msgs ih =>
      intro i k
      rw [forall_getElem?_cons, readFrom, ownFrom]
      cases hm : m.sender with
      | none =>
          simp only [keptBefore_cons_none hm]
          rw [ih i (k + 1)]
          simp only [Nat.add_assoc, Nat.add_comm 1]
          constructor
          · intro h
            exact ⟨fun hsome => absurd rfl hsome, h⟩
          · exact And.right
      | some addr =>
          simp only [keptBefore_cons_some hm, List.cons.injEq, IncomingPacket.mk.injEq, and_true]
          rw [ih (i + 1) (k + 1)]
          simp only [Nat.add_assoc, Nat.add_comm 1]
          constructor
          · rintro ⟨hhead, h⟩
            exact ⟨fun _ => hhead, h⟩
          · rintro ⟨hhead, h⟩
            exact ⟨hhead (Option.some_ne_none addr), h⟩

/-- Without an address of another family, the worker pool reads each message from its own
buffer. -/
theorem collectPackets_own (hlen : ∀ buffer ∈ buffers, buffer.length = maxPacketSize) :
    ∀ (msgs : List RecvMsg) (k : Nat), k + msgs.length ≤ buffers.length →
      (∀ m ∈ msgs, m.bytes ≤ maxPacketSize) → (∀ m ∈ msgs, m.address ≠ some .other) →
      collectPackets buffers (msgInfo k msgs) = some (.ok (ownFrom buffers k msgs)) := by
  intro msgs
  induction msgs with
  | nil =>
      intro k _ _ _
      rfl
  | cons m msgs ih =>
      intro k hk hbytes hother
      rw [List.length_cons] at hk
      have hrest := ih (k + 1) (by omega) (fun m' h => hbytes m' (List.mem_cons_of_mem m h))
        (fun m' h => hother m' (List.mem_cons_of_mem m h))
      have hslice := bufferSlice_eq hlen (show k < buffers.length by omega)
        (hbytes m List.mem_cons_self)
      rw [msgInfo, ownFrom, RecvMsg.sender]
      cases haddr : m.address with
      | none => exact hrest
      | some storage =>
          simp only [Option.bind_some]
          cases storage with
          | other => exact absurd haddr (hother m List.mem_cons_self)
          | in4 ip port =>
              rw [collectPackets, sockaddrToStd, SockaddrStorage.socketAddr]
              simp only
              rw [hslice, Option.bind_some, hrest]
              rfl
          | in6 ip port =>
              rw [collectPackets, sockaddrToStd, SockaddrStorage.socketAddr]
              simp only
              rw [hslice, Option.bind_some, hrest]
              rfl

end

/-- **When each request is handled with its own bytes**: if the messages that are left out shift
none to a buffer with other bytes. The worker pool reads the own bytes of each message. -/
theorem dispatch_paired_iff (batch : RecvBatch) :
    (batch.dispatch = some batch.own ↔ batch.Unshifted) ∧
    ((∀ m ∈ batch.msgs, m.address ≠ some .other) →
      batch.recvInternal = some (.ok batch.own)) := by
  have hlength : 0 + batch.msgs.length ≤ batch.buffers.length := by
    rw [Nat.zero_add]
    exact batch.length_le
  constructor
  · rw [RecvBatch.dispatch, dispatchFrom_eq batch.buffer_length batch.msgs 0 hlength
      batch.bytes_le, Option.some_inj, RecvBatch.own, readFrom_eq_iff]
    simp only [Nat.zero_add]
    rfl
  · exact collectPackets_own batch.buffer_length batch.msgs 0 hlength batch.bytes_le

/-- A message without an address, and after it the request `a`. -/
def shiftedBatch : RecvBatch where
  buffers := [List.replicate maxPacketSize 0, 97 :: List.replicate (maxPacketSize - 1) 0]
  msgs := [⟨0, none⟩, ⟨1, some (.in4 1 2000)⟩]
  length_le := by decide
  buffer_length := by
    intro buffer h
    rcases List.mem_pair.mp h with rfl | rfl
    · exact List.length_replicate
    · rw [List.length_cons, List.length_replicate]
      rfl
  bytes_le := by decide

/-- The worker pool reads the request. -/
theorem dispatch_paired_iff_shifted :
    shiftedBatch.recvInternal = some (.ok [⟨[97], ⟨.v4 1, 2000⟩⟩]) :=
  (dispatch_paired_iff shiftedBatch).2 (by decide)

/-- The client is answered for the buffer of the message before its own. -/
theorem shifted_request_misread :
    shiftedBatch.dispatch = some [⟨[0], ⟨.v4 1, 2000⟩⟩] ∧
    shiftedBatch.own = [⟨[97], ⟨.v4 1, 2000⟩⟩] ∧
    shiftedBatch.dispatch ≠ some shiftedBatch.own := by
  have hdispatch : shiftedBatch.dispatch = some [⟨[0], ⟨.v4 1, 2000⟩⟩] := by
    rw [RecvBatch.dispatch, dispatchFrom_eq shiftedBatch.buffer_length shiftedBatch.msgs 0
      (by decide) shiftedBatch.bytes_le]
    rfl
  have hown : shiftedBatch.own = [⟨[97], ⟨.v4 1, 2000⟩⟩] := rfl
  refine ⟨hdispatch, hown, ?_⟩
  rw [hdispatch, hown]
  decide

end UsgTftp
