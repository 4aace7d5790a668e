import UsgTftp.Server.Write

set_option autoImplicit false

/-! # Acknowledgements of a windowed upload

A sender of RFC 7440 keeps at most `W` blocks beyond the last acknowledged one in flight,
and the network loses, duplicates and reorders its packets. The server tells an old duplicate
from a block ahead of a gap by the half of the sixteen-bit circle its number lies in, and
acknowledges the former. A block can be at most `W - 1` ahead of the expected one, so the
test is right for every run iff no block can be more than `32768` ahead
(`uploadAcks_sound_iff`): for a window of `32770` blocks or more, block `32770` arriving
first is acknowledged as if it were a duplicate (`falseAck_reachable`).
-/

namespace UsgTftp

open Reactive Segment SeqNum

/-! ## The system -/

/-- The server's loop, the number of blocks it has appended, the blocks the sender has put on
the network and the blocks the server has acknowledged in response, by absolute number. -/
structure WindowedUpload where
  server : WriteStatus
  accepted : Nat
  sent : List Nat
  acked : List Nat

def uploadStart (q : WriteRequest) (order : IterOrder) : WindowedUpload :=
  ⟨(handleWriteRequest q order).start.1, 0, [], []⟩

inductive UploadStep (q : WriteRequest) (b : Nat) (file : Bytes) :
    WindowedUpload → WindowedUpload → Prop where
  /-- The sender sends block `j`, at most a window beyond a block `a` that it has an
  acknowledgement for; `0` is acknowledged by the start of the transfer. -/
  | send (s : WindowedUpload) (j a : Nat) (hj : 1 ≤ j ∧ j ≤ blockCount b file)
      (ha : a ∈ 0 :: s.acked) (hwindow : j ≤ a + q.options.windowsize) :
      UploadStep q b file s { s with sent := j :: s.sent }
  /-- A copy of a block that was sent arrives; the server has moved on by fewer than `32768`
  blocks. -/
  | deliver (s : WindowedUpload) (j : Nat) (hj : j ∈ s.sent) (hdelay : s.accepted < j + 32768) :
      UploadStep q b file s
        { server := (q.step s.server (.datagram (segPacket b file (j - 1)))).1
          accepted := s.accepted + if q.accepts b file (j - 1) s.server then 1 else 0
          sent := s.sent
          acked :=
            if ackPacket (wire j) ∈ (q.step s.server (.datagram (segPacket b file (j - 1)))).2
            then j :: s.acked else s.acked }
  | timeout (s : WindowedUpload) :
      UploadStep q b file s { s with server := (q.step s.server .timeout).1 }

/-- **Acknowledgements are sound**: in every state of every run the received data are the
accepted blocks, and no block beyond them has been acknowledged. -/
def UploadAcksSound (q : WriteRequest) (order : IterOrder) (b : Nat) (file : Bytes) : Prop :=
  ∀ s, Relation.ReflTransGen (UploadStep q b file) (uploadStart q order) s →
    s.server.state.receivedData = ((segment b file).take s.accepted).flatten ∧
    ∀ j ∈ s.acked, j ≤ s.accepted

/-! ## When an acknowledgement is sent -/

theorem ackPacket_ne_errorPacket (n : UInt16) (code : TftpErrorCode) (message : String) :
    ackPacket n ≠ errorPacket code message := by
  intro h
  have h' := congrArg getU16 h
  rw [getU16_ackPacket, errorPacket, getU16_putU16] at h'
  exact absurd (Prod.mk.inj (Option.some.inj h')).1 (by decide)

section

variable {q : WriteRequest} {b : Nat} {file : Bytes} {k : Nat}

/-- A block that is acknowledged was appended just now, or its number is in the half of the
circle behind the expected one. -/
theorem acked_cases {st : WriteStatus} (hb : b ≤ maxBlockSize) (h : WriteAt q b file k st)
    {i : Nat} (hack : ackPacket (wire (i + 1))
      ∈ (q.step st (.datagram (segPacket b file i))).2) :
    q.accepts b file i st ∨
      (wire (i + 1) ≠ wire (k + 1) ∧ wire (k + 1) - wire (i + 1) < 32768) := by
  cases h with
  | commit s hk hdata hmax => cases hack
  | ended e s hk hdata => cases hack
  | receiving s hk hdata hexp =>
      rw [step_segPacket hb, WriteRequest.receiveData] at hack
      by_cases hne : wire (i + 1) = s.expectedBlock
      · rw [if_neg (by simpa using hne)] at hack
        by_cases hfit : q.exceeds s (block b file i)
        · rw [if_pos hfit] at hack
          exact absurd (List.mem_singleton.mp hack) (ackPacket_ne_errorPacket _ _ _)
        · exact Or.inl ⟨hne, hfit⟩
      · rw [if_pos hne, mismatchedBlock] at hack
        split_ifs at hack with hbehind
        · rw [hexp] at hne hbehind
          exact Or.inr ⟨hne, hbehind.2⟩
        · exact absurd (List.mem_singleton.mp hack) (ackPacket_ne_errorPacket _ _ _)

/-- **The half-range test is right** for blocks at most `32768` ahead of the expected one. -/
theorem le_of_behind {i : Nat} (hahead : i ≤ k + 32768) (hne : wire (i + 1) ≠ wire (k + 1))
    (hbehind : wire (k + 1) - wire (i + 1) < 32768) : i < k := by
  by_contra hge
  have hik : i ≠ k := fun h => hne (by rw [h])
  have hsub := toNat_wire_sub_of_lt (n := k + 1) (m := i + 1) (by omega) (by omega)
  rw [UInt16.lt_iff_toNat_lt, hsub] at hbehind
  have : (32768 : UInt16).toNat = 32768 := rfl
  omega

end

/-! ## Soundness for small windows and small files -/

/-- The invariant of the system: the sender is at most a window ahead of the server. -/
structure UploadAt (q : WriteRequest) (b : Nat) (file : Bytes) (s : WindowedUpload) : Prop where
  server : WriteAt q b file s.accepted s.server
  acked : ∀ j ∈ s.acked, j ≤ s.accepted
  sent : ∀ j ∈ s.sent, 1 ≤ j ∧ j ≤ blockCount b file ∧ j ≤ s.accepted + q.options.windowsize

theorem WriteAt.timeout {q : WriteRequest} {b : Nat} {file : Bytes} {k : Nat} {st : WriteStatus}
    (h : WriteAt q b file k st) : WriteAt q b file k (q.step st .timeout).1 := by
  cases h with
  | receiving s hk hdata hexp => exact .ended _ _ (Nat.le_of_lt hk) hdata
  | commit s hk hdata hmax => exact .commit s hk hdata hmax
  | ended e s hk hdata => exact .ended e s hk hdata

/-- **Step lemma.** -/
theorem uploadAt_step {q : WriteRequest} {b : Nat} {file : Bytes} (hb : 8 ≤ b ∧ b ≤ 65464)
    (hq : q.options.blockSize = b)
    (hsmall : q.options.windowsize ≤ 32769 ∨ blockCount b file ≤ 32769) {s t : WindowedUpload}
    (h : UploadAt q b file s) (hst : UploadStep q b file s t) : UploadAt q b file t := by
  cases hst with
  | timeout => exact ⟨h.server.timeout, h.acked, h.sent⟩
  | send j a hj ha hwindow =>
      refine ⟨h.server, h.acked, ?_⟩
      have hale : a ≤ s.accepted := by
        rcases List.mem_cons.mp ha with rfl | ha
        · exact Nat.zero_le _
        · exact h.acked a ha
      intro i hi
      rcases List.mem_cons.mp hi with rfl | hi
      · exact ⟨hj.1, hj.2, by simp only; omega⟩
      · exact h.sent i hi
  | deliver j hj hdelay =>
      obtain ⟨hj1, hjN, hjW⟩ := h.sent j hj
      obtain ⟨i, rfl⟩ : ∃ i, j = i + 1 := ⟨j - 1, by omega⟩
      have hnext := h.server.step_copy hb hq (i := i) (by omega)
      simp only [Nat.add_sub_cancel]
      refine ⟨hnext, ?_, fun n hn => ?_⟩
      · simp only
        split_ifs with hack hacc hacc
        · intro n hn
          rcases List.mem_cons.mp hn with rfl | hn
          · -- the block was appended in this step
            cases hs : s.server with
            | receiving r =>
                rw [hs] at hacc
                have hat := h.server
                rw [hs] at hat
                cases hat with
                | receiving _ hk hdata hexp =>
                    have := hacc.1
                    rw [hexp, wire_inj (by omega) (by omega)] at this
                    omega
            | commit r final => rw [hs] at hacc; exact hacc.elim
            | ended e r => rw [hs] at hacc; exact hacc.elim
          · exact Nat.le_succ_of_le (h.acked n hn)
        · intro n hn
          rcases List.mem_cons.mp hn with rfl | hn
          · -- an ACK without a new block answers a duplicate; it lies behind by the bound
            rcases acked_cases hb.2 h.server hack with hacc' | ⟨hne, hbehind⟩
            · exact absurd hacc' hacc
            · have := le_of_behind (by omega) hne hbehind
              omega
          · exact h.acked n hn
        · exact fun n hn => Nat.le_succ_of_le (h.acked n hn)
        · exact h.acked
      · have := h.sent n hn
        simp only
        omega

theorem uploadAcksSound_of_small {q : WriteRequest} {order : IterOrder} {b : Nat} {file : Bytes}
    (hb : 8 ≤ b ∧ b ≤ 65464) (hq : q.options.blockSize = b)
    (hsmall : q.options.windowsize ≤ 32769 ∨ blockCount b file ≤ 32769) :
    UploadAcksSound q order b file := by
  intro s hs
  have hstart : UploadAt q b file (uploadStart q order) :=
    ⟨writeAt_start order, (by intro j hj; cases hj), (by intro j hj; cases hj)⟩
  have h := invariant_of_step (UploadAt q b file)
    (fun s t h hst => uploadAt_step hb hq hsmall h hst)
    hstart hs
  exact ⟨h.server.receivedData (by omega), h.acked⟩

/-! ## The false acknowledgement -/

/-- With a window of at least `32770` blocks, block `32770` of a file that has one is
acknowledged although no block has arrived before it. -/
theorem falseAck_reachable (q : WriteRequest) (order : IterOrder) {b : Nat} {file : Bytes}
    (hb : b ≤ 65464) (hW : 32770 ≤ q.options.windowsize) (hN : 32770 ≤ blockCount b file) :
    ∃ s, Relation.ReflTransGen (UploadStep q b file) (uploadStart q order) s ∧
      s.acked = [32770] ∧ s.accepted = 0 ∧ s.server.state.receivedData = [] := by
  have hsend := UploadStep.send (q := q) (uploadStart q order) 32770 0 ⟨by omega, hN⟩
    List.mem_cons_self (by omega)
  have hdeliver : UploadStep q b file { uploadStart q order with sent := [32770] } _ :=
    .deliver _ 32770 List.mem_cons_self (by simp [uploadStart])
  have hstep : q.step (uploadStart q order).server (.datagram (segPacket b file (32770 - 1)))
      = (.receiving {}, [ackPacket (wire 32770)]) := by
    show q.step (.receiving {}) (.datagram (segPacket b file 32769)) = _
    rw [step_segPacket hb, WriteRequest.receiveData, if_pos (by decide), mismatchedBlock]
    exact if_pos (by decide)
  have hacc : ¬ q.accepts b file (32770 - 1) (uploadStart q order).server :=
    fun h => absurd h.1 (by decide)
  refine ⟨_, .tail (.tail .refl hsend) hdeliver, ?_, ?_, ?_⟩
  · simp only [hstep]
    exact if_pos List.mem_cons_self
  · simp only [if_neg hacc]
    rfl
  · simp only [hstep]
    rfl

/-- **Write acknowledgements are sound iff the half-range test suffices**: exactly when the
window or the number of blocks of the file is at most `32769`. -/
theorem uploadAcks_sound_iff (q : WriteRequest) (order : IterOrder) (b : Nat) (file : Bytes)
    (hb : 8 ≤ b ∧ b ≤ 65464) (hq : q.options.blockSize = b)
    (hW : 1 ≤ q.options.windowsize ∧ q.options.windowsize ≤ 65535) :
    UploadAcksSound q order b file
      ↔ q.options.windowsize ≤ 32769 ∨ blockCount b file ≤ 32769 := by
  constructor
  · intro hsound
    by_contra hlarge
    obtain ⟨s, hs, hacked, haccepted, -⟩ :=
      falseAck_reachable q order hb.2 (by omega) (by omega : 32770 ≤ blockCount b file)
    have := (hsound s hs).2 32770 (by rw [hacked]; exact List.mem_cons_self)
    omega
  · exact uploadAcksSound_of_small hb hq

/-- A window of `64` blocks, whatever the file. -/
theorem uploadAcks_sound_iff_sixtyFour :
    UploadAcksSound ⟨.octet, { blockSize := 8, windowsize := 64 }, ∅, 0⟩ .entries 8
      (List.replicate 262152 0) :=
  (uploadAcks_sound_iff _ .entries 8 (List.replicate 262152 0) (by decide) rfl (by decide)).mpr
    (Or.inl (by decide))

/-- The largest window the server accepts and a file of `32770` blocks. -/
theorem uploadAcks_unsound_window :
    ¬ UploadAcksSound ⟨.octet, { blockSize := 8, windowsize := 65535 }, ∅, 0⟩ .entries 8
      (List.replicate 262152 0) := by
  intro hsound
  have hN : 32770 ≤ blockCount 8 (List.replicate 262152 (0 : UInt8)) := by
    rw [blockCount, List.length_replicate]
  obtain ⟨s, hs, hacked, haccepted, -⟩ :=
    falseAck_reachable ⟨.octet, { blockSize := 8, windowsize := 65535 }, ∅, 0⟩ .entries
      (by decide) (by decide) hN
  have := (hsound s hs).2 32770 (by rw [hacked]; exact List.mem_cons_self)
  omega

end UsgTftp
