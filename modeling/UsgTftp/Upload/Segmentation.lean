import Mathlib.Data.List.Destutter
import UsgTftp.Client.Put
import UsgTftp.Lib.Success

set_option autoImplicit false

/-! # The blocks that the client uploads

`TftpClient::put` sends a block until it is acknowledged, and leaves its loop behind a block that
is not full, or at the end of the file. So it sends the blocks that are not empty
(`sentData_eq`), and these are all blocks of the file only if the last one is not empty
(`put_segmentation_iff`).
-/

namespace UsgTftp

open Reactive Segment SeqNum

/-- The blocks of the file but for an empty one at the end. -/
def filledCount (b : Nat) (file : Bytes) : Nat := (file.length + b - 1) / b

theorem lt_filledCount_iff {b : Nat} (hb : 0 < b) (file : Bytes) (k : Nat) :
    k < filledCount b file ↔ k * b < file.length := by
  have hmul : (k + 1) * b = k * b + b := by ring
  rw [filledCount, ← Nat.succ_le_iff, Nat.le_div_iff_mul_le hb, Nat.succ_eq_add_one, hmul]
  omega

/-- It leaves out a block of a file of full blocks. -/
theorem filledCount_eq_iff {b : Nat} (hb : 0 < b) (file : Bytes) :
    filledCount b file = blockCount b file ↔ file.length % b ≠ 0 := by
  have hlast := lt_filledCount_iff hb file (file.length / b)
  have hbeyond := lt_filledCount_iff hb file (file.length / b + 1)
  have hmul : (file.length / b + 1) * b = file.length / b * b + b := by ring
  have hdiv := Nat.div_add_mod' file.length b
  have hmod := Nat.mod_lt file.length hb
  rw [blockCount]
  omega

theorem segPacket_ne_succ (b : Nat) (file : Bytes) (k : Nat) :
    segPacket b file k ≠ segPacket b file (k + 1) := by
  intro h
  have hheader := congrArg header h
  rw [segPacket, segPacket, header_dataPacket, header_dataPacket, ← wire_add_one (k + 1)]
    at hheader
  simp at hheader

section

variable {c : TftpClient} {file : Bytes}

/-- Block `k` has been sent, and its ACK is waited for. -/
def putAt (c : TftpClient) (file : Bytes) (k retries : Nat) : PutStatus :=
  .awaitingAck (wire (k + 1)) (block c.blockSize file k) (file.drop ((k + 1) * c.blockSize)) retries

/-- **What one step can do**: go on behind an acknowledged block, send the block again, or end
without success. -/
theorem putStep_cases (k retries : Nat) (r : Recv) :
    c.putStep file (putAt c file k retries) r
        = (if (block c.blockSize file k).length < c.blockSize then (.returned (.ok ()), [])
          else c.putNext (wire (k + 1 + 1)) (file.drop ((k + 1) * c.blockSize))) ∨
    (∃ retries', c.putStep file (putAt c file k retries) r
      = (putAt c file k retries', [segPacket c.blockSize file k])) ∨
    ∃ s, c.putStep file (putAt c file k retries) r = (s, []) ∧ s.running = false ∧
      s ≠ .returned (.ok ()) := by
  unfold putAt
  cases r with
  | error message => exact Or.inr (Or.inr ⟨_, rfl, rfl, nofun⟩)
  | timeout =>
      simp only [TftpClient.putStep]
      right
      by_cases hmax : retries + 1 ≥ maxRetries
      · rw [if_pos hmax]
        exact Or.inr ⟨_, rfl, rfl, nofun⟩
      · rw [if_neg hmax]
        exact Or.inl ⟨retries + 1, rfl⟩
  | datagram d =>
      simp only [TftpClient.putStep]
      cases putReply (wire (k + 1)) (recvInto putBufferSize d) with
      | acked =>
          rw [wire_add_one]
          exact Or.inl rfl
      | failed e => exact Or.inr (Or.inr ⟨_, rfl, rfl, nofun⟩)
      | other => exact Or.inr (Or.inl ⟨retries, rfl⟩)
      | panicked => exact Or.inr (Or.inr ⟨_, rfl, rfl, nofun⟩)

/-- The DATA packets of a run, each one once: a packet is sent again until it is acknowledged. -/
def TftpClient.sentData (c : TftpClient) (remoteFile : String) (file : Bytes) (rs : List Recv) :
    List Bytes :=
  ((c.put remoteFile file).sentFrom (fun _ => false) .awaitingStart rs).destutter (· ≠ ·)

variable {remoteFile : String}

theorem sentFrom_putAt (hb : 0 < c.blockSize) :
    ∀ (rs : List Recv) (k retries : Nat), k * c.blockSize < file.length →
      (c.put remoteFile file).exec (putAt c file k retries) rs = .returned (.ok ()) →
      ((c.put remoteFile file).sentFrom (fun _ => false) (putAt c file k retries) rs).destutter'
          (· ≠ ·) (segPacket c.blockSize file k)
        = (List.range' k (filledCount c.blockSize file - k)).map (segPacket c.blockSize file) := by
  intro rs
  induction rs with
  | nil => intro k retries _ hdone; cases hdone
  | cons r rs ih =>
      intro k retries hk hdone
      have hrun : (c.put remoteFile file).running (putAt c file k retries) = true := rfl
      have hstep : (c.put remoteFile file).step (putAt c file k retries) r
          = c.putStep file (putAt c file k retries) r := rfl
      have hlen := length_block c.blockSize file k
      have hmul : (k + 1) * c.blockSize = k * c.blockSize + c.blockSize := by ring
      have hfilled := (lt_filledCount_iff hb file k).mpr hk
      have hnext := lt_filledCount_iff hb file (k + 1)
      rw [Machine.exec_cons_running hrun, hstep] at hdone
      rw [Machine.sentFrom_cons_running hrun, hstep]
      simp only [Bool.false_eq_true, if_false]
      -- the last filled block
      have hend : ¬(k + 1) * c.blockSize < file.length →
          (List.range' k (filledCount c.blockSize file - k)).map (segPacket c.blockSize file)
            = [segPacket c.blockSize file k] := by
        intro hmore
        rw [show filledCount c.blockSize file - k = 1 by omega]
        rfl
      rcases putStep_cases k retries r with h | ⟨retries', h⟩ | ⟨s, h, hstop, hne⟩
      · rw [h] at hdone ⊢
        by_cases hshort : (block c.blockSize file k).length < c.blockSize
        · rw [if_pos hshort, hend (by omega), Machine.sentFrom_stopped rfl]
          rfl
        · rw [if_neg hshort] at hdone ⊢
          by_cases hmore : (k + 1) * c.blockSize < file.length
          · rw [putNext_drop hmore hb] at hdone ⊢
            rw [List.singleton_append, List.destutter'_cons_pos _ (segPacket_ne_succ _ file k),
              show filledCount c.blockSize file - k = filledCount c.blockSize file - (k + 1) + 1
                by omega, List.range'_succ, List.map_cons]
            exact congrArg _ (ih (k + 1) 0 hmore hdone)
          · rw [putNext_end (List.drop_eq_nil_of_le (Nat.not_lt.mp hmore)), hend hmore,
              Machine.sentFrom_stopped rfl]
            rfl
      · rw [h] at hdone ⊢
        rw [List.singleton_append, List.destutter'_cons_neg _ (not_not.mpr rfl)]
        exact ih k retries' hk hdone
      · rw [h, Machine.exec_stopped hstop] at hdone
        exact absurd hdone hne

theorem exists_putAt_done (hb : 0 < c.blockSize) :
    ∀ (left k : Nat), k * c.blockSize < file.length → filledCount c.blockSize file - k ≤ left →
      ∃ rs, (c.put remoteFile file).exec (putAt c file k 0) rs = .returned (.ok ()) := by
  intro left
  induction left with
  | zero =>
      intro k hk hle
      have := (lt_filledCount_iff hb file k).mpr hk
      omega
  | succ left ih =>
      intro k hk hle
      have hrun : (c.put remoteFile file).running (putAt c file k 0) = true := rfl
      have hstep : (c.put remoteFile file).step (putAt c file k 0)
            (.datagram (ackPacket (wire (k + 1))))
          = if (block c.blockSize file k).length < c.blockSize then (.returned (.ok ()), [])
            else c.putNext (wire (k + 1 + 1)) (file.drop ((k + 1) * c.blockSize)) := by
        have hput : (c.put remoteFile file).step = c.putStep file := rfl
        rw [← wire_add_one (k + 1), hput, putAt, TftpClient.putStep,
          recvInto_of_le (by rw [length_ackPacket]; decide), putReply_ackPacket, if_pos rfl]
      by_cases hshort : (block c.blockSize file k).length < c.blockSize
      · refine ⟨[.datagram (ackPacket (wire (k + 1)))], ?_⟩
        rw [Machine.exec_cons_running hrun, hstep, if_pos hshort]
        rfl
      by_cases hmore : (k + 1) * c.blockSize < file.length
      · obtain ⟨rs, hrs⟩ := ih (k + 1) hmore (by omega)
        refine ⟨.datagram (ackPacket (wire (k + 1))) :: rs, ?_⟩
        rw [Machine.exec_cons_running hrun, hstep, if_neg hshort, putNext_drop hmore hb]
        exact hrs
      · refine ⟨[.datagram (ackPacket (wire (k + 1)))], ?_⟩
        rw [Machine.exec_cons_running hrun, hstep, if_neg hshort,
          putNext_end (List.drop_eq_nil_of_le (Nat.not_lt.mp hmore))]
        rfl

/-! ## Whole uploads -/

/-- The first packet starts the data loop, or ends the upload without success. -/
theorem putStart_cases (r : Recv) :
    c.putStep file .awaitingStart r = c.putNext 1 file ∨
    ∃ s, c.putStep file .awaitingStart r = (s, []) ∧ s.running = false ∧
      s ≠ .returned (.ok ()) := by
  cases r with
  | error message => exact Or.inr ⟨_, rfl, rfl, by simp⟩
  | timeout => exact Or.inr ⟨_, rfl, rfl, by simp⟩
  | datagram d =>
      simp only [TftpClient.putStep, TftpClient.putStart]
      cases getU16 (recvInto putBufferSize d) with
      | none => exact Or.inr ⟨_, rfl, rfl, by simp⟩
      | some v =>
          obtain ⟨opcode, bytes⟩ := v
          simp only
          cases Opcode.fromU16 opcode with
          | none => exact Or.inr ⟨_, rfl, rfl, by simp⟩
          | some o =>
              cases o with
              | oack => exact Or.inl rfl
              | ack =>
                  simp only
                  cases getU16 bytes with
                  | none => exact Or.inr ⟨_, rfl, rfl, by simp⟩
                  | some v =>
                      simp only
                      by_cases hzero : v.1 ≠ 0
                      · rw [if_pos hzero]
                        exact Or.inr ⟨_, rfl, rfl, by simp⟩
                      · rw [if_neg hzero]
                        exact Or.inl rfl
              | error =>
                  simp only
                  cases getU16 bytes with
                  | none => exact Or.inr ⟨_, rfl, rfl, by simp⟩
                  | some v => exact Or.inr ⟨_, rfl, rfl, by simp⟩
              | rrq => exact Or.inr ⟨_, rfl, rfl, by simp⟩
              | wrq => exact Or.inr ⟨_, rfl, rfl, by simp⟩
              | data => exact Or.inr ⟨_, rfl, rfl, by simp⟩

theorem putNext_first (hb : 0 < c.blockSize) : c.putNext 1 file
    = if 0 < file.length then (putAt c file 0 0, [segPacket c.blockSize file 0])
      else (.returned (.ok ()), []) := by
  by_cases hempty : 0 < file.length
  · rw [if_pos hempty]
    have h := @putNext_drop c file 0 (by omega) hb
    rwa [Nat.zero_mul, List.drop_zero, wire_one] at h
  · rw [if_neg hempty, putNext_end (List.eq_nil_of_length_eq_zero (by omega))]

/-- **What the client has sent** when it returns without an error. -/
theorem sentData_eq (hb : 0 < c.blockSize) (rs : List Recv)
    (hdone : (c.put remoteFile file).stateAfter rs = .returned (.ok ())) :
    c.sentData remoteFile file rs
      = (List.range (filledCount c.blockSize file)).map (segPacket c.blockSize file) := by
  have hrun : (c.put remoteFile file).running .awaitingStart = true := rfl
  have hput : (c.put remoteFile file).step = c.putStep file := rfl
  cases rs with
  | nil => cases hdone
  | cons r rs =>
      have hdone' : (c.put remoteFile file).exec .awaitingStart (r :: rs) = .returned (.ok ()) :=
        hdone
      rw [Machine.exec_cons_running hrun, hput] at hdone'
      rw [TftpClient.sentData, Machine.sentFrom_cons_running hrun, hput]
      simp only [Bool.false_eq_true, if_false]
      rcases @putStart_cases c file r with h | ⟨s, h, hstop, hne⟩
      · have hfirst : c.putNext 1 file = _ := putNext_first hb
        rw [h] at hdone' ⊢
        by_cases hempty : 0 < file.length
        · rw [if_pos hempty] at hfirst
          rw [hfirst] at hdone' ⊢
          have hsent := sentFrom_putAt hb rs 0 0 (by omega) hdone'
          rw [List.singleton_append, List.destutter_cons', hsent, Nat.sub_zero,
            List.range_eq_range']
        · have hnone : filledCount c.blockSize file = 0 := by
            have := lt_filledCount_iff hb file 0
            omega
          rw [if_neg hempty] at hfirst
          rw [hfirst, hnone, Machine.sentFrom_stopped rfl]
          rfl
      · rw [h, Machine.exec_stopped hstop] at hdone'
        exact absurd hdone' hne

/-- If every packet is acknowledged it does return without an error. -/
theorem exists_put_done (hb : 0 < c.blockSize) :
    ∃ rs, (c.put remoteFile file).stateAfter rs = .returned (.ok ()) := by
  have hrun : (c.put remoteFile file).running .awaitingStart = true := rfl
  have hfirst : c.putNext 1 file = _ := putNext_first hb
  have hstep : (c.put remoteFile file).step .awaitingStart (.datagram (ackPacket 0))
      = c.putNext 1 file := rfl
  have hstart : (c.put remoteFile file).start.1 = .awaitingStart := rfl
  by_cases hempty : 0 < file.length
  · obtain ⟨rs, hrs⟩ : ∃ rs, (c.put remoteFile file).exec (putAt c file 0 0) rs
        = .returned (.ok ()) :=
      exists_putAt_done hb (filledCount c.blockSize file) 0 (by omega) (Nat.sub_le _ _)
    refine ⟨.datagram (ackPacket 0) :: rs, ?_⟩
    rw [if_pos hempty] at hfirst
    rw [Machine.stateAfter, hstart, Machine.exec_cons_running hrun, hstep, hfirst]
    exact hrs
  · refine ⟨[.datagram (ackPacket 0)], ?_⟩
    rw [if_neg hempty] at hfirst
    rw [Machine.stateAfter, hstart, Machine.exec_cons_running hrun, hstep, hfirst]
    rfl

end

end UsgTftp
