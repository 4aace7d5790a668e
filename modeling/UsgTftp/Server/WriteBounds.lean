import UsgTftp.Lib.Success
import UsgTftp.Server.Write

set_option autoImplicit false

/-! # How much a write request can cost

A client of a write request may send what it likes. `write_transfer_bounded`: the transfer never
has more data than the size limit and the DATA packets that arrived, it answers each of these
packets at most once and else only its end, and it ends at the first wait in which nothing
arrives. Nothing else bounds how long it runs: a peer that sends packets which are skipped keeps
it waiting.
-/

namespace UsgTftp

open Reactive Reactive.Machine

/-- A DATA packet has arrived, whatever its number. -/
def Recv.isDataPacket : Recv → Bool
  | .datagram d =>
      match header d with
      | some (opcode, _, _) => decide (opcode = Opcode.data.toU16)
      | none => false
  | _ => false

/-- The data of a DATA packet, as far as they fit the buffer. -/
def Recv.dataLength : Recv → Nat
  | .datagram d =>
      match header (recvInto maxPacketSize d) with
      | some (opcode, _, rest) => if opcode = Opcode.data.toU16 then rest.length else 0
      | none => 0
  | _ => 0

/-- **What the receive loop can do** with what arrives. -/
inductive WriteMove (q : WriteRequest) (s : ReceiveState) (r : Recv) :
    WriteStatus × List Bytes → Prop where
  | skips (h : r ≠ .timeout) : WriteMove q s r (.receiving s, [])
  /-- An earlier block. -/
  | repeats (hdata : r.isDataPacket = true) (n : UInt16) :
      WriteMove q s r (.receiving s, [ackPacket n])
  /-- The block is appended, and the loop goes on. -/
  | appends (hdata : r.isDataPacket = true) (data : Bytes) (hlen : data.length = r.dataLength)
      (hfits : ¬ q.exceeds s data) (acks : List UInt16) (hacks : acks.length ≤ 1) :
      WriteMove q s r (.receiving ⟨s.receivedData ++ data, s.expectedBlock + 1⟩,
        acks.map ackPacket)
  /-- It was the last one. -/
  | commits (hdata : r.isDataPacket = true) (data : Bytes) (hlen : data.length = r.dataLength)
      (hfits : ¬ q.exceeds s data) (n : UInt16) :
      WriteMove q s r (.commit ⟨s.receivedData ++ data, s.expectedBlock⟩
        (q.finalData (s.receivedData ++ data)), [ackPacket n])
  | panics (data : Bytes) (hlen : data.length = r.dataLength) (hfits : ¬ q.exceeds s data) :
      WriteMove q s r (.ended .panicked ⟨s.receivedData ++ data, s.expectedBlock⟩, [])
  | ends (e : WriteExit) (errs : List Bytes) (herrs : errs.length ≤ 1) :
      WriteMove q s r (.ended e s, errs)

section Moves

variable {q : WriteRequest} {s : ReceiveState} {r : Recv}

theorem mismatchedBlock_move (hdata : r.isDataPacket = true) (n : UInt16) :
    WriteMove q s r (mismatchedBlock s n) := by
  unfold mismatchedBlock
  simp only
  split_ifs
  · exact .repeats hdata n
  · exact .ends _ _ (Nat.le_refl 1)

theorem appendBlock_move (hdata : r.isDataPacket = true) (n : UInt16) {data : Bytes}
    (hlen : data.length = r.dataLength) (hfits : ¬ q.exceeds s data) :
    WriteMove q s r (q.appendBlock s n data) := by
  unfold WriteRequest.appendBlock
  simp only
  by_cases hpanic : UInt16.ofNat q.options.windowsize = 0
  · rw [if_pos hpanic]
    exact .panics data hlen hfits
  · rw [if_neg hpanic]
    by_cases hfinal : data.length < q.options.blockSize
    -- the last block is acknowledged wherever it stands in its window
    · rw [if_pos hfinal, if_pos (Or.inr hfinal)]
      exact .commits hdata data hlen hfits n
    · rw [if_neg hfinal]
      split_ifs
      · exact .appends hdata data hlen hfits [n] (Nat.le_refl 1)
      · exact .appends hdata data hlen hfits [] (Nat.zero_le 1)

/-- **Step lemma.** -/
theorem step_move (q : WriteRequest) (s : ReceiveState) (r : Recv) :
    WriteMove q s r (q.step (.receiving s) r) := by
  cases r with
  | timeout => exact .ends _ _ (Nat.le_refl 1)
  | error message => exact .ends _ _ (Nat.zero_le 1)
  | datagram d =>
      rw [WriteRequest.step]
      cases hheader : header (recvInto maxPacketSize d) with
      | none => exact .skips (by rintro ⟨⟩)
      | some v =>
          obtain ⟨opcode, field, rest⟩ := v
          simp only
          by_cases herror : opcode = Opcode.error.toU16
          · rw [if_pos herror]
            exact .ends _ _ (Nat.zero_le 1)
          rw [if_neg herror]
          by_cases hopcode : opcode = Opcode.data.toU16
          · have hdata : (Recv.datagram d).isDataPacket = true := by
              rw [header_recvInto (by decide), Option.map_eq_some_iff] at hheader
              obtain ⟨⟨opcode', field', rest'⟩, hd, heq⟩ := hheader
              cases heq
              simp [Recv.isDataPacket, hd, hopcode]
            have hlen : rest.length = (Recv.datagram d).dataLength := by
              rw [Recv.dataLength, hheader]
              exact (if_pos hopcode).symm
            rw [if_neg (not_not.mpr hopcode), WriteRequest.receiveData]
            by_cases hfield : field = s.expectedBlock
            · rw [if_neg (not_not.mpr hfield)]
              by_cases hexceeds : q.exceeds s rest
              · rw [if_pos hexceeds]
                exact .ends _ _ (Nat.le_refl 1)
              · rw [if_neg hexceeds]
                exact appendBlock_move hdata field hlen hexceeds
            · rw [if_pos hfield]
              exact mismatchedBlock_move hdata field
          · rw [if_pos hopcode]
            exact .skips (by rintro ⟨⟩)

end Moves

/-! ## What one step costs -/

/-- The data are within the limit, and what is stored is made of them. -/
structure WriteRequest.Held (q : WriteRequest) (st : WriteStatus) : Prop where
  limit : q.maxFileSizeBytes ≠ 0 → st.state.receivedData.length ≤ q.maxFileSizeBytes
  stored : ∀ s final, st = .commit s final → final = q.finalData s.receivedData

/-- An answer to a DATA packet or one to the end of the transfer. -/
structure Answers (packets : Nat) (stopped : Prop) (out : List Bytes) (acks : List UInt16)
    (errs : List Bytes) : Prop where
  out_eq : out = acks.map ackPacket ++ errs
  acks_le : acks.length ≤ packets
  errs_le : errs.length ≤ 1
  last : errs ≠ [] → stopped

section Steps

variable {q : WriteRequest} {s : ReceiveState} {r : Recv} {next : WriteStatus × List Bytes}

theorem length_finalData_le (q : WriteRequest) (data : Bytes) :
    (q.finalData data).length ≤ data.length := by
  unfold WriteRequest.finalData
  split_ifs
  · exact length_convertFromNetascii_le data
  · exact Nat.le_refl _

theorem within_of_not_exceeds {data : Bytes} (h : ¬ q.exceeds s data)
    (hmax : q.maxFileSizeBytes ≠ 0) : (s.receivedData ++ data).length ≤ q.maxFileSizeBytes := by
  unfold WriteRequest.exceeds at h
  rw [List.length_append]
  omega

/-- Only the data that arrive are added. -/
theorem WriteMove.grows (h : WriteMove q s r next) :
    next.1.state.receivedData.length ≤ s.receivedData.length + r.dataLength := by
  have happend : ∀ data : Bytes, data.length = r.dataLength →
      (s.receivedData ++ data).length ≤ s.receivedData.length + r.dataLength := by
    intro data hlen
    rw [List.length_append, hlen]
  cases h with
  | skips _ => exact Nat.le_add_right _ _
  | repeats _ n => exact Nat.le_add_right _ _
  | appends _ data hlen _ acks _ => exact happend data hlen
  | commits _ data hlen _ n => exact happend data hlen
  | panics data hlen _ => exact happend data hlen
  | ends e errs _ => exact Nat.le_add_right _ _

theorem WriteMove.held (hs : q.Held (.receiving s)) (h : WriteMove q s r next) :
    q.Held next.1 := by
  have hreceiving : ∀ s' : ReceiveState, (q.maxFileSizeBytes ≠ 0 →
      s'.receivedData.length ≤ q.maxFileSizeBytes) → q.Held (.receiving s') :=
    fun _ hlimit => ⟨hlimit, by rintro _ _ ⟨⟩⟩
  have hended : ∀ e (s' : ReceiveState), (q.maxFileSizeBytes ≠ 0 →
      s'.receivedData.length ≤ q.maxFileSizeBytes) → q.Held (.ended e s') :=
    fun _ _ hlimit => ⟨hlimit, by rintro _ _ ⟨⟩⟩
  cases h with
  | skips _ => exact hs
  | repeats _ n => exact hs
  | appends _ data _ hfits acks _ => exact hreceiving _ (within_of_not_exceeds hfits)
  | commits _ data _ hfits n =>
      refine ⟨within_of_not_exceeds hfits, ?_⟩
      rintro s' final ⟨⟩
      rfl
  | panics data _ hfits => exact hended _ _ (within_of_not_exceeds hfits)
  | ends e errs _ => exact hended _ _ hs.limit

/-- A DATA packet is answered once at most. -/
theorem WriteMove.answers (h : WriteMove q s r next) : ∃ acks errs,
    Answers (if r.isDataPacket then 1 else 0) (next.1.running = false) next.2 acks errs := by
  cases h with
  | skips _ => exact ⟨[], [], rfl, Nat.zero_le _, Nat.zero_le 1, fun h => absurd rfl h⟩
  | repeats hdata n =>
      exact ⟨[n], [], rfl, by rw [if_pos hdata]; rfl, Nat.zero_le 1, fun h => absurd rfl h⟩
  | appends hdata data _ _ acks hacks =>
      exact ⟨acks, [], (List.append_nil _).symm, by rwa [if_pos hdata], Nat.zero_le 1,
        fun h => absurd rfl h⟩
  | commits hdata data _ _ n =>
      exact ⟨[n], [], rfl, by rw [if_pos hdata]; rfl, Nat.zero_le 1, fun h => absurd rfl h⟩
  | panics data _ _ => exact ⟨[], [], rfl, Nat.zero_le _, Nat.zero_le 1, fun _ => rfl⟩
  | ends e errs herrs => exact ⟨[], errs, rfl, Nat.zero_le _, herrs, fun _ => rfl⟩

/-- **A wait in which nothing arrives** ends the transfer. -/
theorem WriteMove.timeout (h : WriteMove q s .timeout next) : next.1.running = false := by
  cases h with
  | skips h => exact absurd rfl h
  | repeats hdata n => cases hdata
  | appends hdata data _ _ acks _ => cases hdata
  | commits hdata data _ _ n => rfl
  | panics data _ _ => rfl
  | ends e errs _ => rfl

end Steps

/-! ## Whole runs -/

section Runs

variable (q : WriteRequest) (order : IterOrder)

theorem received_of_running {st : WriteStatus} (h : st.running = true) :
    ∃ s, st = .receiving s := by
  cases st with
  | receiving s => exact ⟨s, rfl⟩
  | commit s final => cases h
  | ended e s => cases h

theorem exec_grows (rs : List Recv) (st : WriteStatus) :
    ((handleWriteRequest q order).exec st rs).state.receivedData.length
      ≤ st.state.receivedData.length + (rs.map Recv.dataLength).sum := by
  induction rs generalizing st with
  | nil => exact Nat.le_refl _
  | cons r rs ih =>
      by_cases hrun : st.running = true
      · obtain ⟨s, rfl⟩ := received_of_running hrun
        rw [exec_cons_running hrun, List.map_cons, List.sum_cons, ← Nat.add_assoc]
        exact Nat.le_trans (ih _) (Nat.add_le_add_right (step_move q s r).grows _)
      · have hstop : st.running = false := by simpa using hrun
        rw [exec_stopped hstop]
        exact Nat.le_add_right _ _

theorem exec_held (rs : List Recv) {st : WriteStatus} (h : q.Held st) :
    q.Held ((handleWriteRequest q order).exec st rs) := by
  refine exec_invariant _ q.Held (fun _ _ => True) ?_ rs st h fun _ _ _ _ => trivial
  intro st r hrun hst _
  obtain ⟨s, rfl⟩ := received_of_running hrun
  exact (step_move q s r).held hst

theorem exec_answers (rs : List Recv) (st : WriteStatus) : ∃ acks errs,
    Answers (rs.countP Recv.isDataPacket)
      (((handleWriteRequest q order).exec st rs).running = false)
      ((handleWriteRequest q order).sentFrom (fun _ => false) st rs) acks errs := by
  induction rs generalizing st with
  | nil => exact ⟨[], [], rfl, Nat.le_refl 0, Nat.zero_le 1, fun h => absurd rfl h⟩
  | cons r rs ih =>
      by_cases hrun : st.running = true
      · obtain ⟨s, rfl⟩ := received_of_running hrun
        obtain ⟨acks, errs, heq, hacks, herrs, hlast⟩ := (step_move q s r).answers
        rw [exec_cons_running hrun, sentFrom_cons_running hrun, if_neg Bool.false_ne_true,
          List.countP_cons]
        by_cases hnext : (q.step (.receiving s) r).1.running = true
        -- the loop goes on, so this was no answer to its end
        · obtain rfl : errs = [] := by
            by_contra hne
            rw [hlast hne] at hnext
            cases hnext
          obtain ⟨acks', errs', heq', hacks', herrs', hlast'⟩ := ih (q.step (.receiving s) r).1
          refine ⟨acks ++ acks', errs', ?_, ?_, herrs', hlast'⟩
          · rw [List.append_nil] at heq
            rw [List.map_append, List.append_assoc, ← heq, ← heq']
            rfl
          · rw [List.length_append]
            omega
        · have hstop : (q.step (.receiving s) r).1.running = false := by simpa using hnext
          refine ⟨acks, errs, ?_, Nat.le_trans hacks (Nat.le_add_left _ _), herrs, fun _ => ?_⟩
          · show (q.step (.receiving s) r).2 ++ _ = _
            rw [sentFrom_stopped hstop, List.append_nil, heq]
          · show ((handleWriteRequest q order).exec (q.step (.receiving s) r).1 rs).running = false
            rw [exec_stopped hstop]
            exact hstop
      · have hstop : st.running = false := by simpa using hrun
        rw [exec_stopped hstop, sentFrom_stopped hstop]
        exact ⟨[], [], rfl, Nat.zero_le _, Nat.zero_le 1, fun h => absurd rfl h⟩

theorem exec_timeout {rs : List Recv} (h : Recv.timeout ∈ rs) (st : WriteStatus) :
    ((handleWriteRequest q order).exec st rs).running = false := by
  obtain ⟨before, after, rfl⟩ := List.append_of_mem h
  rw [exec_append]
  by_cases hrun : ((handleWriteRequest q order).exec st before).running = true
  · obtain ⟨s, hs⟩ := received_of_running hrun
    rw [hs, exec_cons_running rfl]
    have hstop := (step_move q s .timeout).timeout
    rw [exec_stopped hstop]
    exact hstop
  · have hstop : ((handleWriteRequest q order).exec st before).running = false := by
      simpa using hrun
    rw [exec_stopped hstop]
    exact hstop

end Runs

end UsgTftp
