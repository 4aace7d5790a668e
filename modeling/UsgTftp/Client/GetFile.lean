import UsgTftp.Client.Get
import UsgTftp.Lib.AsyncFile

set_option autoImplicit false

/-! # The client's download and its file

`TftpClient::get` of `src/bin/client.rs` again, with the file that it writes: the parts of a block
are queued, and the loop ends with an error when the file reports one (`Lib/AsyncFile.lean`). A turn
of the loop is one of `TftpClient.get` after the blocks that it writes are queued
(`getStepTo_eq`). Nothing is flushed at the end, so a download that returns `Ok` has its data on the
disk exactly if the last part does not fail (`getFile_written_iff`).
-/

namespace UsgTftp

open Reactive AsyncFile

/-- The receive loop with its open file. -/
structure FileGet where
  status : GetStatus
  file : Handle String UInt8

/-! ## The loop -/

/-- The loop that writes buffered blocks, while the file takes them. -/
def drainTo (cut : Parts UInt8) (disk : Nat → Option String) :
    Nat → UInt16 → BlockBuffer → Bytes → Handle String UInt8 →
      (UInt16 × BlockBuffer × Bytes) × Handle String UInt8 × Except String Unit
  | 0, expectedBlock, buffer, written, file => ((expectedBlock, buffer, written), file, .ok ())
  | fuel + 1, expectedBlock, buffer, written, file =>
      match buffer.lookup expectedBlock with
      | some data =>
          match file.writeAll cut disk data with
          | (file, .error e) =>
              ((expectedBlock, buffer.erase expectedBlock, written), file, .error e)
          | (file, .ok ()) =>
              drainTo cut disk fuel (expectedBlock + 1) (buffer.erase expectedBlock)
                (written ++ data) file
      | none => ((expectedBlock, buffer, written), file, .ok ())

section Loop

variable (c : TftpClient) (cut : Parts UInt8) (disk : Nat → Option String)

/-- The branch for a DATA packet. -/
def TftpClient.getDataTo (s : GetState) (file : Handle String UInt8) (tid : SocketAddr)
    (blockNum : UInt16) (data : Bytes) : FileGet × List (SocketAddr × Bytes) :=
  if blockNum < s.expectedBlock then (⟨.receiving s, file⟩, [(tid, ackPacket s.lastAckSent)])
  else if blockNum > s.expectedBlock then
    (⟨.receiving { s with blockBuffer := s.blockBuffer.insert blockNum data }, file⟩, [])
  else
    match file.writeAll cut disk data with
    | (file, .error e) => (⟨.returned (.error (.io e)) s, file⟩, [])
    | (file, .ok ()) =>
        let isFinal := decide (data.length < c.blockSize)
        match drainTo cut disk s.blockBuffer.keys.length (s.expectedBlock + 1) s.blockBuffer
            (s.written ++ data) file with
        | (_, file, .error e) => (⟨.returned (.error (.io e)) s, file⟩, [])
        | ((expectedBlock, buffer, written), file, .ok ()) =>
            let s :=
              { s with expectedBlock := expectedBlock, blockBuffer := buffer, written := written }
            let blocksFromLastAck := expectedBlock - (s.lastAckSent + 1)
            let shouldAck := blocksFromLastAck.toNat ≥ c.windowsize ∨ isFinal
            let ackBlock := expectedBlock - 1
            let s := if shouldAck then { s with lastAckSent := ackBlock } else s
            let acks := if shouldAck then [(tid, ackPacket ackBlock)] else []
            if isFinal then (⟨.returned (.ok ()) s, file⟩, acks) else (⟨.receiving s, file⟩, acks)

/-- A packet from the server's transfer address. -/
def TftpClient.getPacketTo (s : GetState) (file : Handle String UInt8) (tid : SocketAddr)
    (buf : Bytes) : FileGet × List (SocketAddr × Bytes) :=
  match header buf with
  | none => (⟨.returned (.error (.tftp "Packet too small")) s, file⟩, [])
  | some (opcode, field, rest) =>
      match Opcode.fromU16 opcode with
      | some .data => c.getDataTo cut disk s file tid field rest
      | some .error => (⟨.returned (.error (.server field rest)) s, file⟩, [])
      | some .oack => (⟨.receiving { s with lastAckSent := 0 }, file⟩, [(tid, ackPacket 0)])
      | _ => (⟨.returned (.error (.tftp s!"Unexpected opcode: {opcode}")) s, file⟩, [])

/-- One turn of the receive loop. -/
def TftpClient.getStepTo (st : FileGet) (i : RecvFrom) : FileGet × List (SocketAddr × Bytes) :=
  match st.status, i with
  | .receiving s, .datagram d src =>
      let buf := recvInto (c.blockSize + 4) d
      match s.serverTid with
      | none => c.getPacketTo cut disk { s with serverTid := some src } st.file src buf
      | some tid =>
          if src ≠ tid then (st, []) else c.getPacketTo cut disk s st.file tid buf
  | .receiving s, .error message => (⟨.returned (.error (.io message)) s, st.file⟩, [])
  | .receiving s, .timeout =>
      (⟨.returned (.error (.tftp "Timeout waiting for data")) s, st.file⟩, [])
  | .returned _ _, _ => (st, [])

/-- The download after a list of inputs; its file was created before the first of them. -/
def TftpClient.getFile (inputs : List RecvFrom) : FileGet :=
  inputs.foldl (fun st i => (c.getStepTo cut disk st i).1) ⟨.receiving {}, {}⟩

end Loop

/-! ## What a turn writes -/

/-- The buffered blocks that are in sequence from a block on. -/
def inSequence : Nat → UInt16 → BlockBuffer → List Bytes
  | 0, _, _ => []
  | fuel + 1, expectedBlock, buffer =>
      match buffer.lookup expectedBlock with
      | some data => data :: inSequence fuel (expectedBlock + 1) (buffer.erase expectedBlock)
      | none => []

/-- The DATA packet, if it is one, that a datagram brings from the server. -/
def TftpClient.serverData (c : TftpClient) (s : GetState) (d : Bytes) (src : SocketAddr) :
    Option (UInt16 × Bytes) :=
  if s.serverTid = none ∨ s.serverTid = some src then
    match header (recvInto (c.blockSize + 4) d) with
    | some (opcode, field, rest) =>
        if Opcode.fromU16 opcode = some .data then some (field, rest) else none
    | none => none
  else none

/-- The block that a turn writes, if its packet is the expected one. -/
def TftpClient.expectedData (c : TftpClient) : GetStatus → RecvFrom → Option Bytes
  | .receiving s, .datagram d src =>
      match c.serverData s d src with
      | some (blockNum, data) => if blockNum = s.expectedBlock then some data else none
      | none => none
  | _, _ => none

/-- What a turn writes: the expected block and the buffered ones after it. -/
def TftpClient.blocks (c : TftpClient) (status : GetStatus) (i : RecvFrom) : List Bytes :=
  match c.expectedData status i with
  | some data =>
      data :: inSequence status.state.blockBuffer.keys.length (status.state.expectedBlock + 1)
        status.state.blockBuffer
  | none => []

section Turn

variable {c : TftpClient} {cut : Parts UInt8} {disk : Nat → Option String}

theorem drain_written : ∀ (fuel : Nat) (e : UInt16) (buffer : BlockBuffer) (w : Bytes),
    (drain fuel e buffer w).2.2 = w ++ (inSequence fuel e buffer).flatten := by
  intro fuel
  induction fuel with
  | zero => intro e buffer w; exact (List.append_nil w).symm
  | succ fuel ih =>
      intro e buffer w
      rw [drain, inSequence]
      cases buffer.lookup e with
      | none => exact (List.append_nil w).symm
      | some data =>
          simp only
          rw [ih, List.flatten_cons, List.append_assoc]

/-- The loop over the buffer queues the blocks in sequence, and is that of `get` if it ends. -/
theorem drainTo_eq : ∀ (fuel : Nat) (e : UInt16) (buffer : BlockBuffer) (w : Bytes)
    (file : Handle String UInt8),
    (drainTo cut disk fuel e buffer w file).2
      = file.queueAll disk ((inSequence fuel e buffer).flatMap cut.parts) ∧
    ((drainTo cut disk fuel e buffer w file).2.2 = .ok () →
      (drainTo cut disk fuel e buffer w file).1 = drain fuel e buffer w) := by
  intro fuel
  induction fuel with
  | zero => intro e buffer w file; exact ⟨rfl, fun _ => rfl⟩
  | succ fuel ih =>
      intro e buffer w file
      rw [drainTo, inSequence, drain]
      cases buffer.lookup e with
      | none => exact ⟨rfl, fun _ => rfl⟩
      | some data =>
          simp only
          rw [List.flatMap_cons, Handle.queueAll_append, Handle.writeAll]
          cases file.queueAll disk (cut.parts data) with
          | mk file' result =>
              cases result with
              | error err => exact ⟨rfl, fun h => by cases h⟩
              | ok u => exact ih _ _ _ _

/-- The turn queues `parts` first. If the file reports no error, it then is the turn `next` of
`get`. -/
def WritesThen (disk : Nat → Option String) (file : Handle String UInt8) (parts : List Bytes)
    (next : GetStatus × List (SocketAddr × Bytes)) (turn : FileGet × List (SocketAddr × Bytes)) :
    Prop :=
  match file.queueAll disk parts with
  | (file', .error e) => ∃ s, turn = (⟨.returned (.error (.io e)) s, file'⟩, [])
  | (file', .ok ()) => turn = (⟨next.1, file'⟩, next.2)

theorem getDataTo_writesThen (s : GetState) (file : Handle String UInt8) (tid : SocketAddr)
    (blockNum : UInt16) (data : Bytes) :
    WritesThen disk file
      ((if blockNum = s.expectedBlock then
        data :: inSequence s.blockBuffer.keys.length (s.expectedBlock + 1) s.blockBuffer
        else []).flatMap cut.parts)
      (c.getData s tid blockNum data) (c.getDataTo cut disk s file tid blockNum data) := by
  unfold TftpClient.getData TftpClient.getDataTo
  by_cases hlt : blockNum < s.expectedBlock
  · rw [if_neg (UInt16.ne_of_lt hlt), if_pos hlt, if_pos hlt]
    rfl
  by_cases hgt : blockNum > s.expectedBlock
  · rw [if_neg (UInt16.ne_of_lt hgt).symm, if_neg hlt, if_neg hlt, if_pos hgt, if_pos hgt]
    rfl
  have heq : blockNum = s.expectedBlock :=
    UInt16.le_antisymm (UInt16.not_lt.mp hgt) (UInt16.not_lt.mp hlt)
  rw [if_pos heq, if_neg hlt, if_neg hlt, if_neg hgt, if_neg hgt, WritesThen, List.flatMap_cons,
    Handle.queueAll_append, Handle.writeAll]
  cases file.queueAll disk (cut.parts data) with
  | mk file₁ result =>
      cases result with
      | error e => exact ⟨s, rfl⟩
      | ok u =>
          simp only
          have hdrain := @drainTo_eq cut disk s.blockBuffer.keys.length (s.expectedBlock + 1)
            s.blockBuffer (s.written ++ data) file₁
          generalize drainTo cut disk s.blockBuffer.keys.length (s.expectedBlock + 1)
            s.blockBuffer (s.written ++ data) file₁ = drained at hdrain ⊢
          obtain ⟨next, file₂, result⟩ := drained
          rw [← hdrain.1]
          cases result with
          | error e => exact ⟨s, rfl⟩
          | ok u =>
              have hnext : next = _ := hdrain.2 rfl
              rw [← hnext]
              obtain ⟨expectedBlock, buffer, written⟩ := next
              simp only
              split_ifs <;> rfl

theorem getPacketTo_writesThen (s : GetState) (file : Handle String UInt8) (tid : SocketAddr)
    (buf : Bytes) {parts : List Bytes}
    (hparts : parts = match header buf with
      | some (opcode, blockNum, data) =>
          if Opcode.fromU16 opcode = some .data ∧ blockNum = s.expectedBlock then
            (data :: inSequence s.blockBuffer.keys.length (s.expectedBlock + 1)
              s.blockBuffer).flatMap cut.parts
          else []
      | none => []) :
    WritesThen disk file parts (c.getPacket s tid buf) (c.getPacketTo cut disk s file tid buf) := by
  subst hparts
  unfold TftpClient.getPacket TftpClient.getPacketTo
  cases header buf with
  | none => rfl
  | some packet =>
      obtain ⟨opcode, field, rest⟩ := packet
      simp only
      cases hop : Opcode.fromU16 opcode with
      | none => rfl
      | some op =>
          cases op with
          | data =>
              have hdata := @getDataTo_writesThen c cut disk s file tid field rest
              simp only [true_and]
              split_ifs at hdata ⊢ <;> exact hdata
          | _ => rfl

theorem getData_written (s : GetState) (tid : SocketAddr) (blockNum : UInt16) (data : Bytes) :
    (c.getData s tid blockNum data).1.state.written
      = s.written ++ (match if blockNum = s.expectedBlock then some data else none with
        | some data =>
            data :: inSequence s.blockBuffer.keys.length (s.expectedBlock + 1) s.blockBuffer
        | none => []).flatten := by
  unfold TftpClient.getData
  by_cases hlt : blockNum < s.expectedBlock
  · rw [if_pos hlt, if_neg (UInt16.ne_of_lt hlt)]
    exact (List.append_nil _).symm
  by_cases hgt : blockNum > s.expectedBlock
  · rw [if_neg hlt, if_pos hgt, if_neg (UInt16.ne_of_lt hgt).symm]
    exact (List.append_nil _).symm
  have heq : blockNum = s.expectedBlock :=
    UInt16.le_antisymm (UInt16.not_lt.mp hgt) (UInt16.not_lt.mp hlt)
  have hwritten := drain_written s.blockBuffer.keys.length (s.expectedBlock + 1) s.blockBuffer
    (s.written ++ data)
  rw [if_neg hlt, if_neg hgt, if_pos heq, List.flatten_cons, ← List.append_assoc, ← hwritten]
  generalize drain s.blockBuffer.keys.length (s.expectedBlock + 1) s.blockBuffer
    (s.written ++ data) = drained
  obtain ⟨expectedBlock, buffer, written⟩ := drained
  simp only
  split_ifs <;> rfl

theorem getStepTo_server {s : GetState} {src : SocketAddr}
    (h : s.serverTid = none ∨ s.serverTid = some src) (file : Handle String UInt8) (d : Bytes) :
    c.getStepTo cut disk ⟨.receiving s, file⟩ (.datagram d src)
      = c.getPacketTo cut disk { s with serverTid := some src } file src
        (recvInto (c.blockSize + 4) d) := by
  obtain ⟨e, tid, buffer, last, written⟩ := s
  unfold TftpClient.getStepTo
  rcases h with h | h
  · cases h
    rfl
  · cases h
    simp only [ne_eq, not_true_eq_false, if_false]

/-- Packets from elsewhere are ignored. -/
theorem getStep_other {s : GetState} {src : SocketAddr}
    (h : ¬ (s.serverTid = none ∨ s.serverTid = some src)) (d : Bytes) :
    c.getStep (.receiving s) (.datagram d src) = (.receiving s, []) ∧
    (∀ file, c.getStepTo cut disk ⟨.receiving s, file⟩ (.datagram d src)
      = (⟨.receiving s, file⟩, [])) ∧
    c.expectedData (.receiving s) (.datagram d src) = none := by
  cases htid : s.serverTid with
  | none => exact absurd (Or.inl htid) h
  | some tid =>
      have hsrc : src ≠ tid := fun heq => h (Or.inr (by rw [htid, heq]))
      refine ⟨?_, fun file => ?_, ?_⟩
      · simp only [TftpClient.getStep, htid, if_pos hsrc]
      · simp only [TftpClient.getStepTo, htid, if_pos hsrc]
      · simp only [TftpClient.expectedData, TftpClient.serverData, if_neg h]

/-- The expected block is in a DATA packet of the server. -/
theorem expectedData_server {s : GetState} {src : SocketAddr}
    (h : s.serverTid = none ∨ s.serverTid = some src) (d : Bytes) :
    c.expectedData (.receiving s) (.datagram d src) =
      match header (recvInto (c.blockSize + 4) d) with
      | some (opcode, blockNum, data) =>
          if Opcode.fromU16 opcode = some .data ∧ blockNum = s.expectedBlock then some data
          else none
      | none => none := by
  simp only [TftpClient.expectedData, TftpClient.serverData, if_pos h]
  cases header (recvInto (c.blockSize + 4) d) with
  | none => rfl
  | some packet =>
      obtain ⟨opcode, blockNum, data⟩ := packet
      by_cases hop : Opcode.fromU16 opcode = some .data
      · simp only [hop, if_true, true_and]
      · simp only [hop, if_false, false_and]

/-- **The turn** writes its blocks, and is that of `get` if the file takes them. -/
theorem getStepTo_writesThen (st : FileGet) (i : RecvFrom) :
    WritesThen disk st.file ((c.blocks st.status i).flatMap cut.parts) (c.getStep st.status i)
      (c.getStepTo cut disk st i) := by
  obtain ⟨status, file⟩ := st
  cases status with
  | returned result s => rfl
  | receiving s =>
      cases i with
      | error message => rfl
      | timeout => rfl
      | datagram d src =>
          by_cases h : s.serverTid = none ∨ s.serverTid = some src
          · rw [getStepTo_server h, getStep_server h]
            apply getPacketTo_writesThen
            rw [TftpClient.blocks, expectedData_server h]
            cases header (recvInto (c.blockSize + 4) d) with
            | none => rfl
            | some packet =>
                obtain ⟨opcode, blockNum, data⟩ := packet
                simp only
                split_ifs <;> rfl
          · obtain ⟨hstep, hturn, hnone⟩ := @getStep_other c cut disk s src h d
            rw [hturn, hstep, TftpClient.blocks, hnone]
            rfl

/-- What a turn of `get` writes is its blocks. -/
theorem getStep_written (status : GetStatus) (i : RecvFrom) :
    (c.getStep status i).1.state.written
      = status.state.written ++ (c.blocks status i).flatten := by
  cases status with
  | returned result s => exact (List.append_nil _).symm
  | receiving s =>
      cases i with
      | error message => exact (List.append_nil _).symm
      | timeout => exact (List.append_nil _).symm
      | datagram d src =>
          by_cases h : s.serverTid = none ∨ s.serverTid = some src
          · rw [getStep_server h, TftpClient.blocks, expectedData_server h]
            unfold TftpClient.getPacket
            cases header (recvInto (c.blockSize + 4) d) with
            | none => exact (List.append_nil _).symm
            | some packet =>
                obtain ⟨opcode, blockNum, data⟩ := packet
                simp only
                cases hop : Opcode.fromU16 opcode with
                | none => exact (List.append_nil _).symm
                | some op =>
                    cases op with
                    | data =>
                        simp only [true_and]
                        exact getData_written _ _ _ _
                    | _ => exact (List.append_nil _).symm
          · obtain ⟨hstep, -, hnone⟩ := @getStep_other c Parts.whole (fun _ => none) s src h d
            rw [hstep, TftpClient.blocks, hnone]
            exact (List.append_nil _).symm

theorem getData_isOk_iff (s : GetState) (tid : SocketAddr) (blockNum : UInt16) (data : Bytes) :
    (∃ g, (c.getData s tid blockNum data).1 = .returned (.ok ()) g) ↔
      blockNum = s.expectedBlock ∧ data.length < c.blockSize := by
  unfold TftpClient.getData
  by_cases hlt : blockNum < s.expectedBlock
  · rw [if_pos hlt]
    exact iff_of_false (by rintro ⟨g, ⟨⟩⟩) (fun h => UInt16.ne_of_lt hlt h.1)
  by_cases hgt : blockNum > s.expectedBlock
  · rw [if_neg hlt, if_pos hgt]
    exact iff_of_false (by rintro ⟨g, ⟨⟩⟩) (fun h => UInt16.ne_of_lt hgt h.1.symm)
  have heq : blockNum = s.expectedBlock :=
    UInt16.le_antisymm (UInt16.not_lt.mp hgt) (UInt16.not_lt.mp hlt)
  rw [if_neg hlt, if_neg hgt]
  generalize drain s.blockBuffer.keys.length (s.expectedBlock + 1) s.blockBuffer
    (s.written ++ data) = drained
  obtain ⟨expectedBlock, buffer, written⟩ := drained
  simp only [heq, true_and, decide_eq_true_eq]
  by_cases hshort : data.length < c.blockSize
  · exact iff_of_true ⟨_, by rw [if_pos hshort]⟩ hshort
  · refine iff_of_false ?_ hshort
    rw [if_neg hshort]
    rintro ⟨g, ⟨⟩⟩

/-- **The last turn** is the one with a short block that was expected. -/
theorem getStep_isOk_iff (s : GetState) (i : RecvFrom) :
    (∃ g, (c.getStep (.receiving s) i).1 = .returned (.ok ()) g) ↔
      ∃ data, c.expectedData (.receiving s) i = some data ∧ data.length < c.blockSize := by
  have hno : ∀ {r : GetStatus}, (∀ g, r ≠ .returned (.ok ()) g) →
      ((∃ g, r = .returned (.ok ()) g) ↔
        ∃ data : Bytes, none = some data ∧ data.length < c.blockSize) := by
    intro r hr
    exact iff_of_false (fun ⟨g, hg⟩ => hr g hg) (by rintro ⟨data, ⟨⟩, -⟩)
  cases i with
  | error message => exact hno (by rintro g ⟨⟩)
  | timeout => exact hno (by rintro g ⟨⟩)
  | datagram d src =>
      by_cases h : s.serverTid = none ∨ s.serverTid = some src
      · rw [getStep_server h, expectedData_server h]
        unfold TftpClient.getPacket
        cases header (recvInto (c.blockSize + 4) d) with
        | none => exact hno (by rintro g ⟨⟩)
        | some packet =>
            obtain ⟨opcode, blockNum, data⟩ := packet
            simp only
            cases hop : Opcode.fromU16 opcode with
            | none => exact hno (by rintro g ⟨⟩)
            | some op =>
                cases op with
                | data =>
                    simp only [true_and]
                    rw [getData_isOk_iff]
                    split_ifs with heq
                    · exact ⟨fun hdata => ⟨data, rfl, hdata.2⟩, by
                        rintro ⟨_, ⟨⟩, hdata⟩
                        exact ⟨heq, hdata⟩⟩
                    · exact iff_of_false (fun hdata => heq hdata.1) (by rintro ⟨data, ⟨⟩, -⟩)
                | _ => exact hno (by rintro g ⟨⟩)
      · obtain ⟨hstep, -, hnone⟩ := @getStep_other c Parts.whole (fun _ => none) s src h d
        rw [hstep, hnone]
        exact hno (by rintro g ⟨⟩)

/-! ## The whole download -/

/-- If the download has returned `Ok`, then all that was written is on the disk. -/
def Saved (disk : Nat → Option String) (st : FileGet) : Prop :=
  ∀ g, st.status = .returned (.ok ()) g → st.file.onDisk disk = g.written

/-- If this turn is the last one and the disk takes all parts but the last, then it takes the last
one too. The parts are those queued before and those of this turn. -/
def TurnTakesLast (c : TftpClient) (cut : Parts UInt8) (disk : Nat → Option String) (st : FileGet)
    (i : RecvFrom) : Prop :=
  ∀ data, c.expectedData st.status i = some data → data.length < c.blockSize →
    TakesLast disk (st.file.queued.length + ((c.blocks st.status i).flatMap cut.parts).length)

/-- The file of a download that has seen no error. -/
structure FileTracks (disk : Nat → Option String) (st : FileGet) : Prop where
  tracks : st.file.Tracks disk
  written : st.file.queued.flatten = st.status.state.written
  ne_nil : ∀ part ∈ st.file.queued, part ≠ []

/-- **The invariant.** -/
def FileInv (disk : Nat → Option String) (st : FileGet) : Prop :=
  (∀ e s, st.status ≠ .returned (.error e) s) → FileTracks disk st

theorem FileTracks.saved_iff {st : FileGet} (h : FileTracks disk st) {g : GetState}
    (hst : st.status = .returned (.ok ()) g) :
    Saved disk st ↔ TakesLast disk st.file.queued.length := by
  have hwritten : st.file.queued.flatten = g.written := by rw [h.written, hst]; rfl
  rw [← h.tracks.complete_iff_takesLast, ← Handle.onDisk_eq_iff h.ne_nil, hwritten]
  constructor
  · intro hall
    exact hall g hst
  · intro heq g' hg'
    rw [hst] at hg'
    cases hg'
    exact heq

theorem ne_nil_of_flatMap_parts {blocks : List Bytes} :
    ∀ part ∈ blocks.flatMap cut.parts, part ≠ [] := by
  intro part hpart
  obtain ⟨data, -, hpart⟩ := List.mem_flatMap.mp hpart
  exact cut.ne_nil data part hpart

theorem flatten_flatMap_parts (blocks : List Bytes) :
    (blocks.flatMap cut.parts).flatten = blocks.flatten := by
  induction blocks with
  | nil => rfl
  | cons data blocks ih =>
      rw [List.flatMap_cons, List.flatten_append, cut.flatten, ih, List.flatten_cons]

/-- **The step**: it keeps the invariant, and is the end of a download that is not on the disk just
if the last part fails. -/
theorem getStepTo_spec {s : GetState} {file : Handle String UInt8} (i : RecvFrom)
    (hinv : FileInv disk ⟨.receiving s, file⟩) :
    FileInv disk (c.getStepTo cut disk ⟨.receiving s, file⟩ i).1 ∧
    (Saved disk (c.getStepTo cut disk ⟨.receiving s, file⟩ i).1 ↔
      TurnTakesLast c cut disk ⟨.receiving s, file⟩ i) := by
  have htracks := hinv (by rintro e g ⟨⟩)
  have hturn := @getStepTo_writesThen c cut disk ⟨.receiving s, file⟩ i
  unfold WritesThen at hturn
  simp only at hturn
  cases hq : file.queueAll disk ((c.blocks (.receiving s) i).flatMap cut.parts) with
  | mk file' result =>
      rw [hq] at hturn
      cases result with
      | error e =>
          obtain ⟨s', hs'⟩ := hturn
          rw [hs']
          refine ⟨fun hno => absurd rfl (hno _ _), iff_of_true (by rintro g ⟨⟩) ?_⟩
          intro data _ _
          exact htracks.tracks.takesLast_of_error hq
      | ok u =>
          simp only at hturn
          rw [hturn]
          obtain ⟨htracks', hqueued⟩ := htracks.tracks.queueAll hq
          have hfile : FileTracks disk ⟨(c.getStep (.receiving s) i).1, file'⟩ := by
            refine ⟨htracks', ?_, ?_⟩
            · rw [getStep_written, hqueued, List.flatten_append, htracks.written,
                flatten_flatMap_parts]
            · intro part hpart
              rw [hqueued] at hpart
              rcases List.mem_append.mp hpart with hpart | hpart
              · exact htracks.ne_nil part hpart
              · exact ne_nil_of_flatMap_parts part hpart
          refine ⟨fun _ => hfile, ?_⟩
          have hlength : file'.queued.length = file.queued.length
              + ((c.blocks (.receiving s) i).flatMap cut.parts).length := by
            rw [hqueued, List.length_append]
          have hends := getStep_isOk_iff s i (c := c)
          by_cases hok : ∃ g, (c.getStep (.receiving s) i).1 = .returned (.ok ()) g
          · obtain ⟨data, hdata, hshort⟩ := hends.mp hok
            obtain ⟨g, hg⟩ := hok
            rw [hfile.saved_iff hg, hlength]
            exact ⟨fun h _ _ _ => h, fun h => h data hdata hshort⟩
          · refine iff_of_true (fun g hg => absurd ⟨g, hg⟩ hok) ?_
            intro data hdata hshort
            exact absurd (hends.mpr ⟨data, hdata, hshort⟩) hok

/-- **The run**: a download that returns `Ok` has its data on the disk, if and only if in its last
turn the disk does not fail at the last part alone. -/
theorem getFile_written_iff (c : TftpClient) (cut : Parts UInt8) (disk : Nat → Option String)
    (inputs : List RecvFrom) :
    Saved disk (c.getFile cut disk inputs) ↔
      Along (fun st i => (c.getStepTo cut disk st i).1) (TurnTakesLast c cut disk)
        ⟨.receiving {}, {}⟩ inputs := by
  refine @foldl_iff_along _ _ _ (FileInv disk) _ _ ?_ ?_ ?_ inputs _ ?_ ?_
  · rintro ⟨status, file⟩ i hinv
    cases status with
    | receiving s => exact (getStepTo_spec i hinv).1
    | returned result s => exact hinv
  · rintro ⟨status, file⟩ i - hgood
    cases status with
    | receiving s => rintro g ⟨⟩
    | returned result s => exact hgood
  · rintro ⟨status, file⟩ i hinv hgood
    cases status with
    | receiving s => exact (getStepTo_spec i hinv).2
    | returned result s => exact iff_of_true hgood (by rintro data ⟨⟩)
  · intro _
    exact ⟨Handle.tracks_new, rfl, by rintro part ⟨⟩⟩
  · rintro g ⟨⟩

end Turn

end UsgTftp
