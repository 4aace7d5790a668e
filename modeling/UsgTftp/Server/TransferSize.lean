import UsgTftp.Server.Read
import UsgTftp.Server.Success

set_option autoImplicit false

/-! # The advertised and the transferred size

`handle_read_request` puts a size into the OACK before the transfer, and the sender makes the
payloads later. This file follows a run through both: a sender that completes has sent its
packets (`Transfers`), and so has the request that called it (`Hands.completed`).
`advertised_size_iff` compares the two sizes.
-/

namespace UsgTftp

open Reactive Segment SeqNum

/-! ## Senders that complete -/

/-- The point at which `transfer_completed` is logged. -/
def SendStatus.IsCompleted {σ : Type} (s : SendStatus σ) : Prop :=
  ∃ bytes blocks, s = .done (.completed bytes blocks)

/-- The step into the state has sent a window again. -/
def SendStatus.repeats {σ : Type} (retries : σ → Nat) : SendStatus σ → Bool
  | .awaiting s => 0 < retries s
  | _ => false

/-- The sender can complete, and if it does it has sent these packets, each of them once if
repetitions are not counted. -/
structure Transfers {σ : Type} (m : Machine (SendStatus σ) Recv Bytes) (retries : σ → Nat)
    (ps : List Bytes) : Prop where
  first : m.start.1.repeats retries = false
  completes : ∃ rs, (m.stateAfter rs).IsCompleted
  sent_eq : ∀ rs, (m.stateAfter rs).IsCompleted →
    m.start.2 ++ m.sentFrom (SendStatus.repeats retries) m.start.1 rs = ps

section

variable {σ : Type} {m : Machine (SendStatus σ) Recv Bytes} {retries : σ → Nat} {b W : Nat}

/-- An empty file is one packet. -/
theorem transfers_empty (hrunning : m.running = SendStatus.running)
    (hstart : m.start = (.awaitingEmpty 0, [emptyFilePacket]))
    (hstep : ∀ retry r, m.step (.awaitingEmpty retry) r = (awaitEmpty retry r, [])) :
    Transfers m retries [emptyFilePacket] where
  first := by rw [hstart]; rfl
  completes := by
    refine ⟨[.datagram (ackPacket 1)], 0, 1, ?_⟩
    have hrun : m.running (.awaitingEmpty 0) = true := by rw [hrunning]; rfl
    rw [Machine.stateAfter, hstart, Machine.exec_cons_running hrun, hstep, awaitEmpty,
      waitForAck_ack]
    rfl
  sent_eq := by
    intro rs _
    have hnone : ∀ (rs : List Recv) retry,
        m.sentFrom (SendStatus.repeats retries) (.awaitingEmpty retry) rs = [] := by
      intro rs
      induction rs with
      | nil => intro retry; rfl
      | cons r rs ih =>
          intro retry
          have hrun : m.running (.awaitingEmpty retry) = true := by rw [hrunning]; rfl
          rw [Machine.sentFrom_cons_running hrun, hstep, ite_self, List.nil_append]
          rcases awaitEmpty_cases (σ := σ) retry r with ⟨e, he⟩ | ⟨-, he⟩
          · rw [he, Machine.sentFrom_stopped (by rw [hrunning]; rfl)]
          · rw [he, ih]
    rw [hstart, hnone, List.append_nil]

theorem transfers_of_simulates {γ : WindowSender.State → SendStatus σ} {ps : List Bytes}
    (hW : 0 < W) (hps : ps ≠ [])
    (h : Machine.Simulates (WindowSender.machine acksPacket ps W maxRetries) m γ
      (WindowSender.Valid ps maxRetries))
    (hcompleted : ∀ s, (γ s).IsCompleted ↔ s = .finished)
    (hrepeats : ∀ s, SendStatus.repeats retries (γ s) = WindowSender.repeating s)
    (hacks : ∀ pos, pos < ps.length →
      ∃ r, WindowSender.acked acksPacket ps W pos r = true) : Transfers m retries ps where
  first := by
    have hstart : m.start.1 = γ (.awaiting 0 0) := congrArg Prod.fst h.start
    rw [hstart, hrepeats]
    rfl
  completes := by
    obtain ⟨rs, hrs⟩ : ∃ rs, (WindowSender.machine acksPacket ps W maxRetries).stateAfter rs
        = .finished := WindowSender.exists_finished hps hW hacks
    refine ⟨rs, ?_⟩
    rw [h.stateAfter, hrs]
    exact (hcompleted _).mpr rfl
  sent_eq := by
    intro rs hrs
    rw [h.stateAfter] at hrs
    have hstart : m.start = (γ (.awaiting 0 0), WindowSender.window ps W 0) := h.start
    have hskip : SendStatus.repeats retries ∘ γ = WindowSender.repeating := funext hrepeats
    have hsent : m.sentFrom (SendStatus.repeats retries) (γ (.awaiting 0 0)) rs
        = (WindowSender.machine acksPacket ps W maxRetries).sentFrom WindowSender.repeating
            (.awaiting 0 0) rs := by
      rw [← hskip]
      exact h.sentFrom _ rs (.awaiting 0 0) h.inv_start
    rw [hstart, hsent]
    exact WindowSender.sentFrom_finished rs ((hcompleted _).mp hrs)

end

theorem buffered_transfers (fileData : Bytes) {b W : Nat} (hb : 0 < b) (hW : 0 < W) :
    Transfers (sendFileDataBuffered fileData b W) (·.retries) (segPackets b fileData) := by
  by_cases hfile : fileData = []
  · subst hfile
    rw [segPackets_nil]
    exact transfers_empty rfl rfl fun _ _ => rfl
  · refine transfers_of_simulates hW (segPackets_ne_nil b fileData)
      (buffered_simulates hb hW hfile) (fun s => ?_) (fun s => ?_) fun pos hpos => ?_
    · cases s <;> simp [bufferedStatus, SendStatus.IsCompleted]
    · cases s <;> rfl
    · exact ⟨_, acked_ackPacket hW (by simpa using hpos) rfl⟩

theorem streaming_transfers (mode : TransferMode) (file : Bytes) {b W : Nat} (hb : 0 < b)
    (hW : 0 < W) :
    Transfers (sendFileDataStreaming file file.length mode b W) (·.retries)
      (streamPackets mode b file) := by
  by_cases hfile : file = []
  · subst hfile
    rw [streamPackets_nil]
    exact transfers_empty rfl rfl fun _ _ => rfl
  · refine transfers_of_simulates hW (streamPackets_ne_nil mode b file)
      (streamingIn_simulates mode hb hW hfile) (fun s => ?_) (fun s => ?_) fun pos hpos => ?_
    · cases s <;> simp [streamStatusIn, SendStatus.IsCompleted]
    · cases s <;> rfl
    · exact ⟨.datagram (ackPacket (wire (pos + windowLen b file W pos))),
        (acked_numbered _ hW (by simpa using hpos) _).mpr (isAck_ackPacket.mpr rfl)⟩

/-! ## Requests that complete -/

/-- The step into the state has sent a window again. -/
def ReadStatus.repeats : ReadStatus → Bool
  | .buffered _ s => s.repeats (·.retries)
  | .streaming _ s => s.repeats (·.retries)
  | _ => false

/-- The request hands over to the sender `m`, whose states it wraps. -/
structure Hands {σ : Type} (mode : TransferMode) (options : TftpOptions) (source : Source)
    (m : Machine (SendStatus σ) Recv Bytes) (retries : σ → Nat)
    (wrap : SendStatus σ → ReadStatus) : Prop where
  start : startSending mode options source = (wrap m.start.1, m.start.2)
  step : ∀ s r, readRequestStep mode options (wrap s) r = (wrap (m.step s r).1, (m.step s r).2)
  running : ∀ s, (wrap s).running = m.running s
  completed : ∀ s, (wrap s).Completed ↔ s.IsCompleted
  repeats : ∀ s, (wrap s).repeats = s.repeats retries

section

variable {σ : Type} {mode : TransferMode} {options : TftpOptions} {source : Source}
  {m : Machine (SendStatus σ) Recv Bytes} {retries : σ → Nat} {wrap : SendStatus σ → ReadStatus}
  {c : Machine ReadStatus Recv Bytes}

/-- The run of the request is then a run of the sender. -/
theorem Hands.run (h : Hands mode options source m retries wrap)
    (hstep : c.step = readRequestStep mode options) (hrunning : c.running = ReadStatus.running) :
    ∀ (rs : List Recv) (s : SendStatus σ), c.exec (wrap s) rs = wrap (m.exec s rs) ∧
      c.sentFrom ReadStatus.repeats (wrap s) rs = m.sentFrom (SendStatus.repeats retries) s rs := by
  intro rs
  induction rs with
  | nil => intro s; exact ⟨rfl, rfl⟩
  | cons r rs ih =>
      intro s
      by_cases hrun : m.running s = true
      · have hrun' : c.running (wrap s) = true := by rw [hrunning, h.running, hrun]
        obtain ⟨hexec, hsent⟩ := ih (m.step s r).1
        rw [Machine.exec_cons_running hrun, Machine.exec_cons_running hrun',
          Machine.sentFrom_cons_running hrun, Machine.sentFrom_cons_running hrun', hstep, h.step,
          h.repeats]
        exact ⟨hexec, by rw [hsent]⟩
      · have hstop : m.running s = false := Bool.eq_false_iff.mpr hrun
        have hstop' : c.running (wrap s) = false := by rw [hrunning, h.running, hstop]
        rw [Machine.exec_stopped hstop, Machine.exec_stopped hstop', Machine.sentFrom_stopped hstop,
          Machine.sentFrom_stopped hstop']
        exact ⟨rfl, rfl⟩

/-- A request that completes has had its OACK acknowledged, and the rest of its run is one of the
sender. -/
theorem Hands.oack (h : Hands mode options source m retries wrap)
    (hfirst : m.start.1.repeats retries = false)
    (hstep : c.step = readRequestStep mode options) (hrunning : c.running = ReadStatus.running) :
    ∀ (rs : List Recv) (retry : Nat), (c.exec (.oackWait source retry) rs).Completed →
      ∃ post, (m.stateAfter post).IsCompleted ∧
        c.sentFrom ReadStatus.repeats (.oackWait source retry) rs
          = m.start.2 ++ m.sentFrom (SendStatus.repeats retries) m.start.1 post := by
  intro rs
  induction rs with
  | nil => intro retry hdone; cases hdone
  | cons r rs ih =>
      intro retry hdone
      have hrun : c.running (.oackWait source retry) = true := by rw [hrunning]; rfl
      rw [Machine.exec_cons_running hrun, hstep, readRequestStep] at hdone
      rw [Machine.sentFrom_cons_running hrun, hstep, readRequestStep]
      cases hwait : waitForAck 0 retry r with
      | accepted =>
          simp only [hwait, h.start] at hdone ⊢
          obtain ⟨hexec, hsent⟩ := h.run hstep hrunning rs m.start.1
          rw [hexec, h.completed] at hdone
          refine ⟨rs, hdone, ?_⟩
          rw [h.repeats, hfirst, hsent]
          rfl
      | failed e =>
          simp only [hwait] at hdone
          rw [Machine.exec_stopped (by rw [hrunning]; rfl)] at hdone
          cases hdone
      | again =>
          simp only [hwait] at hdone ⊢
          obtain ⟨post, hpost, hsent⟩ := ih (retry + 1) hdone
          exact ⟨post, hpost, by rw [ite_self, List.nil_append, hsent]⟩

end

/-! ## Sizes -/

/-- The payload of a DATA packet, in bytes; other packets have none. -/
def payloadLength (d : Bytes) : Nat :=
  match header d with
  | some (opcode, _, payload) => if opcode = Opcode.data.toU16 then payload.length else 0
  | none => 0

/-- The payload bytes of the DATA packets of a run, each window counted once. -/
def transferredBytes (m : Machine ReadStatus Recv Bytes) (rs : List Recv) : Nat :=
  ((m.start.2 ++ m.sentFrom ReadStatus.repeats m.start.1 rs).map payloadLength).sum

theorem payloadLength_dataPacket (n : UInt16) (payload : Bytes) :
    payloadLength (dataPacket n payload) = payload.length := by
  rw [payloadLength, header_dataPacket]
  exact if_pos rfl

theorem payloadLength_oack (options : List OptionEntry) :
    payloadLength (buildOackPacket options) = 0 := by
  rw [payloadLength]
  cases hheader : header (buildOackPacket options) with
  | none => rfl
  | some v =>
      obtain ⟨opcode, field, rest⟩ := v
      have hopcode := header_opcode (getU16_buildOackPacket options) hheader
      exact if_neg (by rw [hopcode]; decide)

theorem sum_payloadLength (payloads : List Bytes) :
    ((dataPackets payloads).map payloadLength).sum = payloads.flatten.length := by
  have hmap : (dataPackets payloads).map payloadLength = payloads.map List.length := by
    apply List.ext_getElem
    · simp [dataPackets]
    · intro i h _
      simp [dataPackets, payloadLength_dataPacket]
  rw [hmap, List.length_flatten]

theorem sum_segPackets {b : Nat} (hb : 0 < b) (data : Bytes) :
    ((segPackets b data).map payloadLength).sum = data.length := by
  rw [segPackets_eq_dataPackets, sum_payloadLength, flatten_segment hb]

/-- The streaming sender transfers the converted file. -/
theorem sum_streamPackets (mode : TransferMode) {b : Nat} (hb : 0 < b) (file : Bytes) :
    ((streamPackets mode b file).map payloadLength).sum
      = (blockDataStreaming mode file).length := by
  cases mode with
  | netascii =>
      rw [streamPackets_netascii, sum_payloadLength, ← convertToNetascii_flatten,
        flatten_segment hb]
      rfl
  | octet => exact sum_segPackets hb file
  | mail => exact sum_segPackets hb file

theorem completed_buffered (fileData : Bytes) (s : SendStatus BufferedState) :
    (ReadStatus.buffered fileData s).Completed ↔ s.IsCompleted := by
  constructor
  · intro h
    cases h
    exact ⟨_, _, rfl⟩
  · rintro ⟨bytes, blocks, rfl⟩
    exact .buffered fileData bytes blocks

theorem completed_streaming (file : Bytes) (s : SendStatus StreamState) :
    (ReadStatus.streaming file s).Completed ↔ s.IsCompleted := by
  constructor
  · intro h
    cases h
    exact ⟨_, _, rfl⟩
  · rintro ⟨bytes, blocks, rfl⟩
    exact .streaming file bytes blocks

section

variable {mode : TransferMode} {options : TftpOptions} {negotiatedOptions : OptionMap}
  {maxFileSizeBytes : Nat} {order : IterOrder} {content : Bytes}

/-- The request is answered by an OACK with `size`, and a transfer of `total` bytes follows. -/
structure Advertises (m : Machine ReadStatus Recv Bytes) (negotiatedOptions : OptionMap)
    (order : IterOrder) (size total : Nat) : Prop where
  oack : m.start.2 = [buildOackPacket (order.iter (negotiatedOptions.insert "tsize" size.repr))]
  completes : ∃ rs, (m.stateAfter rs).Completed
  transferred : ∀ rs, (m.stateAfter rs).Completed → transferredBytes m rs = total

theorem Hands.advertises {σ : Type} {source : Source} {m : Machine (SendStatus σ) Recv Bytes}
    {retries : σ → Nat} {wrap : SendStatus σ → ReadStatus} {ps : List Bytes} {size : Nat}
    {c : Machine ReadStatus Recv Bytes} (h : Hands mode options source m retries wrap)
    (hm : Transfers m retries ps) (htsize : "tsize" ∈ negotiatedOptions)
    (hstart : c.start = sendOack mode options negotiatedOptions order source size)
    (hstep : c.step = readRequestStep mode options) (hrunning : c.running = ReadStatus.running) :
    Advertises c negotiatedOptions order size (ps.map payloadLength).sum := by
  have hne : (negotiatedOptions.insert "tsize" size.repr).entries ≠ [] := by
    rw [AList.entries_insert]
    exact List.cons_ne_nil _ _
  have hoack : c.start = (.oackWait source 0,
      [buildOackPacket (order.iter (negotiatedOptions.insert "tsize" size.repr))]) := by
    rw [hstart, sendOack]
    simp only [if_pos htsize]
    rw [if_neg hne]
  refine ⟨by rw [hoack], ?_, fun rs hdone => ?_⟩
  · obtain ⟨post, hpost⟩ := hm.completes
    refine ⟨.datagram (ackPacket 0) :: post, ?_⟩
    have hrun : c.running (.oackWait source 0) = true := by rw [hrunning]; rfl
    rw [Machine.stateAfter, hoack, Machine.exec_cons_running hrun, hstep, readRequestStep,
      waitForAck_ack]
    simp only [h.start]
    rw [(h.run hstep hrunning post m.start.1).1, h.completed]
    exact hpost
  · rw [Machine.stateAfter, hoack] at hdone
    obtain ⟨post, hpost, hsent⟩ := h.oack hm.first hstep hrunning rs 0 hdone
    rw [transferredBytes, hoack]
    simp only
    rw [hsent, hm.sent_eq post hpost, List.map_append, List.sum_append, List.map_singleton,
      List.sum_singleton, payloadLength_oack, Nat.zero_add]

/-- **The advertised size**: that of the converted file if it is buffered, and that of the file
else. The transferred one is that of what is sent. -/
theorem handleReadRequest_advertises (htsize : "tsize" ∈ negotiatedOptions)
    (hlimit : ¬(maxFileSizeBytes > 0 ∧ content.length > maxFileSizeBytes))
    (hb : 0 < options.blockSize) (hW : 0 < options.windowsize) :
    Advertises (handleReadRequest (some (.regular content)) mode options negotiatedOptions
        maxFileSizeBytes order) negotiatedOptions order
      (if mode = .netascii ∧ content.length ≤ netasciiBufferLimit
        then (convertToNetascii content).length else content.length)
      (blockDataStreaming mode content).length := by
  by_cases hbuffered : mode = .netascii ∧ content.length ≤ netasciiBufferLimit
  · have hands : Hands mode options (.buffered (convertToNetascii content))
        (sendFileDataBuffered (convertToNetascii content) options.blockSize options.windowsize)
        (·.retries) (.buffered (convertToNetascii content)) :=
      ⟨rfl, fun _ _ => rfl, fun _ => rfl, completed_buffered _, fun _ => rfl⟩
    have hstart : (handleReadRequest (some (.regular content)) mode options negotiatedOptions
        maxFileSizeBytes order).start = sendOack mode options negotiatedOptions order
          (.buffered (convertToNetascii content)) (convertToNetascii content).length :=
      (if_neg hlimit).trans (if_pos hbuffered)
    have hadvertises := hands.advertises (buffered_transfers _ hb hW) htsize hstart rfl rfl
    rw [sum_segPackets hb] at hadvertises
    rw [if_pos hbuffered, blockDataStreaming, if_pos hbuffered.1]
    exact hadvertises
  · have hands : Hands mode options (.streaming (.regular content))
        (sendFileDataStreaming content content.length mode options.blockSize options.windowsize)
        (·.retries) (.streaming content) :=
      ⟨rfl, fun _ _ => rfl, fun _ => rfl, completed_streaming _, fun _ => rfl⟩
    have hstart : (handleReadRequest (some (.regular content)) mode options negotiatedOptions
        maxFileSizeBytes order).start = sendOack mode options negotiatedOptions order
          (.streaming (.regular content)) content.length :=
      (if_neg hlimit).trans (if_neg hbuffered)
    have hadvertises := hands.advertises (streaming_transfers mode content hb hW) htsize hstart
      rfl rfl
    rw [sum_streamPackets mode hb] at hadvertises
    rw [if_neg hbuffered]
    exact hadvertises

end

/-- **Where the advertised size is the transferred one**: everywhere but for a NETASCII file too
long to be buffered in which there is something to convert. Such a file is advertised by its
length, and converted as it is sent. -/
theorem advertised_size_iff (content : Bytes) (mode : TransferMode) (options : TftpOptions)
    (negotiatedOptions : OptionMap) (maxFileSizeBytes : Nat) (order : IterOrder)
    (htsize : "tsize" ∈ negotiatedOptions)
    (hlimit : ¬(maxFileSizeBytes > 0 ∧ content.length > maxFileSizeBytes))
    (hb : 8 ≤ options.blockSize ∧ options.blockSize ≤ 65464)
    (hW : 1 ≤ options.windowsize ∧ options.windowsize ≤ 65535) :
    let m := handleReadRequest (some (.regular content)) mode options negotiatedOptions
      maxFileSizeBytes order
    ∃ size, m.start.2
        = [buildOackPacket (order.iter (negotiatedOptions.insert "tsize" size.repr))] ∧
      ((∀ rs, (m.stateAfter rs).Completed → transferredBytes m rs = size) ↔
        ¬(mode = .netascii ∧ content.length > netasciiBufferLimit ∧
          (lf ∈ content ∨ cr ∈ content))) := by
  have hadvertises : Advertises (handleReadRequest (some (.regular content)) mode options
      negotiatedOptions maxFileSizeBytes order) negotiatedOptions order _ _ :=
    handleReadRequest_advertises htsize hlimit (by omega) hW.1
  obtain ⟨hoack, hcompletes, htransferred⟩ := hadvertises
  refine ⟨_, hoack, ?_⟩
  generalize handleReadRequest _ mode options negotiatedOptions maxFileSizeBytes order = m
    at hcompletes htransferred
  have htotal : ∀ size, (∀ rs, (m.stateAfter rs).Completed → transferredBytes m rs = size) ↔
      (blockDataStreaming mode content).length = size := by
    intro size
    obtain ⟨rs, hrs⟩ := hcompletes
    exact ⟨fun h => (htransferred rs hrs).symm.trans (h rs hrs),
      fun h rs hrs => (htransferred rs hrs).trans h⟩
  rw [htotal]
  by_cases hmode : mode = .netascii
  · rw [blockDataStreaming, if_pos hmode]
    by_cases hlen : content.length ≤ netasciiBufferLimit
    · rw [if_pos ⟨hmode, hlen⟩]
      exact iff_of_true rfl fun h => absurd h.2.1 (Nat.not_lt.mpr hlen)
    · rw [if_neg fun h => hlen h.2, length_convertToNetascii, Nat.add_eq_left,
        List.countP_eq_zero]
      simp only [hmode, Nat.lt_of_not_le hlen, true_and, not_or, decide_eq_true_eq]
      constructor
      · exact fun h => ⟨fun hlf => (h lf hlf).1 rfl, fun hcr => (h cr hcr).2 rfl⟩
      · exact fun h c hc => ⟨fun hlf => h.1 (hlf ▸ hc), fun hcr => h.2 (hcr ▸ hc)⟩
  · rw [blockDataStreaming, if_neg hmode, if_neg fun h => hmode h.1]
    exact iff_of_true rfl fun h => hmode h.1

/-- A line feed is advertised as the two bytes it is sent as. -/
theorem advertised_size_line_feed :
    let m := handleReadRequest (some (.regular [lf])) .netascii {}
      ((∅ : OptionMap).insert "tsize" "0") 0 .entries
    ∃ size, m.start.2
        = [buildOackPacket (IterOrder.entries.iter
            (((∅ : OptionMap).insert "tsize" "0").insert "tsize" size.repr))] ∧
      ∀ rs, (m.stateAfter rs).Completed → transferredBytes m rs = size := by
  obtain ⟨size, hoack, hiff⟩ := advertised_size_iff [lf] .netascii {}
    ((∅ : OptionMap).insert "tsize" "0") 0 .entries (AList.mem_insert _ |>.mpr (Or.inl rfl))
    (by decide) (by decide) (by decide)
  exact ⟨size, hoack, hiff.mpr (by decide)⟩

/-- A file of line feeds that is too long to be buffered: twice the advertised size is sent. -/
theorem advertised_size_too_small :
    let m := handleReadRequest (some (.regular (List.replicate 1048577 lf))) .netascii {}
      ((∅ : OptionMap).insert "tsize" "0") 0 .entries
    m.start.2 = [buildOackPacket (IterOrder.entries.iter
      (((∅ : OptionMap).insert "tsize" "0").insert "tsize" "1048577"))] ∧
    ∃ rs, (m.stateAfter rs).Completed ∧ transferredBytes m rs = 2097154 := by
  have hadvertises : Advertises (handleReadRequest (some (.regular (List.replicate 1048577 lf)))
      .netascii {} ((∅ : OptionMap).insert "tsize" "0") 0 .entries) _ _ _ _ :=
    handleReadRequest_advertises (AList.mem_insert _ |>.mpr (Or.inl rfl))
      (fun h => absurd h.1 (Nat.lt_irrefl 0)) (by decide) (by decide)
  obtain ⟨hoack, ⟨rs, hrs⟩, htransferred⟩ := hadvertises
  rw [List.length_replicate, if_neg (by decide)] at hoack
  refine ⟨hoack, rs, hrs, ?_⟩
  rw [htransferred rs hrs, blockDataStreaming, if_pos rfl, length_convertToNetascii,
    List.length_replicate, List.countP_replicate, if_pos (by decide)]

end UsgTftp
