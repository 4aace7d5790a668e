import UsgTftp.Download.Netascii
import UsgTftp.Server.Negotiation
import UsgTftp.Upload.Lossless

set_option autoImplicit false

/-! # NETASCII from end to end

`TftpClient::put` sends the bytes of the local file as they are, whatever the mode is, and
`TftpClient::get` writes the bytes as they come. Only the server converts: it decodes what is
uploaded in NETASCII mode and encodes what is downloaded. So a file survives only if there is
nothing to convert in it (`netascii_end_to_end_iff`).

The upload is that of `PacedStep`, with the addresses left aside and no timers. If both sides
wait with nothing on its way, the transfer is left to the timers, and that of the server
abandons it.
-/

namespace UsgTftp

open Reactive Segment SeqNum Posix

/-! ## The request -/

section Request

variable {c : TftpClient}

theorem parseRequestPacket_wrqPacket {parse : StringParser} (hparse : ReadsShort parse)
    {remoteFile : String} {n : Nat} (hb : c.blockSize < 2 ^ 64) (hW : c.windowsize < 2 ^ 64)
    (hn : n < 2 ^ 64) (hnul : 0 ∉ asBytes remoteFile)
    (hlen : (asBytes remoteFile).length ≤ 254) :
    parseRequestPacket parse (cstring remoteFile ++ (cstring c.mode.modeStr ++
        (c.optionBytes ++ (cstring "tsize" ++ cstring n.repr))))
      = .ok ⟨remoteFile, c.mode.modeStr, c.requestedOptions.insert "tsize" n.repr⟩ := by
  rw [parseRequestPacket_cstring (hparse hnul hlen) (hparse.modeStr c.mode)]
  have hentries : c.optionBytes ++ (cstring "tsize" ++ cstring n.repr)
      = (c.optionEntries ++ ([⟨"tsize", n.repr⟩] : List OptionEntry)).flatMap
          fun o => cstring o.1 ++ cstring o.2 := by
    rw [List.flatMap_append, ← optionBytes_eq]
    simp
  have htsize : Reads parse "tsize" := hparse (by decide) (by decide)
  have hlower : toLowercase "tsize" = "tsize" := by decide
  rw [hentries, parseOptions_entries, List.foldl_append, List.foldl_cons, List.foldl_nil, hlower]
  · rfl
  · intro e he
    rcases List.mem_append.mp he with he | he
    · exact reads_optionEntries hparse hb hW e he
    · rw [List.mem_singleton.mp he]
      exact ⟨htsize, hparse.repr hn⟩

/-- What the server makes of the client's write request, if it accepts it. -/
theorem writeRequest_of_wrqPacket {env : Env} {t : Tree} {glob : Glob} {config : ServerConfig}
    {order : IterOrder} {remoteFile : String} {n : Nat} {p : Path} {q : WriteRequest}
    {created : Bool} (hb : 8 ≤ c.blockSize ∧ c.blockSize ≤ 65464) (hW : c.windowsize ≤ 65535)
    (hn : n < 2 ^ 64) (hnul : 0 ∉ asBytes remoteFile) (hlen : (asBytes remoteFile).length ≤ 254)
    (h : handleClient env t glob config order (c.wrqPacket remoteFile n)
      = .ok (.write p q created)) :
    q.mode = c.mode ∧ q.options.blockSize = c.blockSize := by
  obtain ⟨bytes, hdata, h⟩ := handleClient_write_iff.mp h
  rw [TftpClient.wrqPacket, getU16_putU16] at hdata
  cases hdata
  obtain ⟨request, mode, hreq, hc, -, rfl, -⟩ := handleClientWrq_write_iff.mp h
  rw [parseRequestPacket_wrqPacket readsShort_parseString (by omega) (by omega) hn hnul hlen]
    at hreq
  cases hreq
  have hmode := hc.mode_eq
  rw [TransferMode.fromStr_modeStr] at hmode
  cases hmode
  refine ⟨rfl, ?_⟩
  have hne : ("blksize" : String) ≠ "tsize" := by decide
  show (negotiate tsizeWrq _ _ _).options.blockSize = _
  rw [negotiate_blockSize onlyTsize_wrq.blockSize, AList.lookup_insert_ne hne,
    (lookup_requestedOptions c).1]
  split_ifs with h
  · rw [Option.bind_some, parseInRange_repr hb.1 (show _ ≤ maxBlockSize from hb.2) (by decide)]
    rfl
  · exact (not_not.mp h).symm

end Request

/-! ## What an upload leaves at the server -/

section

variable (c : TftpClient) (file : Bytes) (q : WriteRequest) (order : IterOrder)

/-- Every run of the two loops ends, and ends with the server writing these data. -/
def UploadStores (data : Bytes) : Prop :=
  EndsIn (PacedStep c file q order) (pacedStart q order)
    (fun s => ∃ st, s.left = .commit st data)

/-- The server acknowledges every block of the file: its window, which it takes modulo `2 ^ 16`,
is one block, or the file is one short block. -/
def AcksEveryBlock : Prop :=
  UInt16.ofNat q.options.windowsize = 1 ∨
    (UInt16.ofNat q.options.windowsize ≠ 0 ∧ file.length < c.blockSize)

/-- How the server is left when nothing is on its way any more. -/
inductive Outcome : WriteStatus → Prop where
  | stored (st : ReceiveState) (hacks : AcksEveryBlock c file q)
      (hlen : file.length % c.blockSize ≠ 0) (hfits : q.Fits file) :
      Outcome (.commit st (q.finalData file))
  | tooLarge (st : ReceiveState) (hlarge : ¬ q.Fits file) : Outcome (.ended .tooLarge st)
  | panicked (st : ReceiveState) (hW : UInt16.ofNat q.options.windowsize = 0) :
      Outcome (.ended .panicked st)
  /-- The client does not send the short block that ends the file, or waits for an ACK that is
  not sent. -/
  | unfinished (st : ReceiveState)
      (h : file.length % c.blockSize = 0 ∨ ¬ AcksEveryBlock c file q) : Outcome (.receiving st)

/-- **The phases of an upload**, each with the number of steps that remain at most. -/
inductive StorePhase : Nat → PacedUpload → Prop where
  | request : StorePhase (2 * blockCount c.blockSize file + 1) (pacedStart q order)
  | data (k : Nat) (sent : List Bytes) (hk : k * c.blockSize < file.length)
      (hW : k = 0 ∨ UInt16.ofNat q.options.windowsize = 1) :
      StorePhase (2 * (blockCount c.blockSize file - k)) ⟨⟨.receiving (received c file k),
        waitingFor c file k, [segPacket c.blockSize file k], []⟩, sent⟩
  | acked (k : Nat) (sent : List Bytes) (hk : k * c.blockSize < file.length)
      (hfull : (block c.blockSize file k).length = c.blockSize)
      (hW : UInt16.ofNat q.options.windowsize = 1) :
      StorePhase (2 * (blockCount c.blockSize file - k) - 1)
        ⟨⟨.receiving (received c file (k + 1)), waitingFor c file k, [],
          [ackPacket (wire (k + 1))]⟩, sent⟩
  | last (k : Nat) (sent : List Bytes) (st : ReceiveState)
      (hshort : (block c.blockSize file k).length < c.blockSize)
      (h : Outcome c file q (.commit st (q.finalData file))) :
      StorePhase 1 ⟨⟨.commit st (q.finalData file), waitingFor c file k, [],
        [ackPacket (wire (k + 1))]⟩, sent⟩
  | refused (k : Nat) (sent : List Bytes) (st : ReceiveState) (hlarge : ¬ q.Fits file) :
      StorePhase 1 ⟨⟨.ended .tooLarge st, waitingFor c file k, [],
        [errorPacket .diskFull "File too large"]⟩, sent⟩
  | stopped (l : WriteStatus) (r : PutStatus) (sent : List Bytes) (h : Outcome c file q l) :
      StorePhase 0 ⟨⟨l, r, [], []⟩, sent⟩

end

section Steps

variable {c : TftpClient} {file : Bytes} {q : WriteRequest} {order : IterOrder}

/-- A short block that is not empty ends a file that is not made of full blocks. -/
theorem mod_ne_zero_of_short {b k : Nat} (hk : k * b < file.length)
    (hshort : (block b file k).length < b) : file.length % b ≠ 0 := by
  intro hmod
  rw [length_block] at hshort
  obtain ⟨m, hm⟩ := Nat.dvd_of_mod_eq_zero hmod
  have hlt : k * b < m * b := by rw [Nat.mul_comm m b, ← hm]; exact hk
  have hle : (k + 1) * b ≤ m * b := Nat.mul_le_mul_right b (Nat.lt_of_mul_lt_mul_right hlt)
  rw [Nat.mul_comm m b, ← hm, Nat.succ_mul] at hle
  omega

/-- The client sends the next block, or returns at the end of the file without the short block
that the server waits for. -/
theorem storePhase_putNext (hb : 0 < c.blockSize) {k : Nat}
    (hW : k = 0 ∨ UInt16.ofNat q.options.windowsize = 1)
    (hk : k * c.blockSize ≤ file.length)
    (sent : List Bytes) :
    ∃ n, n ≤ 2 * (blockCount c.blockSize file - k) ∧ StorePhase c file q order n
      ⟨⟨.receiving (received c file k),
        (c.putNext (wire (k + 1)) (file.drop (k * c.blockSize))).1,
        [] ++ (c.putNext (wire (k + 1)) (file.drop (k * c.blockSize))).2, []⟩, sent⟩ := by
  by_cases hmore : k * c.blockSize < file.length
  · rw [putNext_drop hmore hb]
    exact ⟨_, le_rfl, .data k sent hmore hW⟩
  · have hlen : file.length = k * c.blockSize := by omega
    rw [putNext_end (List.drop_eq_nil_of_le (by omega))]
    refine ⟨0, Nat.zero_le _, .stopped _ _ sent (.unfinished _ (Or.inl ?_))⟩
    rw [hlen, Nat.mul_mod_left]

/-- The server's answer to a block, by the window and the length of the block. -/
theorem data_reply (hb : 8 ≤ c.blockSize ∧ c.blockSize ≤ 65464)
    (hblock : q.options.blockSize = c.blockSize) {k : Nat}
    (hk : k * c.blockSize < file.length)
    (hwindow : k = 0 ∨ UInt16.ofNat q.options.windowsize = 1)
    (sent : List Bytes) :
    ∃ n, n < 2 * (blockCount c.blockSize file - k) ∧ StorePhase c file q order n
      ⟨⟨(q.step (.receiving (received c file k)) (.datagram (segPacket c.blockSize file k))).1,
        waitingFor c file k, [],
        (q.step (.receiving (received c file k)) (.datagram (segPacket c.blockSize file k))).2⟩,
        sent⟩ := by
  have hmax : c.blockSize ≤ maxBlockSize := hb.2
  have hcount : k < blockCount c.blockSize file :=
    (lt_blockCount_iff (by omega) file k).mpr (Nat.le_of_lt hk)
  have hat : WriteAt q c.blockSize file k (.receiving (received c file k)) :=
    .receiving _ hcount rfl rfl
  by_cases hlarge : q.exceeds (received c file k) (block c.blockSize file k)
  · rw [step_received_tooLarge hmax hlarge]
    exact ⟨1, by omega, .refused k sent _ (hat.not_fits hlarge)⟩
  have hnext := writeAt_appendBlock (by omega) hblock hat hlarge
  rw [step_received hmax hlarge]
  by_cases hpanic : UInt16.ofNat q.options.windowsize = 0
  · rw [WriteRequest.appendBlock, if_pos hpanic]
    exact ⟨0, by omega, .stopped _ _ sent (.panicked _ hpanic)⟩
  by_cases hshort : (block c.blockSize file k).length < c.blockSize
  · have hall : file.take ((k + 1) * c.blockSize) = file := by
      apply List.take_of_length_le
      rw [length_block] at hshort
      rw [Nat.succ_mul]
      omega
    rw [appendBlock_short hblock hpanic hshort, hall] at hnext ⊢
    refine ⟨1, by omega, .last k sent _ hshort (.stored _ ?_ (mod_ne_zero_of_short hk hshort) ?_)⟩
    · rcases hwindow with rfl | hone
      · rw [length_block] at hshort
        exact Or.inr ⟨hpanic, by omega⟩
      · exact Or.inl hone
    · cases hnext with
      | commit _ _ _ hfits => exact hfits
  have hfull : (block c.blockSize file k).length = c.blockSize :=
    Nat.le_antisymm (length_block_le _ _ _) (Nat.not_lt.mp hshort)
  by_cases hone : UInt16.ofNat q.options.windowsize = 1
  · rw [appendBlock_full hblock hone hfull]
    exact ⟨_, by omega, .acked k sent hk hfull hone⟩
  · -- the first block of a longer window is not acknowledged
    have hzero : k = 0 := by
      rcases hwindow with h | h
      · exact h
      · exact absurd h hone
    subst hzero
    rw [appendBlock_silent hblock hpanic hone hfull]
    rw [length_block] at hfull
    refine ⟨0, by omega, .stopped _ _ sent (.unfinished _ (Or.inr ?_))⟩
    rintro (h | ⟨-, hlt⟩)
    · exact hone h
    · omega

/-- **Step lemma.** Every step leads to a phase with fewer steps to go. -/
theorem StorePhase.step (hb : 8 ≤ c.blockSize ∧ c.blockSize ≤ 65464)
    (hblock : q.options.blockSize = c.blockSize) (n : Nat) (s s' : PacedUpload)
    (h : StorePhase c file q order n s)
    (hstep : PacedStep c file q order s s') :
    ∃ m, m < n ∧ StorePhase c file q order m s' := by
  cases h with
  | request =>
      obtain ⟨d₀, hstart, hnext⟩ := putStep_start c file q order
      rw [pacedStart, hstart] at hstep
      rcases pacedStep_cases hstep with ⟨d, rest, h, -⟩ | ⟨d, rest, h, rfl⟩
      · cases h
      · cases h
        obtain ⟨m, hm, hphase⟩ := @storePhase_putNext c file q order (by omega) 0 (Or.inl rfl)
          (by omega) ([] ++ (c.putNext 1 file).2)
        rw [Nat.zero_mul, List.drop_zero, wire_one, received_zero] at hphase
        refine ⟨m, by omega, ?_⟩
        rw [hnext]
        exact hphase
  | data k sent hk hwindow =>
      rcases pacedStep_cases hstep with ⟨d, rest, h, rfl⟩ | ⟨d, rest, h, -⟩
      · cases h
        exact data_reply hb hblock hk hwindow sent
      · cases h
  | acked k sent hk hfull hone =>
      rcases pacedStep_cases hstep with ⟨d, rest, h, -⟩ | ⟨d, rest, h, rfl⟩
      · cases h
      · cases h
        have hcount : k < blockCount c.blockSize file :=
          (lt_blockCount_iff (by omega) file k).mpr (Nat.le_of_lt hk)
        have hend : (k + 1) * c.blockSize ≤ file.length := by
          rw [length_block] at hfull
          rw [Nat.succ_mul]
          omega
        rw [putStep_acked, if_neg (by omega), wire_add_one]
        obtain ⟨m, hm, hphase⟩ := @storePhase_putNext c file q order (by omega) (k + 1)
          (Or.inr hone) hend
          (sent ++ (c.putNext (wire (k + 1 + 1)) (file.drop ((k + 1) * c.blockSize))).2)
        exact ⟨m, by omega, hphase⟩
  | last k sent st hshort hstored =>
      rcases pacedStep_cases hstep with ⟨d, rest, h, -⟩ | ⟨d, rest, h, rfl⟩
      · cases h
      · cases h
        rw [putStep_acked, if_pos hshort]
        exact ⟨0, Nat.zero_lt_one, .stopped _ _ _ hstored⟩
  | refused k sent st hlarge =>
      rcases pacedStep_cases hstep with ⟨d, rest, h, -⟩ | ⟨d, rest, h, rfl⟩
      · cases h
      · cases h
        obtain ⟨e, herror⟩ := @putStep_error k c file
        rw [herror]
        exact ⟨0, Nat.zero_lt_one, .stopped _ _ _ (.tooLarge st hlarge)⟩
  | stopped l r sent houtcome =>
      rcases pacedStep_cases hstep with ⟨d, rest, h, -⟩ | ⟨d, rest, h, -⟩
      · cases h
      · cases h

/-- Only the last phase has no next step. -/
theorem StorePhase.outcome {n : Nat} {s : PacedUpload} (h : StorePhase c file q order n s)
    (hstuck : ∀ s', ¬ PacedStep c file q order s s') : Outcome c file q s.left := by
  cases h with
  | request =>
      obtain ⟨d₀, hstart, -⟩ := putStep_start c file q order
      exact absurd (FifoStep.right _ d₀ [] hstart) (hstuck _)
  | data k sent hk hwindow => exact absurd (FifoStep.left _ _ _ rfl) (hstuck _)
  | acked k sent hk hfull hone => exact absurd (FifoStep.right _ _ _ rfl) (hstuck _)
  | last k sent st hshort hstored => exact absurd (FifoStep.right _ _ _ rfl) (hstuck _)
  | refused k sent st hlarge => exact absurd (FifoStep.right _ _ _ rfl) (hstuck _)
  | stopped l r sent houtcome => exact houtcome

/-- **Upload.** The server stores the data it decodes, if it acknowledges every block, the file
does not end with a full block and is within the size limit; and else nothing. -/
theorem uploadStores_iff (hb : 8 ≤ c.blockSize ∧ c.blockSize ≤ 65464)
    (hblock : q.options.blockSize = c.blockSize) (data : Bytes) :
    UploadStores c file q order data ↔
      q.finalData file = data ∧ AcksEveryBlock c file q ∧ file.length % c.blockSize ≠ 0 ∧
        q.Fits file := by
  have hend : EndsIn (PacedStep c file q order) (pacedStart q order)
      (fun s => Outcome c file q s.left) := by
    refine ⟨acc_of_ranked (StorePhase c file q order)
      (fun n s s' h hstep => h.step hb hblock n s s' hstep) _ _ .request, ?_⟩
    intro s hs hstuck
    obtain ⟨n, hn⟩ : ∃ n, StorePhase c file q order n s := by
      refine invariant_of_step (fun s => ∃ n, StorePhase c file q order n s) ?_ ⟨_, .request⟩ hs
      rintro s s' ⟨n, hn⟩ hss
      obtain ⟨m, -, hm⟩ := hn.step hb hblock n s s' hss
      exact ⟨m, hm⟩
    exact hn.outcome hstuck
  apply hend.iff_of_outcome
  intro s houtcome
  generalize s.left = l at houtcome
  cases houtcome with
  | stored st hacks hlen hfits =>
      constructor
      · rintro ⟨st', h⟩
        exact ⟨(WriteStatus.commit.inj h).2, hacks, hlen, hfits⟩
      · rintro ⟨rfl, -⟩
        exact ⟨st, rfl⟩
  | tooLarge st hlarge =>
      constructor
      · rintro ⟨st', h⟩
        cases h
      · rintro ⟨-, -, -, hfits⟩
        exact absurd hfits hlarge
  | panicked st hW =>
      constructor
      · rintro ⟨st', h⟩
        cases h
      · rintro ⟨-, hone | ⟨hne, -⟩, -⟩
        · rw [hW] at hone
          exact absurd hone (by decide)
        · exact absurd hW hne
  | unfinished st h =>
      constructor
      · rintro ⟨st', h⟩
        cases h
      · rintro ⟨-, hacks, hlen, -⟩
        rcases h with h | h
        · exact absurd h hlen
        · exact absurd hacks h

end Steps

/-! ## Both directions -/

/-- A NETASCII client of the small server. -/
def asciiClient : TftpClient := ⟨txtHost.listenAddr, .netascii, 512, 1⟩

/-- The small server with `a.txt` in its directory. -/
def asciiTree (x : Bytes) : Tree :=
  (emptyRoot.addFile ["srv", "tftp"] "a.txt").setContent 0 x

/-- The write that a request starts. -/
def acceptedWrite : Except TftpError Dispatch → Option (TransferMode × TftpOptions × Nat)
  | .ok (.write _ q _) => some (q.mode, q.options, q.maxFileSizeBytes)
  | _ => none

theorem eq_write_of_acceptedWrite {r : Except TftpError Dispatch} {mode : TransferMode}
    {options : TftpOptions} {max : Nat} (h : acceptedWrite r = some (mode, options, max)) :
    ∃ p q created, r = .ok (.write p q created) ∧ q.mode = mode ∧ q.options = options ∧
      q.maxFileSizeBytes = max := by
  unfold acceptedWrite at h
  split at h
  · rename_i p q created
    cases h
    exact ⟨p, q, created, rfl, rfl, rfl, rfl⟩
  · cases h

theorem acceptedWrite_a (n : Nat) (hn : n = 2) :
    acceptedWrite (handleClient txtHost.env emptyRoot txtHost.glob txtHost.config txtHost.order
      (asciiClient.wrqPacket "a.txt" n))
        = some (.netascii, { transferSize := some 2 }, 0) := by
  subst hn
  decide +kernel

end UsgTftp
