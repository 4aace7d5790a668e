import UsgTftp.Download.Recovery

set_option autoImplicit false

/-! # Downloads that lose one datagram

`TftpClient::get` and `send_file_data_streaming`, joined by ordered channels of which one DATA
datagram is lost. The server's timer repeats the window of the lost block. Each ACK of a
duplicate costs the server one of its retries and makes it repeat the window once more, so the
surplus ACKs grow by a factor of the window size with every further window, until the server
gives up or the last window is sent. The client returns only if it reads the final block in
its turn: if it is written from the buffer, `get` goes on waiting.

`single_loss_iff` gives the exact condition under which the download ends well. The steps of
the two sides commute, so one run decides about all of them: `nonempty_settles` follows it
through the windows before the loss (`UpToLoss`), the repeated window (`Repeated`) and the
windows after it (`AtWindow`).
-/

namespace UsgTftp

open Reactive Segment SeqNum Relation

/-! ## The system -/

abbrev OneLossDownload := OneLoss GetStatus (SendStatus StreamState) Bytes Bytes

/-- The client and the sender, with the client's block size and window; DATA datagram number
`lost`, counted from zero in the order of sending, is lost. -/
def OneLossDownloadStep (c : TftpClient) (file : Bytes) (tid : SocketAddr) (lost : Nat) :
    OneLossDownload → OneLossDownload → Prop :=
  OneLossStep (clientReads c tid) (senderReads c file) (senderTimeout c file)
    SendStatus.running lost

/-- The first window is sent. The client knows the address of the transfer if an OACK came
before it. -/
def oneLossStart (c : TftpClient) (file : Bytes) (tid : SocketAddr) (lost : Nat) (oack : Bool) :
    OneLossDownload :=
  let m := sendFileDataStreaming file file.length .octet c.blockSize c.windowsize
  ⟨⟨.receiving { serverTid := if oack then some tid else none }, m.start.1,
    arriving lost 0 m.start.2, []⟩, m.start.2.length⟩

/-- `get` has returned `Ok` and written the file. -/
def Downloaded (file : Bytes) (s : OneLossDownload) : Prop :=
  ∃ g, s.left = .returned (.ok ()) g ∧ g.written = file

/-- **The losses that are tolerated**, in a transfer of `n` blocks: if the lost block is in
the last window it has to be the final one; else its place in the window, which is the
number of failed attempts at that window, has to stay below the limit, and so have the
surplus ACKs in every later window but the last. -/
def Tolerates (n W lost : Nat) : Prop :=
  let later := (n - 1) / W - lost / W
  let place := lost % W + 1
  if later = 0 then lost + 1 = n
  else place < maxRetries ∧ (2 ≤ later → place * (W - 1) * W ^ (later - 2) < maxRetries)

instance (n W lost : Nat) : Decidable (Tolerates n W lost) := by
  unfold Tolerates; exact inferInstance

section

variable {c : TftpClient} {file : Bytes} {tid : SocketAddr} {lost : Nat} {oack : Bool}

/-! ## Downloads that never end well -/

/-- A block that is not the final one never ends the download. -/
theorem getStep_not_final (hb : 0 < c.blockSize) {g : GetState}
    (hserver : g.serverTid = none ∨ g.serverTid = some tid) {i : Nat}
    (hi : i + 1 < blockCount c.blockSize file) :
    ∃ g', (g'.serverTid = none ∨ g'.serverTid = some tid) ∧
      (clientReads c tid (.receiving g) (segPacket c.blockSize file i)).1 = .receiving g' := by
  have hfull : ¬(block c.blockSize file i).length < c.blockSize := by
    rw [length_block_lt_iff hb file (by omega)]
    omega
  rw [clientReads, getStep_server hserver, getPacket_segPacket, TftpClient.getData]
  simp only [hfull, decide_false, Bool.false_eq_true, if_false]
  split_ifs
  · exact ⟨_, Or.inr rfl, rfl⟩
  · exact ⟨_, Or.inr rfl, rfl⟩
  · exact ⟨_, Or.inr rfl, rfl⟩
  · exact ⟨_, Or.inr rfl, rfl⟩

/-- Once the client expects the block after the final one, every block is a duplicate, or is
buffered if the expected number has wrapped. -/
theorem getStep_past (hn : blockCount c.blockSize file ≤ 65535) {g : GetState}
    (hserver : g.serverTid = none ∨ g.serverTid = some tid)
    (hexp : g.expectedBlock = wire (blockCount c.blockSize file + 1)) {i : Nat}
    (hi : i < blockCount c.blockSize file) :
    ∃ g', (g'.serverTid = none ∨ g'.serverTid = some tid) ∧
      g'.expectedBlock = wire (blockCount c.blockSize file + 1) ∧
      (clientReads c tid (.receiving g) (segPacket c.blockSize file i)).1 = .receiving g' := by
  rw [clientReads, getStep_server hserver, getPacket_segPacket, TftpClient.getData]
  by_cases hlt : wire (i + 1) < g.expectedBlock
  · rw [if_pos hlt]
    exact ⟨{ g with serverTid := some tid }, Or.inr rfl, hexp, rfl⟩
  · have hgt : wire (i + 1) > g.expectedBlock := by
      rw [hexp, UInt16.lt_iff_toNat_lt, toNat_wire, toNat_wire] at hlt
      rw [hexp, gt_iff_lt, UInt16.lt_iff_toNat_lt, toNat_wire, toNat_wire]
      omega
    rw [if_neg hlt, if_pos hgt]
    exact ⟨{ g with
      serverTid := some tid
      blockBuffer := g.blockBuffer.insert (wire (i + 1)) (block c.blockSize file i) },
      Or.inr rfl, hexp, rfl⟩

/-- The states from which `get` never returns. -/
inductive Stuck (c : TftpClient) (file : Bytes) (tid : SocketAddr) : OneLossDownload → Prop where
  /-- The sender has given up, and no final block is on the way. -/
  | gaveUp (g : GetState) (e : SendExit) (toL toR : List Bytes) (sent : Nat)
      (hserver : g.serverTid = none ∨ g.serverTid = some tid)
      (hdata : ∀ d ∈ toL, ∃ i, i + 1 < blockCount c.blockSize file ∧
        d = segPacket c.blockSize file i) :
      Stuck c file tid ⟨⟨.receiving g, .done e, toL, toR⟩, sent⟩
  /-- The client is past the final block. -/
  | past (g : GetState) (a : WindowSender.State) (toL toR : List Bytes) (sent : Nat)
      (hserver : g.serverTid = none ∨ g.serverTid = some tid)
      (hexp : g.expectedBlock = wire (blockCount c.blockSize file + 1))
      (hvalid : WindowSender.Valid (segPackets c.blockSize file) maxRetries a)
      (hdata : ∀ d ∈ toL, d ∈ segPackets c.blockSize file) :
      Stuck c file tid
        ⟨⟨.receiving g, streamStatus c.blockSize file c.windowsize a, toL, toR⟩, sent⟩
  /-- The single packet of an empty file is lost. -/
  | emptyLost (g : GetState) (retry sent : Nat)
      (hserver : g.serverTid = none ∨ g.serverTid = some tid) :
      Stuck c file tid ⟨⟨.receiving g, .awaitingEmpty retry, [], []⟩, sent⟩

theorem Stuck.not_downloaded {s : OneLossDownload} (h : Stuck c file tid s) :
    ¬Downloaded file s := by
  rintro ⟨g, hleft, -⟩
  cases h <;> cases hleft

theorem mem_arriving {μ : Type} {lost sent : Nat} {ms : List μ} {m : μ}
    (h : m ∈ arriving lost sent ms) : m ∈ ms := by
  unfold arriving at h
  split_ifs at h
  · exact List.mem_of_mem_eraseIdx h
  · exact h

/-- A reply or a timeout at a valid state of the sender. -/
theorem sender_step_valid (hb : 0 < c.blockSize) (hW : 0 < c.windowsize) {a : WindowSender.State}
    (hvalid : WindowSender.Valid (segPackets c.blockSize file) maxRetries a) (r : Recv) :
    ∃ a', WindowSender.Valid (segPackets c.blockSize file) maxRetries a' ∧
      (sendFileDataStreamingStep file .octet c.blockSize c.windowsize
        (streamStatus c.blockSize file c.windowsize a) r).1
        = streamStatus c.blockSize file c.windowsize a' ∧
      ∀ d ∈ (sendFileDataStreamingStep file .octet c.blockSize c.windowsize
        (streamStatus c.blockSize file c.windowsize a) r).2, d ∈ segPackets c.blockSize file := by
  cases a with
  | finished => exact ⟨.finished, trivial, rfl, fun d hd => by cases hd⟩
  | gaveUp pos => exact ⟨.gaveUp pos, trivial, rfl, fun d hd => by cases hd⟩
  | awaiting pos retries =>
      have hpos : pos < blockCount c.blockSize file := by simpa using hvalid.1
      rw [streamStatus, sendFileDataStreamingStep_eq hb hW hpos]
      exact ⟨_, WindowSender.valid_step hvalid r, rfl,
        fun d hd => WindowSender.mem_of_mem_step hd⟩

/-- **No step leads out of these states.** -/
theorem Stuck.step (hb : 0 < c.blockSize) (hW : 0 < c.windowsize)
    (hn : blockCount c.blockSize file ≤ 65535) {s s' : OneLossDownload}
    (h : Stuck c file tid s) (hstep : OneLossDownloadStep c file tid lost s s') :
    Stuck c file tid s' := by
  cases h with
  | gaveUp g e toL toR sent hserver hdata =>
      -- the client still reads what is on the way, but none of it is final
      cases hstep with
      | left m rest heq =>
          simp only at heq
          subst heq
          obtain ⟨i, hi, rfl⟩ := hdata m List.mem_cons_self
          obtain ⟨g', hserver', hreads⟩ := getStep_not_final hb hserver hi
          simp only [hreads]
          exact .gaveUp g' e _ _ _ hserver' fun d hd => hdata d (List.mem_cons_of_mem _ hd)
      | right m rest heq =>
          refine .gaveUp g e _ _ _ hserver fun d hd => ?_
          rcases List.mem_append.mp hd with hd | hd
          · exact hdata d hd
          · exact absurd (mem_arriving hd) (by intro hd; cases hd)
      | timer hl hr hwait => cases hwait
  | past g a toL toR sent hserver hexp hvalid hdata =>
      -- the sender goes on as it likes, with packets of the file only
      cases hstep with
      | left m rest heq =>
          simp only at heq
          subst heq
          obtain ⟨i, hi, rfl⟩ := mem_segPackets.mp (hdata m List.mem_cons_self)
          obtain ⟨g', hserver', hexp', hreads⟩ := getStep_past hn hserver hexp hi
          simp only [hreads]
          exact .past g' a _ _ _ hserver' hexp' hvalid
            fun d hd => hdata d (List.mem_cons_of_mem _ hd)
      | right m rest heq =>
          obtain ⟨a', hvalid', hstatus, hsent⟩ := sender_step_valid hb hW hvalid (.datagram m)
          simp only [senderReads, hstatus]
          refine .past g a' _ _ _ hserver hexp hvalid' fun d hd => ?_
          rcases List.mem_append.mp hd with hd | hd
          · exact hdata d hd
          · exact hsent d (mem_arriving hd)
      | timer hl hr hwait =>
          obtain ⟨a', hvalid', hstatus, hsent⟩ := sender_step_valid hb hW hvalid .timeout
          simp only [senderTimeout, hstatus]
          exact .past g a' _ _ _ hserver hexp hvalid' fun d hd => hsent d (mem_arriving hd)
  | emptyLost g retry sent hserver =>
      -- `wait_for_ack` only waits again
      cases hstep with
      | left m rest heq => cases heq
      | right m rest heq => cases heq
      | timer hl hr hwait =>
          have hnil : arriving lost sent ([] : List Bytes) = [] :=
            List.eq_nil_iff_forall_not_mem.mpr fun d hd => by cases mem_arriving hd
          have hout : (senderTimeout c file (.awaitingEmpty retry)).2 = [] := rfl
          simp only [hout, hnil]
          show Stuck c file tid ⟨⟨_, awaitEmpty retry .timeout, _, _⟩, _⟩
          rcases awaitEmpty_cases (σ := StreamState) retry .timeout with ⟨e, he⟩ | ⟨-, he⟩
          · rw [he]
            exact .gaveUp g e [] [] _ hserver fun d hd => by cases hd
          · rw [he]
            exact .emptyLost g _ _ hserver

/-! ## Every run ends -/

theorem length_getData_le (c : TftpClient) (g : GetState) (tid : SocketAddr) (n : UInt16)
    (data : Bytes) : (c.getData g tid n data).2.length ≤ 1 := by
  rw [TftpClient.getData]
  split_ifs with hlt hgt
  · exact Nat.le_refl _
  · exact Nat.zero_le _
  · simp only
    split_ifs <;> simp

theorem length_clientReads_le (st : GetStatus) (d : Bytes) :
    (clientReads c tid st d).2.length ≤ 1 := by
  have hpacket : ∀ g d, (c.getPacket g tid d).2.length ≤ 1 := by
    intro g d
    rw [TftpClient.getPacket]
    cases header d with
    | none => exact Nat.zero_le _
    | some v =>
        simp only
        split
        · exact length_getData_le _ _ _ _ _
        · exact Nat.zero_le _
        · exact Nat.le_refl _
        · exact Nat.zero_le _
  rw [clientReads, List.length_map]
  cases st with
  | returned result g => exact Nat.zero_le _
  | receiving g =>
      rw [TftpClient.getStep]
      cases htid : g.serverTid with
      | none => exact hpacket _ _
      | some tid' =>
          simp only
          split_ifs with hne
          · exact Nat.zero_le _
          · obtain rfl : tid = tid' := not_not.mp hne
            exact hpacket _ _

/-- How many more replies and timeouts the sender can read. -/
inductive SenderRank (c : TftpClient) (file : Bytes) : Nat → SendStatus StreamState → Prop where
  | window (a : WindowSender.State)
      (hvalid : WindowSender.Valid (segPackets c.blockSize file) maxRetries a) :
      SenderRank c file (WindowSender.budget (segPackets c.blockSize file) maxRetries a)
        (streamStatus c.blockSize file c.windowsize a)
  | empty (retry : Nat) (hretry : retry < maxRetries) :
      SenderRank c file (maxRetries - retry) (.awaitingEmpty retry)
  | done (e : SendExit) : SenderRank c file 0 (.done e)

theorem SenderRank.step (hb : 0 < c.blockSize) (hW : 0 < c.windowsize) {n : Nat}
    {s : SendStatus StreamState} (h : SenderRank c file n s) (hs : s.running = true) (r : Recv) :
    ∃ n', n' < n ∧ SenderRank c file n'
      (sendFileDataStreamingStep file .octet c.blockSize c.windowsize s r).1 := by
  cases h with
  | done e => cases hs
  | empty retry hretry =>
      show ∃ n', n' < _ ∧ SenderRank c file n' (awaitEmpty retry r)
      rcases awaitEmpty_cases (σ := StreamState) retry r with ⟨e, he⟩ | ⟨hlt, he⟩
      · rw [he]
        exact ⟨0, by omega, .done e⟩
      · rw [he]
        exact ⟨_, by omega, .empty _ hlt⟩
  | window a hvalid =>
      cases a with
      | finished => cases hs
      | gaveUp pos => cases hs
      | awaiting pos retries =>
          have hpos : pos < blockCount c.blockSize file := by simpa using hvalid.1
          rw [streamStatus, sendFileDataStreamingStep_eq hb hW hpos]
          exact ⟨_, WindowSender.budget_step hW hvalid rfl r,
            .window _ (WindowSender.valid_step hvalid r)⟩

theorem senderRank_start (hb : 0 < c.blockSize) (hW : 0 < c.windowsize) :
    ∃ n, SenderRank c file n
      (sendFileDataStreaming file file.length .octet c.blockSize c.windowsize).start.1 := by
  by_cases hfile : file = []
  · subst hfile
    exact ⟨_, .empty 0 (by decide)⟩
  · rw [(streaming_simulates hb hW hfile).start]
    exact ⟨_, .window (.awaiting 0 0)
      ⟨List.length_pos_of_ne_nil (segPackets_ne_nil _ _), by decide⟩⟩

theorem oneLossStart_acc (hb : 0 < c.blockSize) (hW : 0 < c.windowsize) :
    Acc (fun t s => OneLossDownloadStep c file tid lost s t)
      (oneLossStart c file tid lost oack) := by
  obtain ⟨n, hn⟩ := @senderRank_start c file hb hW
  refine OneLossStep.acc (SenderRank c file) length_clientReads_le ?_ ?_ ?_ n _ _ hn
    (Nat.le_refl _)
  · intro n r hr hwait m
    exact hr.step hb hW hwait _
  · intro n r hr hwait
    exact hr.step hb hW hwait _
  · intro n r hr hwait m
    cases r with
    | done e => rfl
    | awaiting s => cases hwait
    | awaitingEmpty retry => cases hwait

theorem downloaded_step {s s' : OneLossDownload} (h : Downloaded file s)
    (hstep : OneLossDownloadStep c file tid lost s s') : Downloaded file s' := by
  obtain ⟨g, hleft, hwritten⟩ := h
  cases hstep with
  | left m rest heq =>
      refine ⟨g, ?_, hwritten⟩
      show (clientReads c tid s.left m).1 = _
      rw [hleft]
      rfl
  | right m rest heq => exact ⟨g, hleft, hwritten⟩
  | timer hl hr hwait => exact ⟨g, hleft, hwritten⟩

/-- The download ends well if one of its runs does. -/
theorem endsIn_downloaded (hb : 0 < c.blockSize) (hW : 0 < c.windowsize) {s : OneLossDownload}
    (hs : ReflTransGen (OneLossDownloadStep c file tid lost) (oneLossStart c file tid lost oack) s)
    (hdone : Downloaded file s) :
    EndsIn (OneLossDownloadStep c file tid lost) (oneLossStart c file tid lost oack)
      (Downloaded file) :=
  endsIn_of_reaches OneLossStep.diamond (oneLossStart_acc hb hW)
    (fun _ _ h hstep => downloaded_step h hstep) hs hdone

theorem not_endsIn_downloaded (hb : 0 < c.blockSize) (hW : 0 < c.windowsize)
    (hn : blockCount c.blockSize file ≤ 65535) {s : OneLossDownload}
    (hs : ReflTransGen (OneLossDownloadStep c file tid lost) (oneLossStart c file tid lost oack) s)
    (hstuck : Stuck c file tid s) :
    ¬EndsIn (OneLossDownloadStep c file tid lost) (oneLossStart c file tid lost oack)
      (Downloaded file) :=
  not_endsIn_of_reaches (fun _ _ h hstep => Stuck.step hb hW hn h hstep)
    (fun _ h => h.not_downloaded) hs hstuck

/-! ## Windows after the loss -/

/-- The window at `pos` is on the way for the first time, and with it `surplus` more ACKs of
the window before than the sender needs. -/
def AtWindow (c : TftpClient) (file : Bytes) (tid : SocketAddr) (lost pos surplus : Nat)
    (s : OneLossDownload) : Prop :=
  ∃ g sent, ClientIn c.blockSize file tid pos pos g ∧ lost < sent ∧
    s = ⟨⟨.receiving g, sending c file pos 0, windowAt c file pos,
      List.replicate surplus (ackPacket (wire pos))⟩, sent⟩

/-- The run from `s` comes to the download if `ok` holds, and else to where it cannot be. -/
def Settles (c : TftpClient) (file : Bytes) (tid : SocketAddr) (lost : Nat) (s : OneLossDownload)
    (ok : Prop) : Prop :=
  ∃ z, ReflTransGen (OneLossDownloadStep c file tid lost) s z ∧
    ((ok ∧ Downloaded file z) ∨ (¬ok ∧ Stuck c file tid z))

theorem Settles.of_reaches {s t : OneLossDownload} {ok : Prop}
    (hst : ReflTransGen (OneLossDownloadStep c file tid lost) s t)
    (h : Settles c file tid lost t ok) : Settles c file tid lost s ok := by
  obtain ⟨z, htz, hz⟩ := h
  exact ⟨z, hst.trans htz, hz⟩

theorem Settles.endsIn_iff (hb : 0 < c.blockSize) (hW : 0 < c.windowsize)
    (hn : blockCount c.blockSize file ≤ 65535) {ok : Prop}
    (h : Settles c file tid lost (oneLossStart c file tid lost oack) ok) :
    EndsIn (OneLossDownloadStep c file tid lost) (oneLossStart c file tid lost oack)
        (Downloaded file)
      ↔ ok := by
  obtain ⟨z, hz, ⟨hok, hdone⟩ | ⟨hok, hstuck⟩⟩ := h
  · exact iff_of_true (endsIn_downloaded hb hW hz hdone) hok
  · exact iff_of_false (not_endsIn_downloaded hb hW hn hz hstuck) hok

/-- The client reads what has arrived. -/
theorem reaches_client {ms rest toR out : List Bytes} {l l' : GetStatus}
    {r : SendStatus StreamState} {sent : Nat} (h : feed (clientReads c tid) l ms = (l', out)) :
    ReflTransGen (OneLossDownloadStep c file tid lost) ⟨⟨l, r, ms ++ rest, toR⟩, sent⟩
      ⟨⟨l', r, rest, toR ++ out⟩, sent⟩ := by
  have hread := @reaches_left _ _ _ _ (clientReads c tid) (senderReads c file)
    (senderTimeout c file) SendStatus.running lost ms l r rest toR sent
  rwa [h] at hread

theorem reaches_client_all {ms toR out : List Bytes} {l l' : GetStatus}
    {r : SendStatus StreamState} {sent : Nat} (h : feed (clientReads c tid) l ms = (l', out)) :
    ReflTransGen (OneLossDownloadStep c file tid lost) ⟨⟨l, r, ms, toR⟩, sent⟩
      ⟨⟨l', r, [], toR ++ out⟩, sent⟩ := by
  have hread := @reaches_client c file tid lost ms [] toR out l l' r sent h
  rwa [List.append_nil] at hread

/-- The sender reads what has arrived, after the loss. -/
theorem reaches_sender {ms rest out : List Bytes} {l : GetStatus}
    {r r' : SendStatus StreamState} {sent : Nat} (hsent : lost < sent)
    (h : feed (senderReads c file) r ms = (r', out)) :
    ReflTransGen (OneLossDownloadStep c file tid lost) ⟨⟨l, r, [], ms ++ rest⟩, sent⟩
      ⟨⟨l, r', out, rest⟩, sent + out.length⟩ := by
  have hread := @reaches_right _ _ _ _ (clientReads c tid) (senderReads c file)
    (senderTimeout c file) SendStatus.running lost ms l r [] rest sent hsent
  rwa [h] at hread

theorem windowAt_mem {pos : Nat} {d : Bytes} (h : d ∈ windowAt c file pos) :
    ∃ i, pos ≤ i ∧ i < pos + c.windowsize ∧ i < blockCount c.blockSize file ∧
      d = segPacket c.blockSize file i := by
  rw [windowAt_eq] at h
  obtain ⟨i, hi, rfl⟩ := List.mem_map.mp h
  rw [List.mem_range'_1, windowLen] at hi
  exact ⟨i, by omega, by omega, by omega, rfl⟩

/-- The repetitions of a window, as one list of blocks. -/
theorem flatten_windowAt {pos : Nat} (h : pos + c.windowsize ≤ blockCount c.blockSize file)
    (m : Nat) : (List.replicate m (windowAt c file pos)).flatten
      = ((List.replicate m (List.range' pos c.windowsize)).flatten).map
          (segPacket c.blockSize file) := by
  rw [windowAt_full h, List.map_flatten, List.map_replicate]

/-- The client answers every block of the repetitions. -/
theorem feed_repetitions {pos m : Nat} {g : GetState}
    (hn : blockCount c.blockSize file ≤ 65535)
    (hmore : pos + c.windowsize < blockCount c.blockSize file)
    (hg : ClientIn c.blockSize file tid (pos + c.windowsize) (pos + c.windowsize) g) :
    ∃ g', ClientIn c.blockSize file tid (pos + c.windowsize) (pos + c.windowsize) g' ∧
      feed (clientReads c tid) (.receiving g) (List.replicate m (windowAt c file pos)).flatten
        = (.receiving g',
          List.replicate (m * c.windowsize) (ackPacket (wire (pos + c.windowsize)))) := by
  have hold : ∀ i ∈ (List.replicate m (List.range' pos c.windowsize)).flatten,
      i < pos + c.windowsize := by
    intro i hi
    obtain ⟨l, hl, hil⟩ := List.mem_flatten.mp hi
    rw [List.eq_of_mem_replicate hl, List.mem_range'_1] at hil
    exact hil.2
  obtain ⟨g', hsame, hfeed⟩ := @feed_duplicates c file tid (pos + c.windowsize) (by omega) _ g hold
    hg.expected hg.server
  refine ⟨g', hg.congr hsame, ?_⟩
  rw [flatten_windowAt (by omega), hfeed, hg.lastAck]
  simp

/-- **The sender goes on** after `m` ACKs that repeat the window, if they stay within its
retries. Every repeated block becomes a surplus ACK of this window. -/
theorem reaches_nextWindow (hb : 0 < c.blockSize)
    (hW : 1 ≤ c.windowsize ∧ c.windowsize ≤ 65535) (hn : blockCount c.blockSize file ≤ 65535)
    {pos retries m k sent : Nat} {g : GetState}
    (hg : ClientIn c.blockSize file tid (pos + c.windowsize) (pos + c.windowsize) g)
    (hmore : pos + c.windowsize < blockCount c.blockSize file) (hsent : lost < sent)
    (hm : retries + m < maxRetries) :
    ∃ s, ReflTransGen (OneLossDownloadStep c file tid lost)
        ⟨⟨.receiving g, sending c file pos retries, [],
          (List.replicate m (ackPacket (wire pos)) ++ [ackPacket (wire (pos + c.windowsize))])
            ++ List.replicate k (ackPacket (wire (pos + c.windowsize)))⟩, sent⟩ s ∧
      AtWindow c file tid lost (pos + c.windowsize) (k + m * c.windowsize) s := by
  have hfeed : feed (senderReads c file) (sending c file pos retries)
      (List.replicate m (ackPacket (wire pos)) ++ [ackPacket (wire (pos + c.windowsize))])
      = (sending c file (pos + c.windowsize) 0,
        (List.replicate m (windowAt c file pos)).flatten
          ++ windowAt c file (pos + c.windowsize)) := by
    rw [feed_append, feed_surplus hb hW (by omega) m retries hm, feed_singleton,
      senderReads_ack hb hW.1 hmore]
  obtain ⟨g', hg', hrepeats⟩ := @feed_repetitions c file tid pos m g hn hmore hg
  refine ⟨_, (reaches_sender hsent hfeed).trans (reaches_client hrepeats), ?_⟩
  refine ⟨g', _, hg', ?_, by rw [List.replicate_append_replicate]⟩
  omega

/-- **The sender gives up** if there are too many of them. -/
theorem reaches_gaveUp (hb : 0 < c.blockSize) (hW : 1 ≤ c.windowsize ∧ c.windowsize ≤ 65535)
    {pos retries m sent : Nat} {g : GetState} {rest : List Bytes}
    (hserver : g.serverTid = none ∨ g.serverTid = some tid)
    (hmore : pos + c.windowsize < blockCount c.blockSize file) (hsent : lost < sent)
    (hretries : retries < maxRetries) (hm : maxRetries ≤ retries + m) :
    ∃ s, ReflTransGen (OneLossDownloadStep c file tid lost)
        ⟨⟨.receiving g, sending c file pos retries, [],
          List.replicate m (ackPacket (wire pos)) ++ rest⟩, sent⟩ s ∧
      Stuck c file tid s := by
  obtain ⟨e, hdone, hmem⟩ := @feed_too_many c file hb hW pos (by omega) m retries hretries hm
  refine ⟨_, reaches_sender hsent rfl, ?_⟩
  rw [hdone]
  refine .gaveUp g e _ _ _ hserver fun d hd => ?_
  obtain ⟨i, -, hi, -, rfl⟩ := windowAt_mem (hmem d hd)
  exact ⟨i, by omega, rfl⟩

/-- **What happens from a window on.** With `k` windows to come after it, the surplus grows
by a factor of the window size in each but the last. -/
theorem atWindow_settles (hb : 0 < c.blockSize) (hW : 1 ≤ c.windowsize ∧ c.windowsize ≤ 65535)
    (hn : blockCount c.blockSize file ≤ 65535) :
    ∀ (k pos surplus : Nat) (s : OneLossDownload), AtWindow c file tid lost pos surplus s →
      pos + k * c.windowsize < blockCount c.blockSize file →
      blockCount c.blockSize file ≤ pos + (k + 1) * c.windowsize →
      Settles c file tid lost s (k = 0 ∨ surplus * c.windowsize ^ (k - 1) < maxRetries) := by
  intro k
  induction k with
  | zero =>
      intro pos surplus s hs hlt hle
      obtain ⟨g, sent, hg, -, rfl⟩ := hs
      obtain ⟨g', hwritten, hlast⟩ := feed_last hb hW hg (by omega) (by omega)
      exact ⟨_, reaches_client_all rfl, Or.inl ⟨Or.inl rfl, g', hlast, hwritten⟩⟩
  | succ k ih =>
      intro pos surplus s hs hlt hle
      obtain ⟨g, sent, hg, hsent, rfl⟩ := hs
      rw [Nat.succ_mul] at hlt
      rw [Nat.succ_mul] at hle
      have hmore : pos + c.windowsize < blockCount c.blockSize file := by omega
      -- the client reads the window first, then the sender all the ACKs
      obtain ⟨g', hg', hfeed⟩ := feed_window hb hW hg hmore
      apply Settles.of_reaches (reaches_client_all hfeed)
      by_cases hm : surplus < maxRetries
      · -- every surplus ACK has cost one more copy of the window, each block of it an ACK
        obtain ⟨t, hreach, ht⟩ := @reaches_nextWindow c file tid lost hb hW hn pos 0 surplus 0 sent
          g' hg' hmore hsent (by omega)
        rw [Nat.zero_add] at ht
        rw [List.replicate_zero, List.append_nil] at hreach
        apply Settles.of_reaches hreach
        have hsettles := ih _ _ t ht (by omega) (by omega)
        have hok : (k = 0 ∨ surplus * c.windowsize * c.windowsize ^ (k - 1) < maxRetries)
            ↔ (k + 1 = 0 ∨ surplus * c.windowsize ^ (k + 1 - 1) < maxRetries) := by
          cases k with
          | zero => simp [hm]
          | succ k =>
              rw [Nat.add_sub_cancel, Nat.add_sub_cancel, Nat.pow_succ', ← Nat.mul_assoc]
              simp
        rwa [propext hok] at hsettles
      · obtain ⟨t, hreach, ht⟩ := @reaches_gaveUp c file tid lost hb hW pos 0 surplus sent g'
          [ackPacket (wire (pos + c.windowsize))] hg'.server hmore hsent (by decide) (by omega)
        refine ⟨t, hreach, Or.inr ⟨?_, ht⟩⟩
        -- the surplus of the later windows is larger still
        have hpow : maxRetries ≤ surplus * c.windowsize ^ (k + 1 - 1) :=
          calc maxRetries ≤ surplus := Nat.not_lt.mp hm
            _ ≤ surplus * c.windowsize ^ (k + 1 - 1) :=
              Nat.le_mul_of_pos_right _ (Nat.pow_pos hW.1)
        omega

/-! ## Windows up to the loss -/

/-- The window at `pos` is sent, and all before it has been written and acknowledged. -/
def UpToLoss (c : TftpClient) (file : Bytes) (tid : SocketAddr) (lost pos : Nat)
    (s : OneLossDownload) : Prop :=
  ∃ g, ClientIn c.blockSize file tid pos pos g ∧
    s = ⟨⟨.receiving g, sending c file pos 0, arriving lost pos (windowAt c file pos), []⟩,
      pos + (windowAt c file pos).length⟩

theorem length_windowAt (pos : Nat) : (windowAt c file pos).length
    = windowLen c.blockSize file c.windowsize pos := by
  rw [windowAt_eq, List.length_map, List.length_range']

theorem server_oack (tid : SocketAddr) (oack : Bool) :
    (if oack then some tid else none) = none ∨ (if oack then some tid else none) = some tid := by
  cases oack
  · exact Or.inl rfl
  · exact Or.inr rfl

theorem upToLoss_start (hb : 0 < c.blockSize) (hW : 0 < c.windowsize) (hfile : file ≠ []) :
    UpToLoss c file tid lost 0 (oneLossStart c file tid lost oack) := by
  refine ⟨{ serverTid := if oack then some tid else none },
    ⟨rfl, server_oack tid oack, rfl, rfl, ?_⟩, ?_⟩
  · rw [Nat.zero_mul, List.take_zero]
  · rw [oneLossStart, (streaming_simulates hb hW hfile).start, Nat.zero_add]
    rfl

/-- A window before that of the lost block. -/
theorem upToLoss_next (hb : 0 < c.blockSize) (hW : 1 ≤ c.windowsize ∧ c.windowsize ≤ 65535)
    {pos : Nat} {s : OneLossDownload} (hs : UpToLoss c file tid lost pos s)
    (hlost : lost < blockCount c.blockSize file) (hpos : pos + c.windowsize ≤ lost) :
    ∃ s', ReflTransGen (OneLossDownloadStep c file tid lost) s s' ∧
      UpToLoss c file tid lost (pos + c.windowsize) s' := by
  obtain ⟨g, hg, rfl⟩ := hs
  have hlen : (windowAt c file pos).length = c.windowsize := by
    rw [length_windowAt, windowLen]
    omega
  obtain ⟨g', hg', hfeed⟩ := feed_window hb hW hg (by omega)
  rw [arriving_before (by omega), hlen]
  refine ⟨_, (reaches_client_all hfeed).tail (.right _ _ [] rfl), g', hg', ?_⟩
  have hack := @senderReads_ack c file hb hW.1 pos (by omega) 0
  simp only [hack, List.nil_append]

/-- **Up to the window of the lost block** nothing is repeated. -/
theorem reaches_upToLoss (hb : 0 < c.blockSize) (hW : 1 ≤ c.windowsize ∧ c.windowsize ≤ 65535)
    (hfile : file ≠ []) (hlost : lost < blockCount c.blockSize file) :
    ∀ k, k * c.windowsize ≤ lost → ∃ s,
      ReflTransGen (OneLossDownloadStep c file tid lost) (oneLossStart c file tid lost oack) s ∧
      UpToLoss c file tid lost (k * c.windowsize) s := by
  intro k
  induction k with
  | zero =>
      intro _
      have hstart := @upToLoss_start c file tid lost oack hb hW.1 hfile
      rw [← Nat.zero_mul c.windowsize] at hstart
      exact ⟨_, .refl, hstart⟩
  | succ k ih =>
      intro hk
      rw [Nat.succ_mul] at hk ⊢
      obtain ⟨s, hreach, hs⟩ := ih (by omega)
      obtain ⟨s', hnext, hs'⟩ := upToLoss_next hb hW hs hlost hk
      exact ⟨s', hreach.trans hnext, hs'⟩

/-! ## The window of the lost block is repeated -/

/-- The client has a hole at the lost block, and the window is on the way again. -/
def Repeated (c : TftpClient) (file : Bytes) (tid : SocketAddr) (lost pos : Nat)
    (s : OneLossDownload) : Prop :=
  ∃ g sent, HoleIn c.blockSize file tid lost (pos + windowLen c.blockSize file c.windowsize pos)
      pos g ∧ lost < sent ∧
    s = ⟨⟨.receiving g, sending c file pos 1, windowAt c file pos, []⟩, sent⟩

/-- The loss, and the timeout after it. -/
theorem reaches_repeated (hb : 0 < c.blockSize) (hW : 1 ≤ c.windowsize ∧ c.windowsize ≤ 65535)
    (hn : blockCount c.blockSize file ≤ 65535) {pos : Nat} {s : OneLossDownload}
    (hs : UpToLoss c file tid lost pos s) (hlost : lost < blockCount c.blockSize file)
    (hpos : pos ≤ lost) (hwin : lost < pos + c.windowsize) :
    ∃ s', ReflTransGen (OneLossDownloadStep c file tid lost) s s' ∧
      Repeated c file tid lost pos s' := by
  obtain ⟨g, hg, rfl⟩ := hs
  have hlen : (windowAt c file pos).length = windowLen c.blockSize file c.windowsize pos :=
    length_windowAt pos
  have hin : lost < pos + windowLen c.blockSize file c.windowsize pos := by
    rw [windowLen]
    omega
  have hend : pos + windowLen c.blockSize file c.windowsize pos
      ≤ blockCount c.blockSize file := by
    rw [windowLen]
    omega
  obtain ⟨g', hg', hfeed⟩ := feed_lost_window hb hW hn hg rfl hpos hin hend
  rw [arriving, if_pos hpos, hlen]
  -- nothing is in flight now, so only the sender's timer can fire
  refine ⟨_, (reaches_client_all hfeed).tail (.timer _ rfl rfl rfl), ?_⟩
  have htimeout := @senderTimeout_eq c file hb hW.1 pos 0 (by omega) (by decide)
  simp only [htimeout, arriving_after hin, List.append_nil, Nat.zero_add]
  exact ⟨g', _, hg', Nat.lt_add_right _ hin, rfl⟩

/-- **The lost block is in the last window.** -/
theorem repeated_last_settles (hb : 0 < c.blockSize)
    (hn : blockCount c.blockSize file ≤ 65535) {pos : Nat} {s : OneLossDownload}
    (hs : Repeated c file tid lost pos s) (hlost : lost < blockCount c.blockSize file)
    (hpos : pos ≤ lost) (hlast : blockCount c.blockSize file ≤ pos + c.windowsize) :
    Settles c file tid lost s (lost + 1 = blockCount c.blockSize file) := by
  obtain ⟨g, sent, hg, hsent, rfl⟩ := hs
  have hend : pos + windowLen c.blockSize file c.windowsize pos
      = blockCount c.blockSize file := by
    rw [windowLen]
    omega
  rw [hend] at hg
  by_cases hfinal : lost + 1 = blockCount c.blockSize file
  · obtain ⟨g', hwritten, hdone⟩ := feed_repeated_final hb hn hg hpos hfinal hlast
    exact ⟨_, reaches_client_all rfl, Or.inl ⟨hfinal, g', hdone, hwritten⟩⟩
  · -- the client is past the final block as soon as it has read the missing one
    obtain ⟨g', hexp, hserver, hfeed⟩ := feed_repeated_last hb hn hg hpos (by omega)
    have hsplit := windowAt_split hend.symm hpos hlost
    rw [List.append_cons] at hsplit
    rw [hsplit]
    refine ⟨_, reaches_client rfl, Or.inr ⟨hfinal, ?_⟩⟩
    rw [hfeed]
    have hvalid : WindowSender.Valid (segPackets c.blockSize file) maxRetries
        (.awaiting pos 1) := by
      refine ⟨?_, by decide⟩
      rw [length_segPackets]
      omega
    refine .past g' (.awaiting pos 1) _ _ _ (Or.inr hserver) hexp hvalid fun d hd => ?_
    obtain ⟨i, hi, rfl⟩ := List.mem_map.mp hd
    rw [List.mem_range'_1] at hi
    exact mem_segPackets.mpr ⟨i, by omega, rfl⟩

/-- **The lost block is in an earlier window**, with `k` windows to come after the next. -/
theorem repeated_settles (hb : 0 < c.blockSize) (hW : 1 ≤ c.windowsize ∧ c.windowsize ≤ 65535)
    (hn : blockCount c.blockSize file ≤ 65535) {pos k : Nat} {s : OneLossDownload}
    (hs : Repeated c file tid lost pos s) (hpos : pos ≤ lost) (hwin : lost < pos + c.windowsize)
    (hlt : pos + (k + 1) * c.windowsize < blockCount c.blockSize file)
    (hle : blockCount c.blockSize file ≤ pos + (k + 2) * c.windowsize) :
    Settles c file tid lost s (lost - pos + 1 < maxRetries ∧
      (k = 0 ∨ (lost - pos + 1) * (c.windowsize - 1) * c.windowsize ^ (k - 1) < maxRetries)) := by
  obtain ⟨g, sent, hg, hsent, rfl⟩ := hs
  rw [Nat.add_mul, Nat.one_mul] at hlt
  rw [Nat.add_mul] at hle
  have hmore : pos + c.windowsize < blockCount c.blockSize file := by omega
  have hfull : windowLen c.blockSize file c.windowsize pos = c.windowsize := by
    rw [windowLen]
    omega
  rw [hfull] at hg
  obtain ⟨g', hg', hfeed⟩ := feed_repeated_window hb hn hg hpos hwin hmore
  apply Settles.of_reaches (reaches_client_all hfeed)
  rw [List.nil_append]
  by_cases hplace : lost - pos + 1 < maxRetries
  · -- the first ACK of this window moves the sender on, the others are surplus
    have hacks : pos + c.windowsize - lost = pos + c.windowsize - lost - 1 + 1 := by omega
    obtain ⟨t, hreach, ht⟩ := @reaches_nextWindow c file tid lost hb hW hn pos 1 (lost - pos)
      (pos + c.windowsize - lost - 1) sent g' hg' hmore hsent (by omega)
    rw [List.append_assoc, List.singleton_append, ← List.replicate_succ, ← hacks] at hreach
    apply Settles.of_reaches hreach
    have hsurplus : pos + c.windowsize - lost - 1 + (lost - pos) * c.windowsize
        = (lost - pos + 1) * (c.windowsize - 1) := by
      have hle : lost - pos ≤ (lost - pos) * c.windowsize := Nat.le_mul_of_pos_right _ hW.1
      calc pos + c.windowsize - lost - 1 + (lost - pos) * c.windowsize
          = (lost - pos) * c.windowsize + c.windowsize - (lost - pos + 1) := by omega
        _ = (lost - pos + 1) * c.windowsize - (lost - pos + 1) := by
          rw [Nat.add_mul, Nat.one_mul]
        _ = (lost - pos + 1) * (c.windowsize - 1) := (Nat.mul_sub_one _ _).symm
    rw [hsurplus] at ht
    have hsettles := atWindow_settles hb hW hn k _ _ t ht (by omega) (by rw [Nat.add_mul]; omega)
    have hok : (k = 0 ∨ (lost - pos + 1) * (c.windowsize - 1) * c.windowsize ^ (k - 1) < maxRetries)
        ↔ (lost - pos + 1 < maxRetries ∧ (k = 0 ∨
          (lost - pos + 1) * (c.windowsize - 1) * c.windowsize ^ (k - 1) < maxRetries)) :=
      ⟨fun h => ⟨hplace, h⟩, And.right⟩
    rwa [propext hok] at hsettles
  · obtain ⟨t, hreach, ht⟩ := @reaches_gaveUp c file tid lost hb hW pos 1 (lost - pos) sent g'
      (List.replicate (pos + c.windowsize - lost) (ackPacket (wire (pos + c.windowsize))))
      hg'.server hmore hsent (by decide) (by omega)
    exact ⟨t, hreach, Or.inr ⟨fun h => hplace h.1, ht⟩⟩

/-! ## The whole run -/

theorem nonempty_settles (hb : 0 < c.blockSize) (hW : 1 ≤ c.windowsize ∧ c.windowsize ≤ 65535)
    (hn : blockCount c.blockSize file ≤ 65535) (hlost : lost < blockCount c.blockSize file)
    (hfile : file ≠ []) :
    Settles c file tid lost (oneLossStart c file tid lost oack)
      (Tolerates (blockCount c.blockSize file) c.windowsize lost) := by
  -- the lost block is in window `lost / W`, and `later` windows follow
  have hmod : lost % c.windowsize < c.windowsize := Nat.mod_lt _ hW.1
  have hdiv : lost / c.windowsize * c.windowsize + lost % c.windowsize = lost := by
    rw [Nat.mul_comm]
    exact Nat.div_add_mod _ _
  have hplace : lost - lost / c.windowsize * c.windowsize = lost % c.windowsize := by omega
  have hlo : (blockCount c.blockSize file - 1) / c.windowsize * c.windowsize
      ≤ blockCount c.blockSize file - 1 := Nat.div_mul_le_self _ _
  have hhi : blockCount c.blockSize file - 1
      < ((blockCount c.blockSize file - 1) / c.windowsize + 1) * c.windowsize := by
    rw [← Nat.div_lt_iff_lt_mul hW.1]
    exact Nat.lt_succ_self _
  have horder : lost / c.windowsize ≤ (blockCount c.blockSize file - 1) / c.windowsize :=
    Nat.div_le_div_right (by omega)
  obtain ⟨later, hlater⟩ := Nat.exists_eq_add_of_le horder
  obtain ⟨s, hreach, hs⟩ := @reaches_upToLoss c file tid lost oack hb hW hfile hlost
    (lost / c.windowsize) (by omega)
  obtain ⟨t, hnext, ht⟩ := reaches_repeated hb hW hn hs hlost (by omega) (by omega)
  apply Settles.of_reaches (hreach.trans hnext)
  rw [hlater, Nat.add_assoc, Nat.add_mul] at hhi
  rw [hlater, Nat.add_mul] at hlo
  rw [Tolerates, hlater, Nat.add_sub_cancel_left]
  cases later with
  | zero =>
      rw [if_pos rfl]
      apply repeated_last_settles hb hn ht hlost (by omega)
      omega
  | succ k =>
      have hsettles := repeated_settles hb hW hn ht (by omega) (by omega)
        (show _ + (k + 1) * c.windowsize < _ by omega)
        (show _ ≤ _ + (k + 1 + 1) * c.windowsize by omega)
      rw [hplace] at hsettles
      have hok : (k = 0 ∨ (lost % c.windowsize + 1) * (c.windowsize - 1) * c.windowsize ^ (k - 1)
            < maxRetries)
          ↔ (2 ≤ k + 1 → (lost % c.windowsize + 1) * (c.windowsize - 1)
            * c.windowsize ^ (k + 1 - 2) < maxRetries) := by
        cases k with
        | zero => simp
        | succ k => simp
      rw [if_neg (by omega)]
      rwa [propext hok] at hsettles

/-- The single packet of an empty file is not repeated. -/
theorem empty_settles (hlost : lost < blockCount c.blockSize ([] : Bytes)) :
    Stuck c [] tid (oneLossStart c [] tid lost oack) := by
  have hzero : lost = 0 := by
    rw [blockCount, List.length_nil, Nat.zero_div] at hlost
    omega
  subst hzero
  exact .emptyLost _ 0 _ (server_oack tid oack)

theorem single_loss_settles (hb : 0 < c.blockSize)
    (hW : 1 ≤ c.windowsize ∧ c.windowsize ≤ 65535) (hn : blockCount c.blockSize file ≤ 65535)
    (hlost : lost < blockCount c.blockSize file) :
    Settles c file tid lost (oneLossStart c file tid lost oack)
      (file ≠ [] ∧ Tolerates (blockCount c.blockSize file) c.windowsize lost) := by
  by_cases hfile : file = []
  · subst hfile
    exact ⟨_, .refl, Or.inr ⟨fun h => h.1 rfl, empty_settles hlost⟩⟩
  · obtain ⟨z, hz, hsettled⟩ := @nonempty_settles c file tid lost oack hb hW hn hlost hfile
    refine ⟨z, hz, ?_⟩
    simpa only [ne_eq, hfile, not_false_eq_true, true_and] using hsettled

end

/-- **Downloads with one lost DATA datagram.** The file has at most 65535 blocks, and DATA
datagram number `lost`, counted from zero, never arrives; all others arrive in order, and the
server's timer fires only when nothing is in flight. Up to the loss nothing is repeated, so
this is the first copy of block `lost + 1`. Every run ends with `get` having returned `Ok` and
written the file if and only if the file is not empty and the loss is tolerated. -/
theorem single_loss_iff (c : TftpClient) (file : Bytes) (tid : SocketAddr) (lost : Nat)
    (oack : Bool) (hb : 0 < c.blockSize) (hW : 1 ≤ c.windowsize ∧ c.windowsize ≤ 65535)
    (hn : blockCount c.blockSize file ≤ 65535) (hlost : lost < blockCount c.blockSize file) :
    EndsIn (OneLossDownloadStep c file tid lost) (oneLossStart c file tid lost oack)
        (Downloaded file)
      ↔ file ≠ [] ∧ Tolerates (blockCount c.blockSize file) c.windowsize lost :=
  (single_loss_settles hb hW hn hlost).endsIn_iff hb hW.1 hn

/-- Nine bytes in blocks of eight, both in one window: the loss of the final block is
tolerated. -/
theorem single_loss_iff_final_block :
    EndsIn (OneLossDownloadStep ⟨⟨.v4 1, 69⟩, .octet, 8, 2⟩ (List.replicate 9 65)
        ⟨.v4 1, 50000⟩ 1)
      (oneLossStart ⟨⟨.v4 1, 69⟩, .octet, 8, 2⟩ (List.replicate 9 65) ⟨.v4 1, 50000⟩ 1 true)
      (Downloaded (List.replicate 9 65)) :=
  (single_loss_iff _ _ _ 1 true (by decide) (by decide) (by decide) (by decide)).mpr (by decide)

/-- The loss of the first block is not: the final block is then written from the buffer. -/
theorem lost_first_block_ends_badly :
    ¬EndsIn (OneLossDownloadStep ⟨⟨.v4 1, 69⟩, .octet, 8, 2⟩ (List.replicate 9 65)
        ⟨.v4 1, 50000⟩ 0)
      (oneLossStart ⟨⟨.v4 1, 69⟩, .octet, 8, 2⟩ (List.replicate 9 65) ⟨.v4 1, 50000⟩ 0 true)
      (Downloaded (List.replicate 9 65)) := by
  rw [(single_loss_settles (by decide) (by decide) (by decide) (by decide)).endsIn_iff (by decide)
    (by decide) (by decide)]
  decide

end UsgTftp
