import UsgTftp.Client.Put
import UsgTftp.Server.Tasks

set_option autoImplicit false

/-! # Uploads over a lossless network

`TftpClient::put` and the server, joined by channels that lose nothing and keep the order.

The server answers a write request from a transfer socket of its own. The client has connected
its socket to the listening address, and a connected socket passes on only what comes from
there. So the client never sees an answer, and no upload succeeds (`upload_never_answered`).

With the addresses left aside the two loops meet. The client sends a block and waits for its
ACK; the server acknowledges the last block of a window. They agree exactly if windows are
single blocks or the file is a single short block (`upload_pacing_iff`).
-/

namespace UsgTftp

open Reactive Segment SeqNum Posix

/-! ## Through the sockets -/

/-- The client, the server and the datagrams between them; what travels to the client carries
the address it was sent from, and what travels to the server the address it was sent to. -/
abbrev NetworkUpload := Fifo PutStatus Server (SocketAddr × Bytes) (SocketAddr × Bytes)

/-- A connected socket drops what comes from another address. -/
def TftpClient.putReceive (c : TftpClient) (file : Bytes) (st : PutStatus)
    (m : SocketAddr × Bytes) : PutStatus × List (SocketAddr × Bytes) :=
  if m.1 = c.serverAddr then
    let (st, out) := c.putStep file st (.datagram m.2)
    (st, out.map fun d => (c.serverAddr, d))
  else (st, [])

def networkUploadStart (c : TftpClient) (remoteFile : String) (file : Bytes) (t : Tree) :
    NetworkUpload where
  left := (c.put remoteFile file).start.1
  right := ⟨t, []⟩
  toLeft := []
  toRight := (c.put remoteFile file).start.2.map fun d => (c.serverAddr, d)
  sent := []

/-- A datagram is delivered, a timer fires, or a file operation of the server returns. -/
inductive NetworkUploadStep (c : TftpClient) (file : Bytes) (host : Host) :
    NetworkUpload → NetworkUpload → Prop where
  | network (s s' : NetworkUpload)
      (h : FifoStep (c.putReceive file) (Server.receive host) s s') :
      NetworkUploadStep c file host s s'
  | clientTimer (s : NetworkUpload) :
      NetworkUploadStep c file host s
        { s with left := (c.putStep file s.left .timeout).1,
                 toRight := s.toRight ++
                   (c.putStep file s.left .timeout).2.map fun d => (c.serverAddr, d) }
  | serverTimer (s : NetworkUpload) (tid : SocketAddr) :
      NetworkUploadStep c file host s
        { s with right := (s.right.timeout host tid).1,
                 toLeft := s.toLeft ++ (s.right.timeout host tid).2,
                 sent := s.sent ++ (s.right.timeout host tid).2 }
  | serverIo (s : NetworkUpload) (tid : SocketAddr) (outcome : IoOutcome) :
      NetworkUploadStep c file host s { s with right := s.right.io host tid outcome }

/-- A task that has received no block. -/
def Task.Unfed : Task → Prop
  | .uploading (.receiving _ _ st) => ∃ s, st = .receiving s
  | .uploading (.storing _ _) => False
  | _ => True

section Unfed

variable {host : Host} {t : Tree} {task : Task}

theorem unfed_spawn (host : Host) (t : Tree) (data : Bytes) : (host.spawn t data).1.Unfed := by
  unfold Host.spawn
  split
  · trivial
  · trivial
  · trivial
  · trivial
  · trivial
  · exact ⟨_, rfl⟩

theorem Task.Unfed.timeout (h : task.Unfed) : (task.receive host t .timeout).1.Unfed := by
  match task with
  | .reading _ _ _ => trivial
  | .multicast _ _ _ => trivial
  | .ended _ => trivial
  | .uploading .idle => trivial
  | .uploading .closed => trivial
  | .uploading (.storing _ _) => exact h
  | .uploading (.receiving p q st) =>
      obtain ⟨s, rfl⟩ := h
      trivial

theorem Task.Unfed.io (h : task.Unfed) (outcome : IoOutcome) :
    task.io host t outcome = (t, task) := by
  match task with
  | .reading _ _ _ => rfl
  | .multicast _ _ _ => rfl
  | .ended _ => rfl
  | .uploading .idle => rfl
  | .uploading .closed => rfl
  | .uploading (.storing _ _) => exact absurd h id
  | .uploading (.receiving p q st) => rfl

end Unfed

/-- The tasks have addresses of the transfer sockets, and none has received a block. -/
def UnfedTasks (host : Host) (tasks : List ServerTask) : Prop :=
  ∀ task ∈ tasks, (∃ n, task.tid = host.tids n) ∧ task.task.Unfed

section Tasks

variable {host : Host} {t : Tree} {tasks : List ServerTask}

theorem UnfedTasks.tail {task : ServerTask} (h : UnfedTasks host (task :: tasks)) :
    UnfedTasks host tasks := fun task' hmem => h task' (List.mem_cons_of_mem _ hmem)

theorem UnfedTasks.cons {task : ServerTask} (h : (∃ n, task.tid = host.tids n) ∧ task.task.Unfed)
    (ht : UnfedTasks host tasks) : UnfedTasks host (task :: tasks) := by
  intro task' hmem
  rcases List.mem_cons.mp hmem with rfl | hmem
  · exact h
  · exact ht task' hmem

/-- A timer leaves the tasks without blocks, and what is sent comes from a transfer socket. -/
theorem UnfedTasks.timeout (tid : SocketAddr) (h : UnfedTasks host tasks) :
    UnfedTasks host (deliver host t tid .timeout tasks).1 ∧
    ∀ m ∈ (deliver host t tid .timeout tasks).2, ∃ n, m.1 = host.tids n := by
  induction tasks with
  | nil => exact ⟨h, fun m hm => absurd hm List.not_mem_nil⟩
  | cons task tasks ih =>
      have hhead := h task List.mem_cons_self
      rw [deliver]
      split_ifs
      · refine ⟨.cons ⟨hhead.1, hhead.2.timeout⟩ h.tail, ?_⟩
        intro m hm
        obtain ⟨d, -, rfl⟩ := List.mem_map.mp hm
        exact hhead.1
      · obtain ⟨htasks, hout⟩ := ih h.tail
        exact ⟨.cons hhead htasks, hout⟩

theorem UnfedTasks.io (tid : SocketAddr) (outcome : IoOutcome) (h : UnfedTasks host tasks) :
    ioOf host t tid outcome tasks = (t, tasks) := by
  induction tasks with
  | nil => rfl
  | cons task tasks ih =>
      rw [ioOf, (h task List.mem_cons_self).2.io, ih h.tail]
      split_ifs <;> rfl

end Tasks

/-- **The invariant of an upload through the sockets**: the client still waits for its first
answer or has given up on it, and the server has received nothing but the request. -/
structure Unanswered (c : TftpClient) (host : Host) (t : Tree) (s : NetworkUpload) : Prop where
  client : s.left = .awaitingStart ∨
    s.left = .returned (.error (.tftp "Timeout waiting for ACK"))
  tree : s.right.tree = t
  tasks : UnfedTasks host s.right.tasks
  toClient : ∀ m ∈ s.toLeft, ∃ n, m.1 = host.tids n
  toServer : ∀ m ∈ s.toRight, m.1 = host.listenAddr

theorem unanswered_start (c : TftpClient) (remoteFile : String) (file : Bytes) (host : Host)
    (t : Tree) (hlisten : c.serverAddr = host.listenAddr) :
    Unanswered c host t (networkUploadStart c remoteFile file t) where
  client := Or.inl rfl
  tree := rfl
  tasks := fun task hmem => absurd hmem List.not_mem_nil
  toClient := fun m hm => absurd hm List.not_mem_nil
  toServer := by
    intro m hm
    obtain ⟨d, -, rfl⟩ := List.mem_map.mp hm
    exact hlisten

/-- A datagram that reaches the listening socket starts a task. -/
theorem unfed_receive {host : Host} {s : Server} {m : SocketAddr × Bytes}
    (hm : m.1 = host.listenAddr) (h : UnfedTasks host s.tasks) :
    (s.receive host m).1.tree = s.tree ∧ UnfedTasks host (s.receive host m).1.tasks ∧
    ∀ m' ∈ (s.receive host m).2, ∃ n, m'.1 = host.tids n := by
  unfold Server.receive
  rw [if_pos hm]
  refine ⟨rfl, ?_, ?_⟩
  · intro task hmem
    rcases List.mem_append.mp hmem with hmem | hmem
    · exact h task hmem
    · rw [List.mem_singleton.mp hmem]
      exact ⟨⟨_, rfl⟩, unfed_spawn _ _ _⟩
  · intro m' hm'
    obtain ⟨d, -, rfl⟩ := List.mem_map.mp hm'
    exact ⟨_, rfl⟩

/-- **Step lemma.** -/
theorem Unanswered.step {c : TftpClient} {file : Bytes} {host : Host} {t : Tree}
    (hlisten : c.serverAddr = host.listenAddr) (htid : ∀ n, host.tids n ≠ host.listenAddr)
    {s s' : NetworkUpload} (h : Unanswered c host t s)
    (hstep : NetworkUploadStep c file host s s') : Unanswered c host t s' := by
  have happend : ∀ {out : List (SocketAddr × Bytes)}, (∀ m ∈ out, ∃ n, m.1 = host.tids n) →
      ∀ m ∈ s.toLeft ++ out, ∃ n, m.1 = host.tids n := by
    intro out hout m hm
    exact (List.mem_append.mp hm).elim (h.toClient m) (hout m)
  cases hstep with
  | network _ hnet =>
      cases hnet with
      | left m rest hm =>
          -- the answer comes from a transfer socket, so the client's socket drops it
          obtain ⟨n, hn⟩ := h.toClient m (by rw [hm]; exact List.mem_cons_self)
          have hdrop : c.putReceive file s.left m = (s.left, []) := by
            rw [TftpClient.putReceive, if_neg]
            rw [hn, hlisten]
            exact htid n
          rw [hdrop]
          refine ⟨h.client, h.tree, h.tasks, ?_, ?_⟩
          · intro m' hm'
            exact h.toClient m' (by rw [hm]; exact List.mem_cons_of_mem _ hm')
          · simpa using h.toServer
      | right m rest hm =>
          obtain ⟨htree, htasks, hout⟩ :=
            unfed_receive (h.toServer m (by rw [hm]; exact List.mem_cons_self)) h.tasks
          refine ⟨h.client, htree.trans h.tree, htasks, happend hout, ?_⟩
          intro m' hm'
          exact h.toServer m' (by rw [hm]; exact List.mem_cons_of_mem _ hm')
  | clientTimer =>
      have htimer : (c.putStep file s.left .timeout).1
            = .returned (.error (.tftp "Timeout waiting for ACK")) ∧
          (c.putStep file s.left .timeout).2 = [] := by
        rcases h.client with hs | hs
        · rw [hs]; exact ⟨rfl, rfl⟩
        · rw [hs]; exact ⟨rfl, rfl⟩
      refine ⟨Or.inr htimer.1, h.tree, h.tasks, h.toClient, ?_⟩
      rw [htimer.2]
      simpa using h.toServer
  | serverTimer tid =>
      obtain ⟨htasks, hout⟩ := UnfedTasks.timeout (t := s.right.tree) tid h.tasks
      exact ⟨h.client, h.tree, htasks, happend hout, h.toServer⟩
  | serverIo tid outcome =>
      have hio : s.right.io host tid outcome = s.right := by
        unfold Server.io
        rw [h.tasks.io]
      rw [hio]
      exact ⟨h.client, h.tree, h.tasks, h.toClient, h.toServer⟩

/-- **No upload is answered.** Whatever is delivered and whichever timers fire, `put` does not
return `Ok`: it waits for its first answer or has given up on it, and the server stores
nothing. -/
theorem upload_never_answered (c : TftpClient) (remoteFile : String) (file : Bytes) (host : Host)
    (t : Tree) (hlisten : c.serverAddr = host.listenAddr)
    (htid : ∀ n, host.tids n ≠ host.listenAddr) (s : NetworkUpload)
    (hs : Relation.ReflTransGen (NetworkUploadStep c file host)
      (networkUploadStart c remoteFile file t) s) :
    (s.left = .awaitingStart ∨ s.left = .returned (.error (.tftp "Timeout waiting for ACK"))) ∧
    s.left ≠ .returned (.ok ()) ∧ s.right.tree = t := by
  have h : Unanswered c host t s :=
    invariant_of_step (Unanswered c host t) (fun _ _ h hstep => h.step hlisten htid hstep)
      (unanswered_start c remoteFile file host t hlisten) hs
  refine ⟨h.client, ?_, h.tree⟩
  intro hok
  rcases h.client with hc | hc
  · rw [hc] at hok; cases hok
  · rw [hc] at hok; cases hok

theorem txtHost_tids (n : Nat) : txtHost.tids n ≠ txtHost.listenAddr := by
  intro h
  have hport : (50000 + UInt16.ofNat (n % 10000)).toNat = 69 := congrArg (fun a => a.port.toNat) h
  rw [UInt16.toNat_add, UInt16.toNat_ofNat'] at hport
  have hbase : (50000 : UInt16).toNat = 50000 := by decide
  omega

/-- A client of the small server. -/
def txtClient (b W : Nat) : TftpClient := ⟨txtHost.listenAddr, .octet, b, W⟩

/-- The request is delivered, and the client's timer fires. -/
theorem upload_never_answered_one_byte :
    ∃ s, Relation.ReflTransGen (NetworkUploadStep (txtClient 512 1) [1] txtHost)
        (networkUploadStart (txtClient 512 1) "a.txt" [1] emptyRoot) s ∧
      (s.left = .awaitingStart ∨ s.left = .returned (.error (.tftp "Timeout waiting for ACK"))) ∧
      s.left ≠ .returned (.ok ()) ∧ s.right.tree = emptyRoot := by
  have hrun : Relation.ReflTransGen (NetworkUploadStep (txtClient 512 1) [1] txtHost)
      (networkUploadStart (txtClient 512 1) "a.txt" [1] emptyRoot) _ :=
    .tail (.tail .refl (.network _ _ (.right _ _ _ rfl))) (.clientTimer _)
  exact ⟨_, hrun, upload_never_answered (txtClient 512 1) "a.txt" [1] txtHost emptyRoot rfl
    txtHost_tids _ hrun⟩

/-- The write that a request starts: its file and its options. -/
def startedWrite : Except TftpError Dispatch → Option (Path × TftpOptions)
  | .ok (.write filePath q _) => some (filePath, q.options)
  | _ => none

/-- The server starts a write for the request, but no run leads to an `Ok` of `put` with the
byte at the server. -/
theorem upload_of_one_byte_fails :
    startedWrite (handleClient txtHost.env emptyRoot txtHost.glob txtHost.config txtHost.order
        ((txtClient 512 1).wrqPacket "a.txt" 1))
      = some (Path.ofString "/srv/tftp/a.txt", { transferSize := some 1 }) ∧
    ¬ ∃ s, Relation.ReflTransGen (NetworkUploadStep (txtClient 512 1) [1] txtHost)
        (networkUploadStart (txtClient 512 1) "a.txt" [1] emptyRoot) s ∧
      s.left = .returned (.ok ()) ∧
      txtHost.openFile s.right.tree (Path.ofString "/srv/tftp/a.txt") = some (.regular [1]) := by
  constructor
  · decide +kernel
  · rintro ⟨s, hs, hok, -⟩
    have h : Unanswered (txtClient 512 1) txtHost emptyRoot s :=
      invariant_of_step (Unanswered (txtClient 512 1) txtHost emptyRoot)
        (fun _ _ h hstep => h.step rfl txtHost_tids hstep)
        (unanswered_start _ _ _ _ _ rfl) hs
    rcases h.client with hc | hc
    · rw [hc] at hok; cases hok
    · rw [hc] at hok; cases hok

/-! ## Block by block -/

/-- The two loops, with the addresses left aside: the server is on the left and the client on
the right, with a log of the DATA packets it has sent. -/
abbrev PacedUpload := Fifo WriteStatus PutStatus Bytes Bytes

section Paced

variable (c : TftpClient) (file : Bytes) (q : WriteRequest) (order : IterOrder)

/-- The request has been accepted, and the server's answer to it is on its way. -/
def pacedStart : PacedUpload where
  left := (handleWriteRequest q order).start.1
  right := .awaitingStart
  toLeft := []
  toRight := (handleWriteRequest q order).start.2
  sent := []

def PacedStep : PacedUpload → PacedUpload → Prop :=
  FifoStep (fun st d => (handleWriteRequest q order).step st (.datagram d))
    (fun st d => c.putStep file st (.datagram d))

/-- **Upload window agreement.** Whenever the client waits for ACK `k` after it has sent the
blocks `1..k` and the server has read them, ACK `k` is on its way, unless the server has broken
the transfer off at the size limit; and the two sides never both wait with nothing on its
way. -/
def PacingAgrees : Prop :=
  ∀ s, Relation.ReflTransGen (PacedStep c file q order) (pacedStart q order) s →
    (∀ k data rest retries, s.right = .awaitingAck (wire k) data rest retries →
      s.sent = (List.range k).map (segPacket c.blockSize file) → s.toLeft = [] →
      ackPacket (wire k) ∈ s.toRight ∨ ∃ r, s.left = .ended .tooLarge r) ∧
    ¬ (s.left.running = true ∧ s.right.running = true ∧ s.toLeft = [] ∧ s.toRight = [])

/-- The server when it has read the first `k` blocks. -/
def received (k : Nat) : ReceiveState := ⟨file.take (k * c.blockSize), wire (k + 1)⟩

/-- How the server answers block `k + 1`: with its ACK, or by breaking the transfer off. -/
inductive Answer (k : Nat) : WriteStatus × List Bytes → Prop where
  | more (h : (block c.blockSize file k).length = c.blockSize) :
      Answer k (.receiving (received c file (k + 1)), [ackPacket (wire (k + 1))])
  | last (h : (block c.blockSize file k).length < c.blockSize) (s : ReceiveState) (data : Bytes) :
      Answer k (.commit s data, [ackPacket (wire (k + 1))])
  | tooLarge (s : ReceiveState) :
      Answer k (.ended .tooLarge s, [errorPacket .diskFull "File too large"])

/-- Every block the client sends is answered at once. -/
def Prompt : Prop :=
  ∀ k, k * c.blockSize < file.length →
    Answer c file k
      (q.step (.receiving (received c file k)) (.datagram (segPacket c.blockSize file k)))

end Paced

section Pacing

variable {c : TftpClient} {file : Bytes} {q : WriteRequest} {order : IterOrder}

/-- The server's step at the next block, when the block fits the size limit. -/
theorem step_received {k : Nat} (hb : c.blockSize ≤ maxBlockSize)
    (hfit : ¬ q.exceeds (received c file k) (block c.blockSize file k)) :
    q.step (.receiving (received c file k)) (.datagram (segPacket c.blockSize file k))
      = q.appendBlock (received c file k) (wire (k + 1)) (block c.blockSize file k) := by
  rw [step_segPacket hb, WriteRequest.receiveData, if_neg (fun h => h rfl), if_neg hfit]

theorem step_received_tooLarge {k : Nat} (hb : c.blockSize ≤ maxBlockSize)
    (hlarge : q.exceeds (received c file k) (block c.blockSize file k)) :
    q.step (.receiving (received c file k)) (.datagram (segPacket c.blockSize file k))
      = (.ended .tooLarge (received c file k), [errorPacket .diskFull "File too large"]) := by
  rw [step_segPacket hb, WriteRequest.receiveData, if_neg (fun h => h rfl), if_pos hlarge]

theorem received_zero (c : TftpClient) (file : Bytes) : received c file 0 = {} := by
  unfold received
  rw [Nat.zero_mul, List.take_zero, wire_one]

/-- A short block is acknowledged, wherever it stands in its window. -/
theorem appendBlock_short {k : Nat} (hblock : q.options.blockSize = c.blockSize)
    (hpanic : UInt16.ofNat q.options.windowsize ≠ 0)
    (hshort : (block c.blockSize file k).length < c.blockSize) :
    q.appendBlock (received c file k) (wire (k + 1)) (block c.blockSize file k)
      = (.commit ⟨file.take ((k + 1) * c.blockSize), wire (k + 1)⟩
          (q.finalData (file.take ((k + 1) * c.blockSize))), [ackPacket (wire (k + 1))]) := by
  rw [WriteRequest.appendBlock, if_neg hpanic, hblock]
  dsimp only
  rw [if_pos hshort, if_pos (Or.inr hshort), received, take_append_block]

/-- In windows of one block every full block is acknowledged. -/
theorem appendBlock_full {k : Nat} (hblock : q.options.blockSize = c.blockSize)
    (hone : UInt16.ofNat q.options.windowsize = 1)
    (hfull : (block c.blockSize file k).length = c.blockSize) :
    q.appendBlock (received c file k) (wire (k + 1)) (block c.blockSize file k)
      = (.receiving (received c file (k + 1)), [ackPacket (wire (k + 1))]) := by
  -- every block is the last of its window
  have hlast : ∀ n : UInt16, n % 1 + 1 = 1 := by
    intro n
    rw [UInt16.mod_one]
    rfl
  rw [WriteRequest.appendBlock, hone, if_neg (by decide), hblock]
  dsimp only
  rw [if_neg (by omega), if_pos (Or.inl (hlast _)), received, take_append_block, wire_add_one,
    ← received]

/-- In longer windows the first block, when it is full, is not acknowledged. -/
theorem appendBlock_silent (hblock : q.options.blockSize = c.blockSize)
    (hpanic : UInt16.ofNat q.options.windowsize ≠ 0)
    (hone : UInt16.ofNat q.options.windowsize ≠ 1)
    (hfull : (block c.blockSize file 0).length = c.blockSize) :
    q.appendBlock (received c file 0) (wire (0 + 1)) (block c.blockSize file 0)
      = (.receiving (received c file 1), []) := by
  have hsilent : ¬ ((wire (0 + 1) - 1) % UInt16.ofNat q.options.windowsize + 1
      = UInt16.ofNat q.options.windowsize ∨ (block c.blockSize file 0).length < c.blockSize) := by
    rintro (h | h)
    · rw [wire_sub_one, wire_zero, UInt16.zero_mod] at h
      exact hone h.symm
    · omega
  rw [WriteRequest.appendBlock, if_neg hpanic, hblock]
  dsimp only
  rw [if_neg hsilent, if_neg (by omega), received, take_append_block, wire_add_one, ← received]

/-- Windows of one block: every block is acknowledged. -/
theorem prompt_of_windowsize_one (hb : c.blockSize ≤ maxBlockSize)
    (hblock : q.options.blockSize = c.blockSize) (hW : q.options.windowsize = 1) :
    Prompt c file q := by
  intro k _
  by_cases hfit : q.exceeds (received c file k) (block c.blockSize file k)
  · rw [step_received_tooLarge hb hfit]
    exact .tooLarge _
  have hone : UInt16.ofNat q.options.windowsize = 1 := by
    rw [hW]
    rfl
  rw [step_received hb hfit]
  by_cases hshort : (block c.blockSize file k).length < c.blockSize
  · rw [appendBlock_short hblock (by rw [hone]; decide) hshort]
    exact .last hshort _ _
  · have hfull : (block c.blockSize file k).length = c.blockSize :=
      Nat.le_antisymm (length_block_le _ _ _) (Nat.not_lt.mp hshort)
    rw [appendBlock_full hblock hone hfull]
    exact .more hfull

/-- A single short block: it is acknowledged as the last one. -/
theorem prompt_of_short (hb : c.blockSize ≤ maxBlockSize)
    (hblock : q.options.blockSize = c.blockSize)
    (hW : 1 ≤ q.options.windowsize ∧ q.options.windowsize ≤ 65535)
    (hfile : file.length < c.blockSize) : Prompt c file q := by
  intro k hk
  -- the first block is the final one, and that is acknowledged at once
  have hzero : k = 0 := by
    rcases Nat.eq_zero_or_pos k with h | h
    · exact h
    · have : c.blockSize ≤ k * c.blockSize := Nat.le_mul_of_pos_left _ h
      omega
  subst hzero
  by_cases hfit : q.exceeds (received c file 0) (block c.blockSize file 0)
  · rw [step_received_tooLarge hb hfit]
    exact .tooLarge _
  have hshort : (block c.blockSize file 0).length < c.blockSize := by
    rw [length_block]
    omega
  rw [step_received hb hfit, appendBlock_short hblock (ofNat_windowsize_ne_zero hW) hshort]
  exact .last hshort _ _

/-- A size limit below the block size: the first block is too large already. -/
theorem prompt_of_limit (hb : c.blockSize ≤ maxBlockSize)
    (hlimit : 0 < q.maxFileSizeBytes ∧ q.maxFileSizeBytes < c.blockSize)
    (hfile : c.blockSize ≤ file.length) : Prompt c file q := by
  intro k hk
  have hlarge : q.exceeds (received c file k) (block c.blockSize file k) := by
    refine ⟨hlimit.1, ?_⟩
    rw [received, length_block, List.length_take]
    rcases Nat.eq_zero_or_pos k with h | h
    · rw [h]
      omega
    · have : c.blockSize ≤ k * c.blockSize := Nat.le_mul_of_pos_left _ h
      omega
  rw [step_received_tooLarge hb hlarge]
  exact .tooLarge _

/-! ## The phases of an upload -/

/-- The client has sent block `k + 1` and waits for its ACK. -/
def waitingFor (c : TftpClient) (file : Bytes) (k : Nat) : PutStatus :=
  .awaitingAck (wire (k + 1)) (block c.blockSize file k) (file.drop ((k + 1) * c.blockSize)) 0

/-- **The phases of an upload in which every block is answered at once.** -/
inductive PacedPhase (c : TftpClient) (file : Bytes) (q : WriteRequest) (order : IterOrder) :
    PacedUpload → Prop where
  | request : PacedPhase c file q order (pacedStart q order)
  | data (k : Nat) (sent : List Bytes) (hk : k * c.blockSize < file.length) :
      PacedPhase c file q order ⟨⟨.receiving (received c file k), waitingFor c file k,
        [segPacket c.blockSize file k], []⟩, sent⟩
  | answered (k : Nat) (sent : List Bytes) (answer : WriteStatus × List Bytes)
      (h : Answer c file k answer) :
      PacedPhase c file q order ⟨⟨answer.1, waitingFor c file k, [], answer.2⟩, sent⟩
  | returned (st : WriteStatus) (result : Except ClientError Unit) (sent : List Bytes) :
      PacedPhase c file q order ⟨⟨st, .returned result, [], []⟩, sent⟩

theorem getU16_recvInto {n : Nat} (hn : 2 ≤ n) (v : UInt16) (rest : Bytes) :
    getU16 (recvInto n (putU16 v ++ rest)) = some (v, rest.take (n - 2)) := by
  rw [recvInto, List.take_append, List.take_of_length_le (by rw [length_putU16]; exact hn),
    getU16_putU16, length_putU16]

/-- Both answers to the request start the data loop. -/
theorem putStep_start (c : TftpClient) (file : Bytes) (q : WriteRequest) (order : IterOrder) :
    ∃ d, (handleWriteRequest q order).start.2 = [d] ∧
      c.putStep file .awaitingStart (.datagram d) = c.putNext 1 file := by
  unfold handleWriteRequest
  dsimp only
  split_ifs
  · exact ⟨_, rfl, rfl⟩
  · refine ⟨_, rfl, ?_⟩
    rw [TftpClient.putStep, TftpClient.putStart, buildOackPacket, getU16_recvInto (by decide)]
    rfl

/-- What a step can do: one side reads its oldest packet. -/
theorem pacedStep_cases {l : WriteStatus} {r : PutStatus} {toL toR sent : List Bytes}
    {s' : PacedUpload} (h : PacedStep c file q order ⟨⟨l, r, toL, toR⟩, sent⟩ s') :
    (∃ d rest, toL = d :: rest ∧ s' = ⟨⟨(q.step l (.datagram d)).1, r, rest,
      toR ++ (q.step l (.datagram d)).2⟩, sent⟩) ∨
    (∃ d rest, toR = d :: rest ∧ s' = ⟨⟨l, (c.putStep file r (.datagram d)).1,
      toL ++ (c.putStep file r (.datagram d)).2, rest⟩,
      sent ++ (c.putStep file r (.datagram d)).2⟩) := by
  cases h with
  | left d rest h => exact Or.inl ⟨d, rest, h, rfl⟩
  | right d rest h => exact Or.inr ⟨d, rest, h, rfl⟩

/-- The client sends the next block, or returns at the end of the file. -/
theorem pacedPhase_putNext (hb : 0 < c.blockSize) (k : Nat) (sent : List Bytes) :
    PacedPhase c file q order
      ⟨⟨.receiving (received c file k),
        (c.putNext (wire (k + 1)) (file.drop (k * c.blockSize))).1,
        [] ++ (c.putNext (wire (k + 1)) (file.drop (k * c.blockSize))).2, []⟩, sent⟩ := by
  by_cases hk : k * c.blockSize < file.length
  · rw [putNext_drop hk hb]
    exact .data k sent hk
  · rw [putNext_end (List.drop_eq_nil_of_le (Nat.not_lt.mp hk))]
    exact .returned _ _ _

theorem putStep_acked {k : Nat} (c : TftpClient) (file : Bytes) :
    c.putStep file (waitingFor c file k) (.datagram (ackPacket (wire (k + 1))))
      = if (block c.blockSize file k).length < c.blockSize then (.returned (.ok ()), [])
        else c.putNext (wire (k + 1) + 1) (file.drop ((k + 1) * c.blockSize)) := by
  rw [waitingFor, TftpClient.putStep, recvInto_of_le (by rw [length_ackPacket]; decide),
    putReply_ackPacket, if_pos rfl]

theorem putStep_error {k : Nat} (c : TftpClient) (file : Bytes) :
    ∃ e, c.putStep file (waitingFor c file k)
      (.datagram (errorPacket .diskFull "File too large")) = (.returned (.error e), []) :=
  ⟨_, rfl⟩

/-- **Step lemma.** -/
theorem PacedPhase.step (hb : 0 < c.blockSize) (hprompt : Prompt c file q) {s s' : PacedUpload}
    (h : PacedPhase c file q order s) (hstep : PacedStep c file q order s s') :
    PacedPhase c file q order s' := by
  -- one datagram is on the way in every phase, so at most one side can step
  cases h with
  | request =>
      obtain ⟨d₀, hstart, hnext⟩ := putStep_start c file q order
      rw [pacedStart, hstart] at hstep
      rcases pacedStep_cases hstep with ⟨d, rest, h, -⟩ | ⟨d, rest, h, rfl⟩
      · cases h
      · cases h
        have hphase := @pacedPhase_putNext c file q order hb 0
        rw [Nat.zero_mul, List.drop_zero, wire_one] at hphase
        rw [hnext]
        rw [received_zero] at hphase
        exact hphase _
  | data k sent hk =>
      rcases pacedStep_cases hstep with ⟨d, rest, h, rfl⟩ | ⟨d, rest, h, -⟩
      · cases h
        exact .answered k sent _ (hprompt k hk)
      · cases h
  | answered k sent answer hanswer =>
      rcases pacedStep_cases hstep with ⟨d, rest, h, -⟩ | ⟨d, rest, h, rfl⟩
      · cases h
      · cases hanswer with
        | more hfull =>
            cases h
            rw [putStep_acked, if_neg (by omega), wire_add_one]
            exact pacedPhase_putNext hb (k + 1) _
        | last hshort st data =>
            cases h
            rw [putStep_acked, if_pos hshort]
            exact .returned _ _ _
        | tooLarge st =>
            cases h
            obtain ⟨e, herror⟩ := @putStep_error k c file
            rw [herror]
            exact .returned _ _ _
  | returned st result sent =>
      rcases pacedStep_cases hstep with ⟨d, rest, h, -⟩ | ⟨d, rest, h, -⟩
      · cases h
      · cases h

theorem pacingAgrees_of_prompt (hb : 0 < c.blockSize) (hprompt : Prompt c file q) :
    PacingAgrees c file q order := by
  intro s hs
  have h : PacedPhase c file q order s :=
    invariant_of_step (PacedPhase c file q order) (fun _ _ h hstep => h.step hb hprompt hstep)
      .request hs
  obtain ⟨d₀, hstart, -⟩ := putStep_start c file q order
  constructor
  · intro k data rest retries hright _ htoLeft
    cases h with
    | request => cases hright
    | data k' sent hk => cases htoLeft
    | returned st result sent => cases hright
    | answered k' sent answer hanswer =>
        have hk : wire (k' + 1) = wire k := (PutStatus.awaitingAck.inj hright).1
        rw [← hk]
        cases hanswer with
        | more hfull => exact Or.inl List.mem_cons_self
        | last hshort st data => exact Or.inl List.mem_cons_self
        | tooLarge st => exact Or.inr ⟨st, rfl⟩
  · rintro ⟨hl, hr, htoLeft, htoRight⟩
    cases h with
    | request =>
        rw [pacedStart, hstart] at htoRight
        cases htoRight
    | data k sent hk => cases htoLeft
    | returned st result sent => cases hr
    | answered k sent answer hanswer =>
        cases hanswer with
        | more hfull => cases htoRight
        | last hshort st data => cases htoRight
        | tooLarge st => cases htoRight

/-- Windows of several blocks: the first of them is not acknowledged, and both sides wait. -/
theorem stall_of_window (hb : 0 < c.blockSize ∧ c.blockSize ≤ maxBlockSize)
    (hblock : q.options.blockSize = c.blockSize)
    (hW : 2 ≤ q.options.windowsize ∧ q.options.windowsize ≤ 65535)
    (hfile : c.blockSize ≤ file.length)
    (hlimit : q.maxFileSizeBytes = 0 ∨ c.blockSize ≤ q.maxFileSizeBytes) :
    ¬ PacingAgrees c file q order := by
  intro hagrees
  obtain ⟨d₀, hstart, hnext⟩ := putStep_start c file q order
  have hfirst : c.putNext 1 file = (waitingFor c file 0, [segPacket c.blockSize file 0]) := by
    have := @putNext_drop c file 0 (by omega) hb.1
    rwa [Nat.zero_mul, List.drop_zero, wire_one] at this
  have hfull : (block c.blockSize file 0).length = c.blockSize := by
    rw [length_block]
    omega
  have hfit : ¬ q.exceeds (received c file 0) (block c.blockSize file 0) := by
    unfold WriteRequest.exceeds received
    rw [hfull, List.length_take]
    omega
  have hpanic := @ofNat_windowsize_ne_zero q.options.windowsize (by omega)
  have hone : UInt16.ofNat q.options.windowsize ≠ 1 := by
    intro h
    have hwin := @toNat_ofNat_windowsize q.options.windowsize (by omega)
    rw [h, UInt16.toNat_one] at hwin
    omega
  -- the block is read and kept without an answer
  have hr : q.step (.receiving {}) (.datagram (segPacket c.blockSize file 0))
      = (.receiving (received c file 1), []) := by
    rw [← received_zero c file, step_received hb.2 hfit,
      appendBlock_silent hblock hpanic hone hfull]
  have h₁ : PacedStep c file q order (pacedStart q order)
      ⟨⟨.receiving {}, waitingFor c file 0, [segPacket c.blockSize file 0], []⟩,
        [segPacket c.blockSize file 0]⟩ := by
    have h := @FifoStep.right _ _ _ _
      (fun st d => (handleWriteRequest q order).step st (.datagram d))
      (fun st d => c.putStep file st (.datagram d)) (pacedStart q order) d₀ [] hstart
    dsimp only [pacedStart] at h
    rw [hnext, hfirst] at h
    exact h
  have h₂ : PacedStep c file q order
      ⟨⟨.receiving {}, waitingFor c file 0, [segPacket c.blockSize file 0], []⟩,
        [segPacket c.blockSize file 0]⟩
      ⟨⟨.receiving (received c file 1), waitingFor c file 0, [], []⟩,
        [segPacket c.blockSize file 0]⟩ := by
    have h := @FifoStep.left _ _ _ _
      (fun st d => (handleWriteRequest q order).step st (.datagram d))
      (fun st d => c.putStep file st (.datagram d))
      ⟨⟨.receiving {}, waitingFor c file 0, [segPacket c.blockSize file 0], []⟩,
        [segPacket c.blockSize file 0]⟩ (segPacket c.blockSize file 0) [] rfl
    dsimp only [handleWriteRequest] at h
    rw [hr] at h
    exact h
  exact (hagrees _ (.tail (.tail .refl h₁) h₂)).2 ⟨rfl, rfl, rfl, rfl⟩

end Pacing

/-- **When the two loops agree.** For the block size and the window that the client asks for and
the server grants, agreement holds exactly if the window is one block, the file is one short
block, or the size limit is below one block. -/
theorem upload_pacing_iff (c : TftpClient) (file : Bytes) (q : WriteRequest) (order : IterOrder)
    (hb : 8 ≤ c.blockSize ∧ c.blockSize ≤ 65464) (hW : 1 ≤ c.windowsize ∧ c.windowsize ≤ 65535)
    (hblock : q.options.blockSize = c.blockSize) (hwindow : q.options.windowsize = c.windowsize) :
    PacingAgrees c file q order ↔
      c.windowsize = 1 ∨ file.length < c.blockSize ∨
        (0 < q.maxFileSizeBytes ∧ q.maxFileSizeBytes < c.blockSize) := by
  have hmax : c.blockSize ≤ maxBlockSize := hb.2
  constructor
  · intro hagrees
    by_contra hno
    refine stall_of_window ⟨by omega, hmax⟩ hblock (by omega) (by omega) (by omega) hagrees
  · intro h
    apply pacingAgrees_of_prompt (by omega)
    by_cases hone : c.windowsize = 1
    · exact prompt_of_windowsize_one hmax hblock (by rw [hwindow, hone])
    by_cases hshort : file.length < c.blockSize
    · exact prompt_of_short hmax hblock (by rw [hwindow]; exact hW) hshort
    · exact prompt_of_limit hmax (by omega) (by omega)

/-- The options of a write of `n` bytes in blocks of `b`, `W` to a window. -/
def sizedWrite (b W n : Nat) : WriteRequest :=
  ⟨.octet, { blockSize := b, windowsize := W, transferSize := some n }, ∅, 0⟩

/-- Twenty bytes in blocks of eight, one to a window. -/
theorem upload_pacing_iff_twenty_bytes :
    PacingAgrees (txtClient 8 1) (List.replicate 20 7) (sizedWrite 8 1 20) .entries :=
  (upload_pacing_iff _ _ _ _ (by decide) (by decide) rfl rfl).mpr (Or.inl rfl)

/-- Twenty bytes in blocks of eight, two to a window: the request is accepted with these options,
and then both sides wait. -/
theorem upload_of_window_two_stalls :
    startedWrite (handleClient txtHost.env emptyRoot txtHost.glob txtHost.config txtHost.order
        ((txtClient 8 2).wrqPacket "a.txt" 20))
      = some (Path.ofString "/srv/tftp/a.txt", (sizedWrite 8 2 20).options) ∧
    ¬ PacingAgrees (txtClient 8 2) (List.replicate 20 7) (sizedWrite 8 2 20) .entries := by
  constructor
  · decide +kernel
  · exact stall_of_window (by decide) rfl (by decide) (by decide) (Or.inl rfl)

end UsgTftp
