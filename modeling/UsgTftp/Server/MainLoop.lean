import UsgTftp.ConfigFile.Format
import UsgTftp.Lib.FreeList
import UsgTftp.Server.Batch

set_option autoImplicit false

/-! # The main loop of the server

`TftpServer::run` of `src/bin/server.rs` without the worker pool, and the `BufferPool` of
`src/buffer_pool.rs`. The loop receives datagrams in batches or one by one, and starts a task for
each of them; a task calls `handle_client`, gives its buffer back to the pool and lowers the count
of active clients. The tasks and the loop run in any order.

`handle_client` is left open here: a call returns or panics. A task that panics drops its buffer
and does not lower the count.

`dispatched_exactly_iff` says when the calls are the datagrams that arrived, and
`main_loop_accounts` what the pool, the count and the choice between the two ways of receiving are
in every state.
-/

namespace UsgTftp

open FreeList Panicking Reactive

/-! ## Buffers -/

/-- A `BytesMut`, with the number of its allocation. -/
structure PoolBuffer where
  number : Nat
  bytes : Bytes
  deriving DecidableEq

abbrev BufferPool := FreeList.Pool PoolBuffer

/-- `POOL_SIZE`. -/
def poolSize : Nat := 128

def PoolBuffer.new (number : Nat) : PoolBuffer := ⟨number, []⟩

def PoolBuffer.clear (buffer : PoolBuffer) : PoolBuffer := { buffer with bytes := [] }

/-- `resize(n, 0)`. -/
def PoolBuffer.resize (n : Nat) (buffer : PoolBuffer) : PoolBuffer :=
  { buffer with bytes := buffer.bytes.take n ++ List.replicate (n - buffer.bytes.length) 0 }

def PoolBuffer.extendFromSlice (data : Bytes) (buffer : PoolBuffer) : PoolBuffer :=
  { buffer with bytes := buffer.bytes ++ data }

/-- `BufferPool::new`: half of the buffers are there from the start. -/
def bufferPoolNew : BufferPool where
  free := (List.range (poolSize / 2)).map PoolBuffer.new
  next := poolSize / 2

def BufferPool.acquire (pool : BufferPool) : PoolBuffer × BufferPool :=
  let (buffer, pool) := FreeList.Pool.acquire PoolBuffer.new pool
  (buffer.clear, pool)

def BufferPool.release (buffer : PoolBuffer) (pool : BufferPool) : BufferPool :=
  FreeList.Pool.release poolSize buffer.clear pool

/-! ## The loop and its tasks -/

inductive TaskPhase where
  /-- In `handle_client`. -/
  | handling (buffer : PoolBuffer)
  /-- `handle_client` has returned, and the buffer has not gone back yet. -/
  | returned (buffer : PoolBuffer)
  /-- The count of active clients has not been lowered yet. -/
  | released
  | finished
  /-- `handle_client` has panicked. -/
  | panicked

/-- A task, with what `handle_client` is called with. -/
structure ClientTask where
  request : IncomingPacket
  phase : TaskPhase

inductive LoopPhase where
  /-- At the head of the loop. -/
  | deciding
  /-- In `batch_recv_packets`. -/
  | batching
  /-- In the loop over the packets of a batch, with those that are left. -/
  | dispatching (packets : List IncomingPacket)
  /-- Before the buffer for a single datagram is taken. -/
  | single
  /-- In `recv_from`. -/
  | receiving (buffer : PoolBuffer)
  | panicked

structure MainLoop where
  phase : LoopPhase := .deciding
  pool : BufferPool := bufferPoolNew
  activeClients : UInt64 := 0
  /-- All tasks, in the order of their start. -/
  tasks : List ClientTask := []
  /-- The datagrams with a usable sender that the socket has given, with their own bytes. -/
  arrived : List IncomingPacket := []

inductive LoopEvent where
  | decide
  | batch (batch : RecvBatch)
  /-- `recvmmsg` times out without a message. -/
  | batchEmpty
  | batchFailed
  | dispatch
  | acquire
  | received (message : Bytes) (clientAddr : SocketAddr)
  | receiveFailed
  /-- `handle_client` of a task returns. -/
  | returns (task : Nat)
  | panics (task : Nat)
  | releases (task : Nat)
  | counts (task : Nat)

/-- `use_batch_recv`. -/
def usesBatch (c : ConfigFile.BatchConfig) (activeClients : UInt64) : Bool :=
  if c.enableAdaptiveBatching then
    decide (c.adaptiveBatchThreshold ≤ activeClients) && c.enableRecvmmsg
  else c.enableRecvmmsg

/-- The count is raised and the task started. -/
def MainLoop.spawn (s : MainLoop) (buffer : PoolBuffer) (clientAddr : SocketAddr) : MainLoop :=
  { s with
    activeClients := s.activeClients + 1
    tasks := s.tasks ++ [⟨⟨buffer.bytes, clientAddr⟩, .handling buffer⟩] }

/-- A step of the loop itself. An event that the loop does not wait for changes nothing. -/
def MainLoop.turn (c : ConfigFile.BatchConfig) (s : MainLoop) (e : LoopEvent) : MainLoop :=
  match s.phase, e with
  | .deciding, .decide =>
      { s with phase := if usesBatch c s.activeClients then .batching else .single }
  | .batching, .batch batch =>
      { s with
        phase := match batch.dispatch with
          | none => .panicked
          | some packets => .dispatching packets
        arrived := s.arrived ++ batch.own }
  | .batching, .batchEmpty => { s with phase := .deciding }
  | .batching, .batchFailed => { s with phase := .single }
  | .dispatching [], .dispatch => { s with phase := .deciding }
  | .dispatching (packet :: packets), .dispatch =>
      let (buffer, pool) := BufferPool.acquire s.pool
      MainLoop.spawn { s with phase := .dispatching packets, pool := pool }
        (buffer.clear.extendFromSlice packet.data) packet.addr
  | .single, .acquire =>
      let (buffer, pool) := BufferPool.acquire s.pool
      { s with phase := .receiving (buffer.resize maxPacketSize), pool := pool }
  | .receiving buffer, .received message clientAddr =>
      let (bytes, size) := receiveInto buffer.bytes message
      MainLoop.spawn
        { s with
          phase := .deciding
          arrived := s.arrived ++ [⟨recvInto maxPacketSize message, clientAddr⟩] }
        { buffer with bytes := bytes.take size } clientAddr
  | .receiving buffer, .receiveFailed =>
      { s with phase := .deciding, pool := BufferPool.release buffer s.pool }
  | _, _ => s

/-- A step of task `i`. -/
def MainLoop.taskStep (s : MainLoop) (i : Nat) (e : LoopEvent) : MainLoop :=
  match s.tasks[i]? with
  | none => s
  | some task =>
      match task.phase, e with
      | .handling buffer, .returns _ =>
          { s with tasks := s.tasks.set i { task with phase := .returned buffer } }
      | .handling _, .panics _ =>
          { s with tasks := s.tasks.set i { task with phase := .panicked } }
      | .returned buffer, .releases _ =>
          { s with
            tasks := s.tasks.set i { task with phase := .released }
            pool := BufferPool.release buffer s.pool }
      | .released, .counts _ =>
          { s with
            tasks := s.tasks.set i { task with phase := .finished }
            activeClients := s.activeClients - 1 }
      | _, _ => s

def MainLoop.step (c : ConfigFile.BatchConfig) (s : MainLoop) (e : LoopEvent) : MainLoop :=
  match e with
  | .returns i | .panics i | .releases i | .counts i => s.taskStep i e
  | _ => s.turn c e

def MainLoop.run (c : ConfigFile.BatchConfig) (events : List LoopEvent) : MainLoop :=
  events.foldl (MainLoop.step c) {}

/-! ## What is observed -/

def LoopPhase.pending : LoopPhase → List IncomingPacket
  | .dispatching packets => packets
  | _ => []

def LoopPhase.buffers : LoopPhase → List PoolBuffer
  | .receiving buffer => [buffer]
  | _ => []

def TaskPhase.buffer : TaskPhase → Option PoolBuffer
  | .handling buffer => some buffer
  | .returned buffer => some buffer
  | _ => none

/-- The count of active clients has been raised for the task and not lowered. -/
def TaskPhase.counted : TaskPhase → Bool
  | .finished => false
  | _ => true

/-- The calls of `handle_client`, with those that are about to be made. -/
def MainLoop.calls (s : MainLoop) : List IncomingPacket :=
  s.tasks.map (·.request) ++ s.phase.pending

/-- The buffers that are in use. -/
def MainLoop.held (s : MainLoop) : List PoolBuffer :=
  s.phase.buffers ++ s.tasks.filterMap (·.phase.buffer)

/-- The buffers that exist. -/
def MainLoop.total (s : MainLoop) : Nat := s.pool.free.length + s.held.length

/-- The tasks that have not lowered the count: those that are still running, and those that have
panicked. -/
def MainLoop.counted (s : MainLoop) : Nat := s.tasks.countP (·.phase.counted)

/-- If the event is a batch that the loop waits for, its messages are not shifted. -/
def MainLoop.Whole (s : MainLoop) (e : LoopEvent) : Prop :=
  ∀ batch, s.phase = .batching → e = .batch batch → batch.Unshifted

/-! ## The pool -/

section BufferPools

variable {pool : BufferPool} {buffer : PoolBuffer} {held : List PoolBuffer}

/-- The buffers of a pool and those in use are different ones, and at most `poolSize` are kept. -/
abbrev BufferPool.Owned (pool : BufferPool) (held : List PoolBuffer) : Prop :=
  FreeList.Owned PoolBuffer.number poolSize pool held

/-- The buffers in the pool are empty. -/
def BufferPool.Clear (pool : BufferPool) : Prop := ∀ buffer ∈ pool.free, buffer.bytes = []

theorem acquire_bytes (pool : BufferPool) : (BufferPool.acquire pool).1.bytes = [] := rfl

theorem owned_acquire (h : BufferPool.Owned pool held) :
    BufferPool.Owned (BufferPool.acquire pool).2 ((BufferPool.acquire pool).1 :: held) :=
  (Owned.acquire (fun _ => rfl) h).change rfl

theorem owned_release (h : BufferPool.Owned pool (buffer :: held)) :
    BufferPool.Owned (BufferPool.release buffer pool) held :=
  (h.change (b := buffer.clear) rfl).release

theorem clear_acquire (h : BufferPool.Clear pool) : BufferPool.Clear (BufferPool.acquire pool).2 :=
  fun b hb => h b (mem_free_acquire pool hb)

theorem clear_release (h : BufferPool.Clear pool) :
    BufferPool.Clear (BufferPool.release buffer pool) := by
  intro b hb
  rcases mem_free_release pool buffer.clear hb with hb | rfl
  · exact h b hb
  · rfl

theorem owned_new : BufferPool.Owned bufferPoolNew [] where
  nodup := by
    have hmap : ((List.range (poolSize / 2)).map PoolBuffer.new).map PoolBuffer.number
        = List.range (poolSize / 2) := by
      rw [List.map_map]
      exact List.map_id _
    show ((((List.range (poolSize / 2)).map PoolBuffer.new) ++ []).map PoolBuffer.number).Nodup
    rw [List.append_nil, hmap]
    exact List.nodup_range
  lt := by
    intro b hb
    rw [List.append_nil] at hb
    obtain ⟨n, hn, rfl⟩ := List.mem_map.mp hb
    exact List.mem_range.mp hn
  le := by decide

theorem clear_new : BufferPool.Clear bufferPoolNew := by
  intro b hb
  obtain ⟨n, -, rfl⟩ := List.mem_map.mp hb
  rfl

end BufferPools

/-! ## What a step does -/

/-- What a step of a task can do. -/
inductive TaskMove (s : MainLoop) : MainLoop → Prop where
  | idle : TaskMove s s
  | returns (l r : List ClientTask) (request : IncomingPacket) (buffer : PoolBuffer)
      (h : s.tasks = l ++ ⟨request, .handling buffer⟩ :: r) :
      TaskMove s { s with tasks := l ++ ⟨request, .returned buffer⟩ :: r }
  | panics (l r : List ClientTask) (request : IncomingPacket) (buffer : PoolBuffer)
      (h : s.tasks = l ++ ⟨request, .handling buffer⟩ :: r) :
      TaskMove s { s with tasks := l ++ ⟨request, .panicked⟩ :: r }
  | releases (l r : List ClientTask) (request : IncomingPacket) (buffer : PoolBuffer)
      (h : s.tasks = l ++ ⟨request, .returned buffer⟩ :: r) :
      TaskMove s { s with
        tasks := l ++ ⟨request, .released⟩ :: r
        pool := BufferPool.release buffer s.pool }
  | counts (l r : List ClientTask) (request : IncomingPacket)
      (h : s.tasks = l ++ ⟨request, .released⟩ :: r) :
      TaskMove s { s with
        tasks := l ++ ⟨request, .finished⟩ :: r
        activeClients := s.activeClients - 1 }

/-- An element of a list, and what is put in its place. -/
theorem exists_split_at {α : Type} {xs : List α} {i : Nat} {x : α} (h : xs[i]? = some x) :
    ∃ l r, xs = l ++ x :: r ∧ ∀ y, xs.set i y = l ++ y :: r := by
  obtain ⟨hi, rfl⟩ := List.getElem?_eq_some_iff.mp h
  refine ⟨xs.take i, xs.drop (i + 1), ?_, fun y => ?_⟩
  · rw [List.cons_getElem_drop_succ, List.take_append_drop]
  · rw [List.set_eq_take_append_cons_drop, if_pos hi]

theorem taskStep_moves (s : MainLoop) (i : Nat) (e : LoopEvent) : TaskMove s (s.taskStep i e) := by
  unfold MainLoop.taskStep
  cases htask : s.tasks[i]? with
  | none => exact .idle
  | some task =>
      obtain ⟨request, phase⟩ := task
      obtain ⟨l, r, hsplit, hset⟩ := exists_split_at htask
      dsimp only
      split
      · rw [hset]
        exact .returns l r request _ hsplit
      · rw [hset]
        exact .panics l r request _ hsplit
      · rw [hset]
        exact .releases l r request _ hsplit
      · rw [hset]
        exact .counts l r request hsplit
      · exact .idle

/-! ## The invariant -/

structure MainLoop.Inv (s : MainLoop) : Prop where
  owned : BufferPool.Owned s.pool s.held
  clear : BufferPool.Clear s.pool
  sized : ∀ buffer, s.phase = .receiving buffer → buffer.bytes.length = maxPacketSize
  counter : s.activeClients = UInt64.ofNat s.counted
  running : s.phase ≠ .panicked

/-- A step from `s` to `s'` keeps the invariant, and makes a new buffer only if all others are in
use. -/
structure MainLoop.Next (s s' : MainLoop) : Prop where
  inv : s'.Inv
  total : s'.total ≤ max s.total s'.held.length

theorem MainLoop.Inv.idle {s : MainLoop} (h : s.Inv) : s.Next s := ⟨h, Nat.le_max_left _ _⟩

/-- A task goes on, and what it holds and whether it counts does not change. -/
theorem held_tasks (s s' : MainLoop) {l r : List ClientTask} {task task' : ClientTask}
    (htasks : s.tasks = l ++ task :: r) (htasks' : s'.tasks = l ++ task' :: r)
    (hphase : s'.phase = s.phase) :
    s.held.Perm (task.phase.buffer.toList
      ++ (s.phase.buffers ++ (l ++ r).filterMap (·.phase.buffer))) ∧
    s'.held.Perm (task'.phase.buffer.toList
      ++ (s.phase.buffers ++ (l ++ r).filterMap (·.phase.buffer))) ∧
    s.counted = (l ++ r).countP (·.phase.counted) + task.phase.counted.toNat ∧
    s'.counted = (l ++ r).countP (·.phase.counted) + task'.phase.counted.toNat := by
  have hheld : ∀ task'' : ClientTask, (s.phase.buffers ++ (l ++ task'' :: r).filterMap
      (·.phase.buffer)).Perm (task''.phase.buffer.toList
        ++ (s.phase.buffers ++ (l ++ r).filterMap (·.phase.buffer))) := by
    intro task''
    have hmove : (l ++ task'' :: r).Perm (task'' :: (l ++ r)) := List.perm_middle
    calc
      (s.phase.buffers ++ (l ++ task'' :: r).filterMap (·.phase.buffer)).Perm
          (s.phase.buffers ++ (task'' :: (l ++ r)).filterMap (·.phase.buffer)) :=
        (hmove.filterMap _).append_left _
      _ = s.phase.buffers ++ (task''.phase.buffer.toList
            ++ (l ++ r).filterMap (·.phase.buffer)) := by
        rw [List.filterMap_cons]
        cases task''.phase.buffer <;> rfl
      List.Perm _ (task''.phase.buffer.toList
          ++ (s.phase.buffers ++ (l ++ r).filterMap (·.phase.buffer))) := by
        rw [← List.append_assoc, ← List.append_assoc]
        exact List.perm_append_comm.append_right _
  have hcount : ∀ task'' : ClientTask, (l ++ task'' :: r).countP (·.phase.counted)
      = (l ++ r).countP (·.phase.counted) + task''.phase.counted.toNat := by
    intro task''
    rw [List.countP_append, List.countP_cons, List.countP_append]
    cases task''.phase.counted with
    | false => simp
    | true =>
        simp
        omega
  refine ⟨?_, ?_, ?_, ?_⟩
  · rw [MainLoop.held, htasks]
    exact hheld task
  · rw [MainLoop.held, htasks', hphase]
    exact hheld task'
  · rw [MainLoop.counted, htasks, hcount]
  · rw [MainLoop.counted, htasks', hcount]

theorem MainLoop.Inv.taskMove {s s' : MainLoop} (h : s.Inv) (hmove : TaskMove s s') :
    s.Next s' := by
  cases hmove with
  | idle => exact h.idle
  | returns l r request buffer htasks =>
      obtain ⟨hheld, hheld', hcounted, hcounted'⟩ := held_tasks s
        { s with tasks := l ++ ⟨request, .returned buffer⟩ :: r } htasks rfl rfl
      have hsame := hheld.trans hheld'.symm
      refine ⟨⟨h.owned.perm hsame, h.clear, h.sized, ?_, h.running⟩, ?_⟩
      · rw [hcounted', ← h.counter.symm, hcounted]
        rfl
      · exact le_max_of_le_left (Nat.add_le_add_left (Nat.le_of_eq hsame.length_eq.symm) _)
  | panics l r request buffer htasks =>
      obtain ⟨hheld, hheld', hcounted, hcounted'⟩ := held_tasks s
        { s with tasks := l ++ ⟨request, .panicked⟩ :: r } htasks rfl rfl
      refine ⟨⟨(h.owned.perm hheld).discard.perm hheld'.symm, h.clear, h.sized, ?_, h.running⟩, ?_⟩
      · rw [hcounted', ← h.counter.symm, hcounted]
        rfl
      · have hlen := hheld.length_eq
        have hlen' := hheld'.length_eq
        exact le_max_of_le_left (Nat.add_le_add_left (by rw [hlen, hlen']; simp [TaskPhase.buffer]) _)
  | releases l r request buffer htasks =>
      obtain ⟨hheld, hheld', hcounted, hcounted'⟩ := held_tasks s
        { s with
          tasks := l ++ ⟨request, .released⟩ :: r
          pool := BufferPool.release buffer s.pool } htasks rfl rfl
      refine ⟨⟨(owned_release (h.owned.perm hheld)).perm hheld'.symm, clear_release h.clear,
        h.sized, ?_, h.running⟩, ?_⟩
      · rw [hcounted', ← h.counter.symm, hcounted]
        rfl
      · have hlen := hheld.length_eq
        have hlen' := hheld'.length_eq
        refine le_max_of_le_left ?_
        rw [MainLoop.total, MainLoop.total, hlen, hlen']
        exact total_release s.pool buffer.clear _
  | counts l r request htasks =>
      obtain ⟨hheld, hheld', hcounted, hcounted'⟩ := held_tasks s
        { s with
          tasks := l ++ ⟨request, .finished⟩ :: r
          activeClients := s.activeClients - 1 } htasks rfl rfl
      have hsame := hheld.trans hheld'.symm
      refine ⟨⟨h.owned.perm hsame, h.clear, h.sized, ?_, h.running⟩, ?_⟩
      · show s.activeClients - 1 = _
        rw [hcounted', h.counter, hcounted]
        show UInt64.ofNat (_ + 1) - 1 = UInt64.ofNat (_ + 0)
        rw [UInt64.ofNat_add, Nat.add_zero]
        exact UInt64.add_sub_cancel _ _
      · exact le_max_of_le_left (Nat.add_le_add_left (Nat.le_of_eq hsame.length_eq.symm) _)

/-- A task is started with a buffer that no one else has. -/
theorem held_spawn (s : MainLoop) (buffer : PoolBuffer) (clientAddr : SocketAddr) :
    (s.spawn buffer clientAddr).held.Perm (buffer :: s.held) ∧
    (s.spawn buffer clientAddr).counted = s.counted + 1 := by
  constructor
  · have hheld : (s.spawn buffer clientAddr).held = s.held ++ [buffer] := by
      simp [MainLoop.held, MainLoop.spawn, TaskPhase.buffer]
    rw [hheld]
    exact List.perm_append_comm
  · simp [MainLoop.counted, MainLoop.spawn, TaskPhase.counted]

theorem counter_spawn {s : MainLoop} (h : s.activeClients = UInt64.ofNat s.counted)
    (buffer : PoolBuffer) (clientAddr : SocketAddr) :
    (s.spawn buffer clientAddr).activeClients
      = UInt64.ofNat (s.spawn buffer clientAddr).counted := by
  rw [(held_spawn s buffer clientAddr).2, UInt64.ofNat_add, ← h]
  rfl

/-- What `recv_from` leaves in the buffer is the message alone. -/
theorem take_receiveInto {buffer : Bytes} (hlen : buffer.length = maxPacketSize)
    (message : Bytes) :
    (receiveInto buffer message).1.take (receiveInto buffer message).2
      = recvInto maxPacketSize message := by
  have h := sliceTo_receiveInto buffer message
  unfold sliceTo at h
  split_ifs at h
  rw [Option.some.inj h, hlen, recvInto]

theorem length_resize (n : Nat) (buffer : PoolBuffer) : (buffer.resize n).bytes.length = n := by
  simp only [PoolBuffer.resize, List.length_append, List.length_take, List.length_replicate]
  omega

/-- One call for each message with a usable address, whatever bytes it is made with. -/
theorem length_readFrom (buffers : List Bytes) : ∀ (msgs : List RecvMsg) (i k : Nat),
    (readFrom buffers i msgs).length = (ownFrom buffers k msgs).length := by
  intro msgs
  induction msgs with
  | nil => intro i k; rfl
  | cons m msgs ih =>
      intro i k
      rw [readFrom, ownFrom]
      cases m.sender with
      | none => exact ih i (k + 1)
      | some addr => exact congrArg (· + 1) (ih (i + 1) (k + 1))

/-- No batch makes the loop panic. -/
theorem exists_dispatch (batch : RecvBatch) : ∃ packets, batch.dispatch = some packets ∧
    packets.length = batch.own.length ∧ (packets = batch.own ↔ batch.Unshifted) := by
  have hlength : 0 + batch.msgs.length ≤ batch.buffers.length := by
    rw [Nat.zero_add]
    exact batch.length_le
  have hdispatch : batch.dispatch = some (readFrom batch.buffers 0 batch.msgs) :=
    dispatchFrom_eq batch.buffer_length batch.msgs 0 hlength batch.bytes_le
  refine ⟨_, hdispatch, length_readFrom batch.buffers batch.msgs 0 0, ?_⟩
  rw [RecvBatch.own, readFrom_eq_iff]
  simp only [Nat.zero_add]
  exact Iff.rfl

/-- The loop goes to another place without a buffer. -/
theorem MainLoop.Inv.go {s : MainLoop} (h : s.Inv) (hbuffers : s.phase.buffers = [])
    {phase : LoopPhase} (hphase : phase.buffers = []) (hrunning : phase ≠ .panicked)
    (arrived : List IncomingPacket) :
    s.Next { s with phase := phase, arrived := arrived } := by
  have hheld : MainLoop.held { s with phase := phase, arrived := arrived } = s.held := by
    simp only [MainLoop.held, hbuffers, hphase]
  refine ⟨⟨?_, h.clear, ?_, h.counter, hrunning⟩, ?_⟩
  · rw [hheld]
    exact h.owned
  · rintro buffer rfl
    cases hphase
  · refine le_max_of_le_left ?_
    rw [MainLoop.total, hheld]
    exact Nat.le_refl _

/-- A task is started with a new buffer. -/
theorem MainLoop.Inv.acquired {s : MainLoop} (h : s.Inv) (hbuffers : s.phase.buffers = [])
    (phase : LoopPhase) (hphase : phase.buffers = []) (hrunning : phase ≠ .panicked)
    (buffer : PoolBuffer) (hbuffer : buffer.number = (BufferPool.acquire s.pool).1.number)
    (clientAddr : SocketAddr) :
    s.Next (MainLoop.spawn { s with phase := phase, pool := (BufferPool.acquire s.pool).2 }
      buffer clientAddr) := by
  have hheld : MainLoop.held { s with phase := phase, pool := (BufferPool.acquire s.pool).2 }
      = s.held := by
    simp only [MainLoop.held, hbuffers, hphase]
  obtain ⟨hperm, -⟩ := held_spawn
    { s with phase := phase, pool := (BufferPool.acquire s.pool).2 } buffer clientAddr
  rw [hheld] at hperm
  refine ⟨⟨((owned_acquire h.owned).change hbuffer).perm hperm.symm, clear_acquire h.clear, ?_,
    counter_spawn h.counter buffer clientAddr, hrunning⟩, ?_⟩
  · rintro _ rfl
    cases hphase
  · rw [MainLoop.total, hperm.length_eq]
    exact total_acquire s.pool _

/-- A task is started with the buffer that was received into. -/
theorem MainLoop.Inv.handed {s : MainLoop} (h : s.Inv) {received : PoolBuffer}
    (hphase : s.phase = .receiving received) (buffer : PoolBuffer)
    (hbuffer : buffer.number = received.number)
    (clientAddr : SocketAddr) (arrived : List IncomingPacket) :
    s.Next (MainLoop.spawn { s with phase := .deciding, arrived := arrived } buffer
      clientAddr) := by
  have hheld : s.held = received :: s.tasks.filterMap (·.phase.buffer) := by
    rw [MainLoop.held, hphase]
    rfl
  have howned := h.owned
  rw [hheld] at howned
  obtain ⟨hperm, -⟩ := held_spawn { s with phase := .deciding, arrived := arrived } buffer
    clientAddr
  refine ⟨⟨(howned.change hbuffer).perm hperm.symm, h.clear, by simp [MainLoop.spawn],
    counter_spawn h.counter buffer clientAddr, by simp [MainLoop.spawn]⟩, ?_⟩
  exact Nat.le_max_left _ _ |>.trans' (Nat.add_le_add_left (by
    rw [hperm.length_eq, hheld]
    exact Nat.le_refl _) _)

/-- **A turn of the loop** keeps the invariant. -/
theorem MainLoop.Inv.turn {c : ConfigFile.BatchConfig} {s : MainLoop} (h : s.Inv)
    (e : LoopEvent) : s.Next (s.turn c e) := by
  unfold MainLoop.turn
  split
  · rename_i hphase
    refine h.go (by rw [hphase]; rfl) ?_ ?_ s.arrived
    · split_ifs <;> rfl
    · split_ifs <;> simp
  · rename_i batch hphase
    obtain ⟨packets, hdispatch, -, -⟩ := exists_dispatch batch
    rw [hdispatch]
    exact h.go (by rw [hphase]; rfl) rfl (by simp) _
  · rename_i hphase
    exact h.go (by rw [hphase]; rfl) rfl (by simp) s.arrived
  · rename_i hphase
    exact h.go (by rw [hphase]; rfl) rfl (by simp) s.arrived
  · rename_i hphase
    exact h.go (by rw [hphase]; rfl) rfl (by simp) s.arrived
  · -- the next packet of the batch gets a buffer of its own
    rename_i packet packets hphase
    exact h.acquired (by rw [hphase]; rfl) (.dispatching packets) rfl (by simp)
      ((BufferPool.acquire s.pool).1.clear.extendFromSlice packet.data) rfl packet.addr
  · -- the buffer for a single datagram
    rename_i hphase
    have hheld : s.held = s.tasks.filterMap (·.phase.buffer) := by
      rw [MainLoop.held, hphase]
      rfl
    have howned := owned_acquire h.owned
    rw [hheld] at howned
    refine ⟨⟨howned.change rfl, clear_acquire h.clear, ?_, h.counter, by simp⟩, ?_⟩
    · rintro _ ⟨⟩
      exact length_resize _ _
    · show _ ≤ max (s.pool.free.length + s.held.length) _
      rw [hheld]
      exact total_acquire s.pool _
  · -- the datagram goes to a task with its buffer
    rename_i buffer message clientAddr hphase
    exact h.handed hphase { buffer with
      bytes := (receiveInto buffer.bytes message).1.take (receiveInto buffer.bytes message).2 }
      rfl clientAddr _
  · rename_i buffer hphase
    have hheld : s.held = buffer :: s.tasks.filterMap (·.phase.buffer) := by
      rw [MainLoop.held, hphase]
      rfl
    have howned := h.owned
    rw [hheld] at howned
    refine ⟨⟨owned_release howned, clear_release h.clear, by simp, h.counter, by simp⟩, ?_⟩
    show _ ≤ max (s.pool.free.length + s.held.length) _
    rw [hheld]
    exact le_max_of_le_left (total_release s.pool buffer.clear _)
  · exact h.idle

/-- **Step lemma.** -/
theorem MainLoop.Inv.step {c : ConfigFile.BatchConfig} {s : MainLoop} (h : s.Inv)
    (e : LoopEvent) : s.Next (s.step c e) := by
  unfold MainLoop.step
  split
  · exact h.taskMove (taskStep_moves s _ _)
  · exact h.taskMove (taskStep_moves s _ _)
  · exact h.taskMove (taskStep_moves s _ _)
  · exact h.taskMove (taskStep_moves s _ _)
  · exact h.turn e

theorem inv_start : ({} : MainLoop).Inv :=
  ⟨owned_new, clear_new, by simp, rfl, by simp⟩

theorem inv_run (c : ConfigFile.BatchConfig) (events : List LoopEvent) :
    (MainLoop.run c events).Inv :=
  foldl_invariant (fun _ e h => (h.step e).inv) events _ inv_start

/-! ## Calls -/

/-- What a step adds to the calls and to the datagrams that have arrived. -/
structure MainLoop.Adds (s s' : MainLoop) (calls own : List IncomingPacket) : Prop where
  calls : s'.calls = s.calls ++ calls
  arrived : s'.arrived = s.arrived ++ own

theorem TaskMove.adds {s s' : MainLoop} (h : TaskMove s s') : s.Adds s' [] [] := by
  have htasks : s'.calls = s.calls ∧ s'.arrived = s.arrived := by
    cases h with
    | idle => exact ⟨rfl, rfl⟩
    | returns l r request buffer h => simp [MainLoop.calls, h]
    | panics l r request buffer h => simp [MainLoop.calls, h]
    | releases l r request buffer h => simp [MainLoop.calls, h]
    | counts l r request h => simp [MainLoop.calls, h]
  exact ⟨by rw [htasks.1, List.append_nil], by rw [htasks.2, List.append_nil]⟩

/-- **A turn of the loop** calls `handle_client` for what has arrived: with the bytes that have
arrived unless they come from a batch that is shifted. -/
theorem turn_adds {c : ConfigFile.BatchConfig} {s : MainLoop} (h : s.Inv) (e : LoopEvent) :
    ∃ calls own, s.Adds (s.turn c e) calls own ∧ calls.length = own.length ∧
      (calls = own ↔ s.Whole e) := by
  have hnone : ∀ {s' : MainLoop}, s'.calls = s.calls → s'.arrived = s.arrived →
      s.phase ≠ .batching ∨ (∀ batch, e ≠ .batch batch) →
      ∃ calls own, s.Adds s' calls own ∧ calls.length = own.length ∧ (calls = own ↔ s.Whole e) := by
    intro s' hcalls harrived hno
    refine ⟨[], [], ⟨by rw [hcalls, List.append_nil], by rw [harrived, List.append_nil]⟩, rfl, ?_⟩
    refine iff_of_true rfl fun batch hphase he => ?_
    rcases hno with hno | hno
    · exact absurd hphase hno
    · exact absurd he (hno batch)
  unfold MainLoop.turn
  split
  · rename_i hphase
    refine hnone ?_ rfl (Or.inr (by simp))
    simp only [MainLoop.calls, hphase]
    split_ifs <;> rfl
  · rename_i batch hphase
    obtain ⟨packets, hdispatch, hlength, hwhole⟩ := exists_dispatch batch
    rw [hdispatch]
    refine ⟨packets, batch.own, ⟨?_, rfl⟩, hlength, hwhole.trans ?_⟩
    · simp [MainLoop.calls, hphase, LoopPhase.pending]
    · constructor
      · rintro h batch' - ⟨⟩
        exact h
      · intro h
        exact h batch hphase rfl
  · rename_i hphase
    exact hnone (by simp [MainLoop.calls, hphase, LoopPhase.pending]) rfl (Or.inr (by simp))
  · rename_i hphase
    exact hnone (by simp [MainLoop.calls, hphase, LoopPhase.pending]) rfl (Or.inr (by simp))
  · rename_i hphase
    exact hnone (by simp [MainLoop.calls, hphase, LoopPhase.pending]) rfl (Or.inr (by simp))
  · -- the buffer was empty, so the call gets the packet alone
    rename_i packet packets hphase
    refine hnone ?_ rfl (Or.inr (by simp))
    simp [MainLoop.calls, hphase, LoopPhase.pending, MainLoop.spawn, PoolBuffer.clear,
      PoolBuffer.extendFromSlice]
  · rename_i hphase
    exact hnone (by simp [MainLoop.calls, hphase, LoopPhase.pending]) rfl (Or.inr (by simp))
  · rename_i buffer message clientAddr hphase
    have htake := take_receiveInto (h.sized buffer hphase) message
    refine ⟨[⟨recvInto maxPacketSize message, clientAddr⟩], _, ⟨?_, rfl⟩, rfl, ?_⟩
    · simp [MainLoop.calls, hphase, LoopPhase.pending, MainLoop.spawn, htake]
    · exact iff_of_true rfl fun batch hphase' => by
        rw [hphase] at hphase'
        cases hphase'
  · rename_i buffer hphase
    exact hnone (by simp [MainLoop.calls, hphase, LoopPhase.pending]) rfl (Or.inr (by simp))
  · rename_i hbatch _ _ _ _ _ _ _
    refine hnone rfl rfl ?_
    by_cases hphase : s.phase = .batching
    · exact Or.inr fun batch he => hbatch batch hphase he
    · exact Or.inl hphase

theorem step_adds {c : ConfigFile.BatchConfig} {s : MainLoop} (h : s.Inv) (e : LoopEvent) :
    ∃ calls own, s.Adds (s.step c e) calls own ∧ calls.length = own.length ∧
      (calls = own ↔ s.Whole e) := by
  have htask : ∀ i, (∀ batch, e ≠ .batch batch) →
      ∃ calls own, s.Adds (s.taskStep i e) calls own ∧ calls.length = own.length ∧
        (calls = own ↔ s.Whole e) := fun i hno =>
    ⟨[], [], (taskStep_moves s i e).adds, rfl,
      iff_of_true rfl fun batch _ he => absurd he (hno batch)⟩
  unfold MainLoop.step
  split
  · exact htask _ (by simp)
  · exact htask _ (by simp)
  · exact htask _ (by simp)
  · exact htask _ (by simp)
  · exact turn_adds h e

/-- **No more buffers than needed**: those that were there at the start, or as many as were in use
at one time. -/
theorem total_run_le (c : ConfigFile.BatchConfig) {n : Nat} (events : List LoopEvent)
    (hn : ∀ es, es <+: events → (MainLoop.run c es).held.length ≤ n) :
    (MainLoop.run c events).total ≤ max (poolSize / 2) n := by
  induction events using List.reverseRec with
  | nil => exact Nat.le_max_left _ _
  | append_singleton es e ih =>
      have hrun : MainLoop.run c (es ++ [e]) = (MainLoop.run c es).step c e := by
        rw [MainLoop.run, List.foldl_append]
        rfl
      have hbefore := ih fun es' h => hn es' (h.trans (List.prefix_append _ _))
      have hafter := hn (es ++ [e]) (List.prefix_refl _)
      rw [hrun] at hafter ⊢
      calc
        ((MainLoop.run c es).step c e).total
          ≤ max (MainLoop.run c es).total ((MainLoop.run c es).step c e).held.length :=
            ((inv_run c es).step e).total
        _ ≤ max (max (poolSize / 2) n) n := max_le_max hbefore hafter
        _ = max (poolSize / 2) n := by rw [max_assoc, max_self]

/-- Batches are used when enough clients are active. -/
theorem usesBatch_iff (c : ConfigFile.BatchConfig) {n : Nat} (hn : n < 2 ^ 64) :
    usesBatch c (UInt64.ofNat n) = true ↔ c.enableRecvmmsg = true ∧
      (c.enableAdaptiveBatching = true → c.adaptiveBatchThreshold.toNat ≤ n) := by
  unfold usesBatch
  cases c.enableAdaptiveBatching with
  | false => simp
  | true =>
      have hle : c.adaptiveBatchThreshold ≤ UInt64.ofNat n ↔ c.adaptiveBatchThreshold.toNat ≤ n := by
        rw [UInt64.le_iff_toNat_le, UInt64.toNat_ofNat', Nat.mod_eq_of_lt hn]
      simp [hle, and_comm]

/-- **What the loop keeps in order.** In every state of every run, the count of active clients is
the number of tasks that are running or have panicked; no buffer is used twice at a time; the
pool keeps at most `128` buffers, and no bytes in them; and no more buffers exist than `64`, or
than were in use at one time. So a turn receives in batches just if `recvmmsg` is enabled and, in
adaptive mode, enough tasks are running or have panicked. -/
theorem main_loop_accounts (c : ConfigFile.BatchConfig) (events : List LoopEvent) :
    (MainLoop.run c events).activeClients = UInt64.ofNat (MainLoop.run c events).counted ∧
    (((MainLoop.run c events).pool.free ++ (MainLoop.run c events).held).map
      PoolBuffer.number).Nodup ∧
    (MainLoop.run c events).pool.free.length ≤ poolSize ∧
    (∀ buffer ∈ (MainLoop.run c events).pool.free, buffer.bytes = []) ∧
    (∀ n, (∀ es, es <+: events → (MainLoop.run c es).held.length ≤ n) →
      (MainLoop.run c events).total ≤ max (poolSize / 2) n) ∧
    ((MainLoop.run c events).tasks.length < 2 ^ 64 →
      (usesBatch c (MainLoop.run c events).activeClients = true ↔ c.enableRecvmmsg = true ∧
        (c.enableAdaptiveBatching = true →
          c.adaptiveBatchThreshold.toNat ≤ (MainLoop.run c events).counted))) := by
  have h := inv_run c events
  refine ⟨h.counter, h.owned.nodup, h.owned.le, h.clear, fun n => total_run_le c events,
    fun hlen => ?_⟩
  rw [h.counter]
  exact usesBatch_iff c (Nat.lt_of_le_of_lt List.countP_le_length hlen)

/-- A task that panics is counted for ever. -/
example : (MainLoop.run ⟨true, true, 32, 100, true, 5⟩
    [.decide, .acquire, .received [0, 1] ⟨.v4 1, 2000⟩, .panics 0]).activeClients = 1 := rfl

end UsgTftp
