import UsgTftp.Download.Service
import UsgTftp.Download.TransferId

set_option autoImplicit false

/-! # Downloads from a shared server are whole

The invariant of `ServiceStep`, client by client: a client follows one transfer, and every
packet ever sent between it and any of its transfers is truthful about the file that the task of
that transfer has opened. A step of another client, of a stranger or of a writer changes none of
this, so only the steps on the way between a client and its own tasks need a look.
-/

namespace UsgTftp

open Reactive Segment SeqNum Posix

/-! ## One task among many -/

section Tasks

variable (host : Host) (t : Tree) (dest : SocketAddr)

/-- **Inversion of a delivery.** It reaches one task, and what that task sends carries its
address; or it reaches none. -/
theorem deliver_cases (r : Recv) (tasks : List ServerTask) :
    deliver host t dest r tasks = (tasks, []) ∨
    ∃ pre task post, tasks = pre ++ ⟨dest, task⟩ :: post ∧
      deliver host t dest r tasks = (pre ++ ⟨dest, (task.receive host t r).1⟩ :: post,
        (task.receive host t r).2.map fun d => (dest, d)) := by
  induction tasks with
  | nil => exact Or.inl rfl
  | cons task tasks ih =>
      obtain ⟨tid, task⟩ := task
      by_cases htid : tid = dest
      · subst htid
        exact Or.inr ⟨[], task, tasks, rfl, by rw [deliver, if_pos rfl]; rfl⟩
      · rw [deliver, if_neg htid]
        rcases ih with hnone | ⟨pre, task', post, rfl, hsome⟩
        · left
          rw [hnone]
        · right
          refine ⟨⟨tid, task⟩ :: pre, task', post, rfl, ?_⟩
          rw [hsome]
          rfl

/-- **Inversion of a file operation.** -/
theorem ioOf_cases (outcome : IoOutcome) (tasks : List ServerTask) :
    ioOf host t dest outcome tasks = (t, tasks) ∨
    ∃ pre task post, tasks = pre ++ ⟨dest, task⟩ :: post ∧
      ioOf host t dest outcome tasks = ((task.io host t outcome).1,
        pre ++ ⟨dest, (task.io host t outcome).2⟩ :: post) := by
  induction tasks with
  | nil => exact Or.inl rfl
  | cons task tasks ih =>
      obtain ⟨tid, task⟩ := task
      by_cases htid : tid = dest
      · subst htid
        exact Or.inr ⟨[], task, tasks, rfl, by rw [ioOf, if_pos rfl]; rfl⟩
      · rw [ioOf, if_neg htid]
        rcases ih with hnone | ⟨pre, task', post, rfl, hsome⟩
        · left
          rw [hnone]
        · right
          refine ⟨⟨tid, task⟩ :: pre, task', post, rfl, ?_⟩
          rw [hsome]
          rfl

end Tasks

/-! ## The invariant -/

/-- How many blocks the client has written from the transfer at `tid`: it follows one transfer
only. -/
def progress (g : GetState) (k : Nat) (tid : SocketAddr) : Nat :=
  if g.serverTid = some tid then k else 0

section Invariant

variable {ι : Type} {host : Host}

/-- **The invariant of a client** that has written `k` blocks. -/
structure ClientInv (fetch : ι → Fetch host) (i : ι) (k : Nat) (s : Service ι) : Prop where
  idle : (s.clients i).state.serverTid = none → (s.clients i).state = {} ∧ k = 0
  locked : ∀ tid, (s.clients i).state.serverTid = some tid →
    s.peer tid = some i ∧
    k ≤ blockCount (fetch i).client.blockSize (contents (s.files tid)) ∧
    ClientAt (fetch i).client.blockSize (contents (s.files tid)) k (s.clients i).state
  done : ∀ g, s.clients i = .returned (.ok ()) g →
    ∃ tid, g.serverTid = some tid ∧ g.written = contents (s.files tid)
  tasks : ∀ task ∈ s.server.tasks, s.peer task.tid = some i →
    TaskAt (fetch i).client.blockSize (contents (s.files task.tid))
      (progress (s.clients i).state k task.tid) task.task
  sent : ∀ src d, (i, src, d) ∈ s.toClients → s.peer src = some i ∧
    TruthfulData (fetch i).client.blockSize (contents (s.files src)) d
  acks : ∀ dest d, (i, dest, d) ∈ s.toServer →
    dest = host.listenAddr ∧ d = (fetch i).client.rrqPacket (fetch i).remoteFile ∨
    (s.clients i).state.serverTid = some dest ∧ TruthfulAck k d

/-- **The invariant of the system.** -/
structure Service.Inv (fetch : ι → Fetch host) (s : Service ι) : Prop where
  tids : s.server.tasks.map ServerTask.tid = (List.range s.server.tasks.length).map host.tids
  bound : ∀ tid i, s.peer tid = some i → tid ∈ s.server.tasks.map ServerTask.tid
  clients : s.Within host fetch → ∀ i, ∃ k, ClientInv fetch i k s

theorem mem_addressed {peer : Option ι} {out : List (SocketAddr × Bytes)} {i : ι}
    {m : SocketAddr × Bytes} : (i, m) ∈ addressed peer out ↔ peer = some i ∧ m ∈ out := by
  unfold addressed
  cases peer with
  | none => simp
  | some j =>
      simp only [List.mem_map, Prod.mk.injEq, exists_eq_right_right, Option.some.injEq]
      exact and_comm

variable {fetch : ι → Fetch host} {i : ι} {k : Nat} {s s' : Service ι}

/-- **Frame rule.** What the server does keeps the invariant of a client, if its transfers keep
their sockets and files, and its tasks and their packets are right. -/
theorem ClientInv.server (h : ClientInv fetch i k s) (hclient : s'.clients i = s.clients i)
    (hkeep : ∀ tid, s.peer tid = some i → s'.peer tid = some i ∧ s'.files tid = s.files tid)
    (htasks : ∀ task ∈ s'.server.tasks, s'.peer task.tid = some i →
      TaskAt (fetch i).client.blockSize (contents (s'.files task.tid))
        (progress (s.clients i).state k task.tid) task.task)
    (hsent : ∀ src d, (i, src, d) ∈ s'.toClients → (i, src, d) ∈ s.toClients ∨
      s'.peer src = some i ∧
        TruthfulData (fetch i).client.blockSize (contents (s'.files src)) d)
    (hacks : ∀ dest d, (i, dest, d) ∈ s'.toServer → (i, dest, d) ∈ s.toServer ∨
      dest = host.listenAddr ∧ d = (fetch i).client.rrqPacket (fetch i).remoteFile) :
    ClientInv fetch i k s' where
  idle := by rw [hclient]; exact h.idle
  locked := by
    rw [hclient]
    intro tid htid
    obtain ⟨hpeer, hrest⟩ := h.locked tid htid
    obtain ⟨hpeer', hfile⟩ := hkeep tid hpeer
    rw [hfile]
    exact ⟨hpeer', hrest⟩
  done := by
    rw [hclient]
    intro g hg
    obtain ⟨tid, htid, hwritten⟩ := h.done g hg
    have hstate : (s.clients i).state.serverTid = some tid := by rw [hg]; exact htid
    rw [← (hkeep tid (h.locked tid hstate).1).2] at hwritten
    exact ⟨tid, htid, hwritten⟩
  tasks := by rw [hclient]; exact htasks
  sent := by
    intro src d hd
    rcases hsent src d hd with hold | hnew
    · obtain ⟨hpeer, htruth⟩ := h.sent src d hold
      obtain ⟨hpeer', hfile⟩ := hkeep src hpeer
      exact ⟨hpeer', by rw [hfile]; exact htruth⟩
    · exact hnew
  acks := by
    rw [hclient]
    intro dest d hd
    rcases hacks dest d hd with hold | hnew
    · exact h.acks dest d hold
    · exact Or.inl hnew

/-! ## Steps of the server -/

theorem ClientInv.progress_le (h : ClientInv fetch i k s) (tid : SocketAddr) :
    progress (s.clients i).state k tid
      ≤ blockCount (fetch i).client.blockSize (contents (s.files tid)) := by
  unfold progress
  split_ifs with htid
  · exact (h.locked tid htid).2.1
  · exact Nat.zero_le _

/-- A task takes a datagram, or its timer fires. -/
theorem ClientInv.deliver (h : ClientInv fetch i k s)
    (hN : ∀ tid, s.peer tid = some i →
      blockCount (fetch i).client.blockSize (contents (s.files tid)) ≤ 65535)
    {r : Recv} {tid : SocketAddr} (hr : s.peer tid = some i →
      ∀ n, IsAck n r → n.toNat ≤ progress (s.clients i).state k tid) :
    ClientInv fetch i k { s with
      server := ⟨s.server.tree, (deliver host s.server.tree tid r s.server.tasks).1⟩
      toClients := s.toClients ++
        addressed (s.peer tid) (deliver host s.server.tree tid r s.server.tasks).2 } := by
  have hb : 0 < (fetch i).client.blockSize := by
    have := (fetch i).blockSize_range
    omega
  rcases deliver_cases host s.server.tree tid r s.server.tasks with
    hnone | ⟨pre, task, post, hsplit, hsome⟩
  · rw [hnone]
    refine h.server rfl (fun _ htid => ⟨htid, rfl⟩) h.tasks (fun src d hd => ?_)
      (fun dest d hd => Or.inl hd)
    rcases List.mem_append.mp hd with hd | hd
    · exact Or.inl hd
    · exact absurd (mem_addressed.mp hd).2 (by simp)
  · rw [hsome]
    have hmem : (⟨tid, task⟩ : ServerTask) ∈ s.server.tasks := by rw [hsplit]; simp
    have hmoves : s.peer tid = some i →
        TaskMoves (fetch i).client.blockSize (contents (s.files tid))
          (progress (s.clients i).state k tid) (task.receive host s.server.tree r) := by
      intro hpeer
      exact (h.tasks _ hmem hpeer).receive hb (h.progress_le tid) (hN tid hpeer) host
        s.server.tree (hr hpeer)
    refine h.server rfl (fun _ htid => ⟨htid, rfl⟩) (fun task' htask' hpeer => ?_)
      (fun src d hd => ?_) (fun dest d hd => Or.inl hd)
    · -- the other tasks are as they were
      have hcases : task' ∈ s.server.tasks ∨
          task' = ⟨tid, (task.receive host s.server.tree r).1⟩ := by
        rw [hsplit]
        simp only [List.mem_append, List.mem_cons] at htask' ⊢
        tauto
      rcases hcases with hold | rfl
      · exact h.tasks task' hold hpeer
      · exact (hmoves hpeer).1
    · rcases List.mem_append.mp hd with hd | hd
      · exact Or.inl hd
      · obtain ⟨hpeer, hout⟩ := mem_addressed.mp hd
        obtain ⟨d', hd', heq⟩ := List.mem_map.mp hout
        cases heq
        exact Or.inr ⟨hpeer, (hmoves hpeer).2 d hd'⟩

/-- A file operation changes no task of a client. -/
theorem ClientInv.io (h : ClientInv fetch i k s) (tid : SocketAddr) (outcome : IoOutcome) :
    ClientInv fetch i k { s with server := s.server.io host tid outcome } := by
  refine h.server rfl (fun _ htid => ⟨htid, rfl⟩) (fun task' htask' hpeer => ?_)
    (fun src d hd => Or.inl hd) (fun dest d hd => Or.inl hd)
  refine h.tasks task' ?_ hpeer
  change task' ∈ (ioOf host s.server.tree tid outcome s.server.tasks).2 at htask'
  rcases ioOf_cases host s.server.tree tid outcome s.server.tasks with
    hnone | ⟨pre, task, post, hsplit, hsome⟩
  · rwa [hnone] at htask'
  · have hmem : (⟨tid, task⟩ : ServerTask) ∈ s.server.tasks := by rw [hsplit]; simp
    rw [hsome] at htask'
    by_cases hnew : task' = ⟨tid, (task.io host s.server.tree outcome).2⟩
    · subst hnew
      rw [(h.tasks _ hmem hpeer).io]
      exact hmem
    · rw [hsplit]
      simp only [List.mem_append, List.mem_cons] at htask' ⊢
      tauto

/-- What a client has sent to a transfer acknowledges what it has written from there. -/
theorem ClientInv.ack_le (h : ClientInv fetch i k s) {m : SocketAddr × Bytes}
    (hm : (i, m) ∈ s.toServer) (hlisten : m.1 ≠ host.listenAddr) (n : UInt16)
    (hn : IsAck n (.datagram m.2)) : n.toNat ≤ progress (s.clients i).state k m.1 := by
  rcases h.acks m.1 m.2 hm with ⟨hto, -⟩ | ⟨htid, hack⟩
  · exact absurd hto hlisten
  · rw [progress, if_pos htid]
    obtain ⟨d, rest, hd, hheader⟩ := hn
    cases hd
    exact hack n rest hheader

variable [DecidableEq ι]

/-- A datagram reaches the listening socket, and a task is started at a fresh address. -/
theorem ClientInv.spawn (h : ClientInv fetch i k s) {sender : Option ι} {m : SocketAddr × Bytes}
    (hlisten : m.1 = host.listenAddr) (hfree : s.peer (host.tids s.server.tasks.length) = none)
    (hfresh : ∀ task ∈ s.server.tasks, task.tid ≠ host.tids s.server.tasks.length)
    (hsender : sender = some i → m.2 = (fetch i).client.rrqPacket (fetch i).remoteFile) :
    ClientInv fetch i k (s.receive host sender m) := by
  have hne : ∀ tid, s.peer tid = some i → tid ≠ host.tids s.server.tasks.length := by
    rintro tid htid rfl
    rw [hfree] at htid
    cases htid
  have hmoves : sender = some i →
      TaskMoves (fetch i).client.blockSize
        (contents (host.opens s.server.tree (recvInto maxPacketSize m.2))) 0
        (host.spawn s.server.tree (recvInto maxPacketSize m.2)) := by
    intro hs
    rw [hsender hs]
    exact (fetch i).taskMoves_spawn s.server.tree
  -- the client follows another transfer, if any
  have hzero : progress (s.clients i).state k (host.tids s.server.tasks.length) = 0 := by
    unfold progress
    split_ifs with htid
    · exact absurd rfl (hne _ (h.locked _ htid).1)
    · rfl
  unfold Service.receive Server.receive
  simp only [if_pos hlisten]
  refine h.server rfl (fun tid htid => ?_) (fun task htask hpeer => ?_) (fun src d hd => ?_)
    (fun dest d hd => Or.inl hd)
  · exact ⟨(Function.update_of_ne (hne tid htid) _ _).trans htid,
      Function.update_of_ne (hne tid htid) _ _⟩
  · dsimp only at htask hpeer ⊢
    rcases List.mem_append.mp htask with hold | hnew
    · have htid := hfresh task hold
      rw [Function.update_of_ne htid] at hpeer
      rw [Function.update_of_ne htid]
      exact h.tasks task hold hpeer
    · obtain rfl := List.mem_singleton.mp hnew
      dsimp only at hpeer ⊢
      rw [Function.update_self] at hpeer
      rw [Function.update_self, hzero]
      exact (hmoves hpeer).1
  · dsimp only at hd ⊢
    rcases List.mem_append.mp hd with hd | hd
    · exact Or.inl hd
    · obtain ⟨hs, hout⟩ := mem_addressed.mp hd
      obtain ⟨d', hd', heq⟩ := List.mem_map.mp hout
      cases heq
      right
      rw [Function.update_self, Function.update_self]
      exact ⟨hs, (hmoves hs).2 d hd'⟩

end Invariant

/-! ## Steps of a client -/

section Client

variable {c : TftpClient} {g g' : GetState} {tid : SocketAddr} {file : Bytes} {k : Nat}

/-- The client keeps to its transfer, and sends there only. -/
theorem getPacket_tid (hg : g.serverTid = some tid) (buf : Bytes) :
    (c.getPacket g tid buf).1.state.serverTid = some tid ∧
      ∀ m ∈ (c.getPacket g tid buf).2, m.1 = tid := by
  have hdata : ∀ n data, (c.getData g tid n data).1.state.serverTid = some tid ∧
      ∀ m ∈ (c.getData g tid n data).2, m.1 = tid := by
    intro n data
    unfold TftpClient.getData
    split_ifs
    · exact ⟨hg, by simp⟩
    · exact ⟨hg, by simp⟩
    · dsimp only
      split_ifs <;> exact ⟨hg, by simp⟩
  unfold TftpClient.getPacket
  split
  · exact ⟨hg, by simp⟩
  · split
    · exact hdata _ _
    · exact ⟨hg, by simp⟩
    · exact ⟨hg, by simp⟩
    · exact ⟨hg, by simp⟩

/-- **`Ok` means that the last block was written.** -/
theorem ClientAt.prefix_of_ok (h : ClientAt c.blockSize file k g) (hb : 0 < c.blockSize)
    (hk : k ≤ blockCount c.blockSize file) (hN : blockCount c.blockSize file ≤ 65535) {d : Bytes}
    (hd : TruthfulData c.blockSize file d)
    (hok : (c.getPacket g tid d).1 = .returned (.ok ()) g') : file <+: g'.written := by
  rw [TftpClient.getPacket] at hok
  split at hok
  · cases hok
  rename_i opcode field payload hheader
  split at hok
  case h_2 => cases hok
  case h_3 => cases hok
  case h_4 => cases hok
  rename_i hop
  rw [Opcode.eq_toU16_of_fromU16 hop] at hheader
  obtain ⟨i, hi, rfl, rfl⟩ := hd field payload hheader
  rw [TftpClient.getData] at hok
  split_ifs at hok with hlt hgt
  -- the expected block, and a short one
  have heq : wire (i + 1) = wire (k + 1) := by
    rw [← h.expected, ← UInt16.toNat_inj]
    rw [UInt16.lt_iff_toNat_lt] at hlt
    rw [gt_iff_lt, UInt16.lt_iff_toNat_lt] at hgt
    omega
  obtain rfl : i = k := by
    have := (wire_inj (by omega) (by omega)).mp heq
    omega
  obtain ⟨⟨payloads, hwritten, -⟩, -⟩ := drain_payloads (Q := fun _ => True)
    g.blockBuffer.keys.length (g.expectedBlock + 1) g.blockBuffer
    (g.written ++ block c.blockSize file i) (fun _ _ _ => trivial)
  dsimp only at hok
  have hfinal : (block c.blockSize file i).length < c.blockSize := by
    by_contra hfull
    simp only [decide_eq_false hfull, Bool.false_eq_true, or_false, if_false] at hok
    split_ifs at hok
  have hlast := (length_block_lt_iff hb file hi).mp hfinal
  have hall : g.written ++ block c.blockSize file i = file := by
    rw [h.written, take_append_block, hlast, take_blockCount_mul hb]
  rw [hall] at hwritten
  have hg' : g'.written = (drain g.blockBuffer.keys.length (g.expectedBlock + 1) g.blockBuffer
      (g.written ++ block c.blockSize file i)).2.2 := by
    simp only [decide_eq_true hfinal, or_true, if_true, GetStatus.returned.injEq] at hok
    rw [← hok.2]
  rw [hg', hall, hwritten]
  exact List.prefix_append _ _

end Client

section Invariant

variable {ι : Type} [DecidableEq ι] {host : Host} {fetch : ι → Fetch host} {i : ι} {k : Nat}
  {s s' : Service ι}

/-- A step that changes neither the client nor what is sent. -/
theorem Service.move_self (s : Service ι) (i : ι) : s.move i (s.clients i, []) = s := by
  rw [Service.move, Function.update_eq_self]
  show { s with toServer := s.toServer ++ [] } = s
  rw [List.append_nil]

/-- What another client does. -/
theorem ClientInv.move_other (h : ClientInv fetch i k s) {j : ι} (hj : j ≠ i)
    (next : GetStatus × List (SocketAddr × Bytes)) : ClientInv fetch i k (s.move j next) := by
  refine h.server (Function.update_of_ne (Ne.symm hj) _ _) (fun _ htid => ⟨htid, rfl⟩) h.tasks
    (fun src d hd => Or.inl hd) (fun dest d hd => ?_)
  rcases List.mem_append.mp hd with hd | hd
  · exact Or.inl hd
  · exact absurd (Option.some.inj (mem_addressed.mp hd).1) hj

/-- The client gives up or is done, with what it has. -/
theorem ClientInv.stop (h : ClientInv fetch i k s) {next : GetStatus}
    (hstate : next.state = (s.clients i).state)
    (hok : ∀ g, next = .returned (.ok ()) g → s.clients i = .returned (.ok ()) g) :
    ClientInv fetch i k (s.move i (next, [])) := by
  have hnext : (s.move i (next, [])).clients i = next := Function.update_self _ _ _
  constructor
  · rw [hnext, hstate]
    exact h.idle
  · rw [hnext, hstate]
    exact h.locked
  · rw [hnext]
    intro g hg
    exact h.done g (hok g hg)
  · rw [hnext, hstate]
    exact h.tasks
  · exact h.sent
  · rw [hnext, hstate]
    intro dest d hd
    rcases List.mem_append.mp hd with hd | hd
    · exact h.acks dest d hd
    · exact absurd (mem_addressed.mp hd).2 (by simp)

/-- A packet of the transfer that the client follows, or that it follows from now on. -/
theorem ClientInv.packet (h : ClientInv fetch i k s)
    (hN : ∀ tid, s.peer tid = some i →
      blockCount (fetch i).client.blockSize (contents (s.files tid)) ≤ 65535)
    {src : SocketAddr} {d : Bytes} (hd : (i, src, d) ∈ s.toClients) {g : GetState}
    (hg : s.clients i = .receiving g) (hserver : g.serverTid = none ∨ g.serverTid = some src) :
    ∃ k', ClientInv fetch i k'
      (s.move i ((fetch i).client.getStep (s.clients i) (.datagram d src))) := by
  have hb : 0 < (fetch i).client.blockSize := by
    have := (fetch i).blockSize_range
    omega
  obtain ⟨hpeer, htruth⟩ := h.sent src d hd
  have hNsrc := hN src hpeer
  have hrecv := truthfulData_recvInto htruth
  -- the state of the client with respect to this transfer
  have hstart : k ≤ blockCount (fetch i).client.blockSize (contents (s.files src)) ∧
      ClientAt (fetch i).client.blockSize (contents (s.files src)) k
        { g with serverTid := some src } := by
    rcases hserver with hnone | hsome
    · obtain ⟨hempty, rfl⟩ := h.idle (by rw [hg]; exact hnone)
      rw [hg] at hempty
      obtain rfl : g = {} := hempty
      exact ⟨Nat.zero_le _, by simp, rfl, Nat.le_refl _, by intro n d hn; cases hn⟩
    · obtain ⟨-, hle, hclient⟩ := h.locked src (by rw [hg]; exact hsome)
      rw [hg] at hclient
      exact ⟨hle, hclient.written, hclient.expected, hclient.lastAck, hclient.buffered⟩
  have hstep : (fetch i).client.getStep (s.clients i) (.datagram d src)
      = (fetch i).client.getPacket { g with serverTid := some src } src
          (recvInto ((fetch i).client.blockSize + 4) d) := by
    rw [hg, getStep_server hserver]
  obtain ⟨k', hkk', hk', hat, hout⟩ :=
    hstart.2.getPacket (c := (fetch i).client) hstart.1 hNsrc src hrecv
  obtain ⟨htid, haddr⟩ := getPacket_tid (c := (fetch i).client)
    (g := { g with serverTid := some src }) rfl (recvInto ((fetch i).client.blockSize + 4) d)
  have hok : ∀ g', ((fetch i).client.getPacket { g with serverTid := some src } src
      (recvInto ((fetch i).client.blockSize + 4) d)).1 = .returned (.ok ()) g' →
      contents (s.files src) <+: g'.written :=
    fun g' hg' => hstart.2.prefix_of_ok hb hstart.1 hNsrc hrecv hg'
  rw [hstep]
  generalize (fetch i).client.getPacket { g with serverTid := some src } src
    (recvInto ((fetch i).client.blockSize + 4) d) = next at hat hout htid haddr hok
  have hnext : (s.move i next).clients i = next.1 := Function.update_self _ _ _
  -- before, the client has followed no other transfer
  have hbefore : ∀ tid, (s.clients i).state.serverTid = some tid → tid = src := by
    intro tid hlocked
    rw [hg] at hlocked
    change g.serverTid = some tid at hlocked
    rcases hserver with hnone | hsome
    · rw [hnone] at hlocked
      cases hlocked
    · rw [hsome] at hlocked
      exact (Option.some.inj hlocked).symm
  have hsame : ∀ tid, next.1.state.serverTid = some tid → tid = src := by
    intro tid h
    rw [htid] at h
    exact (Option.some.inj h).symm
  refine ⟨k', ⟨?_, ?_, ?_, ?_, h.sent, ?_⟩⟩
  · rw [hnext, htid]
    intro h
    cases h
  · rw [hnext]
    intro tid h
    rw [hsame tid h]
    exact ⟨hpeer, hk', hat⟩
  · rw [hnext]
    intro g' hg'
    rw [hg'] at htid hat
    refine ⟨src, htid, ?_⟩
    have hprefix : g'.written <+: contents (s.files src) := by
      rw [show g'.written = _ from hat.written]
      exact List.take_prefix _ _
    exact hprefix.eq_of_length_le (hok g' hg').length_le
  · rw [hnext]
    intro task htask hpeer'
    have htaskAt := h.tasks task htask hpeer'
    by_cases hne : task.tid = src
    · rw [hne] at htaskAt ⊢
      rw [progress, if_pos htid]
      refine htaskAt.mono ?_ hk'
      unfold progress
      split_ifs
      · exact hkk'
      · exact Nat.zero_le _
    · rw [progress, if_neg fun hlocked => hne (hbefore _ hlocked)] at htaskAt
      rw [progress, if_neg fun hlocked => hne (hsame _ hlocked)]
      exact htaskAt
  · rw [hnext]
    intro dest m hm
    rcases List.mem_append.mp hm with hm | hm
    · rcases h.acks dest m hm with hrequest | ⟨hlocked, hack⟩
      · exact Or.inl hrequest
      · exact Or.inr ⟨by rw [htid, hbefore dest hlocked], hack.mono hkk'⟩
    · obtain ⟨-, hm⟩ := mem_addressed.mp hm
      exact Or.inr ⟨by rw [htid, ← haddr _ hm], hout _ hm⟩

/-- **Client step.** -/
theorem ClientInv.move (h : ClientInv fetch i k s)
    (hN : ∀ tid, s.peer tid = some i →
      blockCount (fetch i).client.blockSize (contents (s.files tid)) ≤ 65535)
    {r : RecvFrom} (hr : ∀ d src, r = .datagram d src → (i, src, d) ∈ s.toClients) :
    ∃ k', ClientInv fetch i k' (s.move i ((fetch i).client.getStep (s.clients i) r)) := by
  have hstays : (fetch i).client.getStep (s.clients i) r = (s.clients i, []) →
      ∃ k', ClientInv fetch i k' (s.move i ((fetch i).client.getStep (s.clients i) r)) := by
    intro hstep
    rw [hstep, s.move_self i]
    exact ⟨k, h⟩
  cases hst : s.clients i with
  | returned result g => exact hst ▸ hstays (by rw [hst]; rfl)
  | receiving g =>
      rw [← hst]
      cases r with
      | error message =>
          refine ⟨k, ?_⟩
          rw [show (fetch i).client.getStep (s.clients i) (.error message)
            = (.returned (.error (.io message)) g, []) by rw [hst]; rfl]
          exact h.stop (by rw [hst]; rfl) (by intro g' hg'; cases hg')
      | timeout =>
          refine ⟨k, ?_⟩
          rw [show (fetch i).client.getStep (s.clients i) .timeout
            = (.returned (.error (.tftp "Timeout waiting for data")) g, []) by rw [hst]; rfl]
          exact h.stop (by rw [hst]; rfl) (by intro g' hg'; cases hg')
      | datagram d src =>
          cases htid : g.serverTid with
          | none => exact h.packet hN (hr d src rfl) hst (Or.inl htid)
          | some tid =>
              by_cases hsrc : src = tid
              · exact h.packet hN (hr d src rfl) hst (Or.inr (hsrc ▸ htid))
              · exact hstays (by rw [hst, getStep_foreign htid hsrc])

/-! ## Runs -/

omit [DecidableEq ι] in
theorem service_start (t : Tree) : Service.Inv fetch (Service.start fetch t) where
  tids := rfl
  bound := by intro tid i h; cases h
  clients := by
    intro _ i
    refine ⟨0, ⟨fun _ => ⟨rfl, rfl⟩, ?_, ?_, ?_, ?_, ?_⟩⟩
    · intro tid h; cases h
    · intro g h; cases h
    · intro task h; cases h
    · intro src d h; cases h
    · intro dest d h; cases h

theorem map_tid_deliver (host : Host) (t : Tree) (dest : SocketAddr) (r : Recv)
    (tasks : List ServerTask) :
    (deliver host t dest r tasks).1.map ServerTask.tid = tasks.map ServerTask.tid := by
  rcases deliver_cases host t dest r tasks with hnone | ⟨pre, task, post, rfl, hsome⟩
  · rw [hnone]
  · rw [hsome]
    simp

theorem map_tid_ioOf (host : Host) (t : Tree) (dest : SocketAddr) (outcome : IoOutcome)
    (tasks : List ServerTask) :
    (ioOf host t dest outcome tasks).2.map ServerTask.tid = tasks.map ServerTask.tid := by
  rcases ioOf_cases host t dest outcome tasks with hnone | ⟨pre, task, post, rfl, hsome⟩
  · rw [hnone]
  · rw [hsome]
    simp

omit [DecidableEq ι] in
/-- A step after which the same sockets are connected in the same way. -/
theorem Service.Inv.of_same (h : s.Inv fetch) (hpeer : s'.peer = s.peer)
    (hfiles : s'.files = s.files)
    (htids : s'.server.tasks.map ServerTask.tid = s.server.tasks.map ServerTask.tid)
    (hclients : s.Within host fetch → ∀ i k, ClientInv fetch i k s → ∃ k', ClientInv fetch i k' s') :
    s'.Inv fetch where
  tids := by
    have hlen := congrArg List.length htids
    rw [List.length_map, List.length_map] at hlen
    rw [htids, hlen]
    exact h.tids
  bound := by
    rw [hpeer, htids]
    exact h.bound
  clients := by
    intro hw i
    have hlen := congrArg List.length htids
    rw [List.length_map, List.length_map] at hlen
    have hw' : s.Within host fetch :=
      ⟨by rw [← hlen]; exact hw.tids, by rw [← hlen]; exact hw.listen,
        by rw [← hpeer, ← hfiles]; exact hw.blocks⟩
    obtain ⟨k, hk⟩ := h.clients hw' i
    exact hclients hw' i k hk

omit [DecidableEq ι] in
/-- A transfer socket is not the listening one. -/
theorem Service.Inv.ne_listen (h : s.Inv fetch) (hw : s.Within host fetch) {tid : SocketAddr}
    (hpeer : s.peer tid = some i) : tid ≠ host.listenAddr := by
  have hmem := h.bound tid i hpeer
  rw [h.tids] at hmem
  obtain ⟨n, hn, rfl⟩ := List.mem_map.mp hmem
  exact hw.listen n (List.mem_range.mp hn)

/-- A datagram starts a task. -/
theorem Service.Inv.spawn (h : s.Inv fetch) {sender : Option ι} {m : SocketAddr × Bytes}
    (hlisten : m.1 = host.listenAddr) (hsender : ∀ i, sender = some i → (i, m) ∈ s.toServer) :
    (s.receive host sender m).Inv fetch := by
  have htasks : (s.receive host sender m).server.tasks.map ServerTask.tid
      = s.server.tasks.map ServerTask.tid ++ [host.tids s.server.tasks.length] := by
    simp [Service.receive, Server.receive, hlisten]
  have hpeer : (s.receive host sender m).peer
      = Function.update s.peer (host.tids s.server.tasks.length) sender := by
    simp [Service.receive, hlisten]
  have hfiles : (s.receive host sender m).files
      = Function.update s.files (host.tids s.server.tasks.length)
          (host.opens s.server.tree (recvInto maxPacketSize m.2)) := by
    simp [Service.receive, hlisten]
  have hlen : (s.receive host sender m).server.tasks.length = s.server.tasks.length + 1 := by
    have hlen := congrArg List.length htasks
    simpa using hlen
  refine ⟨?_, ?_, fun hw i => ?_⟩
  · rw [htasks, hlen, List.range_succ, List.map_append, h.tids]
    rfl
  · intro tid i htid
    rw [htasks, List.mem_append]
    by_cases hnew : tid = host.tids s.server.tasks.length
    · exact Or.inr (List.mem_singleton.mpr hnew)
    · rw [hpeer, Function.update_of_ne hnew] at htid
      exact Or.inl (h.bound tid i htid)
  -- the address is none that is in use
  have hfresh : ∀ tid ∈ s.server.tasks.map ServerTask.tid,
      tid ≠ host.tids s.server.tasks.length := by
    intro tid htid
    rw [h.tids] at htid
    obtain ⟨n, hn, rfl⟩ := List.mem_map.mp htid
    exact hw.tids n _ (List.mem_range.mp hn) (by omega)
  have hold : ∀ tid j, s.peer tid = some j → tid ≠ host.tids s.server.tasks.length :=
    fun tid j htid => hfresh tid (h.bound tid j htid)
  have hw' : s.Within host fetch := by
    refine ⟨fun a b hab hb => hw.tids a b hab (by omega), fun n hn => hw.listen n (by omega),
      fun j tid htid => ?_⟩
    have hblocks := hw.blocks j tid
    rw [hpeer, hfiles, Function.update_of_ne (hold tid j htid),
      Function.update_of_ne (hold tid j htid)] at hblocks
    exact hblocks htid
  obtain ⟨k, hk⟩ := h.clients hw' i
  refine ⟨k, hk.spawn hlisten ?_ (fun task htask => hfresh _ (List.mem_map_of_mem htask)) ?_⟩
  · cases hfree : s.peer (host.tids s.server.tasks.length) with
    | none => rfl
    | some j => exact absurd rfl (hold _ j hfree)
  · intro hs
    rcases hk.acks m.1 m.2 (hsender i hs) with ⟨-, hrequest⟩ | ⟨hlocked, -⟩
    · exact hrequest
    · exact absurd hlisten (h.ne_listen hw' (hk.locked _ hlocked).1)

/-- A datagram reaches the server. -/
theorem Service.Inv.receive (h : s.Inv fetch) {sender : Option ι} {m : SocketAddr × Bytes}
    (hsender : ∀ i, sender = some i → (i, m) ∈ s.toServer) :
    (s.receive host sender m).Inv fetch := by
  by_cases hlisten : m.1 = host.listenAddr
  · exact h.spawn hlisten hsender
  by_cases hpeer : s.peer m.1 = sender
  · have heq : s.receive host sender m = { s with
        server := ⟨s.server.tree,
          (UsgTftp.deliver host s.server.tree m.1 (.datagram m.2) s.server.tasks).1⟩
        toClients := s.toClients ++ addressed (s.peer m.1)
          (UsgTftp.deliver host s.server.tree m.1 (.datagram m.2) s.server.tasks).2 } := by
      subst hpeer
      simp only [Service.receive, Server.receive, if_neg hlisten, if_true]
    rw [heq]
    refine h.of_same rfl rfl (map_tid_deliver _ _ _ _ _) fun hw i k hk => ⟨k, ?_⟩
    refine hk.deliver (hw.blocks i) fun hi n hn => ?_
    exact hk.ack_le (hsender i (by rw [← hpeer, hi])) hlisten n hn
  · have heq : s.receive host sender m = s := by
      simp only [Service.receive, if_neg hlisten, if_neg hpeer]
    rwa [heq]

/-- **Step lemma.** -/
theorem Service.Inv.step (h : s.Inv fetch) (hst : ServiceStep fetch s s') : s'.Inv fetch := by
  cases hst with
  | request i =>
      refine h.of_same rfl rfl rfl fun hw j k hk => ⟨k, ?_⟩
      refine hk.server rfl (fun _ htid => ⟨htid, rfl⟩) hk.tasks (fun src d hd => Or.inl hd)
        (fun dest d hd => ?_)
      rcases List.mem_append.mp hd with hd | hd
      · exact Or.inl hd
      · obtain ⟨hij, hm⟩ := mem_addressed.mp hd
        cases hij
        cases List.mem_singleton.mp hm
        exact Or.inr ⟨(fetch i).serverAddr, rfl⟩
  | toServer i m hm => exact h.receive fun j hj => by cases hj; exact hm
  | stranger m => exact h.receive (by intro i hi; cases hi)
  | toClient i src d hd =>
      refine h.of_same rfl rfl rfl fun hw j k hk => ?_
      by_cases hij : i = j
      · subst hij
        refine hk.move (hw.blocks i) ?_
        intro d' src' hr
        cases hr
        exact hd
      · exact ⟨k, hk.move_other hij _⟩
  | clientTimer i =>
      refine h.of_same rfl rfl rfl fun hw j k hk => ?_
      by_cases hij : i = j
      · subst hij
        exact hk.move (hw.blocks i) (by intro d src hr; cases hr)
      · exact ⟨k, hk.move_other hij _⟩
  | serverTimer tid =>
      refine h.of_same rfl rfl (map_tid_deliver _ _ _ _ _) fun hw i k hk => ⟨k, ?_⟩
      exact hk.deliver (hw.blocks i) fun _ n hn => absurd hn (not_isAck_timeout n)
  | io tid outcome =>
      exact h.of_same rfl rfl (map_tid_ioOf _ _ _ _ _) fun hw i k hk => ⟨k, hk.io tid outcome⟩
  | files t =>
      refine h.of_same rfl rfl rfl fun hw i k hk => ⟨k, ?_⟩
      exact hk.server rfl (fun _ htid => ⟨htid, rfl⟩) hk.tasks (fun src d hd => Or.inl hd)
        (fun dest d hd => Or.inl hd)

end Invariant

/-! ## Two clients -/

/-- Both clients want `a.txt`. -/
def twoFetches (_ : Bool) : Fetch txtHost where
  client := txtClient 512 1
  remoteFile := "a.txt"
  octet := rfl
  blockSize_range := by decide
  windowsize_range := by decide
  windowsize_pos := Or.inr (by decide)
  serverAddr := rfl
  nul_notMem := by decide

def txtRrq : SocketAddr × Bytes := (txtHost.listenAddr, (txtClient 512 1).rrqPacket "a.txt")

def bothRequested : Service Bool :=
  { Service.start twoFetches nineBytes with
    toServer := [(true, txtRrq), (false, txtRrq)] }

/-- The requests of both clients have reached the server. -/
def bothServed : Service Bool :=
  (bothRequested.receive txtHost (some true) txtRrq).receive txtHost (some false) txtRrq

theorem bothServed_reachable :
    Relation.ReflTransGen (ServiceStep twoFetches) (Service.start twoFetches nineBytes)
      bothServed := by
  have hrequested : Relation.ReflTransGen (ServiceStep twoFetches)
      (Service.start twoFetches nineBytes) bothRequested :=
    .tail (.tail .refl (.request _ true)) (.request _ false)
  refine .tail (.tail hrequested (.toServer _ true txtRrq ?_)) (.toServer _ false txtRrq ?_)
  · exact List.mem_cons_self
  · exact List.mem_cons_of_mem _ List.mem_cons_self

theorem bothServed_within : bothServed.Within txtHost twoFetches := by
  have hlen : bothServed.server.tasks.length = 2 := rfl
  have hfile : ∀ tid, (contents (bothServed.files tid)).length ≤ 9 := by
    have hopens : (contents (txtHost.opens nineBytes
        (recvInto maxPacketSize ((txtClient 512 1).rrqPacket "a.txt")))).length ≤ 9 := by
      decide +kernel
    intro tid
    show (contents (Function.update (Function.update (fun _ => none) _ _) _ _ tid)).length ≤ 9
    rw [Function.update_apply, Function.update_apply]
    split_ifs
    · exact hopens
    · exact hopens
    · exact Nat.zero_le _
  refine ⟨fun m n hmn hn => ?_, fun n _ => txtHost_tids n, fun i tid _ => ?_⟩
  · obtain rfl : m = 0 := by omega
    obtain rfl : n = 1 := by omega
    decide
  · have := hfile tid
    show blockCount 512 _ ≤ 65535
    unfold blockCount
    omega

end UsgTftp
