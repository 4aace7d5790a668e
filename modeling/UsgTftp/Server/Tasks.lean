import UsgTftp.Server.Commit
import UsgTftp.Server.Read
import UsgTftp.Server.Request

set_option autoImplicit false

/-! # The tasks of the server

Every datagram that reaches the listening socket is handled by a task of its own: `handle_client`
in its own `tokio::spawn`, with a transfer socket that is bound to a fresh port and connected
to the client. `Transfer` is the part of a task that serves a write request, down to the steps
of `write_file_safely`; `Task` is a whole task, and `Server` all of them with the file tree
they share.
-/

namespace UsgTftp

open Posix

/-! ## Write transfers -/

inductive Transfer where
  /-- No request has arrived. -/
  | idle
  /-- In the loop of `handle_write_request`. -/
  | receiving (filePath : Path) (q : WriteRequest) (st : WriteStatus)
  /-- In `write_file_safely`. -/
  | storing (c : Commit) (st : CommitState)
  /-- The request was refused, or the transfer was broken off. -/
  | closed

/-- The call of `write_file_safely` with its state. -/
def Transfer.commit : Transfer → Option (Commit × CommitState)
  | .storing c st => some (c, st)
  | _ => none

theorem Transfer.eq_storing {transfer : Transfer} {c : Commit} {st : CommitState}
    (h : transfer.commit = some (c, st)) : transfer = .storing c st := by
  unfold Transfer.commit at h
  split at h
  · cases h
    rfl
  · cases h

inductive TransferInput where
  | request (data : Bytes)
  | recv (r : Recv)
  | io (outcome : IoOutcome)

/-- The next step of a transfer; inputs that it does not wait for change nothing. -/
def Transfer.step (env : Env) (glob : Glob) (config : ServerConfig) (order : IterOrder)
    (t : Tree) : Transfer → TransferInput → Tree × Transfer
  | .idle, .request data =>
      match handleClient env t glob config order data with
      | .ok (.write filePath q _) => (t, .receiving filePath q (handleWriteRequest q order).start.1)
      | _ => (t, .closed)
  | .receiving filePath q st, .recv r =>
      match ((handleWriteRequest q order).step st r).1 with
      | .receiving s => (t, .receiving filePath q (.receiving s))
      | .commit _ finalData => (t, .storing ⟨filePath, finalData⟩ .createDirs)
      | .ended _ _ => (t, .closed)
  | .storing c st, .io outcome =>
      let r := c.step env outcome t st
      (r.1, .storing c r.2)
  | transfer, _ => (t, transfer)

/-- A step changes the tree only in `write_file_safely`, which other steps can at most
enter. -/
theorem Transfer.step_cases (env : Env) (glob : Glob) (config : ServerConfig) (order : IterOrder)
    (t : Tree) (transfer : Transfer) (input : TransferInput) :
    transfer.step env glob config order t input = (t, transfer) ∨
    ((transfer.step env glob config order t input).1 = t ∧
      ∀ c st, (transfer.step env glob config order t input).2 = .storing c st →
        st = .createDirs) ∨
    ∃ c st outcome, transfer = .storing c st ∧
      transfer.step env glob config order t input
        = ((c.step env outcome t st).1, .storing c (c.step env outcome t st).2) := by
  unfold Transfer.step
  split
  · right
    left
    split
    · exact ⟨rfl, by intro c st h; cases h⟩
    · exact ⟨rfl, by intro c st h; cases h⟩
  · right
    left
    split
    · exact ⟨rfl, by intro c st h; cases h⟩
    · exact ⟨rfl, by intro c st h; cases h; rfl⟩
    · exact ⟨rfl, by intro c st h; cases h⟩
  · rename_i c st outcome
    exact Or.inr (Or.inr ⟨c, st, outcome, rfl, rfl⟩)
  · exact Or.inl rfl

/-! ## Tasks -/

/-- A server: its configuration and addresses, and what its host gives it. -/
structure Host where
  env : Env
  glob : Glob
  config : ServerConfig
  order : IterOrder
  /-- The length in the metadata of a directory. -/
  dirLen : Loc → Nat
  listenAddr : SocketAddr
  /-- The address of the transfer socket of the `n`-th task. -/
  tids : Nat → SocketAddr

/-- What `File::open` gives. -/
def Host.openFile (host : Host) (t : Tree) (p : Path) : Option OpenFile :=
  match openRead host.env t p with
  | .error _ => none
  | .ok loc =>
      match t.entry loc with
      | some (.file i) => some (.regular (t.content i))
      | some .dir => some (.directory (host.dirLen loc))
      | _ => none

inductive Task where
  | reading (mode : TransferMode) (options : TftpOptions) (st : ReadStatus)
  | uploading (transfer : Transfer)
  /-- Handed over to the multicast server, whose packets are not modelled. -/
  | multicast (filename : String) (mode : TransferMode) (options : TftpOptions)
  | ended (result : Except TftpError Unit)

/-- A new task, with what it sends before it first waits. -/
def Host.spawn (host : Host) (t : Tree) (data : Bytes) : Task × List Bytes :=
  match handleClient host.env t host.glob host.config host.order data with
  | .error e => (.ended (.error e), [])
  | .ok .ignored => (.ended (.ok ()), [])
  | .ok (.replied code message) => (.ended (.ok ()), [errorPacket code message])
  | .ok (.multicast filename mode options) => (.multicast filename mode options, [])
  | .ok (.read filePath mode options negotiatedOptions) =>
      let m := handleReadRequest (host.openFile t filePath) mode options negotiatedOptions
        host.config.maxFileSizeBytes host.order
      (.reading mode options m.start.1, m.start.2)
  | .ok (.write filePath q _) =>
      let m := handleWriteRequest q host.order
      (.uploading (.receiving filePath q m.start.1), m.start.2)

/-- What a write transfer sends. -/
def Transfer.replies (order : IterOrder) : Transfer → Recv → List Bytes
  | .receiving _ q st, r => ((handleWriteRequest q order).step st r).2
  | _, _ => []

/-- A task reads from its socket. -/
def Task.receive (host : Host) (t : Tree) (r : Recv) : Task → Task × List Bytes
  | .reading mode options st =>
      let (st, out) := readRequestStep mode options st r
      (.reading mode options st, out)
  | .uploading transfer =>
      (.uploading (transfer.step host.env host.glob host.config host.order t (.recv r)).2,
        transfer.replies host.order r)
  | task => (task, [])

/-- A task with the address of its transfer socket. -/
structure ServerTask where
  tid : SocketAddr
  task : Task

structure Server where
  tree : Tree
  tasks : List ServerTask

/-- A datagram is delivered to the task that has its destination as address. The packets that
are sent carry the address of the task. -/
def deliver (host : Host) (t : Tree) (dest : SocketAddr) (r : Recv) :
    List ServerTask → List ServerTask × List (SocketAddr × Bytes)
  | [] => ([], [])
  | task :: tasks =>
      if task.tid = dest then
        let (task', out) := task.task.receive host t r
        (⟨task.tid, task'⟩ :: tasks, out.map fun d => (task.tid, d))
      else
        let (tasks, out) := deliver host t dest r tasks
        (task :: tasks, out)

/-- A datagram reaches the server. -/
def Server.receive (host : Host) (s : Server) (m : SocketAddr × Bytes) :
    Server × List (SocketAddr × Bytes) :=
  if m.1 = host.listenAddr then
    let tid := host.tids s.tasks.length
    let (task, out) := host.spawn s.tree (recvInto maxPacketSize m.2)
    ({ s with tasks := s.tasks ++ [⟨tid, task⟩] }, out.map fun d => (tid, d))
  else
    let (tasks, out) := deliver host s.tree m.1 (.datagram m.2) s.tasks
    ({ s with tasks := tasks }, out)

/-- The timer of a task's socket fires. -/
def Server.timeout (host : Host) (s : Server) (tid : SocketAddr) :
    Server × List (SocketAddr × Bytes) :=
  let (tasks, out) := deliver host s.tree tid .timeout s.tasks
  ({ s with tasks := tasks }, out)

/-- A file operation of a task returns. -/
def Task.io (host : Host) (t : Tree) (outcome : IoOutcome) : Task → Tree × Task
  | .uploading transfer =>
      let (t, transfer) :=
        transfer.step host.env host.glob host.config host.order t (.io outcome)
      (t, .uploading transfer)
  | task => (t, task)

def ioOf (host : Host) (t : Tree) (tid : SocketAddr) (outcome : IoOutcome) :
    List ServerTask → Tree × List ServerTask
  | [] => (t, [])
  | task :: tasks =>
      if task.tid = tid then
        let (t, task') := task.task.io host t outcome
        (t, ⟨task.tid, task'⟩ :: tasks)
      else
        let (t, tasks) := ioOf host t tid outcome tasks
        (t, task :: tasks)

def Server.io (host : Host) (s : Server) (tid : SocketAddr) (outcome : IoOutcome) : Server :=
  let (t, tasks) := ioOf host s.tree tid outcome s.tasks
  ⟨t, tasks⟩

/-! ## A small server -/

/-- New files may be written if their names end in `.txt`. -/
def txtConfig : ServerConfig :=
  ⟨Path.ofString "/srv/tftp", ⟨true, false, ["*.txt"]⟩, 0, 1, false⟩

/-- It listens on port `69`, and its transfers have the ports from `50000` on. -/
def txtHost : Host where
  env := ⟨[], 40⟩
  glob := suffixGlob
  config := txtConfig
  order := .entries
  dirLen := fun _ => 4096
  listenAddr := ⟨.v4 0, 69⟩
  tids := fun n => ⟨.v4 0, 50000 + UInt16.ofNat (n % 10000)⟩

end UsgTftp
