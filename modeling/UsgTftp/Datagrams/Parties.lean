import UsgTftp.Datagrams.Checked

set_option autoImplicit false

/-! # What datagrams can do to a party

The seven functions that receive, each on every sequence of what its socket can give. Six of
them survive all sequences, as their checks suffice. The client's `put` reads its replies
without a look at their length, and `datagrams_cannot_crash_iff` says which replies end it.
-/

namespace UsgTftp

open Posix Path Reactive

/-! ## What `put` reads of a reply -/

theorem fromU16_eq_some_iff {v : UInt16} {o : Opcode} :
    Opcode.fromU16 v = some o ↔ v = o.toU16 := by
  constructor
  · exact Opcode.eq_toU16_of_fromU16
  · rintro rfl
    exact Opcode.fromU16_toU16 o

/-- The bytes end before the fields that `put` reads: the opcode, and one more field of an ACK
or an ERROR. -/
def Truncated (buf : Bytes) : Prop :=
  match getU16 buf with
  | none => True
  | some (opcode, bytes) =>
      (opcode = Opcode.ack.toU16 ∨ opcode = Opcode.error.toU16) ∧ bytes.length < 2

instance (buf : Bytes) : Decidable (Truncated buf) := by
  unfold Truncated
  split <;> infer_instance

def Recv.Truncated : Recv → Prop
  | .datagram d => UsgTftp.Truncated d
  | .error _ => False
  | .timeout => False

/-- The buffer of `put` is long enough for the fields. -/
theorem truncated_recvInto {n : Nat} (hn : 4 ≤ n) (d : Bytes) :
    Truncated (recvInto n d) ↔ Truncated d := by
  obtain ⟨k, rfl⟩ : ∃ k, n = k + 4 := ⟨n - 4, by omega⟩
  match d with
  | [] => simp [Truncated, recvInto, getU16]
  | [_] => simp [Truncated, recvInto, getU16]
  | [_, _] => simp [Truncated, recvInto, getU16]
  | [_, _, _] => simp [Truncated, recvInto, getU16]
  | _ :: _ :: _ :: _ :: _ =>
      simp only [Truncated, recvInto, getU16, List.take_succ_cons, List.length_cons]
      constructor
      · rintro ⟨_, h⟩
        omega
      · rintro ⟨_, h⟩
        omega

section Put

variable {c : TftpClient} {file : Bytes}

theorem putNext_ne_panicked (blockNum : UInt16) (rest : Bytes) :
    (c.putNext blockNum rest).1 ≠ .panicked := by
  unfold TftpClient.putNext
  dsimp only
  split_ifs
  · intro h
    cases h
  · intro h
    cases h

/-- The first packet of the server. -/
theorem putStart_panicked_iff (buf : Bytes) :
    (c.putStart file buf).1 = .panicked ↔ Truncated buf := by
  unfold TftpClient.putStart Truncated
  cases getU16 buf with
  | none => exact ⟨fun _ => trivial, fun _ => rfl⟩
  | some v =>
      obtain ⟨opcode, bytes⟩ := v
      dsimp only
      rw [← Checked.getU16_eq_none_iff, ← fromU16_eq_some_iff, ← fromU16_eq_some_iff]
      cases Opcode.fromU16 opcode with
      | none => simp
      | some o =>
          cases o with
          | ack =>
              cases getU16 bytes with
              | none => simp
              | some w =>
                  dsimp only
                  split_ifs
                  · simp
                  · simp [putNext_ne_panicked]
          | error => cases getU16 bytes <;> simp
          | oack => simp [putNext_ne_panicked]
          | rrq => simp
          | wrq => simp
          | data => simp

/-- Every later packet. -/
theorem putReply_panicked_iff (blockNum : UInt16) (buf : Bytes) :
    putReply blockNum buf = .panicked ↔ Truncated buf := by
  unfold putReply Truncated
  cases getU16 buf with
  | none => exact ⟨fun _ => trivial, fun _ => rfl⟩
  | some v =>
      obtain ⟨opcode, bytes⟩ := v
      dsimp only
      rw [← Checked.getU16_eq_none_iff, ← fromU16_eq_some_iff, ← fromU16_eq_some_iff]
      cases Opcode.fromU16 opcode with
      | none => simp
      | some o =>
          cases o with
          | ack =>
              cases getU16 bytes with
              | none => simp
              | some w =>
                  dsimp only
                  split_ifs
                  · simp
                  · simp
          | error => cases getU16 bytes <;> simp
          | oack => simp
          | rrq => simp
          | wrq => simp
          | data => simp

theorem putStep_panicked_iff {st : PutStatus} (hrun : st.running = true) (r : Recv) :
    (c.putStep file st r).1 = .panicked ↔ r.Truncated := by
  have hbuffer : ∀ d, Truncated (recvInto putBufferSize d) ↔ Truncated d := fun d =>
    truncated_recvInto (by decide) d
  cases st with
  | returned result => exact absurd hrun Bool.false_ne_true
  | panicked => exact absurd hrun Bool.false_ne_true
  | awaitingStart =>
      cases r with
      | datagram d => exact (putStart_panicked_iff _).trans (hbuffer d)
      | error message => simp [TftpClient.putStep, Recv.Truncated]
      | timeout => simp [TftpClient.putStep, Recv.Truncated]
  | awaitingAck blockNum data rest retries =>
      cases r with
      | datagram d =>
          refine Iff.trans ?_ ((putReply_panicked_iff blockNum _).trans (hbuffer d))
          unfold TftpClient.putStep
          dsimp only
          cases putReply blockNum (recvInto putBufferSize d) with
          | acked =>
              dsimp only
              split_ifs
              · simp
              · simp [putNext_ne_panicked]
          | failed e => simp
          | other => simp
          | panicked => simp
      | error message => simp [TftpClient.putStep, Recv.Truncated]
      | timeout =>
          unfold TftpClient.putStep Recv.Truncated
          dsimp only
          split_ifs
          · simp
          · simp

theorem Checked.ofPut_of_ne {next : PutStatus × List Bytes} (h : next.1 ≠ .panicked) :
    Checked.ofPut next = some next := by
  obtain ⟨st, out⟩ := next
  cases st with
  | panicked => exact absurd rfl h
  | awaitingStart => rfl
  | awaitingAck blockNum data rest retries => rfl
  | returned result => rfl

theorem Checked.ofPut_of_eq {next : PutStatus × List Bytes} (h : next.1 = .panicked) :
    Checked.ofPut next = none := by
  obtain ⟨st, out⟩ := next
  cases h
  rfl

theorem Checked.putStep_eq (st : PutStatus) (r : Recv) :
    Checked.putStep c file st r = Checked.ofPut (c.putStep file st r) := by
  cases r with
  | error message => rfl
  | timeout => rfl
  | datagram d =>
      unfold Checked.putStep
      simp only [Checked.recv_size, Checked.sliceTo_recv, Option.bind_eq_bind, Option.bind_some]

end Put

/-! ## The parties -/

/-- `wait_for_ack` in the course of its turns. -/
inductive AckWait where
  | waiting (retry : Nat)
  | returned (result : Except TftpError Unit)

def AckWait.running : AckWait → Bool
  | .waiting _ => true
  | .returned _ => false

def AckWait.next (retry : Nat) : AckTurn → AckWait
  | .accepted => .returned (.ok ())
  | .failed e => .returned (.error e)
  | .again => .waiting (retry + 1)

/-- All turns of `wait_for_ack`, which sends nothing. -/
def waitForAckMachine (expectedBlock : UInt16) : Machine AckWait Recv Bytes where
  start := (.waiting 0, [])
  step
    | .waiting retry, r => (.next retry (waitForAck expectedBlock retry r), [])
    | st, _ => (st, [])
  running := AckWait.running

def Checked.waitForAckStep (expectedBlock : UInt16) :
    AckWait → Recv → Option (AckWait × List Bytes)
  | .waiting retry, r =>
      (Checked.waitForAck expectedBlock retry r).map fun turn => (.next retry turn, [])
  | st, _ => some (st, [])

/-- What `recv` gives for what `recv_from` gives. -/
def RecvFrom.toRecv : RecvFrom → Recv
  | .datagram d _ => .datagram d
  | .error message => .error message
  | .timeout => .timeout

/-- A function that receives, with the data that it has. Three of the functions take one
datagram a call: they have data for every call, as the file system and the expected block change
from one call to the next. -/
inductive Party where
  | handleClient (env : Env) (glob : Glob) (config : ServerConfig) (t : Nat → Tree)
      (order : Nat → IterOrder)
  | processTftpPacket (env : Env) (config : ServerConfig) (t : Nat → Tree)
      (order : Nat → IterOrder)
  | waitForAckWithDuplicateHandling (expectedBlock : Nat → UInt16)
  | waitForAck (expectedBlock : UInt16)
  /-- The window size is one that a request can have. -/
  | handleWriteRequest (q : WriteRequest) (order : IterOrder)
      (hW : 1 ≤ q.options.windowsize ∧ q.options.windowsize ≤ 65535)
  | get (c : TftpClient) (remoteFile : String)
  | put (c : TftpClient) (remoteFile : String) (file : Bytes)

/-- Call after call, none of which panics. -/
def callsSurvive (call : Nat → RecvFrom → Bool) (rs : List RecvFrom) : Bool :=
  rs.zipIdx.all fun (r, n) => call n r

/-- A function that is called with a datagram; it is not called for an error or a timeout. -/
def onDatagram (call : Bytes → Bool) : RecvFrom → Bool
  | .datagram d _ => call d
  | .error _ => true
  | .timeout => true

/-- **No panic** while all of this is received. -/
def Party.survives : Party → List RecvFrom → Bool
  | .handleClient env glob config t order, rs =>
      callsSurvive (fun n => onDatagram fun d =>
        (Checked.handleClient env (t n) glob config (order n) d).isSome) rs
  | .processTftpPacket env config t order, rs =>
      callsSurvive (fun n => onDatagram fun d =>
        (Checked.processTftpPacket env (t n) config (order n) d).isSome) rs
  | .waitForAckWithDuplicateHandling expectedBlock, rs =>
      callsSurvive (fun n r =>
        (Checked.waitForAckWithDuplicateHandling (expectedBlock n) r.toRecv).isSome) rs
  | .waitForAck expectedBlock, rs =>
      Panicking.survives (waitForAckMachine expectedBlock) (Checked.waitForAckStep expectedBlock)
        (rs.map RecvFrom.toRecv)
  | .handleWriteRequest q order _, rs =>
      Panicking.survives (UsgTftp.handleWriteRequest q order) (Checked.writeStep q)
        (rs.map RecvFrom.toRecv)
  | .get c remoteFile, rs =>
      Panicking.survives (c.get remoteFile) (Checked.getStep c) rs
  | .put c remoteFile file, rs =>
      Panicking.survives (c.put remoteFile file) (Checked.putStep c file)
        (rs.map RecvFrom.toRecv)

/-- What `put` receives while it runs is not truncated; the other parties may receive
anything. -/
def Party.Guarded : Party → List RecvFrom → Prop
  | .put c remoteFile file, rs =>
      (c.put remoteFile file).Always (fun _ r => ¬r.Truncated) (c.put remoteFile file).start.1
        (rs.map RecvFrom.toRecv)
  | _, _ => True

theorem callsSurvive_of_forall {call : Nat → RecvFrom → Bool} (h : ∀ n r, call n r = true)
    (rs : List RecvFrom) : callsSurvive call rs = true := by
  rw [callsSurvive, List.all_eq_true]
  intro x _
  exact h x.2 x.1

theorem onDatagram_of_forall {call : Bytes → Bool} (h : ∀ d, call d = true) (r : RecvFrom) :
    onDatagram call r = true := by
  cases r with
  | datagram d src => exact h d
  | error message => rfl
  | timeout => rfl

theorem Checked.waitForAckStep_eq (expectedBlock : UInt16) (st : AckWait) (r : Recv) :
    Checked.waitForAckStep expectedBlock st r
      = some ((waitForAckMachine expectedBlock).step st r) := by
  cases st with
  | returned result => rfl
  | waiting retry =>
      rw [Checked.waitForAckStep, Checked.waitForAck_eq]
      rfl

/-- **The client's upload** survives exactly if no reply that it receives is truncated. -/
theorem put_survives_iff (c : TftpClient) (remoteFile : String) (file : Bytes)
    (rs : List RecvFrom) : (Party.put c remoteFile file).survives rs = true ↔
      (Party.put c remoteFile file).Guarded rs := by
  refine Panicking.exec_isSome_iff (m := c.put remoteFile file) ?_ ?_ _ _
  · intro st r hrun hok
    have hne : (c.putStep file st r).1 ≠ .panicked := mt (putStep_panicked_iff hrun r).mp hok
    exact (Checked.putStep_eq st r).trans (Checked.ofPut_of_ne hne)
  · intro st r hrun hbad
    have heq : (c.putStep file st r).1 = .panicked :=
      (putStep_panicked_iff hrun r).mpr (not_not.mp hbad)
    exact (Checked.putStep_eq st r).trans (Checked.ofPut_of_eq heq)

/-- **A party survives what it receives**, whatever that is, but for the client's `put`, which
survives if and only if no reply that it receives ends before the fields that it reads. -/
theorem datagrams_cannot_crash_iff (p : Party) (rs : List RecvFrom) :
    p.survives rs = true ↔ p.Guarded rs := by
  cases p with
  | handleClient env glob config t order =>
      refine iff_of_true ?_ trivial
      rw [Party.survives]
      refine callsSurvive_of_forall ?_ rs
      intro n r
      refine onDatagram_of_forall (fun d => ?_) r
      rw [Checked.handleClient_eq]
      rfl
  | processTftpPacket env config t order =>
      refine iff_of_true ?_ trivial
      rw [Party.survives]
      refine callsSurvive_of_forall ?_ rs
      intro n r
      refine onDatagram_of_forall (fun d => ?_) r
      rw [Checked.processTftpPacket_eq]
      rfl
  | waitForAckWithDuplicateHandling expectedBlock =>
      refine iff_of_true ?_ trivial
      rw [Party.survives]
      refine callsSurvive_of_forall ?_ rs
      intro n r
      rw [Checked.waitForAckWithDuplicateHandling_eq]
      rfl
  | waitForAck expectedBlock =>
      refine iff_of_true (Panicking.survives_of_eq ?_ _) trivial
      intro st r _
      exact Checked.waitForAckStep_eq expectedBlock st r
  | handleWriteRequest q order hW =>
      refine iff_of_true (Panicking.survives_of_eq ?_ _) trivial
      intro st r _
      exact Checked.writeStep_eq hW st r
  | get c remoteFile =>
      refine iff_of_true (Panicking.survives_of_eq ?_ _) trivial
      intro st r _
      exact Checked.getStep_eq c st r
  | put c remoteFile file => exact put_survives_iff c remoteFile file rs

/-- A client with the default block size. -/
def panicClient : TftpClient := ⟨⟨.v4 0x7F000001, 69⟩, .octet, 512, 1⟩

/-- **A party that one datagram crashes**: an upload is answered with a datagram of one byte. -/
theorem datagrams_can_crash : ¬∀ (p : Party) (rs : List RecvFrom), p.survives rs = true := by
  intro h
  have hput := h (.put panicClient "f" [1]) [.datagram [0] panicClient.serverAddr]
  exact absurd hput (by decide +kernel)

end UsgTftp
