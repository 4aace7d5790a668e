import UsgTftp.Lib.Reactive
import UsgTftp.Server.Tasks

set_option autoImplicit false

/-! # The last ACK of an upload

`handle_write_request` acknowledges the final block inside its receive loop, and only then
calls `write_file_safely`. A client that has seen this ACK is done, so it will not learn of an
error in the file system that comes later.

`final_ack_stored` says what the ACK is worth: if no call of `write_file_safely` fails and
neither of the names it uses is a link, then the file is there when the transfer has ended.
-/

namespace UsgTftp

open Reactive Posix

/-! ## Runs of a write transfer -/

/-- A write transfer with the file tree, what it has received and what it has told the peer. -/
structure WriteRun where
  tree : Tree
  transfer : Transfer
  /-- The blocks that were appended. -/
  received : Bytes
  /-- The ACK of the final block has been sent. -/
  finalAcked : Bool

namespace WriteRun

def start (order : IterOrder) (filePath : Path) (q : WriteRequest) (t : Tree) : WriteRun :=
  ⟨t, .receiving filePath q (handleWriteRequest q order).start.1, [], false⟩

/-- The blocks that a transfer has appended after it has read `r`. -/
def receivedAfter (order : IterOrder) (s : WriteRun) (r : Recv) : Bytes :=
  match s.transfer with
  | .receiving _ q st => ((handleWriteRequest q order).step st r).1.state.receivedData
  | _ => s.received

/-- The loop is left with an ACK. -/
def sendsFinalAck (order : IterOrder) (s : WriteRun) (r : Recv) : Bool :=
  match s.transfer with
  | .receiving _ q st =>
      match (handleWriteRequest q order).step st r with
      | (.commit _ _, [d]) => (header d).any fun h => h.1 = Opcode.ack.toU16
      | _ => false
  | _ => false

def step (host : Host) (s : WriteRun) (input : TransferInput) : WriteRun :=
  let r := s.transfer.step host.env host.glob host.config host.order s.tree input
  match input with
  | .recv m => ⟨r.1, r.2, s.receivedAfter host.order m,
      s.finalAcked || s.sendsFinalAck host.order m⟩
  | _ => ⟨r.1, r.2, s.received, s.finalAcked⟩

/-- `handle_write_request` has returned. -/
inductive Ended : WriteRun → Prop where
  | stored (t : Tree) (c : Commit) (loc : Loc) (received : Bytes) (acked : Bool) :
      Ended ⟨t, .storing c (.committed loc), received, acked⟩
  | failed (t : Tree) (c : Commit) (e : Errno) (received : Bytes) (acked : Bool) :
      Ended ⟨t, .storing c (.failed e), received, acked⟩
  | closed (t : Tree) (received : Bytes) (acked : Bool) : Ended ⟨t, .closed, received, acked⟩

end WriteRun

/-! ## Calls that succeed -/

/-- The name is not a symbolic link. -/
def NoLink (env : Env) (t : Tree) (p : Path) : Prop :=
  ∀ loc m target, lookup env t false p p.comps = .ok (.found loc, m) →
    t.entry loc ≠ some (.symlink target)

/-- The next call of `write_file_safely` does not fail, and a name that it creates or replaces
is no link. -/
def Commit.CallSucceeds (env : Env) (c : Commit) (t : Tree) (io : IoOutcome) :
    CommitState → Prop
  | .createDirs => (∃ n, io = .ok n) ∧ (createParents env t c.filePath).2 = .ok ()
  | .createTemp => (∃ n, io = .ok n) ∧ NoLink env t c.tempPath ∧
      ∃ r, create env t c.tempPath = .ok r
  | .writing _ _ => ∃ n, io = .ok n
  | .flushed _ => (∃ n, io = .ok n) ∧ NoLink env t c.filePath ∧
      ∃ t', rename env t c.tempPath c.filePath = .ok t'
  | .committed _ => True
  | .failed _ => True

/-- What holds of the file tree while the calls succeed. -/
def Commit.Progress (env : Env) (c : Commit) (t : Tree) : CommitState → Prop
  | .createDirs => True
  | .createTemp => True
  | .writing inode written => written ≤ c.data.length ∧
      ∃ loc, TempHeld env c t loc inode (c.data.take written)
  | .flushed inode => ∃ loc, TempHeld env c t loc inode c.data
  | .committed _ => contentOf env t c.filePath = some c.data
  | .failed _ => False

section Progress

variable {env : Env} {c : Commit} {t : Tree}

/-- The temporary file is created, empty. -/
theorem progress_create {t' : Tree} {loc : Loc} {inode : Nat} (hlink : NoLink env t c.tempPath)
    (h : create env t c.tempPath = .ok (t', loc, inode)) :
    TempHeld env c t' loc inode (c.data.take 0) := by
  rw [List.take_zero]
  obtain ⟨m, hm, hadd | ⟨hl, hfile, rfl⟩⟩ := create_of_no_link hlink h
  · exact ⟨hadd.entry, hadd.content, m, hm⟩
  · exact TempHeld.setContent_self ⟨hfile, rfl, m, hl⟩ []

/-- A chunk is written behind what is there. -/
theorem progress_write {loc : Loc} {inode written : Nat} (hle : written ≤ c.data.length)
    (held : TempHeld env c t loc inode (c.data.take written)) (n : Nat) :
    TempHeld env c
      (t.setContent inode (overwrite (t.content inode) written ((c.data.drop written).take n)))
      loc inode (c.data.take (written + ((c.data.drop written).take n).length)) := by
  rw [← overwrite_take c.data hle n, ← held.content]
  exact held.setContent_self _

/-- **Step lemma** of `write_file_safely`. -/
theorem Commit.Progress.step {st : CommitState} {io : IoOutcome} (h : c.Progress env t st)
    (hok : c.CallSucceeds env t io st) :
    c.Progress env (c.step env io t st).1 (c.step env io t st).2 := by
  match st with
  | .committed loc => exact h
  | .failed e => exact h
  | .createDirs =>
      obtain ⟨⟨n, rfl⟩, hdirs⟩ := hok
      have hstep : (c.step env (.ok n) t .createDirs).2 = .createTemp := by
        unfold Commit.step
        dsimp only
        split
        · rfl
        · rename_i t' e heq
          rw [heq] at hdirs
          cases hdirs
      rw [hstep]
      trivial
  | .createTemp =>
      obtain ⟨⟨n, rfl⟩, hlink, ⟨t', loc, inode⟩, hcreate⟩ := hok
      have hstep : c.step env (.ok n) t .createTemp = (t', .writing inode 0) := by
        unfold Commit.step
        dsimp only
        rw [hcreate]
      rw [hstep]
      exact ⟨Nat.zero_le _, loc, progress_create hlink hcreate⟩
  | .writing inode written =>
      -- a partial write appends to what the file holds; a complete one is flushed
      obtain ⟨n, rfl⟩ := hok
      obtain ⟨hle, loc, held⟩ := h
      unfold Commit.step
      dsimp only
      split_ifs with hlt
      · refine ⟨?_, loc, progress_write hle held n⟩
        rw [List.length_take, List.length_drop]
        omega
      · rw [List.take_of_length_le (by omega)] at held
        exact ⟨loc, held⟩
  | .flushed inode =>
      obtain ⟨⟨n, rfl⟩, hlink, t', hrename⟩ := hok
      obtain ⟨loc, held⟩ := h
      obtain ⟨m, hm⟩ := held.named
      have hstep : (c.step env (.ok n) t (.flushed inode)).1 = t' ∧
          ∃ l, (c.step env (.ok n) t (.flushed inode)).2 = .committed l := by
        unfold Commit.step
        dsimp only
        rw [hrename]
        exact ⟨rfl, _, rfl⟩
      obtain ⟨htree, l, hst⟩ := hstep
      -- the name now leads to the inode of the temporary file
      rw [htree, hst]
      show contentOf env t' c.filePath = some c.data
      rw [contentOf_renamed hm held.entry hlink hrename, held.content]

end Progress

/-! ## The final ACK -/

section Ack

variable {q : WriteRequest} {s s' : ReceiveState} {r : Recv} {final : Bytes} {out : List Bytes}

/-- Only a short block leads out of the loop to the write, with its ACK. -/
theorem appendBlock_commit {n : UInt16} {data : Bytes}
    (h : q.appendBlock s n data = (.commit s' final, out)) :
    out = [ackPacket n] ∧ final = q.finalData s'.receivedData := by
  unfold WriteRequest.appendBlock at h
  dsimp only at h
  by_cases hpanic : UInt16.ofNat q.options.windowsize = 0
  · rw [if_pos hpanic] at h
    cases h
  rw [if_neg hpanic] at h
  by_cases hshort : data.length < q.options.blockSize
  · rw [if_pos hshort, if_pos (Or.inr hshort)] at h
    cases h
    exact ⟨rfl, rfl⟩
  · rw [if_neg hshort] at h
    cases h

theorem receiveData_commit {n : UInt16} {data : Bytes}
    (h : q.receiveData s n data = (.commit s' final, out)) :
    out = [ackPacket n] ∧ final = q.finalData s'.receivedData := by
  unfold WriteRequest.receiveData at h
  by_cases hne : n ≠ s.expectedBlock
  · rw [if_pos hne] at h
    have hst := congrArg Prod.fst h
    rcases mismatchedBlock_state s n with hm | hm
    · rw [hm] at hst
      cases hst
    · rw [hm] at hst
      cases hst
  rw [if_neg hne] at h
  by_cases hlarge : q.exceeds s data
  · rw [if_pos hlarge] at h
    cases h
  rw [if_neg hlarge] at h
  exact appendBlock_commit h

/-- The loop is left for the write with an ACK, and what is written is what was received, in the
mode of the transfer. -/
theorem step_commit (h : q.step (.receiving s) r = (.commit s' final, out)) :
    (∃ n, out = [ackPacket n]) ∧ final = q.finalData s'.receivedData := by
  unfold WriteRequest.step at h
  match r with
  | .error message => cases h
  | .timeout => cases h
  | .datagram d =>
      dsimp only at h
      split at h
      · cases h
      · rename_i opcode field rest heq
        by_cases herror : opcode = Opcode.error.toU16
        · rw [if_pos herror] at h
          cases h
        rw [if_neg herror] at h
        by_cases hdata : opcode ≠ Opcode.data.toU16
        · rw [if_pos hdata] at h
          cases h
        rw [if_neg hdata] at h
        exact ⟨⟨field, (receiveData_commit h).1⟩, (receiveData_commit h).2⟩

end Ack

/-! ## The invariant of a run -/

namespace WriteRun

/-- A step in which no call of `write_file_safely` fails. -/
def SoundStep (host : Host) (s s' : WriteRun) : Prop :=
  ∃ input, s' = s.step host input ∧
    ∀ c st io, s.transfer = .storing c st → input = .io io → c.CallSucceeds host.env s.tree io st

/-- A step, whatever the file system does. -/
def Step (host : Host) (s s' : WriteRun) : Prop := ∃ input, s' = s.step host input

/-- **The invariant**: the transfer receives, or it stores what it received. The final ACK has
been sent in the second case only. -/
inductive Invariant (host : Host) (filePath : Path) (q : WriteRequest) : WriteRun → Prop where
  | receiving (t : Tree) (s : ReceiveState) (received : Bytes) :
      Invariant host filePath q ⟨t, .receiving filePath q (.receiving s), received, false⟩
  | storing (t : Tree) (st : CommitState) (received : Bytes)
      (h : Commit.Progress host.env ⟨filePath, q.finalData received⟩ t st) :
      Invariant host filePath q ⟨t, .storing ⟨filePath, q.finalData received⟩ st, received, true⟩
  | closed (t : Tree) (received : Bytes) : Invariant host filePath q ⟨t, .closed, received, false⟩

section

variable {host : Host} {filePath : Path} {q : WriteRequest}

/-- A receive step of the loop. -/
theorem invariant_recv (t : Tree) (s : ReceiveState) (received : Bytes) (r : Recv) :
    Invariant host filePath q
      (step host ⟨t, .receiving filePath q (.receiving s), received, false⟩ (.recv r)) := by
  unfold step receivedAfter sendsFinalAck Transfer.step
  dsimp only [handleWriteRequest]
  generalize hstep : q.step (.receiving s) r = result
  obtain ⟨st, out⟩ := result
  match st with
  | .receiving s' => exact .receiving t s' _
  | .ended e s' => exact .closed t _
  | .commit s' final =>
      obtain ⟨⟨n, rfl⟩, rfl⟩ := step_commit hstep
      have hack : (header (ackPacket n)).any (fun h => h.1 = Opcode.ack.toU16) = true := by
        rw [header_ackPacket]
        rfl
      dsimp only
      rw [hack]
      exact .storing t .createDirs s'.receivedData trivial

/-- **Step lemma.** -/
theorem Invariant.step {s s' : WriteRun} (h : Invariant host filePath q s)
    (hstep : SoundStep host s s') : Invariant host filePath q s' := by
  obtain ⟨input, rfl, hok⟩ := hstep
  cases h with
  | receiving t r received =>
      match input with
      | .recv m => exact invariant_recv t r received m
      | .request data => exact .receiving t r received
      | .io outcome => exact .receiving t r received
  | closed t received =>
      match input with
      | .recv m => exact .closed t received
      | .request data => exact .closed t received
      | .io outcome => exact .closed t received
  | storing t st received hprog =>
      match input with
      | .recv m => exact .storing t st received hprog
      | .request data => exact .storing t st received hprog
      | .io outcome => exact .storing _ _ received (hprog.step (hok _ _ outcome rfl rfl))

theorem Invariant.stored {s : WriteRun} (h : Invariant host filePath q s)
    (hack : s.finalAcked = true) (hend : s.Ended) :
    contentOf host.env s.tree filePath = some (q.finalData s.received) := by
  cases h with
  | receiving t r received => cases hack
  | closed t received => cases hack
  | storing t st received hprog =>
      cases hend with
      | stored loc => exact hprog
      | failed e => exact absurd hprog id

end

/-! ## Concrete runs -/

def run (host : Host) (s : WriteRun) (inputs : List TransferInput) : WriteRun :=
  inputs.foldl (step host) s

theorem run_reachable (host : Host) (inputs : List TransferInput) :
    ∀ s, Relation.ReflTransGen (Step host) s (run host s inputs) := by
  induction inputs with
  | nil => intro s; exact .refl
  | cons input inputs ih => intro s; exact .head ⟨input, rfl⟩ (ih _)

/-- A check that is enough for a sound step: the call succeeds, and nothing at all is under the
names that it creates or replaces. -/
def soundCheck (host : Host) (s : WriteRun) : TransferInput → Bool
  | .io (.ok _) =>
      match s.transfer.commit with
      | some (c, .createDirs) => (createParents host.env s.tree c.filePath).2 = .ok ()
      | some (c, .createTemp) =>
          isAbsent host.env s.tree c.tempPath && (create host.env s.tree c.tempPath).isOk
      | some (c, .flushed _) =>
          isAbsent host.env s.tree c.filePath &&
            (rename host.env s.tree c.tempPath c.filePath).isOk
      | _ => true
  | .io (.error _) => false
  | _ => true

theorem noLink_of_isAbsent {env : Env} {t : Tree} {p : Path} (h : isAbsent env t p = true) :
    NoLink env t p := fun loc m _ hl => absurd hl (lookup_of_isAbsent h loc m)

theorem exists_of_isOk {ε α : Type} {x : Except ε α} (h : x.isOk = true) : ∃ a, x = .ok a := by
  cases x with
  | error e => cases h
  | ok a => exact ⟨a, rfl⟩

theorem callSucceeds_of_check {host : Host} {s : WriteRun} {c : Commit} {st : CommitState}
    {io : IoOutcome} (hs : s.transfer = .storing c st) (h : s.soundCheck host (.io io) = true) :
    c.CallSucceeds host.env s.tree io st := by
  have hcommit : s.transfer.commit = some (c, st) := by rw [hs]; rfl
  match io with
  | .error e => cases h
  | .ok n =>
      unfold soundCheck at h
      rw [hcommit] at h
      match st with
      | .createDirs => exact ⟨⟨n, rfl⟩, of_decide_eq_true h⟩
      | .createTemp =>
          rw [Bool.and_eq_true] at h
          exact ⟨⟨n, rfl⟩, noLink_of_isAbsent h.1, exists_of_isOk h.2⟩
      | .writing _ _ => exact ⟨n, rfl⟩
      | .flushed _ =>
          rw [Bool.and_eq_true] at h
          exact ⟨⟨n, rfl⟩, noLink_of_isAbsent h.1, exists_of_isOk h.2⟩
      | .committed _ => trivial
      | .failed _ => trivial

/-- The check before every step of a run. -/
def soundRun (host : Host) : WriteRun → List TransferInput → Bool
  | _, [] => true
  | s, input :: inputs => s.soundCheck host input && soundRun host (s.step host input) inputs

theorem run_sound (host : Host) (inputs : List TransferInput) :
    ∀ s, soundRun host s inputs = true →
      Relation.ReflTransGen (SoundStep host) s (run host s inputs) := by
  induction inputs with
  | nil => intro s _; exact .refl
  | cons input inputs ih =>
      intro s h
      rw [soundRun, Bool.and_eq_true] at h
      refine .head ⟨input, rfl, ?_⟩ (ih _ h.2)
      rintro c st io hs rfl
      exact callSucceeds_of_check hs h.1

theorem ended_of_commit {s : WriteRun} {c : Commit} {st : CommitState}
    (h : s.transfer.commit = some (c, st))
    (hend : (∃ loc, st = .committed loc) ∨ ∃ e, st = .failed e) : s.Ended := by
  obtain ⟨t, transfer, received, acked⟩ := s
  have htransfer : transfer = .storing c st := Transfer.eq_storing h
  subst htransfer
  rcases hend with ⟨loc, rfl⟩ | ⟨e, rfl⟩
  · exact .stored t c loc received acked
  · exact .failed t c e received acked

end WriteRun

/-- **What the final ACK is worth.** In every run in which no call of `write_file_safely` fails,
and none of them meets a link under the names it creates and replaces: if the ACK of the final
block has been sent and the run has ended, then the file holds exactly what was received, in the
mode of the transfer. -/
theorem final_ack_stored (host : Host) (filePath : Path) (q : WriteRequest) (t : Tree)
    (s : WriteRun)
    (h : Relation.ReflTransGen (WriteRun.SoundStep host) (WriteRun.start host.order filePath q t) s)
    (hack : s.finalAcked = true) (hend : s.Ended) :
    contentOf host.env s.tree filePath = some (q.finalData s.received) := by
  have hinv : WriteRun.Invariant host filePath q s :=
    invariant_of_step (WriteRun.Invariant host filePath q) (fun _ _ hs hstep => hs.step hstep)
      (.receiving t {} []) h
  exact hinv.stored hack hend

/-- A write of `a.txt` without options. -/
def plainWrite : WriteRequest := ⟨.octet, {}, ∅, 0⟩

/-- One byte is received, acknowledged and stored. -/
theorem final_ack_stored_one_byte :
    let s := WriteRun.run txtHost
      (WriteRun.start .entries (Path.ofString "/srv/tftp/a.txt") plainWrite emptyRoot)
      [.recv (.datagram (dataPacket 1 [1])), .io (.ok 0), .io (.ok 0), .io (.ok 1), .io (.ok 0),
        .io (.ok 0)]
    s.finalAcked = true ∧ s.Ended ∧
    contentOf txtHost.env s.tree (Path.ofString "/srv/tftp/a.txt") = some [1] := by
  intro s
  have hrun : Relation.ReflTransGen (WriteRun.SoundStep txtHost)
      (WriteRun.start .entries (Path.ofString "/srv/tftp/a.txt") plainWrite emptyRoot) s :=
    WriteRun.run_sound txtHost _ _ (by decide +kernel)
  have hack : s.finalAcked = true := by decide +kernel
  have hcommit : s.transfer.commit = some (⟨Path.ofString "/srv/tftp/a.txt", [1]⟩,
      .committed ["srv", "tftp", "a.txt"]) := by decide +kernel
  have hend : s.Ended := WriteRun.ended_of_commit hcommit (Or.inl ⟨_, rfl⟩)
  have hdata : plainWrite.finalData s.received = [1] := by decide +kernel
  have hstored := final_ack_stored txtHost _ plainWrite emptyRoot s hrun hack hend
  rw [hdata] at hstored
  exact ⟨hack, hend, hstored⟩

/-- **The ACK comes too early.** The only block is acknowledged, and then the temporary file
cannot be created: the transfer ends without a file. -/
theorem final_ack_not_stored :
    ∃ s, Relation.ReflTransGen (WriteRun.Step txtHost)
        (WriteRun.start .entries (Path.ofString "/srv/tftp/a.txt") plainWrite emptyRoot) s ∧
      s.finalAcked = true ∧ s.Ended ∧
      contentOf txtHost.env s.tree (Path.ofString "/srv/tftp/a.txt")
        ≠ some (plainWrite.finalData s.received) := by
  let s := WriteRun.run txtHost
    (WriteRun.start .entries (Path.ofString "/srv/tftp/a.txt") plainWrite emptyRoot)
    [.recv (.datagram (dataPacket 1 [1])), .io (.ok 0), .io (.error .other)]
  have hcommit : s.transfer.commit = some (⟨Path.ofString "/srv/tftp/a.txt", [1]⟩,
      .failed .other) := by decide +kernel
  refine ⟨s, WriteRun.run_reachable txtHost _ _, ?_, ?_, ?_⟩
  · decide +kernel
  · exact WriteRun.ended_of_commit hcommit (Or.inr ⟨_, rfl⟩)
  · decide +kernel

end UsgTftp
