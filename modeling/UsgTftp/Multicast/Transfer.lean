import UsgTftp.Multicast.Acks

set_option autoImplicit false

/-! # One transfer among other tasks

What a transfer does depends on its session only, and what the other tasks of the server do to that
session are calls of its methods. So a run of the transfer is one in which any such calls come
between its steps, the recording of acknowledgements included.

`transfer_of_run` ties these runs to those of the server: each transfer of the server runs so.
-/

namespace UsgTftp

open HashTable Posix Reactive

/-! ## Runs -/

/-- A transfer, its session, and what it has done, newest last. -/
structure TransferRun where
  session : MulticastSession
  task : TransferTask
  log : List MulticastRecord

inductive TransferEvent where
  /-- Another task calls a method of the session. -/
  | call (c : MulticastSession.Call)
  | io (io : TransferIo)

def TransferRun.start (key : String) (session : MulticastSession) : TransferRun :=
  ⟨session, ⟨key, [], .spawned⟩, []⟩

section

variable (srv : MulticastServer) (t : Tree)

def MulticastServer.turn (s : TransferRun) : TransferEvent → TransferRun
  | .call c => { s with session := s.session.call c }
  | .io io =>
      let (session, task, records) := srv.transferStep t s.session s.task io
      ⟨session, task, s.log ++ records⟩

def MulticastServer.runTransfer (s : TransferRun) (events : List TransferEvent) : TransferRun :=
  events.foldl (srv.turn t) s

end

/-- The DATA packets among these. -/
def sentPackets (records : List MulticastRecord) : List Bytes :=
  records.filterMap fun
    | .data _ _ packet => some packet
    | _ => none

theorem sentPackets_append (l l' : List MulticastRecord) :
    sentPackets (l ++ l') = sentPackets l ++ sentPackets l' :=
  List.filterMap_append

@[simp] theorem sentPackets_nil : sentPackets [] = [] := rfl

@[simp] theorem sentPackets_data (key : String) (dest : SocketAddr) (packet : Bytes) :
    sentPackets [.data key dest packet] = [packet] := rfl

@[simp] theorem sentPackets_removed (key : String) (gone : List SocketAddr) :
    sentPackets (gone.map (.removed key)) = [] := by
  rw [sentPackets, List.filterMap_eq_nil_iff]
  intro r hr
  obtain ⟨a, -, rfl⟩ := List.mem_map.mp hr
  rfl

/-! ## What a call leaves alone -/

namespace MulticastSession

theorem call_frame (s : MulticastSession) (c : Call) : s.SameTransfer (s.call c) := by
  cases c with
  | addClient addr now =>
      rw [call]
      cases hadd : s.addClient addr now with
      | error e => exact .refl s
      | ok r => exact (addClient_frame hadd).1
  | recordAck | queueRetransmit | takeRetransmitQueue => exact .refl s
  | removeInactiveClients order timeoutSecs now => exact removeInactiveClients_frame timeoutSecs now

/-- Calls that leave the queue of the session alone. -/
def Call.KeepsQueue : Call → Prop
  | .queueRetransmit _ | .takeRetransmitQueue _ => False
  | _ => True

theorem retransmitQueue_call (s : MulticastSession) {c : Call} (hc : c.KeepsQueue) :
    (s.call c).retransmitQueue = s.retransmitQueue := by
  cases c with
  | addClient addr now =>
      rw [call]
      cases hadd : s.addClient addr now with
      | error e => rfl
      | ok r => exact (addClient_frame hadd).2
  | recordAck => rfl
  | removeInactiveClients order timeoutSecs now =>
      exact retransmitQueue_removeInactiveClients timeoutSecs now
  | queueRetransmit | takeRetransmitQueue => exact hc.elim

end MulticastSession

section

variable {srv : MulticastServer} {t : Tree} {s : TransferRun}

theorem MulticastServer.turn_frame (e : TransferEvent) :
    s.session.SameTransfer (srv.turn t s e).session := by
  cases e with
  | call c => exact s.session.call_frame c
  | io io => exact (MulticastServer.transferStep_move io).frame.1

/-! ## The transfers of the server -/

theorem MulticastServer.transferStep_key {session : MulticastSession} {τ : TransferTask}
    (io : TransferIo) : (srv.transferStep t session τ io).2.1.key = τ.key := by
  have hmove := @transferStep_move srv t session τ io
  generalize srv.transferStep t session τ io = next at hmove ⊢
  obtain ⟨session', τ', records⟩ := next
  exact hmove.frame.2

/-- To other tasks, a step of a transfer is some calls of methods of its session. -/
theorem TransferMove.calls {session session' : MulticastSession} {τ τ' : TransferTask}
    {io : TransferIo} {records : List MulticastRecord}
    (h : TransferMove srv t session τ io (session', τ', records)) :
    ∃ calls, session' = session.run calls := by
  cases h with
  | idle | fails | opens | sends | acked | skips | resends => exact ⟨[], rfl⟩
  | @elapses offset blockNum => exact ⟨[.queueRetransmit blockNum], rfl⟩
  | begins _ timeoutSecs now clientOrder queueOrder =>
      exact ⟨[.removeInactiveClients clientOrder timeoutSecs now,
        .takeRetransmitQueue queueOrder], rfl⟩

theorem MulticastServer.runTransfer_calls (calls : List MulticastSession.Call) :
    srv.runTransfer t s (calls.map .call) = { s with session := s.session.run calls } := by
  induction calls generalizing s with
  | nil => rfl
  | cons c calls ih =>
      have := ih (s := { s with session := s.session.call c })
      exact this

end

/-- The transfer `i` of the server, its session, and what it has done. -/
structure MulticastState.Has (s : MulticastState) (i : Nat) (r : TransferRun) : Prop where
  task : s.transfers[i]? = some r.task
  session : s.sessions.lookup r.task.key = some r.session
  log : r.log.Sublist s.log

section

variable {srv : MulticastServer} {t : Tree} {s s' : MulticastState} {i : Nat} {r : TransferRun}

/-- Another session is changed, or this one by calls of its methods. -/
theorem MulticastState.Has.insert (h : s.Has i r) {key : String}
    {session session' : MulticastSession}
    (hsession : s.sessions.lookup key = some session)
    (hcalls : ∃ calls, session' = session.run calls)
    (hsessions : s'.sessions = s.sessions.insert key session')
    (htask : s'.transfers[i]? = some r.task) (hlog : s.log.Sublist s'.log) :
    ∃ es, s'.Has i (srv.runTransfer t r es) := by
  by_cases hkey : r.task.key = key
  · subst hkey
    rw [h.session] at hsession
    cases hsession
    obtain ⟨calls, rfl⟩ := hcalls
    refine ⟨calls.map .call, ?_⟩
    rw [MulticastServer.runTransfer_calls]
    refine ⟨htask, ?_, h.log.trans hlog⟩
    rw [hsessions, AList.lookup_insert]
  · refine ⟨[], htask, ?_, h.log.trans hlog⟩
    show s'.sessions.lookup r.task.key = some r.session
    rw [hsessions, AList.lookup_insert_ne hkey]
    exact h.session

theorem MulticastState.Has.moves (h : s.Has i r) (io : TransferIo) :
    (srv.step t s (.transfer i io)).Has i (srv.turn t r (.io io)) := by
  have hlt := (List.getElem?_eq_some_iff.mp h.task).1
  simp only [MulticastServer.step, h.task, h.session]
  refine ⟨List.getElem?_set_self hlt, ?_, h.log.append (List.Sublist.refl _)⟩
  show AList.lookup (srv.transferStep t r.session r.task io).2.1.key _ = _
  rw [MulticastServer.transferStep_key, AList.lookup_insert]
  rfl

/-- **A step of the server** is a step of the transfer, calls of other tasks, or nothing to it. -/
theorem MulticastState.Has.step (h : s.Has i r) (e : MulticastEvent) :
    ∃ es, (srv.step t s e).Has i (srv.runTransfer t r es) := by
  have hlt := (List.getElem?_eq_some_iff.mp h.task).1
  cases @MulticastServer.step_move srv t s e with
  | idle hsessions htransfers hlog =>
      exact ⟨[], htransfers ▸ h.task, hsessions ▸ h.session, hlog ▸ h.log⟩
  | @creates key filePath q hnew hsessions htransfers hlog =>
      have hkey : r.task.key ≠ key := by
        rintro rfl
        rw [h.session] at hnew
        cases hnew
      refine ⟨[], htransfers ▸ h.task, ?_, hlog ▸ h.log⟩
      show (srv.step t s e).sessions.lookup r.task.key = some r.session
      rw [hsessions, AList.lookup_insert_ne hkey]
      exact h.session
  | @joins key addr now sent j session session' isMaster _ _ hsession hadd hsessions htransfers
      hlog =>
      have hcall : session' = session.run [.addClient addr now] := by
        show session' = session.call (.addClient addr now)
        rw [MulticastSession.call, hadd]
      refine h.insert hsession ⟨_, hcall⟩ hsessions ?_ ?_
      · rw [htransfers, List.getElem?_append_left hlt]
        exact h.task
      · rw [hlog]
        exact List.sublist_append_left _ _
  | @moves i' io τ τ' session session' records hevent hτ hsession hmove hsessions htransfers hlog =>
      by_cases hi : i' = i
      · subst hi hevent
        exact ⟨[.io io], h.moves io⟩
      · refine h.insert hsession hmove.calls hsessions ?_ ?_
        · rw [htransfers, List.getElem?_set_ne hi]
          exact h.task
        · rw [hlog]
          exact List.sublist_append_left _ _

/-- The transfers of a server run as they would among any other tasks. -/
def MulticastState.Runs (srv : MulticastServer) (t : Tree) (s : MulticastState) : Prop :=
  ∀ i < s.transfers.length, ∃ key session es,
    0 < session.options.blockSize ∧ session.options.blockSize ≤ maxBlockSize ∧
      s.Has i (srv.runTransfer t (.start key session) es)

theorem MulticastState.Runs.step (hruns : s.Runs srv t) (hwell : s.WellFormed srv t)
    (e : MulticastEvent) : (srv.step t s e).Runs srv t := by
  intro i hi
  by_cases hold : i < s.transfers.length
  · obtain ⟨key, session, es, hpos, hmax, hhas⟩ := hruns i hold
    obtain ⟨es', hhas'⟩ := hhas.step e
    refine ⟨key, session, es ++ es', hpos, hmax, ?_⟩
    rwa [MulticastServer.runTransfer, List.foldl_append]
  · -- a transfer is started where a client becomes the master
    cases @MulticastServer.step_move srv t s e with
    | idle _ htransfers | creates _ _ htransfers =>
        rw [htransfers] at hi
        exact absurd hi hold
    | moves _ _ _ _ _ htransfers =>
        rw [htransfers, List.length_set] at hi
        exact absurd hi hold
    | @joins key addr now sent j session session' isMaster _ _ hsession hadd hsessions htransfers =>
        have hstart : sent && isMaster := by
          by_contra hstay
          rw [htransfers, if_neg hstay, List.append_nil] at hi
          exact hold hi
        rw [if_pos hstart] at htransfers
        have hlast : i = s.transfers.length := by
          rw [htransfers, List.length_append, List.length_singleton] at hi
          omega
        have hsize := hwell.blockSize key session hsession
        rw [← (MulticastSession.addClient_frame hadd).1.2.2.1] at hsize
        refine ⟨key, session', [], by omega, hsize.2, ?_, ?_, List.nil_sublist _⟩
        · rw [htransfers, hlast]
          exact List.getElem?_concat_length
        · show (srv.step t s e).sessions.lookup key = some session'
          rw [hsessions, AList.lookup_insert]

/-- **The transfers of the server** run so: whatever it has done, and whatever the other requests
and transfers have done in between. -/
theorem transfer_of_run (srv : MulticastServer) (t : Tree) (events : List MulticastEvent) :
    (srv.run t events).Runs srv t := by
  have hinv : (srv.run t events).WellFormed srv t ∧ (srv.run t events).Runs srv t :=
    @MulticastServer.run_invariant srv t (fun s => s.WellFormed srv t ∧ s.Runs srv t)
      ⟨MulticastState.wellFormed_start, fun i hi => absurd hi (Nat.not_lt_zero i)⟩
      (fun s e h => ⟨h.1.step MulticastServer.step_move, h.2.step h.1 e⟩) events
  exact hinv.2

end

end UsgTftp
