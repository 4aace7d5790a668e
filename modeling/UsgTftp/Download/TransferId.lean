import UsgTftp.Client.Get

set_option autoImplicit false

/-! # Who supplies a download

`TftpClient::get` takes the address of the first datagram for the transfer address of the server
and drops what comes from elsewhere. It does not look whether that address has the IP of
`server_addr`, so a datagram of another host that comes first is believed, and then it is the
server whose datagrams are dropped.

`only_requested_host_iff` says for which datagrams the requested host supplies everything.
-/

namespace UsgTftp

open Reactive

/-! ## Payloads -/

/-- The bytes of a DATA packet from `tid`, as `get` receives it. -/
def Payload (c : TftpClient) (tid : SocketAddr) (inputs : List RecvFrom) (data : Bytes) : Prop :=
  ∃ d n, RecvFrom.datagram d tid ∈ inputs ∧
    header (recvInto (c.blockSize + 4) d) = some (Opcode.data.toU16, n, data)

theorem Payload.mono {c : TftpClient} {tid : SocketAddr} {inputs inputs' : List RecvFrom}
    {data : Bytes} (h : Payload c tid inputs data) (hsub : inputs ⊆ inputs') :
    Payload c tid inputs' data := by
  obtain ⟨d, n, hd, hdata⟩ := h
  exact ⟨d, n, hsub hd, hdata⟩

/-- What the buffer loop writes comes from the buffer. -/
theorem drain_payloads {Q : Bytes → Prop} :
    ∀ (fuel : Nat) (e : UInt16) (buffer : BlockBuffer) (w : Bytes),
      (∀ n d, buffer.lookup n = some d → Q d) →
      (∃ payloads : List Bytes, (drain fuel e buffer w).2.2 = w ++ payloads.flatten ∧
        ∀ p ∈ payloads, Q p) ∧
      ∀ n d, (drain fuel e buffer w).2.1.lookup n = some d → Q d := by
  intro fuel
  induction fuel with
  | zero =>
      intro e buffer w hbuf
      exact ⟨⟨[], by simp [drain], by simp⟩, hbuf⟩
  | succ fuel ih =>
      intro e buffer w hbuf
      rw [drain]
      cases hlook : buffer.lookup e with
      | none => exact ⟨⟨[], by simp, by simp⟩, hbuf⟩
      | some data =>
          have herase : ∀ n d, (buffer.erase e).lookup n = some d → Q d := by
            intro n d h
            by_cases hn : n = e
            · rw [hn, AList.lookup_erase] at h
              cases h
            · rw [AList.lookup_erase_ne hn] at h
              exact hbuf n d h
          obtain ⟨⟨payloads, hwritten, hall⟩, hleft⟩ := ih (e + 1) _ (w ++ data) herase
          refine ⟨⟨data :: payloads, ?_, ?_⟩, hleft⟩
          · dsimp only
            rw [hwritten, List.flatten_cons, List.append_assoc]
          · intro p hp
            rcases List.mem_cons.mp hp with rfl | hp
            · exact hbuf e p hlook
            · exact hall p hp

/-! ## Runs -/

/-- The transfer address is `tid`, and what is written or buffered comes from there. -/
structure Served (c : TftpClient) (tid : SocketAddr) (inputs : List RecvFrom) (g : GetState) :
    Prop where
  server : g.serverTid = some tid
  written : ∃ payloads : List Bytes, g.written = payloads.flatten ∧
    ∀ p ∈ payloads, Payload c tid inputs p
  buffered : ∀ n d, g.blockBuffer.lookup n = some d → Payload c tid inputs d

section

variable {c : TftpClient} {tid : SocketAddr} {inputs : List RecvFrom} {g : GetState}

theorem Served.mono {inputs' : List RecvFrom} (h : Served c tid inputs g)
    (hsub : inputs ⊆ inputs') : Served c tid inputs' g where
  server := h.server
  written := by
    obtain ⟨payloads, hwritten, hall⟩ := h.written
    exact ⟨payloads, hwritten, fun p hp => (hall p hp).mono hsub⟩
  buffered n d hd := (h.buffered n d hd).mono hsub

theorem Served.getData (h : Served c tid inputs g) (n : UInt16) {data : Bytes}
    (hdata : Payload c tid inputs data) :
    Served c tid inputs (c.getData g tid n data).1.state := by
  unfold TftpClient.getData
  by_cases hlt : n < g.expectedBlock
  · rw [if_pos hlt]
    exact h
  by_cases hgt : n > g.expectedBlock
  · rw [if_neg hlt, if_pos hgt]
    refine ⟨h.server, h.written, ?_⟩
    intro m d hd
    by_cases hm : m = n
    · rw [hm] at hd
      rw [show (GetStatus.state _).blockBuffer.lookup n = some data from AList.lookup_insert _]
        at hd
      cases hd
      exact hdata
    · exact h.buffered m d ((AList.lookup_insert_ne hm).symm.trans hd)
  rw [if_neg hlt, if_neg hgt]
  obtain ⟨payloads, hwritten, hall⟩ := h.written
  obtain ⟨⟨drained, hdrained, hdrainedAll⟩, hleft⟩ := drain_payloads g.blockBuffer.keys.length
    (g.expectedBlock + 1) g.blockBuffer (g.written ++ data) h.buffered
  have hresult : ∃ payloads' : List Bytes,
      (drain g.blockBuffer.keys.length (g.expectedBlock + 1) g.blockBuffer
        (g.written ++ data)).2.2 = payloads'.flatten ∧
      ∀ p ∈ payloads', Payload c tid inputs p := by
    refine ⟨payloads ++ data :: drained, ?_, ?_⟩
    · rw [hdrained, hwritten, List.flatten_append, List.flatten_cons, List.append_assoc]
    · intro p hp
      rcases List.mem_append.mp hp with hp | hp
      · exact hall p hp
      rcases List.mem_cons.mp hp with rfl | hp
      · exact hdata
      · exact hdrainedAll p hp
  dsimp only
  split_ifs <;> exact ⟨h.server, hresult, hleft⟩

/-- A datagram from elsewhere is dropped. -/
theorem getStep_foreign (hserver : g.serverTid = some tid) {d : Bytes} {src : SocketAddr}
    (hsrc : src ≠ tid) : c.getStep (.receiving g) (.datagram d src) = (.receiving g, []) := by
  simp only [TftpClient.getStep, hserver]
  exact if_pos hsrc

/-- **Step lemma.** -/
theorem Served.getStep {st : GetStatus} (h : Served c tid inputs st.state) (i : RecvFrom) :
    Served c tid (inputs ++ [i]) (c.getStep st i).1.state := by
  have hmono := h.mono (List.subset_append_left inputs [i])
  cases st with
  | returned result g => exact hmono
  | receiving g =>
      cases i with
      | error message => exact hmono
      | timeout => exact hmono
      | datagram d src =>
          have hserver : g.serverTid = some tid := h.server
          by_cases hsrc : src = tid
          · subst hsrc
            rw [getStep_server (Or.inr hserver)]
            have hg : ({ g with serverTid := some src } : GetState) = g := by
              rw [← hserver]
            rw [hg, TftpClient.getPacket]
            cases hhead : header (recvInto (c.blockSize + 4) d) with
            | none => exact hmono
            | some r =>
                obtain ⟨opcode, field, rest⟩ := r
                dsimp only
                cases hop : Opcode.fromU16 opcode with
                | none => exact hmono
                | some o =>
                    cases o with
                    | data =>
                        refine hmono.getData field ⟨d, field, by simp, ?_⟩
                        rw [hhead, Opcode.eq_toU16_of_fromU16 hop]
                    | oack => exact ⟨hmono.server, hmono.written, hmono.buffered⟩
                    | error => exact hmono
                    | rrq => exact hmono
                    | wrq => exact hmono
                    | ack => exact hmono
          · rw [getStep_foreign hserver hsrc]
            exact hmono

/-- **Run lemma.** -/
theorem Served.exec (remoteFile : String) :
    ∀ (rest inputs : List RecvFrom) (st : GetStatus), Served c tid inputs st.state →
      Served c tid (inputs ++ rest) ((c.get remoteFile).exec st rest).state := by
  intro rest
  induction rest with
  | nil =>
      intro inputs st h
      rwa [List.append_nil]
  | cons i rest ih =>
      intro inputs st h
      cases st with
      | returned result g =>
          rw [Machine.exec_stopped rfl]
          exact h.mono (List.subset_append_left _ _)
      | receiving g =>
          have hrest := ih (inputs ++ [i]) _ (h.getStep i)
          rwa [List.append_assoc, List.singleton_append] at hrest

/-- The first datagram fixes the transfer address. -/
theorem served_first (c : TftpClient) (d : Bytes) (src : SocketAddr) :
    Served c src [.datagram d src] (c.getStep (.receiving {}) (.datagram d src)).1.state := by
  have hstart : Served c src [] { serverTid := some src } :=
    ⟨rfl, ⟨[], rfl, by simp⟩, by intro n d hd; cases hd⟩
  have hstep := @Served.getStep c src [] (.receiving { serverTid := some src }) hstart
    (.datagram d src)
  rw [getStep_server (Or.inr rfl)] at hstep
  rw [getStep_server (Or.inl rfl)]
  exact hstep

end

/-! ## The requested host -/

/-- Not a datagram of another host. -/
def RecvFrom.fromHost (ip : IpAddr) : RecvFrom → Bool
  | .datagram _ src => src.ip = ip
  | .error _ => true
  | .timeout => true

/-- All that is written comes from one address of the requested host, and what other hosts send
neither fixes the transfer address nor ends the transfer; the run is the same without it. -/
structure OnlyRequestedHost (c : TftpClient) (remoteFile : String) (inputs : List RecvFrom) :
    Prop where
  supplied : ∃ tid : SocketAddr, tid.ip = c.serverAddr.ip ∧ ∃ payloads : List Bytes,
    ((c.get remoteFile).stateAfter inputs).state.written = payloads.flatten ∧
      ∀ p ∈ payloads, Payload c tid inputs p
  harmless : ∀ pre d src post, inputs = pre ++ .datagram d src :: post →
    src.ip ≠ c.serverAddr.ip → ((c.get remoteFile).stateAfter pre).running = true →
    ((c.get remoteFile).stateAfter (pre ++ [.datagram d src])).running = true ∧
      ((c.get remoteFile).stateAfter (pre ++ [.datagram d src])).state.serverTid
        = ((c.get remoteFile).stateAfter pre).state.serverTid
  unaffected : (c.get remoteFile).stateAfter (inputs.filter (·.fromHost c.serverAddr.ip))
    = (c.get remoteFile).stateAfter inputs

section

variable {c : TftpClient} {remoteFile : String} {tid : SocketAddr}

/-- Once the transfer address is fixed, the datagrams of other hosts may be left out. -/
theorem Served.exec_filter {ip : IpAddr} (hip : tid.ip = ip) :
    ∀ (rest inputs : List RecvFrom) (st : GetStatus), Served c tid inputs st.state →
      (c.get remoteFile).exec st (rest.filter (·.fromHost ip))
        = (c.get remoteFile).exec st rest := by
  intro rest
  induction rest with
  | nil => intro inputs st _; rfl
  | cons i rest ih =>
      intro inputs st h
      cases st with
      | returned result g => rw [Machine.exec_stopped rfl, Machine.exec_stopped rfl]
      | receiving g =>
          by_cases hi : i.fromHost ip = true
          · rw [List.filter_cons_of_pos hi, Machine.exec_cons_running rfl,
              Machine.exec_cons_running rfl]
            exact ih _ _ (h.getStep i)
          · rw [List.filter_cons_of_neg hi, Machine.exec_cons_running rfl]
            cases i with
            | error message => exact absurd rfl hi
            | timeout => exact absurd rfl hi
            | datagram d src =>
                have hsrc : src ≠ tid := by
                  rintro rfl
                  exact hi (by simpa [RecvFrom.fromHost] using hip)
                have hserver : g.serverTid = some tid := h.server
                show _ = (c.get remoteFile).exec (c.getStep _ _).1 rest
                rw [getStep_foreign hserver hsrc]
                exact ih inputs (.receiving g) h

theorem OnlyRequestedHost.of_served {d : Bytes} {src : SocketAddr} (rest : List RecvFrom)
    (hip : src.ip = c.serverAddr.ip) :
    OnlyRequestedHost c remoteFile (.datagram d src :: rest) := by
  have hfirst := served_first c d src
  have hrun : ∀ l, (c.get remoteFile).stateAfter (.datagram d src :: l)
      = (c.get remoteFile).exec (c.getStep (.receiving {}) (.datagram d src)).1 l :=
    fun l => Machine.exec_cons_running rfl _ _
  refine ⟨⟨src, hip, ?_⟩, ?_, ?_⟩
  · rw [hrun]
    exact (Served.exec remoteFile rest _ _ hfirst).written
  · intro pre d' src' post hinputs hforeign hrunning
    have hne : src' ≠ src := by
      rintro rfl
      exact hforeign hip
    cases pre with
    | nil =>
        cases hinputs
        exact absurd rfl hne
    | cons i pre =>
        cases hinputs
        have hserved := Served.exec remoteFile pre _ _ hfirst
        rw [List.cons_append, hrun, hrun, Machine.exec_append] at *
        generalize (c.get remoteFile).exec _ pre = st at hserved hrunning
        cases st with
        | returned result g => cases hrunning
        | receiving g =>
            have hserver : g.serverTid = some src := hserved.server
            have hstep : (c.get remoteFile).exec (.receiving g) [.datagram d' src']
                = .receiving g :=
              congrArg Prod.fst (getStep_foreign hserver hne)
            rw [hstep]
            exact ⟨rfl, rfl⟩
  · have hkeep : (RecvFrom.datagram d src).fromHost c.serverAddr.ip = true := by
      simpa [RecvFrom.fromHost] using hip
    rw [List.filter_cons_of_pos hkeep, hrun, hrun]
    exact Served.exec_filter hip rest _ _ hfirst

/-- Nothing is written before the first datagram. -/
theorem OnlyRequestedHost.of_returned {i : RecvFrom} {rest : List RecvFrom}
    {result : Except ClientError Unit} (hkeep : i.fromHost c.serverAddr.ip = true)
    (hstep : (c.getStep (.receiving {}) i).1 = .returned result {})
    (hi : ∀ d src, i ≠ .datagram d src) :
    OnlyRequestedHost c remoteFile (i :: rest) := by
  have hrun : ∀ l, (c.get remoteFile).stateAfter (i :: l) = .returned result {} := by
    intro l
    calc (c.get remoteFile).stateAfter (i :: l)
        = (c.get remoteFile).exec (c.getStep (.receiving {}) i).1 l :=
          Machine.exec_cons_running rfl _ _
      _ = .returned result {} := by rw [hstep, Machine.exec_stopped rfl]
  refine ⟨⟨c.serverAddr, rfl, [], by rw [hrun]; rfl, by simp⟩, ?_, ?_⟩
  · intro pre d src post hinputs _ hrunning
    cases pre with
    | nil =>
        cases hinputs
        exact absurd rfl (hi d src)
    | cons j pre =>
        cases hinputs
        rw [hrun] at hrunning
        cases hrunning
  · rw [List.filter_cons_of_pos hkeep, hrun, hrun]

end

/-- **When only the requested host supplies data**: if and only if the first datagram that comes
is one of its own. -/
theorem only_requested_host_iff (c : TftpClient) (remoteFile : String) (inputs : List RecvFrom) :
    OnlyRequestedHost c remoteFile inputs ↔
      ∀ d src rest, inputs = .datagram d src :: rest → src.ip = c.serverAddr.ip := by
  constructor
  · -- a datagram that comes first is believed
    rintro h d src rest rfl
    by_contra hforeign
    obtain ⟨-, htid⟩ := h.harmless [] d src rest rfl hforeign rfl
    have hserved := served_first c d src
    rw [show (c.get remoteFile).stateAfter ([] ++ [.datagram d src])
      = (c.getStep (.receiving {}) (.datagram d src)).1 from rfl, hserved.server] at htid
    cases htid
  · intro h
    cases inputs with
    | nil =>
        refine ⟨⟨c.serverAddr, rfl, [], rfl, by simp⟩, ?_, rfl⟩
        intro pre d src post hinputs
        exact absurd hinputs.symm (by simp)
    | cons i rest =>
        cases i with
        | datagram d src => exact .of_served rest (h d src rest rfl)
        | error message => exact .of_returned rfl rfl (by simp)
        | timeout => exact .of_returned rfl rfl (by simp)

/-- Another host sends a short block first, and `get` returns with its byte. -/
theorem foreign_host_supplies :
    let c : TftpClient := ⟨⟨.v4 0x0A000001, 69⟩, .octet, 512, 1⟩
    ¬ OnlyRequestedHost c "a.txt" [.datagram (dataPacket 1 [0x78]) ⟨.v4 0x0A000063, 4444⟩] := by
  intro c h
  have hend := (h.harmless [] _ _ [] rfl (by decide) rfl).1
  exact absurd hend (by decide +kernel)

end UsgTftp
