import Mathlib.Data.Int.CardIntervalMod
import UsgTftp.Lib.Channels
import UsgTftp.Server.Pool

set_option autoImplicit false

/-! # Datagrams and workers

The receiving thread of the worker pool with the channels to the workers, which the workers empty
while a batch is distributed. The receiver is the one of `Server/Pool.lean`: there an input says
which channels have room, and here it is their length that does (`master_run`).

`workers_take_in_order`: a worker takes each datagram that was sent to it once and in order, and a
datagram is dropped just if the channel of its worker is full. By `Client-Hash` all datagrams of a
client go to one worker, so the client is served in order (`client_hash_keeps_order`); by the two
other strategies the workers get datagrams in turn (`round_robin_balanced`).
-/

namespace UsgTftp

open Reactive Channels

/-! ## The system -/

structure Distribution where
  master : MasterState := {}
  /-- The datagrams of the batch that are left. -/
  pending : List IncomingPacket := []
  channels : Channels.State UInt64 IncomingPacket := Channels.empty
  /-- The workers chosen so far, with the datagrams, the oldest first. -/
  chosen : List (UInt64 × IncomingPacket) := []

inductive DistributionEvent where
  /-- `batch_recv_packets_internal` returns. -/
  | receive (batch : List IncomingPacket)
  | receiveFailed
  /-- The next datagram of the batch is handed to its worker. -/
  | trySend
  /-- A worker takes a datagram from its channel. -/
  | work (worker : UInt64)

/-- `c.receiveBatch`, up to the loop over the batch. -/
def MasterState.count (s : MasterState) (batch : List IncomingPacket) : MasterState :=
  { s with
    received := s.received ++ batch
    stats := { s.stats with
      packetsReceived := s.stats.packetsReceived + batch.length
      batchesReceived := s.stats.batchesReceived + 1 } }

section System

variable (c : PoolConfig) (capacity : Nat)

/-- `try_send` of the next datagram to the worker that `select_worker` gives. -/
def Distribution.trySend (s : Distribution) (packet : IncomingPacket)
    (rest : List IncomingPacket) : Distribution :=
  match selectWorker c.hash c.strategy packet.addr c.workerCount s.master.workerIndex with
  | .error _ => { s with master := { s.master with panicked := true } }
  | .ok (worker, counter) =>
      let s := { s with pending := rest, chosen := s.chosen ++ [(worker, packet)] }
      if s.channels.hasRoom capacity worker then
        { s with
          master := { s.master with
            workerIndex := counter, enqueued := s.master.enqueued ++ [(worker, packet)] }
          channels := s.channels.send worker packet }
      else
        { s with
          master := { s.master with
            workerIndex := counter
            stats := { s.master.stats with
              packetsDropped := s.master.stats.packetsDropped + 1 } } }

/-- The receiver gets the next batch when it is done with the last one. -/
def Distribution.step (s : Distribution) : DistributionEvent → Distribution
  | .receive batch =>
      if s.master.panicked = false ∧ s.pending = [] ∧ batch ≠ [] then
        { s with master := s.master.count batch, pending := batch }
      else s
  | .receiveFailed =>
      if s.master.panicked = false ∧ s.pending = [] then
        { s with master := c.receiveBatch s.master .error }
      else s
  | .trySend =>
      match s.pending with
      | [] => s
      | packet :: rest => if s.master.panicked then s else s.trySend c capacity packet rest
  | .work worker => { s with channels := s.channels.take worker }

def Distribution.run (events : List DistributionEvent) : Distribution :=
  events.foldl (Distribution.step c capacity) {}

end System

/-! ## The receiver -/

section Receiver

variable {c : PoolConfig} {capacity : Nat}

theorem remainder_eq_ok {a b r : UInt64} : remainder a b = .ok r ↔ b ≠ 0 ∧ r = a % b := by
  unfold remainder
  split_ifs with hb
  · exact iff_of_false nofun fun h => h.1 hb
  · rw [Except.ok.injEq]
    exact ⟨fun h => ⟨hb, h.symm⟩, fun h => h.2.symm⟩

/-- **Inversion of `select_worker`.** -/
theorem selectWorker_eq_ok {hash : SocketAddr → UInt64} {strategy : LoadBalanceStrategy}
    {addr : SocketAddr} {count index worker next : UInt64}
    (h : selectWorker hash strategy addr count index = .ok (worker, next)) :
    (strategy = .clientHash → worker = hash addr % count) ∧
    (strategy ≠ .clientHash → worker = index % count ∧ next = index + 1) := by
  have hbind : ∀ (a : UInt64) (g : UInt64 → UInt64 × UInt64),
      (remainder a count >>= fun idx => Except.ok (g idx)) = Except.ok (worker, next) →
        g (a % count) = (worker, next) := by
    intro a g h
    cases hr : remainder a count with
    | error e =>
        rw [hr] at h
        cases h
    | ok r =>
        rw [hr] at h
        injection h with h
        rw [← (remainder_eq_ok.mp hr).2, h]
  cases strategy with
  | roundRobin =>
      have heq := Prod.mk.inj (hbind index (fun idx => (idx, index + 1)) h)
      exact ⟨nofun, fun _ => ⟨heq.1.symm, heq.2.symm⟩⟩
  | clientHash =>
      have heq := Prod.mk.inj (hbind (hash addr) (fun idx => (idx, index)) h)
      exact ⟨fun _ => heq.1.symm, fun hne => absurd rfl hne⟩
  | leastLoaded =>
      have heq := Prod.mk.inj (hbind index (fun idx => (idx, index + 1)) h)
      exact ⟨nofun, fun _ => ⟨heq.1.symm, heq.2.symm⟩⟩

/-- What `try_send` can do. -/
inductive Tried (c : PoolConfig) (capacity : Nat) (s : Distribution) (packet : IncomingPacket)
    (rest : List IncomingPacket) : Distribution → Prop where
  | panics (fault : Fault)
      (h : selectWorker c.hash c.strategy packet.addr c.workerCount s.master.workerIndex
        = .error fault) :
      Tried c capacity s packet rest { s with master := { s.master with panicked := true } }
  | sent (worker counter : UInt64)
      (h : selectWorker c.hash c.strategy packet.addr c.workerCount s.master.workerIndex
        = .ok (worker, counter))
      (hroom : s.channels.hasRoom capacity worker = true) :
      Tried c capacity s packet rest
        { s with
          pending := rest
          chosen := s.chosen ++ [(worker, packet)]
          master := { s.master with
            workerIndex := counter, enqueued := s.master.enqueued ++ [(worker, packet)] }
          channels := s.channels.send worker packet }
  | dropped (worker counter : UInt64)
      (h : selectWorker c.hash c.strategy packet.addr c.workerCount s.master.workerIndex
        = .ok (worker, counter))
      (hroom : s.channels.hasRoom capacity worker = false) :
      Tried c capacity s packet rest
        { s with
          pending := rest
          chosen := s.chosen ++ [(worker, packet)]
          master := { s.master with
            workerIndex := counter
            stats := { s.master.stats with
              packetsDropped := s.master.stats.packetsDropped + 1 } } }

theorem trySend_tried (s : Distribution) (packet : IncomingPacket) (rest : List IncomingPacket) :
    Tried c capacity s packet rest (s.trySend c capacity packet rest) := by
  unfold Distribution.trySend
  split
  · rename_i fault h
    exact .panics fault h
  · rename_i worker counter h
    dsimp only
    cases hroom : s.channels.hasRoom capacity worker with
    | true => exact .sent worker counter h hroom
    | false => exact .dropped worker counter h hroom

/-- The next step of the receiver of `Server/Pool.lean`, after `events`. -/
theorem run_receive (events : List PoolEvent) {s : MasterState}
    (hs : (c.run events).master = s) (hrun : s.panicked = false) (result : BatchRecv) :
    (c.run (events ++ [.receive result])).master = c.receiveBatch s result := by
  subst hs
  rw [PoolConfig.run, List.foldl_append]
  show (c.step (c.run events) (.receive result)).master = _
  rw [PoolConfig.step, hrun]
  rfl

/-- The receiver is one of the receivers of `Server/Pool.lean`, in the middle of a batch. -/
def Distribution.Refines (c : PoolConfig) (s : Distribution) : Prop :=
  ∀ accepts, ∃ events, (c.run events).master = c.distribute s.pending accepts s.master

theorem Tried.refines {s s' : Distribution} {packet : IncomingPacket} {rest : List IncomingPacket}
    (h : Tried c capacity s packet rest s') (hpending : s.pending = packet :: rest)
    (hs : s.Refines c) : s'.Refines c := by
  intro accepts
  cases h with
  | panics fault h =>
      obtain ⟨events, hevents⟩ := hs accepts
      refine ⟨events, hevents.trans ?_⟩
      rw [hpending]
      simp only [PoolConfig.distribute, h]
  | sent worker counter h hroom =>
      obtain ⟨events, hevents⟩ := hs (true :: accepts)
      refine ⟨events, hevents.trans ?_⟩
      rw [hpending]
      simp only [PoolConfig.distribute, h]
      rfl
  | dropped worker counter h hroom =>
      obtain ⟨events, hevents⟩ := hs (false :: accepts)
      refine ⟨events, hevents.trans ?_⟩
      rw [hpending]
      simp only [PoolConfig.distribute, h]
      rfl

theorem Distribution.Refines.step {s : Distribution} (hs : s.Refines c) (e : DistributionEvent) :
    (s.step c capacity e).Refines c := by
  cases e with
  | receive batch =>
      rw [Distribution.step]
      split_ifs with hidle
      · obtain ⟨hrun, hpending, hbatch⟩ := hidle
        intro accepts
        obtain ⟨events, hevents⟩ := hs []
        rw [hpending] at hevents
        refine ⟨events ++ [.receive (.packets batch accepts)], ?_⟩
        rw [run_receive events hevents hrun]
        cases batch with
        | nil => exact absurd rfl hbatch
        | cons packet rest => rfl
      · exact hs
  | receiveFailed =>
      rw [Distribution.step]
      split_ifs with hidle
      · obtain ⟨hrun, hpending⟩ := hidle
        intro accepts
        obtain ⟨events, hevents⟩ := hs []
        rw [hpending] at hevents
        refine ⟨events ++ [.receive .error], ?_⟩
        rw [run_receive events hevents hrun]
        simp only [hpending]
        rfl
      · exact hs
  | trySend =>
      rw [Distribution.step]
      split
      · exact hs
      · rename_i packet rest hpending
        split_ifs
        · exact hs
        · exact (trySend_tried s packet rest).refines hpending hs
  | work worker => exact hs

/-- **The receiver refines the one of `Server/Pool.lean`.** Between two batches it is in a state
that the receiver there reaches when its channels have room where these do. -/
theorem master_run (events : List DistributionEvent)
    (hpending : (Distribution.run c capacity events).pending = []) :
    ∃ events', (c.run events').master = (Distribution.run c capacity events).master := by
  have h : (Distribution.run c capacity events).Refines c :=
    foldl_invariant (fun _ e h => h.step e) events _ fun _ => ⟨[], rfl⟩
  obtain ⟨events', hevents⟩ := h []
  rw [hpending] at hevents
  exact ⟨events', hevents⟩

end Receiver

/-! ## The invariant -/

/-- The worker that the strategy gives for datagram `k`. -/
def PoolConfig.workerFor (c : PoolConfig) (k : Nat) (packet : IncomingPacket) : UInt64 :=
  if c.strategy = .clientHash then c.hash packet.addr % c.workerCount
  else UInt64.ofNat k % c.workerCount

structure Distribution.Inv (c : PoolConfig) (capacity : Nat) (s : Distribution) : Prop where
  carries : Carries s.channels s.master.enqueued
  within : Within capacity s.channels
  order : s.chosen.map Prod.snd ++ s.pending = s.master.received
  enqueued : s.master.enqueued.Sublist s.chosen
  total : s.chosen.length = s.master.enqueued.length + s.master.stats.packetsDropped
  workers : s.chosen.map Prod.fst
    = s.chosen.mapIdx fun k choice => c.workerFor k choice.2
  index : c.strategy ≠ .clientHash → s.master.workerIndex = UInt64.ofNat s.chosen.length

section Invariant

variable {c : PoolConfig} {capacity : Nat} {s : Distribution}

/-- One more choice of a worker. -/
theorem Distribution.Inv.choose (hs : s.Inv c capacity) {packet : IncomingPacket}
    {worker counter : UInt64}
    (h : selectWorker c.hash c.strategy packet.addr c.workerCount s.master.workerIndex
      = .ok (worker, counter)) :
    ((s.chosen ++ [(worker, packet)]).map Prod.fst
      = (s.chosen ++ [(worker, packet)]).mapIdx fun k choice => c.workerFor k choice.2) ∧
    (c.strategy ≠ .clientHash →
      counter = UInt64.ofNat (s.chosen ++ [(worker, packet)]).length) := by
  obtain ⟨hhash, hturn⟩ := selectWorker_eq_ok h
  have hworker : worker = c.workerFor s.chosen.length packet := by
    unfold PoolConfig.workerFor
    split_ifs with hstrategy
    · exact hhash hstrategy
    · rw [(hturn hstrategy).1, hs.index hstrategy]
  constructor
  · rw [List.map_append, List.mapIdx_append, hs.workers, List.map_singleton,
      List.mapIdx_singleton, Nat.zero_add, ← hworker]
  · intro hstrategy
    rw [(hturn hstrategy).2, hs.index hstrategy, List.length_append, UInt64.ofNat_add]
    rfl

theorem Tried.inv {s' : Distribution} {packet : IncomingPacket} {rest : List IncomingPacket}
    (h : Tried c capacity s packet rest s') (hpending : s.pending = packet :: rest)
    (hs : s.Inv c capacity) : s'.Inv c capacity := by
  have horder : ∀ worker : UInt64, (s.chosen ++ [(worker, packet)]).map Prod.snd ++ rest
      = s.master.received := by
    intro worker
    rw [← hs.order, hpending, List.map_append, List.append_assoc]
    rfl
  cases h with
  | panics fault h =>
      exact ⟨hs.carries, hs.within, hs.order, hs.enqueued, hs.total, hs.workers, hs.index⟩
  | sent worker counter h hroom =>
      obtain ⟨hworkers, hindex⟩ := hs.choose h
      refine ⟨hs.carries.send, hs.within.send hroom, horder worker,
        hs.enqueued.append (List.Sublist.refl _), ?_, hworkers, hindex⟩
      show (s.chosen ++ [(worker, packet)]).length
        = (s.master.enqueued ++ [(worker, packet)]).length + s.master.stats.packetsDropped
      simp only [List.length_append, List.length_singleton, hs.total]
      omega
  | dropped worker counter h hroom =>
      obtain ⟨hworkers, hindex⟩ := hs.choose h
      refine ⟨hs.carries, hs.within, horder worker,
        hs.enqueued.trans (List.sublist_append_left _ _), ?_, hworkers, hindex⟩
      show (s.chosen ++ [(worker, packet)]).length
        = s.master.enqueued.length + (s.master.stats.packetsDropped + 1)
      simp only [List.length_append, List.length_singleton, hs.total]
      omega

/-- **Step lemma.** -/
theorem Distribution.Inv.step (hs : s.Inv c capacity) (e : DistributionEvent) :
    (s.step c capacity e).Inv c capacity := by
  cases e with
  | receive batch =>
      rw [Distribution.step]
      split_ifs with hidle
      · have horder := hs.order
        rw [hidle.2.1, List.append_nil] at horder
        refine ⟨hs.carries, hs.within, ?_, hs.enqueued, hs.total, hs.workers, hs.index⟩
        show s.chosen.map Prod.snd ++ batch = s.master.received ++ batch
        rw [horder]
      · exact hs
  | receiveFailed =>
      rw [Distribution.step]
      split_ifs
      · exact ⟨hs.carries, hs.within, hs.order, hs.enqueued, hs.total, hs.workers, hs.index⟩
      · exact hs
  | trySend =>
      rw [Distribution.step]
      split
      · exact hs
      · rename_i packet rest hpending
        split_ifs
        · exact hs
        · exact (trySend_tried s packet rest).inv hpending hs
  | work worker =>
      exact ⟨hs.carries.take, hs.within.take, hs.order, hs.enqueued, hs.total, hs.workers,
        hs.index⟩

theorem distribution_inv (c : PoolConfig) (capacity : Nat) (events : List DistributionEvent) :
    (Distribution.run c capacity events).Inv c capacity :=
  foldl_invariant (fun _ e h => h.step e) events _
    ⟨carries_empty, fun _ => Nat.zero_le _, rfl, List.Sublist.slnil, rfl, rfl, fun _ => rfl⟩

end Invariant

/-! ## In order, exactly once -/

/-- **The workers take what is sent to them once and in order.** In every run, what a worker has
taken, and then its channel, is what was sent to it; the channels stay within their capacity; the
datagrams are tried in the order of their arrival, and each of them is sent or counted as dropped.
The next one is dropped just if the channel of its worker is full. -/
theorem workers_take_in_order (c : PoolConfig) (capacity : Nat)
    (events : List DistributionEvent) :
    let s := Distribution.run c capacity events
    (∀ worker, s.channels.taken worker ++ s.channels.queue worker
      = sentTo worker s.master.enqueued) ∧
    (∀ worker, (s.channels.queue worker).length ≤ capacity) ∧
    s.chosen.map Prod.snd ++ s.pending = s.master.received ∧
    s.master.enqueued.Sublist s.chosen ∧
    s.chosen.length = s.master.enqueued.length + s.master.stats.packetsDropped ∧
    ∀ packet rest worker counter, s.pending = packet :: rest → s.master.panicked = false →
      selectWorker c.hash c.strategy packet.addr c.workerCount s.master.workerIndex
        = .ok (worker, counter) →
      ((s.step c capacity .trySend).master.stats.packetsDropped
        = s.master.stats.packetsDropped + 1 ↔ (s.channels.queue worker).length = capacity) := by
  intro s
  have hs : s.Inv c capacity := distribution_inv c capacity events
  refine ⟨hs.carries, hs.within, hs.order, hs.enqueued, hs.total, ?_⟩
  intro packet rest worker counter hpending hrun hselect
  rw [← hs.within.hasRoom_iff]
  simp only [Distribution.step, hpending, hrun, Bool.false_eq_true, if_false,
    Distribution.trySend, hselect]
  cases s.channels.hasRoom capacity worker with
  | true => simp
  | false => simp

/-! ## By client -/

section Clients

variable {c : PoolConfig} {capacity : Nat}

/-- By the hash of the client, each datagram goes to the worker of its client. -/
theorem enqueued_worker (hstrategy : c.strategy = .clientHash) {s : Distribution}
    (hs : s.Inv c capacity) {worker : UInt64} {packet : IncomingPacket}
    (hmem : (worker, packet) ∈ s.master.enqueued) :
    worker = c.hash packet.addr % c.workerCount := by
  obtain ⟨k, hk, hget⟩ := List.getElem_of_mem (hs.enqueued.subset hmem)
  have hworkers := congrArg (fun l => l[k]?) hs.workers
  simp only [List.getElem?_map, List.getElem?_mapIdx, List.getElem?_eq_getElem hk, hget,
    Option.map_some, Option.some.injEq] at hworkers
  rw [hworkers, PoolConfig.workerFor, if_pos hstrategy]

/-- If all messages of a kind go to one receiver, it is sent all of them. -/
theorem filter_sentTo {sent : List (UInt64 × IncomingPacket)} {worker : UInt64}
    {p : IncomingPacket → Bool} (h : ∀ m ∈ sent, p m.2 = true → m.1 = worker) :
    (sentTo worker sent).filter p = (sent.map Prod.snd).filter p := by
  induction sent with
  | nil => rfl
  | cons m sent ih =>
      have ih := ih fun m' hm => h m' (List.mem_cons_of_mem m hm)
      unfold sentTo at ih ⊢
      rw [List.filterMap_cons, List.map_cons, List.filter_cons]
      by_cases hp : p m.2 = true
      · rw [if_pos hp, if_pos (h m List.mem_cons_self hp)]
        simp only
        rw [List.filter_cons, if_pos hp, ih]
      · rw [if_neg hp]
        by_cases hm : m.1 = worker
        · rw [if_pos hm]
          simp only
          rw [List.filter_cons, if_neg hp, ih]
        · rw [if_neg hm]
          exact ih

end Clients

/-- **Each client is served in order by one worker**, if workers are chosen by the hash of the
client: no other worker takes a datagram of the client, and the worker takes those that were not
dropped in the order of their arrival. -/
theorem client_hash_keeps_order (c : PoolConfig) (capacity : Nat)
    (hstrategy : c.strategy = .clientHash) (events : List DistributionEvent)
    (addr : SocketAddr) :
    let s := Distribution.run c capacity events
    let own := fun packet : IncomingPacket => decide (packet.addr = addr)
    let worker := c.hash addr % c.workerCount
    (s.channels.taken worker ++ s.channels.queue worker).filter own
      = (s.master.enqueued.map Prod.snd).filter own ∧
    ((s.channels.taken worker).filter own).Sublist (s.master.received.filter own) ∧
    ∀ other, other ≠ worker → ∀ packet ∈ s.channels.taken other, packet.addr ≠ addr := by
  intro s own worker
  have hs : s.Inv c capacity := distribution_inv c capacity events
  have hall : (sentTo worker s.master.enqueued).filter own
      = (s.master.enqueued.map Prod.snd).filter own := by
    apply filter_sentTo
    rintro ⟨worker', packet⟩ hmem haddr
    have hworker := enqueued_worker hstrategy hs hmem
    rw [of_decide_eq_true haddr] at hworker
    exact hworker
  refine ⟨?_, ?_, ?_⟩
  · rw [hs.carries worker]
    exact hall
  · -- what is taken is the start of what was sent, which is a part of what has arrived
    have hreceived : (s.master.enqueued.map Prod.snd).Sublist s.master.received := by
      rw [← hs.order]
      exact (hs.enqueued.map Prod.snd).trans (List.sublist_append_left _ _)
    have htaken := ((hs.carries.taken_prefix worker).sublist.filter own)
    rw [hall] at htaken
    exact htaken.trans (hreceived.filter own)
  · rintro other hne packet hmem rfl
    have hsent := mem_sentTo.mp ((hs.carries.taken_prefix other).subset hmem)
    exact hne (enqueued_worker hstrategy hs hsent)

/-- A pool of two workers with channels of one datagram. -/
def twoWorkers (strategy : LoadBalanceStrategy) : PoolConfig where
  hash := fun addr => addr.port.toUInt64
  strategy := strategy
  workerCount := 2
  maxBatchSize := 32

def fromPort (port : UInt16) : IncomingPacket := ⟨[0, 1], ⟨.v4 1, port⟩⟩

/-- Two datagrams of one client, between them one of another client; the second one finds the
channel full. -/
def fullChannel : List DistributionEvent :=
  [.receive [fromPort 3, fromPort 4, fromPort 3], .trySend, .trySend, .trySend, .work 1]

theorem client_hash_keeps_order_full :
    let s := Distribution.run (twoWorkers .clientHash) 1 fullChannel
    (s.channels.taken 1 ++ s.channels.queue 1).filter
        (fun packet => decide (packet.addr = ⟨.v4 1, 3⟩))
      = (s.master.enqueued.map Prod.snd).filter (fun packet => decide (packet.addr = ⟨.v4 1, 3⟩)) ∧
    s.channels.taken 1 = [fromPort 3] ∧ s.master.stats.packetsDropped = 1 := by
  intro s
  exact ⟨(client_hash_keeps_order (twoWorkers .clientHash) 1 rfl fullChannel ⟨.v4 1, 3⟩).1, rfl,
    rfl⟩

/-! ## In turn -/

/-- Numbers below `n` that a test accepts. -/
theorem countP_range (p : Nat → Prop) [DecidablePred p] (n : Nat) :
    (List.range n).countP (fun k => decide (p k)) = Nat.count p n := by
  induction n with
  | zero => rfl
  | succ n ih =>
      rw [List.range_succ, List.countP_append, ih, Nat.count_succ, List.countP_singleton]
      simp only [decide_eq_true_eq]

/-- How often a worker is chosen when the workers are chosen in turn. -/
theorem count_chosen {c : PoolConfig} {capacity : Nat} {s : Distribution}
    (hs : s.Inv c capacity) (hstrategy : c.strategy ≠ .clientHash)
    (hlen : s.chosen.length ≤ 2 ^ 64) {worker : UInt64} (hworker : worker < c.workerCount) :
    (s.chosen.map Prod.fst).count worker
      = Nat.count (· ≡ worker.toNat [MOD c.workerCount.toNat]) s.chosen.length := by
  have hturn : s.chosen.map Prod.fst
      = (List.range s.chosen.length).map fun k => UInt64.ofNat k % c.workerCount := by
    rw [hs.workers]
    apply List.ext_getElem
    · simp
    · intro k h₁ h₂
      simp [PoolConfig.workerFor, hstrategy]
  have hlt : worker.toNat < c.workerCount.toNat := UInt64.lt_iff_toNat_lt.mp hworker
  calc
    (s.chosen.map Prod.fst).count worker
      = (List.range s.chosen.length).countP
          (fun k => UInt64.ofNat k % c.workerCount == worker) := by
        rw [hturn, List.count, List.countP_map]
        rfl
    _ = (List.range s.chosen.length).countP
          (fun k => decide (k ≡ worker.toNat [MOD c.workerCount.toNat])) := by
        apply List.countP_congr
        intro k hk
        have hk : k < 2 ^ 64 := by
          have := List.mem_range.mp hk
          omega
        rw [beq_iff_eq, decide_eq_true_eq, ← UInt64.toNat_inj, UInt64.toNat_mod,
          UInt64.toNat_ofNat', Nat.mod_eq_of_lt hk, Nat.ModEq, Nat.mod_eq_of_lt hlt]
    _ = Nat.count (· ≡ worker.toNat [MOD c.workerCount.toNat]) s.chosen.length :=
        countP_range _ _

/-- **The workers get datagrams in turn** by the strategies other than the hash of the client:
as long as the counter has not wrapped, the numbers of times that two workers are chosen differ by
at most one. -/
theorem round_robin_balanced (c : PoolConfig) (capacity : Nat)
    (hstrategy : c.strategy ≠ .clientHash) (events : List DistributionEvent)
    (hlen : (Distribution.run c capacity events).chosen.length ≤ 2 ^ 64)
    (worker worker' : UInt64) (hworker : worker < c.workerCount)
    (hworker' : worker' < c.workerCount) :
    ((Distribution.run c capacity events).chosen.map Prod.fst).count worker
      ≤ ((Distribution.run c capacity events).chosen.map Prod.fst).count worker' + 1 := by
  have hs := distribution_inv c capacity events
  have hpos : 0 < c.workerCount.toNat := by
    have := UInt64.lt_iff_toNat_lt.mp hworker
    omega
  rw [count_chosen hs hstrategy hlen hworker, count_chosen hs hstrategy hlen hworker',
    Nat.count_modEq_card _ hpos, Nat.count_modEq_card _ hpos]
  split_ifs <;> omega

theorem round_robin_balanced_two :
    let s := Distribution.run (twoWorkers .roundRobin) 1 fullChannel
    (s.chosen.map Prod.fst).count 0 ≤ (s.chosen.map Prod.fst).count 1 + 1 ∧
    s.chosen.map Prod.fst = [0, 1, 0] := by
  intro s
  exact ⟨round_robin_balanced (twoWorkers .roundRobin) 1 (by decide) fullChannel (by decide) 0 1
    (by decide) (by decide), rfl⟩

end UsgTftp
