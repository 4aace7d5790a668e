import Mathlib.Data.List.Basic
import UsgTftp.Client.Get

set_option autoImplicit false

/-! # Downloads in any order

Copies of the DATA packets of a file arrive at `TftpClient::get` in any order. Below `65536`
blocks the numbers tell the blocks apart, so the client writes every block as soon as all those
before it have arrived. But only the packet that has just been received ends the transfer: if the
final block waits in the buffer it is written with the others, and the loop goes on.

`reordered_complete_iff` says which orders end the transfer.
-/

namespace UsgTftp

open Reactive Segment SeqNum

/-! ## The buffer -/

/-- The buffer holds exactly the blocks of `P` from `k` up to `limit`. -/
def Buffers (P : Nat → Prop) (blockAt : Nat → Bytes) (k limit : Nat) (buffer : BlockBuffer) :
    Prop :=
  ∀ n d, buffer.lookup n = some d ↔
    ∃ i, P i ∧ k ≤ i ∧ i < limit ∧ n = wire (i + 1) ∧ d = blockAt i

section Buffers

variable {P : Nat → Prop} {blockAt prefixUpTo : Nat → Bytes} {k limit : Nat} {buffer : BlockBuffer}

theorem Buffers.lookup_wire (h : Buffers P blockAt k limit buffer) (hlimit : limit < 65536)
    {i : Nat} (hi : i < limit) {d : Bytes} :
    buffer.lookup (wire (i + 1)) = some d ↔ P i ∧ k ≤ i ∧ d = blockAt i := by
  rw [h]
  constructor
  · rintro ⟨j, hP, hkj, hj, hn, hd⟩
    obtain rfl : i = j := by
      have := (wire_inj (by omega) (by omega)).mp hn
      omega
    exact ⟨hP, hkj, hd⟩
  · rintro ⟨hP, hki, hd⟩
    exact ⟨i, hP, hki, hi, rfl, hd⟩

/-- Without the block at its front the buffer starts one block later. -/
theorem Buffers.erase (h : Buffers P blockAt k limit buffer) (hlimit : limit < 65536) :
    Buffers P blockAt (k + 1) limit (buffer.erase (wire (k + 1))) := by
  intro n d
  by_cases hn : n = wire (k + 1)
  · rw [hn, AList.lookup_erase]
    constructor
    · intro hnone
      cases hnone
    · rintro ⟨i, -, hki, hi, hwire, -⟩
      have := (wire_inj (by omega) (by omega)).mp hwire
      omega
  · rw [AList.lookup_erase_ne hn, h]
    refine exists_congr fun i => and_congr_right fun _ => ?_
    constructor
    · rintro ⟨hki, hi, rfl, hd⟩
      have hne : i ≠ k := by
        rintro rfl
        exact hn rfl
      exact ⟨by omega, hi, rfl, hd⟩
    · rintro ⟨hki, hi, hwire, hd⟩
      exact ⟨by omega, hi, hwire, hd⟩

theorem Buffers.skip (h : Buffers P blockAt k limit buffer) (hP : ¬ P k) :
    Buffers P blockAt (k + 1) limit buffer := by
  intro n d
  rw [h]
  refine exists_congr fun i => and_congr_right fun hi => ?_
  have hne : i ≠ k := by
    rintro rfl
    exact hP hi
  constructor
  · rintro ⟨hki, rest⟩
    exact ⟨by omega, rest⟩
  · rintro ⟨hki, rest⟩
    exact ⟨by omega, rest⟩

/-- **The buffer loop** writes the blocks up to the first one that is missing. -/
theorem drain_buffers (hlimit : limit < 65536)
    (hnext : ∀ i, prefixUpTo i ++ blockAt i = prefixUpTo (i + 1)) :
    ∀ (fuel k : Nat) (buffer : BlockBuffer), buffer.keys.length ≤ fuel → k ≤ limit →
      Buffers P blockAt k limit buffer →
      ∃ k' buffer', k ≤ k' ∧ k' ≤ limit ∧ (∀ i, k ≤ i → i < k' → P i) ∧
        (k' < limit → ¬ P k') ∧ Buffers P blockAt k' limit buffer' ∧
        drain fuel (wire (k + 1)) buffer (prefixUpTo k)
          = (wire (k' + 1), buffer', prefixUpTo k') := by
  intro fuel
  induction fuel with
  | zero =>
      intro k buffer hfuel hk hbuf
      refine ⟨k, buffer, le_rfl, hk, fun i _ _ => by omega, ?_, hbuf, rfl⟩
      intro hlt hP
      have hlook := (hbuf.lookup_wire hlimit hlt).mpr ⟨hP, le_rfl, rfl⟩
      have hmem := AList.mem_keys.mp (AList.lookup_isSome.mp (by rw [hlook]; rfl))
      rw [List.eq_nil_of_length_eq_zero (by omega : buffer.keys.length = 0)] at hmem
      cases hmem
  | succ fuel ih =>
      intro k buffer hfuel hk hbuf
      rw [drain]
      cases hlook : buffer.lookup (wire (k + 1)) with
      | none =>
          refine ⟨k, buffer, le_rfl, hk, fun i _ _ => by omega, ?_, hbuf, rfl⟩
          intro hlt hP
          rw [(hbuf.lookup_wire hlimit hlt).mpr ⟨hP, le_rfl, rfl⟩] at hlook
          cases hlook
      | some data =>
          obtain ⟨j, hP, hkj, hj, hwire, rfl⟩ := (hbuf _ _).mp hlook
          obtain rfl : k = j := by
            have := (wire_inj (by omega) (by omega)).mp hwire
            omega
          have hlen := length_keys_erase hlook
          obtain ⟨k', buffer', hle, hle', hall, hgap, hbuf', hdrain⟩ :=
            ih (k + 1) _ (by omega) hj (hbuf.erase hlimit)
          refine ⟨k', buffer', by omega, hle', ?_, hgap, hbuf', ?_⟩
          · intro i hki hik
            rcases Nat.eq_or_lt_of_le hki with rfl | hlt
            · exact hP
            · exact hall i hlt hik
          · dsimp only
            rw [wire_add_one, hnext]
            exact hdrain

end Buffers

/-! ## The order of arrival -/

/-- No block comes for the first time after the final one does. -/
def FinalLast (n : Nat) (order : List Nat) : Prop :=
  ∀ i < n - 1, order.idxOf i < order.idxOf (n - 1)

/-- Once the final block has come, what comes later does not matter. -/
theorem finalLast_append {n : Nat} {seen : List Nat} (h : n - 1 ∈ seen) (l : List Nat) :
    FinalLast n (seen ++ l) ↔ FinalLast n seen := by
  unfold FinalLast
  rw [List.idxOf_append_of_mem h]
  have hlt : seen.idxOf (n - 1) < seen.length := List.idxOf_lt_length_of_mem h
  refine forall_congr' fun i => imp_congr_right fun _ => ?_
  by_cases hi : i ∈ seen
  · rw [List.idxOf_append_of_mem hi]
  · rw [List.idxOf_append_of_notMem hi, List.idxOf_eq_length hi]
    constructor
    · intro h
      omega
    · intro h
      omega

/-- The final block comes last of all. -/
theorem finalLast_concat {n : Nat} {seen : List Nat} (hall : ∀ i < n - 1, i ∈ seen)
    (hnew : n - 1 ∉ seen) : FinalLast n (seen ++ [n - 1]) := by
  intro i hi
  rw [List.idxOf_append_of_mem (hall i hi), List.idxOf_append_of_notMem hnew]
  exact Nat.lt_of_lt_of_le (List.idxOf_lt_length_of_mem (hall i hi)) (Nat.le_add_right _ _)

/-- A block comes for the first time after the final one has. -/
theorem not_finalLast_concat {n k : Nat} {seen : List Nat} (hk : k < n - 1)
    (hfinal : n - 1 ∈ seen) (hnew : k ∉ seen) : ¬ FinalLast n (seen ++ [k]) := by
  rw [finalLast_append hfinal]
  intro h
  have hlt := h k hk
  rw [List.idxOf_eq_length hnew] at hlt
  exact absurd (List.idxOf_lt_length_of_mem hfinal) (by omega)

/-! ## The invariant -/

/-- The blocks before `k` are written, block `k` is missing, and those behind it that have been
seen are in the buffer. -/
structure Collecting (b : Nat) (file : Bytes) (tid : SocketAddr) (seen : List Nat) (k : Nat)
    (g : GetState) : Prop where
  lt : k < blockCount b file
  written : g.written = file.take (k * b)
  expected : g.expectedBlock = wire (k + 1)
  server : g.serverTid = none ∨ g.serverTid = some tid
  before : ∀ i < k, i ∈ seen
  missing : k ∉ seen
  buffered : Buffers (· ∈ seen) (block b file) (k + 1) (blockCount b file) g.blockBuffer

/-- The state of the client when copies of the blocks in `seen` have come. -/
inductive Collected (b : Nat) (file : Bytes) (tid : SocketAddr) (seen : List Nat) :
    GetStatus → Prop where
  | collecting (k : Nat) (g : GetState) (h : Collecting b file tid seen k g) :
      Collected b file tid seen (.receiving g)
  | complete (g : GetState) (hfinal : blockCount b file - 1 ∈ seen)
      (hlast : FinalLast (blockCount b file) seen) (h : g.written = file) :
      Collected b file tid seen (.returned (.ok ()) g)
  /-- Everything is written, but the loop goes on. -/
  | overrun (g : GetState) (hfinal : blockCount b file - 1 ∈ seen)
      (hlast : ¬ FinalLast (blockCount b file) seen)
      (hserver : g.serverTid = some tid)
      (h : g.expectedBlock = wire (blockCount b file + 1)) :
      Collected b file tid seen (.receiving g)

section

variable {c : TftpClient} {file : Bytes} {tid : SocketAddr} {seen : List Nat} {k i : Nat}
  {g : GetState}

/-- A copy of a block that is written already changes nothing. -/
theorem Collecting.duplicate {b : Nat} (h : Collecting b file tid seen k g) (hik : i < k) :
    Collecting b file tid (seen ++ [i]) k g where
  lt := h.lt
  written := h.written
  expected := h.expected
  server := h.server
  before j hj := List.mem_append_left _ (h.before j hj)
  missing := by
    rw [List.mem_append, List.mem_singleton, not_or]
    exact ⟨h.missing, by omega⟩
  buffered n d := by
    rw [h.buffered]
    refine exists_congr fun j => ?_
    dsimp only
    rw [List.mem_append, List.mem_singleton]
    constructor
    · rintro ⟨hj, rest⟩
      exact ⟨Or.inl hj, rest⟩
    · rintro ⟨hj | rfl, hkj, rest⟩
      · exact ⟨hj, hkj, rest⟩
      · omega

/-- A block that lies ahead goes into the buffer. -/
theorem Collecting.ahead {b : Nat} (h : Collecting b file tid seen k g)
    (hN : blockCount b file ≤ 65535) (hki : k < i) (hi : i < blockCount b file) :
    Collecting b file tid (seen ++ [i]) k
      { g with blockBuffer := g.blockBuffer.insert (wire (i + 1)) (block b file i) } where
  lt := h.lt
  written := h.written
  expected := h.expected
  server := h.server
  before j hj := List.mem_append_left _ (h.before j hj)
  missing := by
    rw [List.mem_append, List.mem_singleton, not_or]
    exact ⟨h.missing, by omega⟩
  buffered n d := by
    by_cases hn : n = wire (i + 1)
    · rw [hn, AList.lookup_insert]
      constructor
      · intro hd
        cases hd
        exact ⟨i, by simp, hki, hi, rfl, rfl⟩
      · rintro ⟨j, -, -, hj, hwire, rfl⟩
        have := (wire_inj (by omega) (by omega)).mp hwire
        rw [show i = j by omega]
    · rw [AList.lookup_insert_ne hn, h.buffered]
      refine exists_congr fun j => ?_
      dsimp only
      rw [List.mem_append, List.mem_singleton]
      constructor
      · rintro ⟨hj, rest⟩
        exact ⟨Or.inl hj, rest⟩
      · rintro ⟨hj | rfl, hkj, hlt, hwire, hd⟩
        · exact ⟨hj, hkj, hlt, hwire, hd⟩
        · exact absurd hwire hn

/-- What the loop writes when the missing block comes. -/
theorem Collecting.drain {b : Nat} (h : Collecting b file tid seen k g)
    (hN : blockCount b file ≤ 65535) :
    ∃ k' buffer, k < k' ∧ k' ≤ blockCount b file ∧ (∀ i < k', i ∈ seen ++ [k]) ∧
      (k' < blockCount b file → k' ∉ seen ++ [k]) ∧
      Buffers (· ∈ seen ++ [k]) (block b file) k' (blockCount b file) buffer ∧
      UsgTftp.drain g.blockBuffer.keys.length (g.expectedBlock + 1) g.blockBuffer
        (g.written ++ block b file k) = (wire (k' + 1), buffer, file.take (k' * b)) := by
  obtain ⟨k', buffer, hle, hle', hall, hgap, hbuf, hdrain⟩ :=
    drain_buffers (by omega) (take_append_block b file) g.blockBuffer.keys.length (k + 1)
      g.blockBuffer le_rfl h.lt h.buffered
  rw [h.expected, wire_add_one, h.written, take_append_block]
  have hne : ∀ {j}, k < j → (j ∈ seen ++ [k] ↔ j ∈ seen) := by
    intro j hj
    rw [List.mem_append, List.mem_singleton]
    constructor
    · rintro (hj' | rfl)
      · exact hj'
      · omega
    · exact Or.inl
  refine ⟨k', buffer, hle, hle', ?_, ?_, ?_, hdrain⟩
  · intro j hj
    rcases Nat.lt_trichotomy j k with hjk | rfl | hjk
    · exact List.mem_append_left _ (h.before j hjk)
    · simp
    · exact (hne hjk).mpr (hall j hjk hj)
  · intro hlt hmem
    exact hgap hlt ((hne hle).mp hmem)
  · intro n d
    rw [hbuf]
    refine exists_congr fun j => ?_
    constructor
    · rintro ⟨hj, hkj, rest⟩
      exact ⟨List.mem_append_left _ hj, hkj, rest⟩
    · rintro ⟨hj, hkj, rest⟩
      exact ⟨(hne (by omega)).mp hj, hkj, rest⟩

/-- **The missing block** comes. It ends the transfer if it is the final one; otherwise the loop
goes on, at the next missing block or behind the file. -/
theorem Collecting.getData_missing (h : Collecting c.blockSize file tid seen k g)
    (hb : 0 < c.blockSize) (hN : blockCount c.blockSize file ≤ 65535)
    (htid : g.serverTid = some tid) :
    Collected c.blockSize file tid (seen ++ [k])
      (c.getData g tid (wire (k + 1)) (block c.blockSize file k)).1 := by
  obtain ⟨k', buffer, hlt, hle, hall, hgap, hbuf, hdrain⟩ := h.drain hN
  have hfinal := length_block_lt_iff hb file h.lt
  rw [TftpClient.getData, h.expected, if_neg (UInt16.lt_irrefl _), if_neg (UInt16.lt_irrefl _),
    ← h.expected, hdrain]
  simp only [decide_eq_true_eq]
  by_cases hshort : (block c.blockSize file k).length < c.blockSize
  · -- the final block, which is not in the buffer
    have hk : k = blockCount c.blockSize file - 1 := by
      have := hfinal.mp hshort
      omega
    have hwhole : file.take (k' * c.blockSize) = file := by
      rw [show k' = blockCount c.blockSize file by omega, take_blockCount_mul hb]
    have hlast : FinalLast (blockCount c.blockSize file) (seen ++ [k]) := by
      rw [hk]
      refine finalLast_concat (fun i hi => h.before i (by omega)) ?_
      rw [← hk]
      exact h.missing
    have hmem : blockCount c.blockSize file - 1 ∈ seen ++ [k] := by simp [← hk]
    rw [if_pos hshort]
    refine .complete _ hmem hlast ?_
    split_ifs <;> exact hwhole
  · rw [if_neg hshort]
    by_cases hend : k' < blockCount c.blockSize file
    · refine .collecting k' _ ?_
      have hbuf' := hbuf.skip (hgap hend)
      split_ifs
      · exact ⟨hend, rfl, rfl, Or.inr htid, hall, hgap hend, hbuf'⟩
      · exact ⟨hend, rfl, rfl, Or.inr htid, hall, hgap hend, hbuf'⟩
    · -- the final block has been written from the buffer
      obtain rfl : k' = blockCount c.blockSize file := by omega
      have hmem : blockCount c.blockSize file - 1 ∈ seen ++ [k] := hall _ (by omega)
      have hk : k < blockCount c.blockSize file - 1 := by
        have := mt hfinal.mpr hshort
        omega
      have hseen : blockCount c.blockSize file - 1 ∈ seen := by
        rcases List.mem_append.mp hmem with hmem | hmem
        · exact hmem
        · have := List.mem_singleton.mp hmem
          omega
      refine .overrun _ hmem (not_finalLast_concat hk hseen h.missing) ?_ ?_
      · split_ifs <;> exact htid
      · split_ifs <;> rfl

/-- **Step lemma.** -/
theorem Collected.getStep {st : GetStatus} (h : Collected c.blockSize file tid seen st)
    (hb : 0 < c.blockSize) (hN : blockCount c.blockSize file ≤ 65535)
    (hi : i < blockCount c.blockSize file) :
    Collected c.blockSize file tid (seen ++ [i])
      (c.getStep st (.datagram (segPacket c.blockSize file i) tid)).1 := by
  cases h with
  | complete g hfinal hlast hfile =>
      exact .complete g (List.mem_append_left _ hfinal) ((finalLast_append hfinal _).mpr hlast)
        hfile
  | overrun g hfinal hlast hserver hexp =>
      have hmem := List.mem_append_left [i] hfinal
      have hlast' := mt (finalLast_append hfinal [i]).mp hlast
      rw [getStep_server (Or.inr hserver), getPacket_segPacket, TftpClient.getData]
      -- the expected number is behind all numbers of the file, or it has wrapped to zero
      have hne : wire (i + 1) ≠ wire (blockCount c.blockSize file + 1) := by
        rw [ne_eq, wire_inj (by omega) (by omega)]
        omega
      by_cases hlt : wire (i + 1) < g.expectedBlock
      · rw [if_pos hlt]
        exact .overrun _ hmem hlast' rfl hexp
      · rw [if_neg hlt, if_pos]
        · exact .overrun _ hmem hlast' rfl hexp
        · refine UInt16.lt_of_le_of_ne (UInt16.not_lt.mp hlt) ?_
          rw [hexp]
          exact hne.symm
  | collecting k g h =>
      have hg : Collecting c.blockSize file tid seen k { g with serverTid := some tid } :=
        ⟨h.lt, h.written, h.expected, Or.inr rfl, h.before, h.missing, h.buffered⟩
      have htid : ({ g with serverTid := some tid } : GetState).serverTid = some tid := rfl
      rw [getStep_server h.server, getPacket_segPacket]
      generalize ({ g with serverTid := some tid } : GetState) = g' at hg htid ⊢
      have hlt := hg.lt
      have horder : wire (i + 1) < g'.expectedBlock ↔ i < k := by
        rw [hg.expected, UInt16.lt_iff_toNat_lt, toNat_wire_of_lt (by omega),
          toNat_wire_of_lt (by omega)]
        omega
      have horder' : g'.expectedBlock < wire (i + 1) ↔ k < i := by
        rw [hg.expected, UInt16.lt_iff_toNat_lt, toNat_wire_of_lt (by omega),
          toNat_wire_of_lt (by omega)]
        omega
      rcases Nat.lt_trichotomy i k with hik | rfl | hik
      · rw [TftpClient.getData, if_pos (horder.mpr hik)]
        exact .collecting k _ (hg.duplicate hik)
      · exact hg.getData_missing hb hN htid
      · rw [TftpClient.getData, if_neg (mt horder.mp (by omega)), if_pos (horder'.mpr hik)]
        exact .collecting k _ (hg.ahead hN hik hi)

/-- The copies of the blocks in `order`, as they arrive. -/
def arrivals (b : Nat) (file : Bytes) (tid : SocketAddr) (order : List Nat) : List RecvFrom :=
  order.map fun i => .datagram (segPacket b file i) tid

/-- **Run lemma.** -/
theorem Collected.exec (remoteFile : String) (hb : 0 < c.blockSize)
    (hN : blockCount c.blockSize file ≤ 65535) :
    ∀ (order seen : List Nat) (st : GetStatus),
      (∀ i ∈ order, i < blockCount c.blockSize file) → Collected c.blockSize file tid seen st →
      Collected c.blockSize file tid (seen ++ order)
        ((c.get remoteFile).exec st (arrivals c.blockSize file tid order)) := by
  intro order
  induction order with
  | nil =>
      intro seen st _ h
      rwa [List.append_nil]
  | cons i order ih =>
      intro seen st hin h
      have hstep := h.getStep hb hN (hin i List.mem_cons_self)
      have hrest := ih (seen ++ [i]) _ (fun j hj => hin j (List.mem_cons_of_mem _ hj)) hstep
      rw [List.append_assoc, List.singleton_append] at hrest
      cases st with
      | receiving g => exact hrest
      | returned result g =>
          -- a client that has returned stays as it is
          rw [Machine.exec_stopped rfl]
          rwa [show (c.getStep (.returned result g) _).1 = .returned result g from rfl,
            Machine.exec_stopped rfl] at hrest

theorem collected_start (b : Nat) (file : Bytes) (tid : SocketAddr) :
    Collected b file tid [] (.receiving {}) := by
  refine .collecting 0 _ ⟨blockCount_pos b file, by simp, rfl, Or.inl rfl, by simp, by simp, ?_⟩
  intro n d
  constructor
  · intro h
    cases h
  · rintro ⟨i, hi, -⟩
    cases hi

end

/-- **Which orders complete a download.** When every block has come, `get` has returned `Ok` with
the whole file if and only if no block came for the first time after the final one did. -/
theorem reordered_complete_iff (c : TftpClient) (remoteFile : String) (file : Bytes)
    (tid : SocketAddr) (hb : 0 < c.blockSize) (hN : blockCount c.blockSize file ≤ 65535)
    (order : List Nat) (hin : ∀ i ∈ order, i < blockCount c.blockSize file)
    (hall : ∀ i < blockCount c.blockSize file, i ∈ order) :
    (∃ g, (c.get remoteFile).stateAfter (arrivals c.blockSize file tid order)
        = .returned (.ok ()) g ∧ g.written = file) ↔
      FinalLast (blockCount c.blockSize file) order := by
  have h := Collected.exec remoteFile hb hN order [] _ hin (collected_start c.blockSize file tid)
  rw [List.nil_append] at h
  change Collected c.blockSize file tid order
    ((c.get remoteFile).stateAfter (arrivals c.blockSize file tid order)) at h
  generalize (c.get remoteFile).stateAfter (arrivals c.blockSize file tid order) = st at h
  constructor
  · rintro ⟨g, rfl, -⟩
    cases h with
    | complete g hfinal hlast hfile => exact hlast
  · intro hlast
    cases h with
    | collecting k g h => exact absurd (hall k h.lt) h.missing
    | complete g hfinal hlast hfile => exact ⟨g, rfl, hfile⟩
    | overrun g hfinal hnot hserver hexp => exact absurd hlast hnot

/-- Three blocks, the first two of them exchanged. -/
theorem reordered_complete_exchanged :
    let c : TftpClient := ⟨⟨.v4 1, 69⟩, .octet, 8, 4⟩
    let file : Bytes := List.replicate 17 65
    0 < c.blockSize ∧ ∃ g, (c.get "a.txt").stateAfter
        (arrivals c.blockSize file ⟨.v4 1, 50000⟩ [1, 0, 2]) = .returned (.ok ()) g ∧
      g.written = file := by
  intro c file
  have hN : blockCount c.blockSize file = 3 := by decide
  refine ⟨by decide, (reordered_complete_iff c "a.txt" file ⟨.v4 1, 50000⟩ (by decide)
    (by rw [hN]; decide) [1, 0, 2] (by rw [hN]; decide) (by rw [hN]; decide)).mpr ?_⟩
  rw [hN]
  unfold FinalLast
  decide

/-- Two blocks, exchanged: both are written, and `get` waits for more. -/
theorem final_block_first_never_completes :
    let c : TftpClient := ⟨⟨.v4 1, 69⟩, .octet, 8, 4⟩
    let file : Bytes := List.replicate 9 65
    ¬ ∃ g, (c.get "a.txt").stateAfter (arrivals c.blockSize file ⟨.v4 1, 50000⟩ [1, 0])
        = .returned (.ok ()) g ∧ g.written = file := by
  intro c file
  rintro ⟨g, hg, -⟩
  have hrunning : ((c.get "a.txt").stateAfter
      (arrivals c.blockSize file ⟨.v4 1, 50000⟩ [1, 0])).running = true := by decide +kernel
  rw [hg] at hrunning
  cases hrunning

end UsgTftp
