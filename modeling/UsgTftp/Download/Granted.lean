import UsgTftp.Download.Lossless

set_option autoImplicit false

/-! # Downloads with the options the server granted

A server may acknowledge any of the options that a request names, or none of them and start
with DATA `1` (RFC 2347). The block size and the window size in force are those it has
acknowledged, and the protocol defaults else. `TftpClient::get` does not read the OACK, so it
runs with the sizes it asked for: `runs_as_granted_iff` says when these are the ones in
force.
-/

namespace UsgTftp

open Reactive Segment SeqNum

/-! ## Replies -/

/-- The server's answer to a read request. -/
inductive Reply where
  /-- DATA `1` follows at once. -/
  | data
  | oack (entries : List OptionEntry)

/-- The server acknowledges options of the request only, and sends no empty OACK. -/
def Reply.Allowed (c : TftpClient) : Reply → Prop
  | .data => True
  | .oack entries => entries ≠ [] ∧ ∀ e ∈ entries, e ∈ c.optionEntries

def Reply.grants : Reply → String → Bool
  | .data, _ => false
  | .oack entries, name => entries.keys.contains name

def Reply.blockSizeInForce (r : Reply) (c : TftpClient) : Nat :=
  if r.grants "blksize" then c.blockSize else 512

def Reply.windowsizeInForce (r : Reply) (c : TftpClient) : Nat :=
  if r.grants "windowsize" then c.windowsize else 1

/-! ## In-order delivery -/

section Run

variable (c : TftpClient) (r : Reply) (tid : SocketAddr) (file : Bytes)

/-- The client after the server's answer. -/
def Reply.deliver : GetStatus :=
  match r with
  | .data => .receiving {}
  | .oack entries => (c.getStep (.receiving {}) (.datagram (buildOackPacket entries) tid)).1

/-- The client after the first `k` blocks of the file, cut at the block size in force. -/
def afterBlocks : Nat → GetStatus
  | 0 => r.deliver c tid
  | k + 1 =>
      (c.getStep (afterBlocks k) (.datagram (segPacket (r.blockSizeInForce c) file k) tid)).1

/-- What the client does with block `k + 1`, the blocks before it having come in order: it is
the final block exactly if it is short, it is acknowledged if it completes a window or is
final, and if `get` returns then the file is complete. -/
structure TakesBlock (k : Nat) (g : GetState) : Prop where
  final :
    (∃ g', (c.getStep (.receiving g)
        (.datagram (segPacket (r.blockSizeInForce c) file k) tid)).1 = .returned (.ok ()) g') ↔
      (block (r.blockSizeInForce c) file k).length < r.blockSizeInForce c
  pacing :
    (c.getStep (.receiving g) (.datagram (segPacket (r.blockSizeInForce c) file k) tid)).2
      = if r.windowsizeInForce c ∣ k + 1 ∨
            (block (r.blockSizeInForce c) file k).length < r.blockSizeInForce c then
          [(tid, ackPacket (wire (k + 1)))] else []
  whole : ∀ g', (c.getStep (.receiving g)
      (.datagram (segPacket (r.blockSizeInForce c) file k) tid)).1 = .returned (.ok ()) g' →
    g'.written = file

/-- The client runs with the options in force, on every file. -/
def RunsAsGranted : Prop :=
  ∀ file k, k < blockCount (r.blockSizeInForce c) file →
    ∃ g, afterBlocks c r tid file k = .receiving g ∧ TakesBlock c r tid file k g

end Run

section Run

variable {c : TftpClient} {r : Reply} {tid : SocketAddr} {file : Bytes}

theorem Reply.deliver_eq (h : r.Allowed c) :
    ∃ g, r.deliver c tid = .receiving g ∧ ClientIn c.blockSize file tid 0 0 g := by
  cases r with
  | data => exact ⟨{}, rfl, clientIn_start _ _ _⟩
  | oack entries =>
      obtain ⟨g, hg, hstep⟩ := getStep_oack (clientIn_start c.blockSize file tid) h.1
      exact ⟨g, by rw [Reply.deliver, hstep], hg⟩

/-- Only options of the request are granted. -/
theorem Reply.grants_windowsize (h : r.Allowed c) (hg : r.grants "windowsize" = true) :
    1 < c.windowsize := by
  cases r with
  | data => cases hg
  | oack entries =>
      obtain ⟨e, he, hkey⟩ := List.mem_map.mp (List.contains_iff_mem.mp hg)
      have hmem := h.2 e he
      unfold TftpClient.optionEntries at hmem
      by_contra hW
      rw [if_neg hW, List.append_nil] at hmem
      split_ifs at hmem
      · rw [List.mem_singleton.mp hmem] at hkey
        exact absurd (show "blksize" = "windowsize" from hkey) (by decide)
      · cases hmem

/-! ## The sizes in force are those of the request -/

/-- The last block acknowledged after `k` blocks, in windows of `V`. -/
def lastBoundary (V k : Nat) : Nat := V * (k / V)

theorem lastBoundary_succ (V k : Nat) :
    lastBoundary V (k + 1) = if V ∣ k + 1 then k + 1 else lastBoundary V k := by
  unfold lastBoundary
  split_ifs with h
  · exact Nat.mul_div_cancel' h
  · rw [Nat.succ_div_of_not_dvd h]

/-- The client's count of blocks since its last ACK reaches the window size at the same blocks
as the window in force does. -/
theorem pacing_iff {W V k : Nat} (hV : V = max 1 W) (hW : W ≤ 65535) :
    (wire (k + 1) - wire (lastBoundary V k)).toNat ≥ W ↔ V ∣ k + 1 := by
  have hpos : 0 < V := by omega
  have hmod := Nat.div_add_mod k V
  have hlt := Nat.mod_lt k hpos
  have hcount : (wire (k + 1) - wire (lastBoundary V k)).toNat = k % V + 1 := by
    unfold lastBoundary
    rw [toNat_wire_sub_of_le (by omega) (by omega)]
    omega
  have hdvd : V ∣ k + 1 ↔ k % V + 1 = V := by
    rw [Nat.dvd_iff_mod_eq_zero, Nat.add_mod]
    constructor
    · intro h
      by_contra hne
      have hlt' : k % V + 1 < V := by omega
      rw [Nat.mod_eq_of_lt (by omega : 1 < V), Nat.mod_eq_of_lt hlt'] at h
      omega
    · intro h
      by_cases hone : V = 1
      · rw [hone, Nat.mod_one]
      · rw [Nat.mod_eq_of_lt (by omega : 1 < V), h, Nat.mod_self]
  rw [hcount, hdvd]
  omega

/-- The conditions under which the sizes of the request are in force. -/
structure RequestInForce (c : TftpClient) (r : Reply) : Prop where
  blockSize : r.blockSizeInForce c = c.blockSize
  windowsize : r.windowsizeInForce c = max 1 c.windowsize
  le : c.windowsize ≤ 65535

/-- **One block**, when the sizes of the request are in force. -/
theorem RequestInForce.step (h : RequestInForce c r) {k : Nat} {g : GetState}
    (hb : 0 < c.blockSize) (hk : k < blockCount c.blockSize file)
    (hg : ClientIn c.blockSize file tid k (lastBoundary (r.windowsizeInForce c) k) g) :
    TakesBlock c r tid file k g ∧
    (k + 1 < blockCount c.blockSize file →
      ∃ g', (c.getStep (.receiving g) (.datagram (segPacket c.blockSize file k) tid)).1
          = .receiving g' ∧
        ClientIn c.blockSize file tid (k + 1)
          (lastBoundary (r.windowsizeInForce c) (k + 1)) g') := by
  have htake : (block c.blockSize file k).take c.blockSize = block c.blockSize file k :=
    List.take_of_length_le (length_block_le _ _ _)
  have hfinal := length_block_lt_iff hb file hk
  have hpace := @pacing_iff c.windowsize _ k h.windowsize h.le
  obtain ⟨g', hexp, htid, hbuf, hlast, hwritten, hstep⟩ :=
    getStep_dataPacket hg (block c.blockSize file k)
  rw [htake] at hlast hwritten hstep
  rw [if_congr (or_congr_left hpace) rfl rfl] at hlast hstep
  rw [take_append_block] at hwritten
  constructor
  · -- `get` returns with the final block, acknowledges at the pace in force and has it all
    refine ⟨?_, ?_, ?_⟩
    · rw [h.blockSize, segPacket, hstep]
      constructor
      · rintro ⟨g'', hg''⟩
        by_contra hshort
        rw [if_neg hshort] at hg''
        cases hg''
      · intro hshort
        exact ⟨g', by rw [if_pos hshort]⟩
    · rw [h.blockSize, segPacket, hstep]
    · intro g'' hg''
      rw [h.blockSize, segPacket, hstep] at hg''
      by_cases hshort : (block c.blockSize file k).length < c.blockSize
      · rw [if_pos hshort] at hg''
        cases hg''
        rw [hwritten, hfinal.mp hshort, take_blockCount_mul hb]
      · rw [if_neg hshort] at hg''
        cases hg''
  · intro hmore
    have hlong : ¬ (block c.blockSize file k).length < c.blockSize := by
      rw [hfinal]
      omega
    refine ⟨g', by rw [segPacket, hstep, if_neg hlong], hexp, Or.inr htid, hbuf, ?_, hwritten⟩
    rw [hlast, lastBoundary_succ, if_congr (or_iff_left hlong) rfl rfl]

/-- **Run lemma.** After any number of blocks the client is where the windows in force have
it. -/
theorem RequestInForce.afterBlocks (h : RequestInForce c r) (hr : r.Allowed c)
    (hb : 0 < c.blockSize) :
    ∀ k, k < blockCount c.blockSize file →
      ∃ g, afterBlocks c r tid file k = .receiving g ∧
        ClientIn c.blockSize file tid k (lastBoundary (r.windowsizeInForce c) k) g := by
  intro k
  induction k with
  | zero =>
      intro _
      obtain ⟨g, hstart, hg⟩ := Reply.deliver_eq hr
      refine ⟨g, hstart, ?_⟩
      rwa [lastBoundary, Nat.zero_div, Nat.mul_zero]
  | succ k ih =>
      intro hk
      obtain ⟨g, hafter, hg⟩ := ih (by omega)
      obtain ⟨g', hstep, hg'⟩ := (h.step hb (by omega) hg).2 hk
      exact ⟨g', by rw [UsgTftp.afterBlocks, hafter, h.blockSize, hstep], hg'⟩

theorem RequestInForce.runsAsGranted (h : RequestInForce c r) (hr : r.Allowed c)
    (hb : 0 < c.blockSize) : RunsAsGranted c r tid := by
  intro file k hk
  rw [h.blockSize] at hk
  obtain ⟨g, hafter, hg⟩ := h.afterBlocks hr hb k hk
  exact ⟨g, hafter, (h.step hb hk hg).1⟩

/-! ## Other sizes are in force -/

/-- The client takes the first block for final if it is shorter than the block size it asked
for. -/
theorem first_block_final {g : GetState} (hg : ClientIn c.blockSize file tid 0 0 g) (B : Nat) :
    (∃ g', (c.getStep (.receiving g) (.datagram (segPacket B file 0) tid)).1
        = .returned (.ok ()) g') ↔
      (block B file 0).length < c.blockSize := by
  obtain ⟨g', -, -, -, -, -, hstep⟩ := getStep_dataPacket hg (block B file 0)
  have hlen : ((block B file 0).take c.blockSize).length < c.blockSize ↔
      (block B file 0).length < c.blockSize := by
    rw [List.length_take]
    omega
  rw [segPacket, hstep]
  constructor
  · rintro ⟨g'', hg''⟩
    by_contra hlong
    rw [if_neg (hlen.not.mpr hlong)] at hg''
    cases hg''
  · intro hshort
    exact ⟨g', if_pos (hlen.mpr hshort)⟩

theorem length_first_block {B n : Nat} (hn : n ≤ B) :
    (block B (List.replicate n (0 : UInt8)) 0).length = n := by
  rw [length_block, List.length_replicate]
  omega

/-- **The block size in force is the one asked for**: else a file of the smaller one of the two
sizes is a final block for one side only. -/
theorem RunsAsGranted.blockSize (h : RunsAsGranted c r tid) (hr : r.Allowed c) :
    r.blockSizeInForce c = c.blockSize := by
  have hfirst : ∀ n ≤ r.blockSizeInForce c, n < c.blockSize ↔ n < r.blockSizeInForce c := by
    intro n hn
    obtain ⟨g, hafter, htakes⟩ := h (List.replicate n 0) 0 (blockCount_pos _ _)
    obtain ⟨g', hstart, hg⟩ := @Reply.deliver_eq c r tid (List.replicate n 0) hr
    have hgg : g' = g := GetStatus.receiving.inj (hstart.symm.trans hafter)
    subst hgg
    have hfinal := (first_block_final hg (r.blockSizeInForce c)).symm.trans htakes.final
    rwa [length_first_block hn] at hfinal
  rcases Nat.lt_trichotomy (r.blockSizeInForce c) c.blockSize with hlt | heq | hgt
  · exact absurd ((hfirst _ (Nat.le_refl _)).mp hlt) (Nat.lt_irrefl _)
  · exact heq
  · exact absurd ((hfirst c.blockSize (Nat.le_of_lt hgt)).mpr hgt) (Nat.lt_irrefl _)

/-- After any number of blocks the client has them, whenever it acknowledges. -/
theorem afterBlocks_clientIn (hr : r.Allowed c) (hblock : r.blockSizeInForce c = c.blockSize)
    (hb : 0 < c.blockSize) :
    ∀ k, k < blockCount c.blockSize file →
      ∃ g a, afterBlocks c r tid file k = .receiving g ∧ ClientIn c.blockSize file tid k a g := by
  intro k
  induction k with
  | zero =>
      intro _
      obtain ⟨g, hstart, hg⟩ := Reply.deliver_eq hr
      exact ⟨g, 0, hstart, hg⟩
  | succ k ih =>
      intro hk
      obtain ⟨g, a, hafter, hg⟩ := ih (by omega)
      have hlong : ¬ (block c.blockSize file k).length < c.blockSize := by
        rw [length_block_lt_iff hb file (by omega)]
        omega
      have htake : (block c.blockSize file k).take c.blockSize = block c.blockSize file k :=
        List.take_of_length_le (length_block_le _ _ _)
      obtain ⟨g', hexp, htid, hbuf, hlast, hwritten, hstep⟩ :=
        getStep_dataPacket hg (block c.blockSize file k)
      rw [htake] at hlast hwritten hstep
      rw [take_append_block] at hwritten
      refine ⟨g', _, ?_, hexp, Or.inr htid, hbuf, hlast, hwritten⟩
      rw [afterBlocks, hafter, hblock, segPacket, hstep, if_neg hlong]

/-- **The window in force is the one asked for**: at the end of the first window in force the
client's count has to reach its own window size. -/
theorem RunsAsGranted.windowsize (h : RunsAsGranted c r tid) (hr : r.Allowed c)
    (hb : 0 < c.blockSize) (hV : 0 < r.windowsizeInForce c) :
    c.windowsize ≤ 65535 ∧ (r.windowsizeInForce c = 1 → c.windowsize ≤ 1) := by
  have hblock := h.blockSize hr
  -- a file with one block more than the first window
  set V := r.windowsizeInForce c with hVdef
  set file : Bytes := List.replicate (V * c.blockSize) 0 with hfile
  have hcount : blockCount c.blockSize file = V + 1 := by
    rw [hfile, blockCount, List.length_replicate, Nat.mul_div_cancel _ hb]
  obtain ⟨g, a, hafter, hg⟩ := @afterBlocks_clientIn c r tid file hr hblock hb (V - 1) (by omega)
  obtain ⟨g', hafter', htakes⟩ := h file (V - 1) (by rw [hblock]; omega)
  have hgg : g' = g := GetStatus.receiving.inj (hafter'.symm.trans hafter)
  subst hgg
  have hpacing := htakes.pacing
  rw [if_pos (Or.inl (by rw [Nat.sub_add_cancel hV, hVdef])), hblock, segPacket] at hpacing
  obtain ⟨g'', -, -, -, -, -, hstep⟩ := getStep_dataPacket hg (block c.blockSize file (V - 1))
  have hlong : ¬ ((block c.blockSize file (V - 1)).take c.blockSize).length < c.blockSize := by
    rw [List.take_of_length_le (length_block_le _ _ _), length_block_lt_iff hb file (by omega)]
    omega
  rw [hstep] at hpacing
  have hreach : (wire (V - 1 + 1) - wire a).toNat ≥ c.windowsize := by
    by_contra hfew
    rw [if_neg (not_or.mpr ⟨hfew, hlong⟩)] at hpacing
    cases hpacing
  have hlt := (wire (V - 1 + 1) - wire a).toNat_lt
  refine ⟨by omega, fun hone => ?_⟩
  -- nothing has been acknowledged before the first block
  have hzero : V - 1 = 0 := by omega
  rw [hzero] at hafter hreach
  obtain ⟨g₀, hstart, hg₀⟩ := @Reply.deliver_eq c r tid file hr
  have hg₀' : g₀ = g' := GetStatus.receiving.inj (hstart.symm.trans hafter)
  rw [hg.lastAck.symm, ← hg₀', hg₀.lastAck, toNat_wire_sub_of_le (by omega) (by omega)] at hreach
  omega

end Run

theorem requestInForce_iff {c : TftpClient} {r : Reply} (hr : r.Allowed c) :
    RequestInForce c r ↔
      (c.blockSize = 512 ∨ r.grants "blksize" = true) ∧
      (c.windowsize ≤ 1 ∨ (r.grants "windowsize" = true ∧ c.windowsize ≤ 65535)) := by
  have hgrants := @Reply.grants_windowsize c r hr
  constructor
  · intro h
    have hblk := h.blockSize
    have hwin := h.windowsize
    have hle := h.le
    unfold Reply.blockSizeInForce at hblk
    unfold Reply.windowsizeInForce at hwin
    constructor
    · split_ifs at hblk with hg
      · exact Or.inr hg
      · exact Or.inl hblk.symm
    · split_ifs at hwin with hg
      · exact Or.inr ⟨hg, hle⟩
      · exact Or.inl (by omega)
  · rintro ⟨hblk, hwin⟩
    refine ⟨?_, ?_, by omega⟩
    · unfold Reply.blockSizeInForce
      split_ifs with hg
      · rfl
      · exact (hblk.resolve_right hg).symm
    · unfold Reply.windowsizeInForce
      split_ifs with hg
      · have := hgrants hg
        omega
      · have := hwin.resolve_right fun h => hg h.1
        omega

/-- **When the client runs with the options it was granted**: when the block size it asked for
is the default or was acknowledged, and the window size it asked for is at most one or was
acknowledged and fits sixteen bits. -/
theorem runs_as_granted_iff (c : TftpClient) (hb : 8 ≤ c.blockSize ∧ c.blockSize ≤ 65464)
    (r : Reply) (hr : r.Allowed c) (tid : SocketAddr) :
    RunsAsGranted c r tid ↔
      (c.blockSize = 512 ∨ r.grants "blksize" = true) ∧
      (c.windowsize ≤ 1 ∨ (r.grants "windowsize" = true ∧ c.windowsize ≤ 65535)) := by
  have hpos : 0 < c.blockSize := by omega
  rw [← requestInForce_iff hr]
  constructor
  · intro h
    have hV : 0 < r.windowsizeInForce c := by
      unfold Reply.windowsizeInForce
      split_ifs with hg
      · have := Reply.grants_windowsize hr hg
        omega
      · exact Nat.one_pos
    -- a file whose second block comes due shows the pace
    obtain ⟨hle, hone⟩ := h.windowsize hr hpos hV
    refine ⟨h.blockSize hr, ?_, hle⟩
    unfold Reply.windowsizeInForce at hone ⊢
    split_ifs at hone ⊢ with hg
    · have := Reply.grants_windowsize hr hg
      omega
    · have := hone rfl
      omega
  · intro h
    exact h.runsAsGranted hr hpos

/-- A client that asks for blocks of 1024 bytes. -/
def largeBlocks : TftpClient := ⟨⟨.v4 1, 69⟩, .octet, 1024, 1⟩

/-- The server grants the block size. -/
theorem runs_as_granted_blksize :
    RunsAsGranted largeBlocks (.oack [⟨"blksize", "1024"⟩]) ⟨.v4 1, 50000⟩ := by
  have hallowed : Reply.Allowed largeBlocks (.oack [⟨"blksize", "1024"⟩]) := by
    refine ⟨List.cons_ne_nil _ _, ?_⟩
    decide
  exact (runs_as_granted_iff largeBlocks (by decide) _ hallowed _).mpr
    ⟨Or.inr (by decide), Or.inl (by decide)⟩

/-- What `get` has written when it has returned `Ok`. -/
def returnedFile : GetStatus → Option Bytes
  | .returned (.ok ()) g => some g.written
  | _ => none

/-- A server that knows no options sends a file of 600 bytes in two blocks of 512 bytes: the
client returns `Ok` after the first one. -/
theorem ungranted_blksize_truncates :
    Reply.data.Allowed largeBlocks ∧
    returnedFile (afterBlocks largeBlocks .data ⟨.v4 1, 50000⟩ (List.replicate 600 0) 1)
      = some (List.replicate 512 0) ∧
    ¬ RunsAsGranted largeBlocks .data ⟨.v4 1, 50000⟩ := by
  refine ⟨trivial, by decide +kernel, fun h => ?_⟩
  have hsize := h.blockSize trivial
  exact absurd hsize (by decide)

end UsgTftp
