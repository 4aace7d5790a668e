import UsgTftp.Main.SendTrace

set_option autoImplicit false

/-! # Reads in NETASCII mode

The streaming sender of `src/main.rs` converts its reads one by one, and
`netascii_senders_agree_iff` says when that shows.
-/

namespace UsgTftp.Main

open Reactive Segment SeqNum

/-! ## The encoding of two parts -/

/-- The last byte looks at what follows, and only the last. -/
theorem encodeBetween_concat (prev after : Option UInt8) (init : Bytes) (byte : UInt8) :
    encodeBetween prev after (init ++ [byte])
      = encodeBetween prev (some byte) init ++ encodeByte (init.getLast?.or prev) after byte := by
  rw [encodeBetween_append, List.head?_cons, Option.some_or]
  show _ ++ (encodeByte _ _ byte ++ []) = _
  rw [List.append_nil]
  rfl

/-- **Splitting the data.** The parts are encoded as the whole is, but for a CR LF pair between
them: its two bytes are then encoded as if they stood alone. -/
theorem convertToNetascii_append (front rest : Bytes) :
    (¬(front.getLast? = some cr ∧ rest.head? = some lf) → convertToNetascii (front ++ rest)
      = convertToNetascii front ++ convertToNetascii rest) ∧
    (front.getLast? = some cr ∧ rest.head? = some lf →
      (convertToNetascii (front ++ rest)).length + 2
        = (convertToNetascii front).length + (convertToNetascii rest).length) := by
  simp only [convertToNetascii_eq, encodeByNeighbours]
  rcases List.eq_nil_or_concat front with rfl | ⟨init, byte, rfl⟩
  · exact ⟨fun _ => rfl, fun h => absurd h.1 (by simp)⟩
  cases rest with
  | nil =>
      refine ⟨fun _ => ?_, fun h => absurd h.2 (by simp)⟩
      rw [List.append_nil, encodeBetween, List.append_nil]
  | cons next rest =>
      rw [List.concat_eq_append, List.getLast?_concat, List.head?_cons, Option.some_inj,
        Option.some_inj, encodeBetween_append, encodeBetween_concat, encodeBetween_concat,
        List.getLast?_concat, List.head?_cons, Option.some_or, Option.some_or, Option.or_none]
      simp only [encodeBetween, Option.or_none]
      constructor
      · intro hpair
        have hbyte : encodeByte init.getLast? (some next) byte
            = encodeByte init.getLast? none byte := by
          by_cases hcr : byte = cr
          · have hlf : next ≠ lf := fun h => hpair ⟨hcr, h⟩
            simp [encodeByte, hcr, hlf]
          · simp [encodeByte, hcr]
        have hnext : encodeByte (some byte) rest.head? next = encodeByte none rest.head? next := by
          by_cases hlf : next = lf
          · have hcr : byte ≠ cr := fun h => hpair ⟨h, hlf⟩
            simp [encodeByte, hlf, hcr]
          · simp [encodeByte, hlf]
        rw [hbyte, hnext]
      · rintro ⟨rfl, rfl⟩
        have hcr : cr ≠ lf := by decide
        simp only [encodeByte, hcr, if_true, if_false, reduceCtorEq, List.length_append,
          List.length_cons, List.length_nil]
        omega

/-! ## Pairs across two reads -/

/-- No read ends on a CR that has an LF behind it. -/
def NoPairSplit (b : Nat) (data : Bytes) : Prop :=
  ∀ k, 0 < k → ¬(data[k * b - 1]? = some cr ∧ data[k * b]? = some lf)

theorem noPairSplit_short {b : Nat} {data : Bytes} (h : data.length < b) : NoPairSplit b data := by
  rintro k hk ⟨-, hlf⟩
  have hlt := (List.getElem?_eq_some_iff.mp hlf).1
  have := Nat.le_mul_of_pos_left b hk
  omega

theorem noPairSplit_append {b : Nat} (hb : 0 < b) {front : Bytes} (hfront : front.length = b)
    (rest : Bytes) : NoPairSplit b (front ++ rest) ↔
      ¬(front.getLast? = some cr ∧ rest.head? = some lf) ∧ NoPairSplit b rest := by
  have hfirst : (front ++ rest)[b - 1]? = front.getLast? ∧ (front ++ rest)[b]? = rest.head? := by
    constructor
    · rw [List.getElem?_append_left (by omega), List.getLast?_eq_getElem?, hfront]
    · rw [List.getElem?_append_right (by omega), hfront, Nat.sub_self, List.head?_eq_getElem?]
  have hlater : ∀ k, 0 < k → (front ++ rest)[(k + 1) * b - 1]? = rest[k * b - 1]? ∧
      (front ++ rest)[(k + 1) * b]? = rest[k * b]? := by
    intro k hk
    have hmul : (k + 1) * b = k * b + b := by ring
    have hle := Nat.le_mul_of_pos_left b hk
    constructor
    · rw [List.getElem?_append_right (by omega), hfront]
      congr 1
      omega
    · rw [List.getElem?_append_right (by omega), hfront]
      congr 1
      omega
  constructor
  · intro h
    refine ⟨?_, fun k hk => ?_⟩
    · have := h 1 Nat.one_pos
      rwa [Nat.one_mul, hfirst.1, hfirst.2] at this
    · have := h (k + 1) (Nat.succ_pos k)
      rwa [(hlater k hk).1, (hlater k hk).2] at this
  · rintro ⟨hpair, hrest⟩ k hk
    obtain ⟨k, rfl⟩ : ∃ j, k = j + 1 := ⟨k - 1, by omega⟩
    rcases Nat.eq_zero_or_pos k with rfl | hk'
    · rw [Nat.zero_add, Nat.one_mul, hfirst.1, hfirst.2]
      exact hpair
    · rw [(hlater k hk').1, (hlater k hk').2]
      exact hrest k hk'

theorem readContent_append {b : Nat} (hb : 0 < b) {front : Bytes} (hfront : front.length = b)
    (rest : Bytes) : readContent .netascii b (front ++ rest)
      = convertToNetascii front ++ readContent .netascii b rest := by
  rw [readContent, segment_append hb hfront, List.map_cons, List.flatten_cons]
  rfl

/-- **The reads together are longer than the whole** by two bytes for each pair they split, and
without such a pair they are the same. -/
theorem readContent_netascii_eq_iff {b : Nat} (hb : 0 < b) (file : Bytes) :
    (convertToNetascii file).length ≤ (readContent .netascii b file).length ∧
    (readContent .netascii b file = convertToNetascii file ↔ NoPairSplit b file) := by
  induction hn : file.length using Nat.strong_induction_on generalizing file with
  | _ n ih =>
      by_cases hshort : file.length < b
      · rw [readContent_short hshort]
        exact ⟨Nat.le_refl _, iff_of_true rfl (noPairSplit_short hshort)⟩
      · have hfront : (file.take b).length = b := List.length_take_of_le (by omega)
        obtain ⟨hle, hiff⟩ := ih (file.drop b).length (by rw [← hn, List.length_drop]; omega)
          (file.drop b) rfl
        rw [← List.take_append_drop b file, readContent_append hb hfront,
          noPairSplit_append hb hfront, ← hiff, List.length_append]
        obtain ⟨hsame, hpair⟩ := convertToNetascii_append (file.take b) (file.drop b)
        by_cases hsplit : (file.take b).getLast? = some cr ∧ (file.drop b).head? = some lf
        · have hlen := hpair hsplit
          refine ⟨by omega, iff_of_false (fun h => ?_) fun h => h.1 hsplit⟩
          have := congrArg List.length h
          rw [List.length_append] at this
          omega
        · rw [hsame hsplit, List.length_append, List.append_cancel_left_eq]
          exact ⟨by omega, ⟨fun h => ⟨hsplit, h⟩, fun h => h.2⟩⟩

/-! ## The two senders -/

theorem netascii_senders_same {b W : Nat} (hb : 0 < b) (hW : 0 < W) (file : Bytes) :
    (∃ packets,
      (sendFileDataBuffered (convertToNetascii file) b W).SendsWhen
        (AckSucceeds (Waiting.lastBlock BufferedState.lastBlockInWindow)) packets ∧
      (sendFileDataStreaming file file.length .netascii b W).SendsWhen
        (AckSucceeds (Waiting.lastBlock StreamState.lastBlockInWindow)) packets) ↔
    NoPairSplit b file := by
  rw [← (readContent_netascii_eq_iff hb file).2]
  have hbuffered := mainBuffered_sendsWhen (convertToNetascii file) hb hW
  have hstreaming := mainStreaming_sendsWhen .netascii file hb hW
  constructor
  · rintro ⟨packets, hpackets, hpackets'⟩
    have hsame := (hstreaming.unique hpackets').trans (hpackets.unique hbuffered)
    rw [segPackets_eq_dataPackets, segPackets_eq_dataPackets, dataPackets_inj] at hsame
    have hflat := congrArg List.flatten hsame
    rwa [flatten_segment hb, flatten_segment hb] at hflat
  · intro h
    rw [h] at hstreaming
    exact ⟨_, hbuffered, hstreaming⟩

/-- **Where the streaming sender agrees with the buffered one**: just if no read ends between a
CR and an LF. The reads are whole blocks, so the two bytes would be the last of one block and the
first of the next. -/
theorem netascii_senders_agree_iff (x : Bytes) {b W : Nat} (hb : 0 < b)
    (hW : 1 ≤ W ∧ W ≤ 65535) :
    (∃ packets,
      (sendFileDataBuffered (convertToNetascii x) b W).SendsWhen
        (AckSucceeds (Waiting.lastBlock BufferedState.lastBlockInWindow)) packets ∧
      (sendFileDataStreaming x x.length .netascii b W).SendsWhen
        (AckSucceeds (Waiting.lastBlock StreamState.lastBlockInWindow)) packets) ↔
    ∀ k, 0 < k → ¬(x[k * b - 1]? = some cr ∧ x[k * b]? = some lf) :=
  netascii_senders_same hb hW.1 x

/-- A pair within the first block. -/
theorem netascii_senders_agree_within :
    (∃ packets,
      (sendFileDataBuffered (convertToNetascii [97, cr, lf, 98]) 8 1).SendsWhen
        (AckSucceeds (Waiting.lastBlock BufferedState.lastBlockInWindow)) packets ∧
      (sendFileDataStreaming [97, cr, lf, 98] 4 .netascii 8 1).SendsWhen
        (AckSucceeds (Waiting.lastBlock StreamState.lastBlockInWindow)) packets) :=
  (netascii_senders_agree_iff [97, cr, lf, 98] (by decide) (by decide)).mpr
    (noPairSplit_short (by decide))

/-- A file that is too long to be buffered, with a pair between its first two blocks. -/
def splitPairFile : Bytes := List.replicate 511 97 ++ [cr, lf] ++ List.replicate 1048576 97

theorem netascii_senders_differ :
    ¬∃ packets,
      (sendFileDataBuffered (convertToNetascii splitPairFile) 512 1).SendsWhen
        (AckSucceeds (Waiting.lastBlock BufferedState.lastBlockInWindow)) packets ∧
      (sendFileDataStreaming splitPairFile splitPairFile.length .netascii 512 1).SendsWhen
        (AckSucceeds (Waiting.lastBlock StreamState.lastBlockInWindow)) packets := by
  rw [netascii_senders_same (by decide) (by decide)]
  intro h
  refine h 1 Nat.one_pos ⟨?_, ?_⟩
  · rw [splitPairFile, List.append_assoc, List.getElem?_append_right
      (by rw [List.length_replicate]), List.length_replicate]
    rfl
  · rw [splitPairFile, List.append_assoc, List.getElem?_append_right
      (by rw [List.length_replicate]; decide), List.length_replicate]
    rfl

end UsgTftp.Main
