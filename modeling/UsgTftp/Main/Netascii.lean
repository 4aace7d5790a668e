import UsgTftp.Netascii

set_option autoImplicit false

/-! # The NETASCII encoder of `src/main.rs`

The second server program has an encoder of its own, which goes through the data in chunks
and looks at the bytes around a line ending: a CR LF pair is taken to be encoded already.
`convertToNetascii_eq` shows that the chunks leave no trace: what is written for a byte
depends on its two neighbours only. Its decoder is the text of the server's.
-/

namespace UsgTftp.Main

/-! ## The chunked loop -/

/-- `chunk[from..to]`. -/
def slice (chunk : Bytes) (start stop : Nat) : Bytes := (chunk.drop start).take (stop - start)

/-- The variables of the scan of a chunk. -/
structure ChunkScan where
  result : Bytes
  lastCopy : Nat

/-- The chunk at `i` and its end. -/
structure Chunk where
  i : Nat
  bytes : Bytes
  chunkEnd : Nat

def precededByCr (c : Chunk) (idx : Nat) (result : Bytes) : Bool :=
  if idx > 0 then c.bytes[idx - 1]? = some cr
  else if c.i > 0 ∧ result ≠ [] then result.getLast? = some cr
  else false

def followedByLf (data : Bytes) (c : Chunk) (idx : Nat) : Bool :=
  if idx + 1 < c.bytes.length then c.bytes[idx + 1]? = some lf
  else if c.chunkEnd < data.length then data[c.chunkEnd]? = some lf
  else false

/-- The body of the loop over the bytes of a chunk. -/
def scanByte (data : Bytes) (c : Chunk) (idx : Nat) (byte : UInt8) (s : ChunkScan) : ChunkScan :=
  if byte = lf then
    let result := s.result ++ slice c.bytes s.lastCopy idx
    ⟨result ++ (if precededByCr c idx result then [lf] else [cr, lf]), idx + 1⟩
  else if byte = cr then
    let result := s.result ++ slice c.bytes s.lastCopy idx
    ⟨result ++ (if followedByLf data c idx then [cr] else [cr, nul]), idx + 1⟩
  else s

/-- The loop over the bytes of a chunk from `idx` on. -/
def scanFrom (data : Bytes) (c : Chunk) : Nat → Bytes → ChunkScan → ChunkScan
  | _, [], s => s
  | idx, byte :: rest, s => scanFrom data c (idx + 1) rest (scanByte data c idx byte s)

/-- The loop over the chunks, which ends since a chunk is not empty. -/
def convertChunks (chunkSize : Nat) (hsize : 0 < chunkSize) (data : Bytes) (i : Nat)
    (result : Bytes) : Bytes :=
  if i < data.length then
    let chunkEnd := min (i + chunkSize) data.length
    let c : Chunk := ⟨i, slice data i chunkEnd, chunkEnd⟩
    let s := scanFrom data c 0 c.bytes ⟨result, 0⟩
    convertChunks chunkSize hsize data chunkEnd (s.result ++ c.bytes.drop s.lastCopy)
  else result
termination_by data.length - i
decreasing_by omega

/-- `TransferMode::convert_to_netascii` with a chunk size in place of `CHUNK_SIZE`. -/
def convertToNetasciiIn (chunkSize : Nat) (hsize : 0 < chunkSize) (data : Bytes) : Bytes :=
  if data = [] then [] else convertChunks chunkSize hsize data 0 []

def chunkSize : Nat := 4096

def convertToNetascii (data : Bytes) : Bytes := convertToNetasciiIn chunkSize (by decide) data

/-! ## Byte by byte -/

/-- What is written for a byte between its neighbours. -/
def encodeByte (prev next : Option UInt8) (byte : UInt8) : Bytes :=
  if byte = lf then if prev = some cr then [lf] else [cr, lf]
  else if byte = cr then if next = some lf then [cr] else [cr, nul]
  else [byte]

/-- The data byte by byte; `prev` is the byte in front of them and `after` the one behind. -/
def encodeBetween (prev after : Option UInt8) : Bytes → Bytes
  | [] => []
  | byte :: rest =>
      encodeByte prev (rest.head?.or after) byte ++ encodeBetween (some byte) after rest

/-- **The reference**: each byte is encoded by itself, between its neighbours in the data. -/
def encodeByNeighbours (data : Bytes) : Bytes := encodeBetween none none data

theorem encodeByte_ne_nil (prev next : Option UInt8) (byte : UInt8) :
    encodeByte prev next byte ≠ [] := by
  unfold encodeByte
  split_ifs <;> simp

theorem encodeByte_plain {byte : UInt8} (hlf : byte ≠ lf) (hcr : byte ≠ cr)
    (prev next : Option UInt8) : encodeByte prev next byte = [byte] := by
  rw [encodeByte, if_neg hlf, if_neg hcr]

/-- Two parts are encoded one after the other, each with the other one beside it. -/
theorem encodeBetween_append (xs ys : Bytes) :
    ∀ prev after, encodeBetween prev after (xs ++ ys)
      = encodeBetween prev (ys.head?.or after) xs
        ++ encodeBetween (xs.getLast?.or prev) after ys := by
  induction xs with
  | nil => intro prev after; rfl
  | cons byte rest ih =>
      intro prev after
      rw [List.cons_append, encodeBetween, encodeBetween, ih, List.append_assoc,
        List.head?_append, Option.or_assoc]
      congr 2
      rw [List.getLast?_cons, Option.or_some]
      rfl

theorem encodeBetween_eq_nil {prev after : Option UInt8} {data : Bytes} :
    encodeBetween prev after data = [] ↔ data = [] := by
  cases data with
  | nil => exact iff_of_true rfl rfl
  | cons byte rest =>
      refine iff_of_false ?_ (List.cons_ne_nil _ _)
      rw [encodeBetween, List.append_eq_nil_iff]
      exact fun h => encodeByte_ne_nil _ _ _ h.1

/-! ## The chunks leave no trace -/

section Prefix

variable {data : Bytes} {k : Nat} {byte : UInt8}

/-- What is written for the first `k` bytes. -/
def encodePrefix (data : Bytes) (k : Nat) : Bytes :=
  encodeBetween none data[k]? (data.take k)

theorem encodePrefix_zero (data : Bytes) : encodePrefix data 0 = [] := by
  rw [encodePrefix, List.take_zero]
  rfl

theorem encodePrefix_succ (hk : data[k]? = some byte) :
    encodePrefix data (k + 1)
      = encodePrefix data k ++ encodeByte (data.take k).getLast? data[k + 1]? byte := by
  rw [encodePrefix, encodePrefix, List.take_add_one, hk, Option.toList_some,
    encodeBetween_append, Option.or_none]
  show _ ++ (encodeByte _ _ byte ++ []) = _
  rw [List.append_nil]
  rfl

theorem encodePrefix_of_le (hk : data.length ≤ k) :
    encodePrefix data k = encodeByNeighbours data := by
  rw [encodePrefix, List.take_of_length_le hk, List.getElem?_eq_none hk, encodeByNeighbours]

/-- The last byte written is a CR just if the last byte is one that has an LF behind it. -/
theorem getLast?_encodePrefix (hlf : data[k]? = some lf) :
    (encodePrefix data k).getLast? = some cr ↔ (data.take k).getLast? = some cr := by
  cases k with
  | zero => rw [encodePrefix_zero, List.take_zero]
  | succ k =>
      have hlt : k < data.length := by
        have := (List.getElem?_eq_some_iff.mp hlf).1
        omega
      have hk : data[k]? = some data[k] := List.getElem?_eq_getElem hlt
      rw [encodePrefix_succ hk, List.getLast?_append_of_ne_nil _ (encodeByte_ne_nil _ _ _),
        List.take_add_one, hk, Option.toList_some, List.getLast?_concat, hlf, encodeByte]
      split_ifs with h1 h2 h3 h4
      · rw [h1]
        decide
      · rw [h1]
        decide
      · rw [h3]
        decide
      · exact absurd rfl h4
      · simp

end Prefix

section Scan

variable {data : Bytes} {c : Chunk} {idx : Nat} {byte : UInt8}

/-- The chunk is a part of the data. -/
structure Chunk.Of (c : Chunk) (data : Bytes) : Prop where
  bytes_eq : c.bytes = slice data c.i c.chunkEnd
  le : c.i ≤ c.chunkEnd
  end_le : c.chunkEnd ≤ data.length

theorem Chunk.Of.length (h : c.Of data) : c.bytes.length = c.chunkEnd - c.i := by
  have hle := h.le
  have hend := h.end_le
  rw [h.bytes_eq, slice, List.length_take, List.length_drop]
  omega

theorem Chunk.Of.getElem? (h : c.Of data) (hidx : idx < c.bytes.length) :
    c.bytes[idx]? = data[c.i + idx]? := by
  rw [h.length] at hidx
  rw [h.bytes_eq, slice, List.getElem?_take_of_lt hidx, List.getElem?_drop]

theorem getLast?_take {data : Bytes} {k : Nat} (hk : k < data.length) :
    (data.take (k + 1)).getLast? = data[k]? := by
  rw [List.take_add_one, List.getElem?_eq_getElem hk, Option.toList_some, List.getLast?_concat]

/-- The test for a CR in front: within the chunk it looks at the data, and at the start of a
chunk at what has been written. -/
theorem precededByCr_eq (h : c.Of data) (hidx : idx < c.bytes.length)
    (hlf : data[c.i + idx]? = some lf) :
    precededByCr c idx (encodePrefix data (c.i + idx)) = true
      ↔ (data.take (c.i + idx)).getLast? = some cr := by
  unfold precededByCr
  have hlen := h.length
  have hend := h.end_le
  split_ifs with hpos hfirst
  · obtain ⟨j, rfl⟩ : ∃ j, idx = j + 1 := ⟨idx - 1, by omega⟩
    rw [decide_eq_true_iff, Nat.add_sub_cancel, h.getElem? (by omega), ← Nat.add_assoc,
      getLast?_take (by omega)]
  · obtain rfl : idx = 0 := by omega
    rw [Nat.add_zero] at hlf ⊢
    rw [decide_eq_true_iff, getLast?_encodePrefix hlf]
  · -- nothing has been written only before the first byte
    obtain rfl : idx = 0 := by omega
    rw [Nat.add_zero] at hfirst ⊢
    have hzero : c.i = 0 := by
      by_contra hne
      refine hfirst ⟨by omega, ?_⟩
      rw [encodePrefix, ne_eq, encodeBetween_eq_nil, List.take_eq_nil_iff]
      rintro (hi | hnil)
      · exact hne hi
      · rw [hnil, List.length_nil] at hend
        omega
    rw [hzero, List.take_zero]
    simp

/-- The test for an LF behind, which looks beyond the end of the chunk. -/
theorem followedByLf_eq (h : c.Of data) (hidx : idx < c.bytes.length) :
    followedByLf data c idx = true ↔ data[c.i + idx + 1]? = some lf := by
  unfold followedByLf
  have hlen := h.length
  have hend := h.end_le
  split_ifs with hin hmore
  · rw [decide_eq_true_iff, h.getElem? hin, Nat.add_assoc]
  · rw [decide_eq_true_iff, show c.chunkEnd = c.i + idx + 1 by omega]
  · rw [List.getElem?_eq_none (by omega)]
    simp

theorem slice_self (chunk : Bytes) (k : Nat) : slice chunk k k = [] := by
  rw [slice, Nat.sub_self, List.take_zero]

theorem slice_succ {chunk : Bytes} {start stop : Nat} (hle : start ≤ stop)
    (hbyte : chunk[stop]? = some byte) : slice chunk start (stop + 1)
      = slice chunk start stop ++ [byte] := by
  have hget : (chunk.drop start)[stop - start]? = some byte := by
    rw [List.getElem?_drop, show start + (stop - start) = stop by omega, hbyte]
  rw [slice, slice, Nat.succ_sub hle, List.take_add_one, hget, Option.toList_some]

/-- What has been written, with the bytes that are still to be copied, is the encoding of the
bytes scanned so far. -/
structure ChunkScan.Upto (s : ChunkScan) (data : Bytes) (c : Chunk) (idx : Nat) : Prop where
  lastCopy_le : s.lastCopy ≤ idx
  written : s.result ++ slice c.bytes s.lastCopy idx = encodePrefix data (c.i + idx)

/-- **Step lemma.** Each byte is written as the reference writes it. -/
theorem scanByte_upto (h : c.Of data) (hbyte : c.bytes[idx]? = some byte) {s : ChunkScan}
    (hs : s.Upto data c idx) : (scanByte data c idx byte s).Upto data c (idx + 1) := by
  have hidx : idx < c.bytes.length := (List.getElem?_eq_some_iff.mp hbyte).1
  have hdata : data[c.i + idx]? = some byte := by rw [← h.getElem? hidx, hbyte]
  have hnext := encodePrefix_succ hdata
  unfold scanByte
  by_cases hlf : byte = lf
  · subst hlf
    rw [if_pos rfl]
    refine ⟨Nat.le_refl _, ?_⟩
    dsimp only
    rw [slice_self, List.append_nil, hs.written, ← Nat.add_assoc, hnext, encodeByte, if_pos rfl]
    congr 1
    exact if_congr (precededByCr_eq h hidx hdata) rfl rfl
  by_cases hcr : byte = cr
  · subst hcr
    rw [if_neg hlf, if_pos rfl]
    refine ⟨Nat.le_refl _, ?_⟩
    dsimp only
    rw [slice_self, List.append_nil, hs.written, ← Nat.add_assoc, hnext, encodeByte,
      if_neg hlf, if_pos rfl]
    congr 1
    exact if_congr (followedByLf_eq h hidx) rfl rfl
  · rw [if_neg hlf, if_neg hcr]
    refine ⟨Nat.le_succ_of_le hs.lastCopy_le, ?_⟩
    rw [slice_succ hs.lastCopy_le hbyte, ← List.append_assoc, hs.written, ← Nat.add_assoc, hnext,
      encodeByte_plain hlf hcr]

theorem scanFrom_upto (h : c.Of data) :
    ∀ (rest : Bytes) (idx : Nat) (s : ChunkScan), c.bytes.drop idx = rest →
      idx ≤ c.bytes.length → s.Upto data c idx →
      (scanFrom data c idx rest s).Upto data c c.bytes.length := by
  intro rest
  induction rest with
  | nil =>
      intro idx s hrest hle hs
      have hend : idx = c.bytes.length := by
        have := List.drop_eq_nil_iff.mp hrest
        omega
      exact hend ▸ hs
  | cons byte rest ih =>
      intro idx s hrest _ hs
      have hbyte : c.bytes[idx]? = some byte := by
        have := congrArg List.head? hrest
        rwa [List.head?_drop] at this
      have hlt := (List.getElem?_eq_some_iff.mp hbyte).1
      have hdrop : c.bytes.drop (idx + 1) = rest := by
        rw [← List.drop_drop, hrest]
        rfl
      exact ih (idx + 1) _ hdrop hlt (scanByte_upto h hbyte hs)

end Scan

/-- **Run lemma.** From the start of a chunk on, the chunks write the rest of the encoding. -/
theorem convertChunks_eq {chunkSize : Nat} (hsize : 0 < chunkSize) (data : Bytes) (i : Nat)
    (result : Bytes) (hi : i ≤ data.length) (hresult : result = encodePrefix data i) :
    convertChunks chunkSize hsize data i result = encodeByNeighbours data := by
  induction i, result using convertChunks.induct chunkSize hsize data with
  | case1 i result hlt chunkEnd c s ih =>
      have hof : c.Of data := ⟨rfl, by show i ≤ min _ _; omega, Nat.min_le_right _ _⟩
      have hstart : (⟨result, 0⟩ : ChunkScan).Upto data c 0 := by
        refine ⟨Nat.le_refl _, ?_⟩
        rw [slice_self, List.append_nil, Nat.add_zero, hresult]
      have hscan := scanFrom_upto hof c.bytes 0 _ rfl (Nat.zero_le _) hstart
      have hend : c.i + c.bytes.length = chunkEnd := by
        have := hof.le
        rw [hof.length]
        show i + (chunkEnd - i) = chunkEnd
        omega
      have hrest : slice c.bytes s.lastCopy c.bytes.length = c.bytes.drop s.lastCopy := by
        rw [slice, List.take_of_length_le]
        rw [List.length_drop]
      rw [convertChunks, if_pos hlt]
      apply ih hof.end_le
      rw [← hend, ← hscan.written]
      exact congrArg _ hrest.symm
  | case2 i result hge =>
      rw [convertChunks, if_neg hge, hresult, encodePrefix_of_le (by omega)]

theorem convertToNetasciiIn_eq {chunkSize : Nat} (hsize : 0 < chunkSize) (data : Bytes) :
    convertToNetasciiIn chunkSize hsize data = encodeByNeighbours data := by
  unfold convertToNetasciiIn
  split_ifs with hnil
  · rw [hnil]
    rfl
  · exact convertChunks_eq hsize data 0 [] (Nat.zero_le _) (encodePrefix_zero data).symm

theorem convertToNetascii_eq (data : Bytes) : convertToNetascii data = encodeByNeighbours data :=
  convertToNetasciiIn_eq _ data

/-- **Chunks leave no trace**: for every chunk size each byte is written as the bytes beside it
in the data ask for. -/
theorem chunked_encoder_exact {chunkSize : Nat} (hsize : 0 < chunkSize) (data : Bytes) :
    convertToNetasciiIn chunkSize hsize data = encodeByNeighbours data :=
  convertToNetasciiIn_eq hsize data

/-- Chunks of two bytes, the first of which ends between a CR and its LF. -/
theorem chunked_encoder_exact_two :
    encodeByNeighbours [65, cr, lf, cr, 66] = [65, cr, lf, cr, nul, 66] ∧
    convertToNetasciiIn 2 (by decide) [65, cr, lf, cr, 66]
      = encodeByNeighbours [65, cr, lf, cr, 66] :=
  ⟨by decide, chunked_encoder_exact (by decide) [65, cr, lf, cr, 66]⟩

/-! ## The encoder of the library -/

/-- `TftpServer::convert_from_netascii`, whose text is that of the server's function. -/
def convertFromNetascii (data : Bytes) : Bytes := UsgTftp.convertFromNetascii data

/-- The data with an LF in place of every CR LF. -/
def joinLineEndings : Bytes → Bytes
  | [] => []
  | byte :: rest =>
      if byte = cr ∧ rest.head? = some lf then joinLineEndings rest
      else byte :: joinLineEndings rest

/-- No CR stands before an LF. -/
def NoCrLf (data : Bytes) : Prop := data.IsChain fun byte next => byte = cr → next ≠ lf

instance (data : Bytes) : Decidable (NoCrLf data) := inferInstanceAs (Decidable (List.IsChain _ _))

theorem noCrLf_cons (byte : UInt8) (rest : Bytes) :
    NoCrLf (byte :: rest) ↔ ¬ (byte = cr ∧ rest.head? = some lf) ∧ NoCrLf rest := by
  cases rest with
  | nil => exact iff_of_true (.singleton _) ⟨by simp, .nil⟩
  | cons next rest =>
      rw [NoCrLf, List.isChain_cons_cons, List.head?_cons, Option.some_inj, not_and]
      rfl

theorem length_joinLineEndings_le (data : Bytes) :
    (joinLineEndings data).length ≤ data.length := by
  induction data with
  | nil => exact Nat.le_refl _
  | cons byte rest ih =>
      rw [joinLineEndings, List.length_cons]
      split_ifs
      · exact Nat.le_succ_of_le ih
      · exact Nat.succ_le_succ ih

theorem joinLineEndings_eq_self_iff (data : Bytes) :
    joinLineEndings data = data ↔ NoCrLf data := by
  induction data with
  | nil => exact iff_of_true rfl .nil
  | cons byte rest ih =>
      rw [joinLineEndings, noCrLf_cons]
      split_ifs with hpair
      · refine iff_of_false ?_ (fun h => h.1 hpair)
        intro h
        have := length_joinLineEndings_le rest
        rw [h, List.length_cons] at this
        omega
      · rw [List.cons_inj_right, ih]
        exact (and_iff_right hpair).symm

/-- The two encoders differ in the pairs only: the one keeps them, the other encodes both of
their bytes. -/
theorem encodeBetween_joinLineEndings (data : Bytes) :
    ∀ prev, ¬ (prev = some cr ∧ data.head? = some lf) →
      encodeBetween prev none data = UsgTftp.convertToNetascii (joinLineEndings data) := by
  induction data with
  | nil => intro prev _; rfl
  | cons byte rest ih =>
      intro prev hprev
      rw [encodeBetween, joinLineEndings, Option.or_none]
      by_cases hpair : byte = cr ∧ rest.head? = some lf
      · -- the pair is written as an LF alone would be
        rw [if_pos hpair, ← ih none (by simp)]
        obtain ⟨rfl, hnext⟩ := hpair
        obtain ⟨tail, rfl⟩ := List.head?_eq_some_iff.mp hnext
        rfl
      rw [if_neg hpair, convertToNetascii_cons]
      by_cases hlf : byte = lf
      · subst hlf
        have hne : prev ≠ some cr := fun h => hprev ⟨h, rfl⟩
        have hlfcr : some lf ≠ some cr := by decide
        rw [ih (some lf) (fun h => hlfcr h.1), encodeByte, if_pos rfl, if_neg hne, if_pos rfl]
      by_cases hcr : byte = cr
      · subst hcr
        have hnext : rest.head? ≠ some lf := fun h => hpair ⟨rfl, h⟩
        rw [ih (some cr) (fun h => hnext h.2), encodeByte, if_neg hlf, if_pos rfl, if_neg hnext,
          if_neg hlf, if_pos rfl]
      · have hne : some byte ≠ some cr := fun h => hcr (Option.some.inj h)
        rw [ih (some byte) (fun h => hne h.1), encodeByte_plain hlf hcr, if_neg hlf, if_neg hcr]

theorem convertToNetascii_joinLineEndings (data : Bytes) :
    convertToNetascii data = UsgTftp.convertToNetascii (joinLineEndings data) := by
  rw [convertToNetascii_eq, encodeByNeighbours]
  exact encodeBetween_joinLineEndings data none (by simp)

/-- **The two encoders.** The one of this program takes CR LF for a line ending that is encoded
already, and so writes for all data what the library writes for the data with LF in its place.
The two agree, and the decoder gives the data back, exactly if there is no such pair. -/
theorem encoders_agree_iff (data : Bytes) :
    convertToNetascii data = UsgTftp.convertToNetascii (joinLineEndings data) ∧
    convertFromNetascii (convertToNetascii data) = joinLineEndings data ∧
    (convertToNetascii data = UsgTftp.convertToNetascii data ↔ NoCrLf data) ∧
    (convertFromNetascii (convertToNetascii data) = data ↔ NoCrLf data) := by
  have hencode := convertToNetascii_joinLineEndings data
  have hdecode : convertFromNetascii (convertToNetascii data) = joinLineEndings data := by
    rw [hencode]
    exact convertFromNetascii_convertToNetascii _
  refine ⟨hencode, hdecode, ?_, ?_⟩
  · rw [hencode, ← joinLineEndings_eq_self_iff]
    constructor
    · intro h
      have := congrArg UsgTftp.convertFromNetascii h
      rwa [convertFromNetascii_convertToNetascii, convertFromNetascii_convertToNetascii] at this
    · intro h
      rw [h]
  · rw [hdecode, joinLineEndings_eq_self_iff]

/-- The two bytes CR LF are sent as they are by one program and as four bytes by the other, and
the first one's decoder makes one byte of them. -/
theorem encoders_differ :
    convertToNetascii [cr, lf] = [cr, lf] ∧
    UsgTftp.convertToNetascii [cr, lf] = [cr, nul, cr, lf] ∧
    convertFromNetascii (convertToNetascii [cr, lf]) = [lf] ∧
    ¬ ∀ data, convertToNetascii data = UsgTftp.convertToNetascii data ∧
      convertFromNetascii (convertToNetascii data) = data := by
  have h : convertToNetascii [cr, lf] = [cr, lf] := by
    rw [convertToNetascii_eq]
    decide
  refine ⟨h, by decide, ?_, ?_⟩
  · rw [h]
    decide
  · intro hall
    have hsame := (hall [cr, lf]).1
    rw [h] at hsame
    exact absurd hsame (by decide)

end UsgTftp.Main
