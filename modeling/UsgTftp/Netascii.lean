import UsgTftp.Wire

set_option autoImplicit false

/-! # NETASCII

`TransferMode` and the conversions between local text and NETASCII: the encoder of
`src/lib.rs`, which the server's read path uses, and the decoder of `src/bin/server.rs`,
which its write path uses.
-/

namespace UsgTftp

inductive TransferMode where
  | netascii
  | octet
  | mail
  deriving DecidableEq, Repr

def nul : UInt8 := 0
def lf : UInt8 := 10
def cr : UInt8 := 13

/-- `TransferMode::convert_to_netascii`: LF becomes CR LF and CR becomes CR NUL. -/
def convertToNetascii (data : Bytes) : Bytes :=
  data.flatMap fun byte =>
    if byte = lf then [cr, lf]
    else if byte = cr then [cr, nul]
    else [byte]

/-- `TftpServer::convert_from_netascii`: CR LF becomes LF, CR NUL becomes CR, and any other
byte, a CR at the end included, is copied. -/
def convertFromNetascii : Bytes → Bytes
  | [] => []
  | [byte] => [byte]
  | byte :: next :: rest =>
      if byte = cr then
        if next = lf then lf :: convertFromNetascii rest
        else if next = nul then cr :: convertFromNetascii rest
        else byte :: convertFromNetascii (next :: rest)
      else byte :: convertFromNetascii (next :: rest)

/-- Decoding never lengthens the data. -/
theorem length_convertFromNetascii_le (data : Bytes) :
    (convertFromNetascii data).length ≤ data.length := by
  induction data using convertFromNetascii.induct with
  | case1 => simp [convertFromNetascii]
  | case2 byte => simp [convertFromNetascii]
  | case3 rest ih => simp [convertFromNetascii]; omega
  | case4 rest _ ih => simp [convertFromNetascii, show nul ≠ lf by decide]; omega
  | case5 next rest h1 h2 ih => simp [convertFromNetascii, h1, h2]; simpa using ih
  | case6 byte next rest h ih => simp [convertFromNetascii, h]; simpa using ih

/-- Encoding never shortens the data. -/
theorem length_le_convertToNetascii (data : Bytes) :
    data.length ≤ (convertToNetascii data).length := by
  induction data with
  | nil => exact Nat.zero_le _
  | cons byte rest ih =>
      rw [convertToNetascii, List.flatMap_cons, List.length_append, ← convertToNetascii]
      split_ifs <;> simp only [List.length_cons, List.length_nil] <;> omega

/-- **The decoder reads what the encoder writes.** -/
theorem convertFromNetascii_convertToNetascii (data : Bytes) :
    convertFromNetascii (convertToNetascii data) = data := by
  induction data with
  | nil => rfl
  | cons byte rest ih =>
      rw [convertToNetascii, List.flatMap_cons, ← convertToNetascii]
      by_cases hlf : byte = lf
      · rw [if_pos hlf]
        show convertFromNetascii (cr :: lf :: convertToNetascii rest) = _
        rw [convertFromNetascii, if_pos rfl, if_pos rfl, ih, hlf]
      by_cases hcr : byte = cr
      · rw [if_neg hlf, if_pos hcr]
        show convertFromNetascii (cr :: nul :: convertToNetascii rest) = _
        rw [convertFromNetascii, if_pos rfl, if_neg (by decide), if_pos rfl, ih, hcr]
      · rw [if_neg hlf, if_neg hcr]
        show convertFromNetascii (byte :: convertToNetascii rest) = _
        -- the decoder looks at the next byte only behind a CR
        generalize convertToNetascii rest = encoded at ih
        cases encoded with
        | nil => rw [← ih]; rfl
        | cons next encoded => rw [convertFromNetascii, if_neg hcr, ih]

theorem length_convertToNetascii (data : Bytes) :
    (convertToNetascii data).length = data.length + data.countP fun c => c = lf ∨ c = cr := by
  induction data with
  | nil => rfl
  | cons byte rest ih =>
      rw [convertToNetascii, List.flatMap_cons, List.length_append, ← convertToNetascii, ih,
        List.length_cons, List.countP_cons]
      by_cases hlf : byte = lf
      · rw [if_pos hlf, if_pos (decide_eq_true (Or.inl hlf)), List.length_cons,
          List.length_singleton]
        omega
      by_cases hcr : byte = cr
      · rw [if_neg hlf, if_pos hcr, if_pos (decide_eq_true (Or.inr hcr)), List.length_cons,
          List.length_singleton]
        omega
      · rw [if_neg hlf, if_neg hcr, List.length_singleton,
          if_neg (by simp only [hlf, hcr, or_self, decide_false, Bool.false_eq_true,
            not_false_eq_true])]
        omega

theorem convertToNetascii_flatten (ds : List Bytes) :
    convertToNetascii ds.flatten = (ds.map convertToNetascii).flatten := by
  induction ds with
  | nil => rfl
  | cons d ds ih =>
      rw [List.flatten_cons, List.map_cons, List.flatten_cons, ← ih, convertToNetascii,
        List.flatMap_append]
      rfl

/-- Data that the encoder leaves as they are: there is nothing to convert in them. -/
theorem convertToNetascii_eq_self_iff (data : Bytes) :
    convertToNetascii data = data ↔ lf ∉ data ∧ cr ∉ data := by
  induction data with
  | nil => exact ⟨fun _ => ⟨List.not_mem_nil, List.not_mem_nil⟩, fun _ => rfl⟩
  | cons byte rest ih =>
      have hlen := length_le_convertToNetascii rest
      rw [convertToNetascii, List.flatMap_cons, ← convertToNetascii]
      by_cases hlf : byte = lf
      · rw [if_pos hlf, hlf]
        constructor
        · intro h
          exact absurd (List.cons.inj h).1 (by decide)
        · intro h
          exact absurd List.mem_cons_self h.1
      by_cases hcr : byte = cr
      · rw [if_neg hlf, if_pos hcr, hcr]
        constructor
        · intro h
          have hrest : nul :: convertToNetascii rest = rest := (List.cons.inj h).2
          have := congrArg List.length hrest
          rw [List.length_cons] at this
          omega
        · intro h
          exact absurd List.mem_cons_self h.2
      · rw [if_neg hlf, if_neg hcr, List.singleton_append, List.cons_inj_right, ih,
          List.mem_cons, List.mem_cons]
        have hlf' : lf ≠ byte := fun h => hlf h.symm
        have hcr' : cr ≠ byte := fun h => hcr h.symm
        simp [hlf', hcr']

/-- No CR stands before an LF or a NUL. -/
def NoCrPair (data : Bytes) : Prop :=
  data.IsChain fun byte next => byte = cr → next ≠ lf ∧ next ≠ nul

instance (data : Bytes) : Decidable (NoCrPair data) :=
  inferInstanceAs (Decidable (List.IsChain _ _))

/-- Data that the decoder leaves as they are. -/
theorem convertFromNetascii_eq_self_iff (data : Bytes) :
    convertFromNetascii data = data ↔ NoCrPair data := by
  induction data using convertFromNetascii.induct with
  | case1 => exact ⟨fun _ => .nil, fun _ => rfl⟩
  | case2 byte => exact ⟨fun _ => .singleton _, fun _ => rfl⟩
  | case3 rest ih =>
      rw [convertFromNetascii, if_pos rfl, if_pos rfl]
      constructor
      · intro h
        exact absurd (List.cons.inj h).1 (by decide)
      · intro h
        exact absurd rfl ((List.isChain_cons_cons.mp h).1 rfl).1
  | case4 rest _ ih =>
      rw [convertFromNetascii, if_pos rfl, if_neg (by decide), if_pos rfl]
      constructor
      · intro h
        have hlen := length_convertFromNetascii_le rest
        have := congrArg List.length (List.cons.inj h).2
        rw [List.length_cons] at this
        omega
      · intro h
        exact absurd rfl ((List.isChain_cons_cons.mp h).1 rfl).2
  | case5 next rest hlf hnul ih =>
      rw [convertFromNetascii, if_pos rfl, if_neg hlf, if_neg hnul, List.cons_inj_right, ih]
      constructor
      · intro h
        exact List.isChain_cons_cons.mpr ⟨fun _ => ⟨hlf, hnul⟩, h⟩
      · intro h
        exact (List.isChain_cons_cons.mp h).2
  | case6 byte next rest hcr ih =>
      rw [convertFromNetascii, if_neg hcr, List.cons_inj_right, ih]
      constructor
      · intro h
        exact List.isChain_cons_cons.mpr ⟨fun hbyte => absurd hbyte hcr, h⟩
      · intro h
        exact (List.isChain_cons_cons.mp h).2

/-! ## Well-formed NETASCII -/

/-- Every CR has an LF or a NUL behind it, and every LF has a CR in front of it. -/
structure WellFormedNetascii (data : Bytes) : Prop where
  after_cr : ∀ i, data[i]? = some cr → data[i + 1]? = some lf ∨ data[i + 1]? = some nul
  before_lf : ∀ i, data[i]? = some lf → ∃ j, i = j + 1 ∧ data[j]? = some cr

theorem wellFormed_nil : WellFormedNetascii [] where
  after_cr i h := by simp at h
  before_lf i h := by simp at h

/-- A byte that is no part of a pair. -/
theorem wellFormed_plain {byte : UInt8} (hlf : byte ≠ lf) (hcr : byte ≠ cr) (rest : Bytes) :
    WellFormedNetascii (byte :: rest) ↔ WellFormedNetascii rest := by
  constructor
  · intro h
    refine ⟨fun i hi => h.after_cr (i + 1) hi, fun i hi => ?_⟩
    obtain ⟨j, hj, hbefore⟩ := h.before_lf (i + 1) hi
    have hij : i = j := Nat.succ.inj hj
    subst hij
    cases i with
    | zero => exact absurd (Option.some.inj hbefore) hcr
    | succ i => exact ⟨i, rfl, hbefore⟩
  · intro h
    constructor
    · intro i hi
      cases i with
      | zero => exact absurd (Option.some.inj hi) hcr
      | succ i => exact h.after_cr i hi
    · intro i hi
      cases i with
      | zero => exact absurd (Option.some.inj hi) hlf
      | succ i =>
          obtain ⟨j, rfl, hbefore⟩ := h.before_lf i hi
          exact ⟨j + 1, rfl, hbefore⟩

/-- A CR with the byte that belongs to it. -/
theorem wellFormed_pair {next : UInt8} (hnext : next = lf ∨ next = nul) (rest : Bytes) :
    WellFormedNetascii (cr :: next :: rest) ↔ WellFormedNetascii rest := by
  have hne : next ≠ cr := by
    rcases hnext with rfl | rfl
    · decide
    · decide
  constructor
  · intro h
    refine ⟨fun i hi => h.after_cr (i + 2) hi, fun i hi => ?_⟩
    obtain ⟨j, hj, hbefore⟩ := h.before_lf (i + 2) hi
    have hij : i + 1 = j := Nat.succ.inj hj
    subst hij
    cases i with
    | zero => exact absurd (Option.some.inj hbefore) hne
    | succ i => exact ⟨i, rfl, hbefore⟩
  · intro h
    constructor
    · intro i hi
      match i, hi with
      | 0, _ => exact hnext.imp (congrArg some) (congrArg some)
      | 1, hi => exact absurd (Option.some.inj hi) hne
      | i + 2, hi => exact h.after_cr i hi
    · intro i hi
      match i, hi with
      | 0, hi => exact absurd (Option.some.inj hi) (by decide)
      | 1, _ => exact ⟨0, rfl, rfl⟩
      | i + 2, hi =>
          obtain ⟨j, rfl, hbefore⟩ := h.before_lf i hi
          exact ⟨j + 2, rfl, hbefore⟩

theorem convertToNetascii_cons (byte : UInt8) (rest : Bytes) :
    convertToNetascii (byte :: rest) = (if byte = lf then [cr, lf]
      else if byte = cr then [cr, nul] else [byte]) ++ convertToNetascii rest := rfl

/-- **The encoder writes exactly the well-formed texts back.** -/
theorem convertToNetascii_convertFromNetascii_iff (data : Bytes) :
    convertToNetascii (convertFromNetascii data) = data ↔ WellFormedNetascii data := by
  induction data using convertFromNetascii.induct with
  | case1 => exact iff_of_true rfl wellFormed_nil
  | case2 byte =>
      rw [convertFromNetascii, convertToNetascii_eq_self_iff, List.mem_singleton,
        List.mem_singleton]
      constructor
      · rintro ⟨hlf, hcr⟩
        exact (wellFormed_plain (Ne.symm hlf) (Ne.symm hcr) []).mpr wellFormed_nil
      · intro h
        constructor
        · rintro rfl
          obtain ⟨j, hj, -⟩ := h.before_lf 0 rfl
          cases hj
        · rintro rfl
          rcases h.after_cr 0 rfl with h | h
          · cases h
          · cases h
  | case3 rest ih =>
      rw [convertFromNetascii, if_pos rfl, if_pos rfl, convertToNetascii_cons, if_pos rfl,
        wellFormed_pair (Or.inl rfl), ← ih]
      rw [List.cons_append, List.cons_append, List.nil_append, List.cons_inj_right,
        List.cons_inj_right]
  | case4 rest _ ih =>
      rw [convertFromNetascii, if_pos rfl, if_neg (by decide), if_pos rfl, convertToNetascii_cons,
        if_neg (by decide), if_pos rfl, wellFormed_pair (Or.inr rfl), ← ih]
      rw [List.cons_append, List.cons_append, List.nil_append, List.cons_inj_right,
        List.cons_inj_right]
  | case5 next rest hlf hnul _ =>
      -- the CR alone is written with a NUL behind it
      rw [convertFromNetascii, if_pos rfl, if_neg hlf, if_neg hnul, convertToNetascii_cons,
        if_neg (by decide), if_pos rfl]
      constructor
      · intro h
        have htail : nul :: _ = next :: rest := (List.cons.inj h).2
        exact absurd (List.cons.inj htail).1 (Ne.symm hnul)
      · intro h
        rcases h.after_cr 0 rfl with h | h
        · exact absurd (Option.some.inj h) hlf
        · exact absurd (Option.some.inj h) hnul
  | case6 byte next rest hcr ih =>
      rw [convertFromNetascii, if_neg hcr, convertToNetascii_cons]
      by_cases hlf : byte = lf
      · rw [if_pos hlf, hlf]
        constructor
        · intro h
          exact absurd (List.cons.inj h).1 (by decide)
        · intro h
          obtain ⟨j, hj, -⟩ := h.before_lf 0 rfl
          cases hj
      · rw [if_neg hlf, if_neg hcr, List.singleton_append, List.cons_inj_right, ih,
          wellFormed_plain hlf hcr]

/-- **Round trips.** What is encoded is decoded to itself, and what is decoded is encoded to
itself exactly if it is well formed. -/
theorem netascii_round_trip :
    (∀ data, convertFromNetascii (convertToNetascii data) = data) ∧
    ∀ data, convertToNetascii (convertFromNetascii data) = data ↔ WellFormedNetascii data :=
  ⟨convertFromNetascii_convertToNetascii, convertToNetascii_convertFromNetascii_iff⟩

end UsgTftp
