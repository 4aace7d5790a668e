import Mathlib.Data.List.Basic
import Mathlib.Tactic

set_option autoImplicit false

/-! # Lossy decoding of UTF-8

A sequence of bytes that cannot be the beginning of a character's encoding is read as the
replacement character, up to the first byte that rules it out. So every list of bytes has a text;
those whose text is ASCII are the ASCII ones themselves (`lossy_eq_iff`).
-/

namespace Utf8

def replacement : Char := Char.ofNat 0xFFFD

/-- A byte that continues a character. -/
def tail (n : Nat) : Bool := 0x80 ≤ n ∧ n ≤ 0xBF

/-- The second byte of a character of three bytes. -/
def second3 (first n : Nat) : Bool :=
  (first = 0xE0 ∧ 0xA0 ≤ n ∧ n ≤ 0xBF) ∨ (0xE1 ≤ first ∧ first ≤ 0xEC ∧ 0x80 ≤ n ∧ n ≤ 0xBF) ∨
    (first = 0xED ∧ 0x80 ≤ n ∧ n ≤ 0x9F) ∨ (0xEE ≤ first ∧ first ≤ 0xEF ∧ 0x80 ≤ n ∧ n ≤ 0xBF)

/-- The second byte of a character of four bytes. -/
def second4 (first n : Nat) : Bool :=
  (first = 0xF0 ∧ 0x90 ≤ n ∧ n ≤ 0xBF) ∨ (0xF1 ≤ first ∧ first ≤ 0xF3 ∧ 0x80 ≤ n ∧ n ≤ 0xBF) ∨
    (first = 0xF4 ∧ 0x80 ≤ n ∧ n ≤ 0x8F)

/-- A character of two bytes, after the first. -/
def decode2 (first : Nat) : List UInt8 → Char × List UInt8
  | [] => (replacement, [])
  | b :: bytes =>
      if tail b.toNat then (Char.ofNat ((first - 0xC0) * 64 + (b.toNat - 0x80)), bytes)
      else (replacement, b :: bytes)

/-- A character of three bytes, after the first two. -/
def decode3 (first second : Nat) : List UInt8 → Char × List UInt8
  | [] => (replacement, [])
  | b :: bytes =>
      if tail b.toNat then
        (Char.ofNat ((first - 0xE0) * 4096 + (second - 0x80) * 64 + (b.toNat - 0x80)), bytes)
      else (replacement, b :: bytes)

/-- A character of four bytes, after the first two. -/
def decode4 (first second : Nat) : List UInt8 → Char × List UInt8
  | [] => (replacement, [])
  | [b] => if tail b.toNat then (replacement, []) else (replacement, [b])
  | b :: b' :: bytes =>
      if tail b.toNat then
        if tail b'.toNat then
          (Char.ofNat ((first - 0xF0) * 262144 + (second - 0x80) * 4096 + (b.toNat - 0x80) * 64 +
            (b'.toNat - 0x80)), bytes)
        else (replacement, b' :: bytes)
      else (replacement, b :: b' :: bytes)

/-- The first character, and the bytes after it. -/
def decode (first : UInt8) (bytes : List UInt8) : Char × List UInt8 :=
  let n := first.toNat
  if n < 0x80 then (Char.ofNat n, bytes)
  else if 0xC2 ≤ n ∧ n ≤ 0xDF then decode2 n bytes
  else
    match bytes with
    | [] => (replacement, [])
    | b :: bytes =>
        if second3 n b.toNat then decode3 n b.toNat bytes
        else if second4 n b.toNat then decode4 n b.toNat bytes
        else (replacement, b :: bytes)

theorem decode2_length (first : Nat) (bytes : List UInt8) :
    (decode2 first bytes).2.length ≤ bytes.length := by
  unfold decode2
  split
  · exact le_rfl
  · split_ifs <;> simp

theorem decode3_length (first second : Nat) (bytes : List UInt8) :
    (decode3 first second bytes).2.length ≤ bytes.length := by
  unfold decode3
  split
  · exact le_rfl
  · split_ifs <;> simp

theorem decode4_length (first second : Nat) (bytes : List UInt8) :
    (decode4 first second bytes).2.length ≤ bytes.length := by
  unfold decode4
  split
  · exact le_rfl
  · split_ifs <;> simp
  · split_ifs <;> simp
    omega

theorem decode_length (first : UInt8) (bytes : List UInt8) :
    (decode first bytes).2.length ≤ bytes.length := by
  unfold decode
  simp only
  split_ifs
  · exact le_rfl
  · exact decode2_length _ _
  · cases bytes with
    | nil => exact le_rfl
    | cons b bytes =>
        simp only
        split_ifs
        · exact le_trans (decode3_length _ _ _) (Nat.le_succ _)
        · exact le_trans (decode4_length _ _ _) (Nat.le_succ _)
        · exact le_rfl

/-- `String::from_utf8_lossy`. -/
def lossy : List UInt8 → List Char
  | [] => []
  | first :: bytes => (decode first bytes).1 :: lossy (decode first bytes).2
termination_by bytes => bytes.length
decreasing_by
  have := decode_length first bytes
  simp only [List.length_cons]
  omega

/-! ## ASCII -/

theorem toNat_ofNat {n : Nat} (h : n.isValidChar) : (Char.ofNat n).toNat = n := by
  rw [Char.ofNat, dif_pos h]
  rfl

/-- A first byte that is not ASCII does not give an ASCII character. -/
theorem decode_not_ascii {first : UInt8} (h : 0x80 ≤ first.toNat) (bytes : List UInt8) :
    0x80 ≤ (decode first bytes).1.toNat := by
  have hrep : 0x80 ≤ replacement.toNat := by decide
  unfold decode
  simp only
  rw [if_neg (by omega)]
  split_ifs with h2
  · cases bytes with
    | nil => exact hrep
    | cons b bytes =>
        rw [decode2]
        split_ifs with htail
        · simp only [tail, decide_eq_true_eq] at htail
          rw [toNat_ofNat (Or.inl (by omega))]
          omega
        · exact hrep
  · cases bytes with
    | nil => exact hrep
    | cons b bytes =>
        simp only
        split_ifs with h3 h4
        · simp only [second3, decide_eq_true_eq] at h3
          cases bytes with
          | nil => exact hrep
          | cons b' bytes =>
              rw [decode3]
              split_ifs with htail
              · simp only [tail, decide_eq_true_eq] at htail
                have hvalid : ((first.toNat - 0xE0) * 4096 + (b.toNat - 0x80) * 64 +
                    (b'.toNat - 0x80)).isValidChar := by
                  unfold Nat.isValidChar
                  omega
                rw [toNat_ofNat hvalid]
                omega
              · exact hrep
        · simp only [second4, decide_eq_true_eq] at h4
          rcases bytes with - | ⟨b', - | ⟨b'', bytes⟩⟩
          · exact hrep
          · rw [decode4]
            split_ifs <;> exact hrep
          · rw [decode4]
            split_ifs with htail htail'
            · simp only [tail, decide_eq_true_eq] at htail htail'
              have hvalid : ((first.toNat - 0xF0) * 262144 + (b.toNat - 0x80) * 4096 +
                  (b'.toNat - 0x80) * 64 + (b''.toNat - 0x80)).isValidChar := by
                unfold Nat.isValidChar
                omega
              rw [toNat_ofNat hvalid]
              omega
            · exact hrep
            · exact hrep
        · exact hrep

/-- The byte of an ASCII character. -/
def byte (c : Char) : UInt8 := UInt8.ofNat c.toNat

theorem decode_byte {c : Char} (hc : c.toNat < 0x80) (bytes : List UInt8) :
    decode (byte c) bytes = (c, bytes) := by
  have hbyte : (byte c).toNat = c.toNat := by
    rw [byte, UInt8.toNat_ofNat_of_lt' (lt_trans hc (by decide))]
  unfold decode
  simp only [hbyte, if_pos hc, Char.ofNat_toNat]

/-- ASCII bytes are read as what they are, whatever comes after them. -/
theorem lossy_map_append {cs : List Char} (hcs : ∀ c ∈ cs, c.toNat < 0x80) (bytes : List UInt8) :
    lossy (cs.map byte ++ bytes) = cs ++ lossy bytes := by
  induction cs with
  | nil => rfl
  | cons c cs ih =>
      rw [List.map_cons, List.cons_append, lossy, decode_byte (hcs c List.mem_cons_self)]
      simp only [List.cons_append, List.cons.injEq, true_and]
      exact ih fun c' h => hcs c' (List.mem_cons_of_mem c h)

/-- An ASCII text is that of its own bytes only. -/
theorem lossy_eq_iff {cs : List Char} (hcs : ∀ c ∈ cs, c.toNat < 0x80) {bytes : List UInt8} :
    lossy bytes = cs ↔ bytes = cs.map byte := by
  induction cs generalizing bytes with
  | nil =>
      cases bytes with
      | nil => simp [lossy]
      | cons b bytes => simp [lossy]
  | cons c cs ih =>
      have hc := hcs c List.mem_cons_self
      have hrest : ∀ c ∈ cs, c.toNat < 0x80 := fun c' h => hcs c' (List.mem_cons_of_mem c h)
      constructor
      · intro h
        cases bytes with
        | nil => simp [lossy] at h
        | cons b bytes =>
            rw [lossy, List.cons.injEq] at h
            obtain ⟨hfirst, htext⟩ := h
            have hb : b.toNat < 0x80 := by
              by_contra hge
              have := decode_not_ascii (Nat.le_of_not_lt hge) bytes
              rw [hfirst] at this
              omega
            have hdecode : decode b bytes = (Char.ofNat b.toNat, bytes) := by
              unfold decode
              simp only [if_pos hb]
            rw [hdecode] at hfirst htext
            have hbyte : b = byte c := by
              have hvalid : b.toNat.isValidChar := Or.inl (by omega)
              rw [byte, ← hfirst, toNat_ofNat hvalid, UInt8.ofNat_toNat]
            have hbytes : bytes = cs.map byte := (ih hrest).mp htext
            rw [List.map_cons, ← hbyte, hbytes]
      · rintro rfl
        have h := lossy_map_append hcs []
        rwa [List.append_nil, lossy, List.append_nil] at h

end Utf8
