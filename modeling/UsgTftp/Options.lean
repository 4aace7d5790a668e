import Mathlib.Data.List.AList
import UsgTftp.Netascii

set_option autoImplicit false

/-! # Options and their negotiation

`TftpOptions`, the text functions the option code uses and the negotiation loop that
`handle_client` and the worker pool run over the requested options (RFC 2347). The loops
differ only in how they treat `tsize`, so `negotiateOption` has that rule as a parameter.

The requested options are a `HashMap`, whose iteration order is arbitrary: `IterOrder` is
any order, and `negotiate_field` shows that each negotiated field depends on its own option
only, so the order does not matter.
-/

namespace UsgTftp

/-! ## Texts -/

/-- One character of `str::to_lowercase`. Of the characters outside ASCII only the Kelvin
sign has an ASCII lower case; the others are left as they are, which no comparison with an
ASCII name can tell apart. -/
def lowerChar (c : Char) : Char :=
  if c = Char.ofNat 0x212A then 'k' else c.toLower

def toLowercase (s : String) : String := String.ofList (s.toList.map lowerChar)

theorem toLowercase_blksize : toLowercase "blksize" = "blksize" := by decide

theorem toLowercase_windowsize : toLowercase "windowsize" = "windowsize" := by decide

/-- `str::parse::<u64>` and `str::parse::<usize>`: decimal digits after an optional plus
sign, below `2 ^ 64`. -/
def parseUnsigned (s : String) : Option Nat :=
  let digits := match s.toList with
    | '+' :: rest => rest
    | cs => cs
  if digits ≠ [] ∧ digits.all Char.isDigit ∧ Nat.ofDigitChars 10 digits 0 < 2 ^ 64 then
    some (Nat.ofDigitChars 10 digits 0)
  else none

/-- A printed number is read back. -/
theorem parseUnsigned_repr {n : Nat} (h : n < 2 ^ 64) : parseUnsigned n.repr = some n := by
  have hdig : ∀ c ∈ Nat.toDigits 10 n, c.isDigit = true := fun c hc =>
    Nat.isDigit_of_mem_toDigits (by omega) (by omega) hc
  have hne : Nat.toDigits 10 n ≠ [] := Nat.toDigits_ne_nil
  have hval : Nat.ofDigitChars 10 (Nat.toDigits 10 n) 0 = n :=
    Nat.ofDigitChars_toDigits (by omega) (by omega)
  have hplus : (match n.repr.toList with
      | '+' :: rest => rest
      | cs => cs) = Nat.toDigits 10 n := by
    rw [Nat.toList_repr]
    split
    · rename_i rest heq
      exact absurd (hdig '+' (by rw [heq]; exact List.mem_cons_self)) (by decide)
    · rfl
  rw [parseUnsigned, hplus, hval, if_pos ⟨hne, List.all_eq_true.mpr hdig, h⟩]

theorem asBytes_eq (s : String) : asBytes s = s.toList.flatMap String.utf8EncodeChar := by
  have h : s.toByteArray = s.toList.utf8Encode := String.utf8Encode_toList.symm
  rw [asBytes, String.toUTF8_eq_toByteArray, h, List.utf8Encode]
  simp

theorem utf8EncodeChar_digit {c : Char} (h : c.isDigit = true) :
    ∃ x, x ≠ 0 ∧ String.utf8EncodeChar c = [x] := by
  simp only [Char.isDigit, ge_iff_le, Bool.and_eq_true, decide_eq_true_eq] at h
  have hsize : c.utf8Size = 1 := by
    unfold Char.utf8Size
    rw [if_pos]
    exact UInt32.le_trans h.2 (by decide)
  refine ⟨_, ?_, String.utf8EncodeChar_eq_singleton hsize⟩
  have h1 : 48 ≤ c.val.toNat := h.1
  have h2 : c.val.toNat ≤ 57 := h.2
  intro h0
  have hzero : c.val.toNat % 256 = 0 := by
    rw [← UInt32.toNat_toUInt8, h0]
    rfl
  omega

theorem asBytes_digits {cs : List Char} (h : ∀ c ∈ cs, c.isDigit = true) :
    0 ∉ cs.flatMap String.utf8EncodeChar ∧
      (cs.flatMap String.utf8EncodeChar).length = cs.length := by
  induction cs with
  | nil => exact ⟨List.not_mem_nil, rfl⟩
  | cons c cs ih =>
      obtain ⟨h0, hlen⟩ := ih (fun d hd => h d (List.mem_cons_of_mem _ hd))
      obtain ⟨x, hx, henc⟩ := utf8EncodeChar_digit (h c List.mem_cons_self)
      rw [List.flatMap_cons, henc]
      refine ⟨?_, ?_⟩
      · intro hmem
        rcases List.mem_append.mp hmem with hm | hm
        · exact hx (List.mem_singleton.mp hm).symm
        · exact h0 hm
      · rw [List.length_append, hlen, List.length_cons]
        exact Nat.add_comm _ _

theorem asBytes_repr_digits (n : Nat) :
    0 ∉ asBytes n.repr ∧ (asBytes n.repr).length = (Nat.toDigits 10 n).length := by
  have hdig : ∀ c ∈ n.repr.toList, c.isDigit = true := by
    rw [Nat.toList_repr]
    exact fun c hc => Nat.isDigit_of_mem_toDigits (by omega) (by omega) hc
  have h := asBytes_digits hdig
  rw [Nat.toList_repr] at h
  rwa [asBytes_eq, Nat.toList_repr]

/-- A printed number fits the limit on strings. -/
theorem asBytes_repr {n : Nat} (h : n < 2 ^ 64) :
    0 ∉ asBytes n.repr ∧ (asBytes n.repr).length ≤ 254 := by
  obtain ⟨h0, hlen⟩ := asBytes_repr_digits n
  refine ⟨h0, ?_⟩
  have := Nat.toDigits_length 10 n 20 (by omega) (by omega)
  omega

/-! ## Modes -/

/-- `TransferMode::from_str`. -/
def TransferMode.fromStr (s : String) : Except TftpError TransferMode :=
  if toLowercase s = "netascii" then .ok .netascii
  else if toLowercase s = "octet" then .ok .octet
  else if toLowercase s = "mail" then .ok .mail
  else .error (.tftp s!"Unknown transfer mode: {s}")

/-- The client's `mode_str`. -/
def TransferMode.modeStr : TransferMode → String
  | .netascii => "netascii"
  | .octet => "octet"
  | .mail => "mail"

theorem TransferMode.fromStr_modeStr (m : TransferMode) : fromStr m.modeStr = .ok m := by
  cases m <;> decide

/-! ## Options -/

structure TftpOptions where
  blockSize : Nat := defaultBlockSize
  timeout : Nat := defaultTimeoutSecs
  transferSize : Option Nat := none
  windowsize : Nat := 1
  deriving DecidableEq, Repr

abbrev OptionMap := AList fun _ : String => String

/-- An order in which the entries of a hash map are visited. -/
structure IterOrder where
  iter : OptionMap → List OptionEntry
  perm : ∀ m, (iter m).Perm m.entries

/-- Insertion order reversed, one possible iteration order. -/
def IterOrder.entries : IterOrder := ⟨AList.entries, fun _ => .refl _⟩

/-- What the negotiation loop has computed so far. -/
structure Negotiation where
  options : TftpOptions
  negotiated : OptionMap := ∅

/-- `Ok(n) if (lo..=hi).contains(&n)`. -/
def parseInRange (lo hi : Nat) (value : String) : Option Nat :=
  (parseUnsigned value).filter fun n => lo ≤ n ∧ n ≤ hi

theorem parseInRange_mem {lo hi n : Nat} {value : String}
    (h : parseInRange lo hi value = some n) : lo ≤ n ∧ n ≤ hi := by
  have hp := (Option.filter_eq_some_iff.mp h).2
  simpa using hp

theorem parseInRange_repr {lo hi n : Nat} (hlo : lo ≤ n) (hhi : n ≤ hi) (h : hi < 2 ^ 64) :
    parseInRange lo hi n.repr = some n := by
  simp [parseInRange, parseUnsigned_repr (Nat.lt_of_le_of_lt hhi h), hlo, hhi]

/-- One turn of the negotiation loop. An option that does not parse or is out of range is
left out of the reply, and so is an unknown one. -/
def negotiateOption (tsize : Negotiation → String → Negotiation) (acc : Negotiation)
    (e : OptionEntry) : Negotiation :=
  if e.1 = "blksize" then
    match parseInRange 8 maxBlockSize e.2 with
    | some size => { options := { acc.options with blockSize := size },
                     negotiated := acc.negotiated.insert "blksize" size.repr }
    | none => acc
  else if e.1 = "timeout" then
    match parseInRange 1 255 e.2 with
    | some timeout => { options := { acc.options with timeout := timeout },
                        negotiated := acc.negotiated.insert "timeout" timeout.repr }
    | none => acc
  else if e.1 = "tsize" then tsize acc e.2
  else if e.1 = "windowsize" then
    match parseInRange 1 65535 e.2 with
    | some size => { options := { acc.options with windowsize := size },
                     negotiated := acc.negotiated.insert "windowsize" size.repr }
    | none => acc
  else acc

/-- `tsize` in the server's RRQ: the value is only checked, and the size is filled in
later. -/
def tsizeRrq (acc : Negotiation) (value : String) : Negotiation :=
  match parseUnsigned value with
  | some _ => { acc with negotiated := acc.negotiated.insert "tsize" "0" }
  | none => acc

theorem tsizeRrq_options (acc : Negotiation) (value : String) :
    (tsizeRrq acc value).options = acc.options := by
  unfold tsizeRrq
  split <;> rfl

/-- `tsize` in the server's WRQ: the announced size is kept and confirmed. -/
def tsizeWrq (acc : Negotiation) (value : String) : Negotiation :=
  match parseUnsigned value with
  | some size => { options := { acc.options with transferSize := some size },
                   negotiated := acc.negotiated.insert "tsize" size.repr }
  | none => acc

def negotiate (tsize : Negotiation → String → Negotiation) (defaultWindowsize : Nat)
    (order : IterOrder) (requested : OptionMap) : Negotiation :=
  (order.iter requested).foldl (negotiateOption tsize)
    { options := { windowsize := defaultWindowsize } }

/-! ## What the negotiation loop computes -/

theorem foldl_field_of_notMem {γ : Type} {f : Negotiation → γ} {key : String}
    {step : Negotiation → OptionEntry → Negotiation}
    (hother : ∀ acc e, e.1 ≠ key → f (step acc e) = f acc) :
    ∀ (l : List OptionEntry) (acc : Negotiation), key ∉ l.keys → f (l.foldl step acc) = f acc := by
  intro l
  induction l with
  | nil => intro acc _; rfl
  | cons e l ih =>
      intro acc hkey
      rw [List.keys_cons, List.mem_cons, not_or] at hkey
      rw [List.foldl_cons, ih _ hkey.2, hother acc e (Ne.symm hkey.1)]

/-- A field that only the option `key` changes is, after the loop, what the value of that
option makes of it. -/
theorem foldl_field {γ : Type} {f : Negotiation → γ} {key : String} {g : String → γ → γ}
    {step : Negotiation → OptionEntry → Negotiation}
    (hkey : ∀ acc v, f (step acc ⟨key, v⟩) = g v (f acc))
    (hother : ∀ acc e, e.1 ≠ key → f (step acc e) = f acc) :
    ∀ (l : List OptionEntry) (acc : Negotiation), l.NodupKeys →
      f (l.foldl step acc) = ((l.dlookup key).map fun v => g v (f acc)).getD (f acc) := by
  intro l
  induction l with
  | nil => intro acc _; rfl
  | cons e l ih =>
      intro acc hnd
      rw [List.nodupKeys_cons] at hnd
      rw [List.foldl_cons]
      obtain ⟨k, v⟩ := e
      by_cases hk : k = key
      · subst hk
        rw [foldl_field_of_notMem hother l _ hnd.1, hkey, List.dlookup_cons_eq]
        rfl
      · rw [ih _ hnd.2, hother acc ⟨k, v⟩ hk, List.dlookup_cons_ne _ _ (Ne.symm hk)]

/-- **Negotiation is independent of the iteration order**: a field that only the option
`key` changes depends on the value requested for `key` alone. -/
theorem negotiate_field {γ : Type} {f : Negotiation → γ} {key : String} {g : String → γ → γ}
    {tsize : Negotiation → String → Negotiation}
    (hkey : ∀ acc v, f (negotiateOption tsize acc ⟨key, v⟩) = g v (f acc))
    (hother : ∀ acc e, e.1 ≠ key → f (negotiateOption tsize acc e) = f acc)
    (defaultWindowsize : Nat) (order : IterOrder) (requested : OptionMap) :
    let init := f { options := { windowsize := defaultWindowsize } }
    f (negotiate tsize defaultWindowsize order requested)
      = ((requested.lookup key).map fun v => g v init).getD init := by
  have hnd : (order.iter requested).NodupKeys :=
    (List.perm_nodupKeys (order.perm requested)).mpr requested.nodupKeys
  have hlook : (order.iter requested).dlookup key = requested.lookup key :=
    List.perm_dlookup key hnd (order.perm requested)
  simp only [negotiate]
  rw [foldl_field hkey hother _ _ hnd, hlook]

section Fields

variable {tsize : Negotiation → String → Negotiation}

/-- The negotiated block size, whatever the rule for `tsize` does to other fields. -/
theorem negotiate_blockSize
    (htsize : ∀ acc v, (tsize acc v).options.blockSize = acc.options.blockSize)
    (defaultWindowsize : Nat) (order : IterOrder) (requested : OptionMap) :
    (negotiate tsize defaultWindowsize order requested).options.blockSize
      = ((requested.lookup "blksize").bind (parseInRange 8 maxBlockSize)).getD
          defaultBlockSize := by
  have h := @negotiate_field Nat (fun n => n.options.blockSize) "blksize"
    (fun v old => (parseInRange 8 maxBlockSize v).getD old) tsize ?_ ?_ defaultWindowsize order
    requested
  · rw [h]
    cases requested.lookup "blksize" <;> rfl
  · intro acc v
    simp only [negotiateOption, if_true]
    cases parseInRange 8 maxBlockSize v <;> rfl
  · intro acc e he
    unfold negotiateOption
    rw [if_neg he]
    split_ifs
    · cases parseInRange 1 255 e.2 <;> rfl
    · exact htsize acc e.2
    · cases parseInRange 1 65535 e.2 <;> rfl
    · rfl

theorem negotiate_windowsize
    (htsize : ∀ acc v, (tsize acc v).options.windowsize = acc.options.windowsize)
    (defaultWindowsize : Nat) (order : IterOrder) (requested : OptionMap) :
    (negotiate tsize defaultWindowsize order requested).options.windowsize
      = ((requested.lookup "windowsize").bind (parseInRange 1 65535)).getD
          defaultWindowsize := by
  have h := @negotiate_field Nat (fun n => n.options.windowsize) "windowsize"
    (fun v old => (parseInRange 1 65535 v).getD old) tsize ?_ ?_ defaultWindowsize order requested
  · rw [h]
    cases requested.lookup "windowsize" <;> rfl
  · intro acc v
    simp only [negotiateOption, String.reduceEq, if_false, if_true]
    cases parseInRange 1 65535 v <;> rfl
  · intro acc e he
    unfold negotiateOption
    split_ifs
    · cases parseInRange 8 maxBlockSize e.2 <;> rfl
    · cases parseInRange 1 255 e.2 <;> rfl
    · exact htsize acc e.2
    · rfl

end Fields

/-- A window size in range is not changed by the cast to sixteen bits. -/
theorem toNat_ofNat_windowsize {W : Nat} (hW : 1 ≤ W ∧ W ≤ 65535) :
    (UInt16.ofNat W).toNat = W := by
  rw [UInt16.toNat_ofNat']
  omega

theorem ofNat_windowsize_ne_zero {W : Nat} (hW : 1 ≤ W ∧ W ≤ 65535) : UInt16.ofNat W ≠ 0 := by
  intro h0
  have hzero := toNat_ofNat_windowsize hW
  rw [h0] at hzero
  change 0 = W at hzero
  omega

end UsgTftp
