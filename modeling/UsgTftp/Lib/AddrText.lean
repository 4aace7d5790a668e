import Mathlib.Data.List.TakeWhile
import Mathlib.Tactic

set_option autoImplicit false

/-! # The text of IP addresses

The parsers of the standard library for IPv4 addresses (four numbers without leading zeros) and
IPv6 addresses (eight groups, of which `::` stands for one zero or more, and the last two may be
written as an IPv4 address). A parser reads from the front of a text, and gives what it has read
and the rest.

`mem_parseIp` says which characters a text that is accepted can have.
-/

namespace AddrText

/-- An address as a number. -/
inductive Ip where
  | v4 (value : Nat)
  | v6 (value : Nat)
  deriving DecidableEq, Repr

abbrev Parser (α : Type) := List Char → Option (α × List Char)

/-- `char::to_digit`. -/
def toDigit (radix : Nat) (c : Char) : Option Nat :=
  let n := c.toNat
  (if 48 ≤ n ∧ n ≤ 57 then some (n - 48)
    else if 97 ≤ n ∧ n ≤ 122 then some (n - 87)
    else if 65 ≤ n ∧ n ≤ 90 then some (n - 55)
    else none).filter (· < radix)

/-- `read_number`: digits, `maxDigits` of them at most, with a value below `bound`. -/
def readNumber (radix maxDigits bound : Nat) (allowZeroPrefix : Bool) : Parser Nat := fun cs =>
  let digits := cs.takeWhile fun c => (toDigit radix c).isSome
  let value := digits.foldl (fun v c => v * radix + (toDigit radix c).getD 0) 0
  if digits = [] ∨ maxDigits < digits.length ∨
      (allowZeroPrefix = false ∧ digits.head? = some '0' ∧ 1 < digits.length) ∨ bound ≤ value then
    none
  else some (value, cs.dropWhile fun c => (toDigit radix c).isSome)

/-- `read_separator`: the separator stands before each item but the first. -/
def readSeparator {α : Type} (sep : Char) (first : Bool) (inner : Parser α) : Parser α := fun cs =>
  if first then inner cs
  else
    match cs with
    | c :: cs => if c = sep then inner cs else none
    | [] => none

def readOctet : Parser Nat := readNumber 10 3 256 false

def readIpv4 : Parser Nat := fun cs =>
  (readSeparator '.' true readOctet cs).bind fun (a, cs) =>
    (readSeparator '.' false readOctet cs).bind fun (b, cs) =>
      (readSeparator '.' false readOctet cs).bind fun (c, cs) =>
        (readSeparator '.' false readOctet cs).map fun (d, cs) =>
          (((a * 256 + b) * 256 + c) * 256 + d, cs)

def readGroup : Parser Nat := readNumber 16 4 65536 true

/-- `read_groups`: as many groups as there are, up to a limit, whether an IPv4 address has been
read, and the rest. -/
def readGroups : Nat → Bool → List Char → List Nat × Bool × List Char
  | 0, _, cs => ([], false, cs)
  | left + 1, first, cs =>
      -- an embedded IPv4 address takes the place of two groups
      match if 0 < left then readSeparator ':' first readIpv4 cs else none with
      | some (value, cs) => ([value / 65536, value % 65536], true, cs)
      | none =>
          match readSeparator ':' first readGroup cs with
          | none => ([], false, cs)
          | some (group, cs) =>
              let (groups, ipv4, cs) := readGroups left false cs
              (group :: groups, ipv4, cs)

def groupsValue (groups : List Nat) : Nat := groups.foldl (fun v group => v * 65536 + group) 0

def readIpv6 : Parser Nat := fun cs =>
  let (head, headIpv4, cs) := readGroups 8 true cs
  if head.length = 8 then some (groupsValue head, cs)
  else if headIpv4 then none
  else
    match cs with
    | ':' :: ':' :: cs =>
        let (tail, _, cs) := readGroups (7 - head.length) true cs
        some (groupsValue (head ++ List.replicate (8 - head.length - tail.length) 0 ++ tail), cs)
    | _ => none

/-- `str::parse::<IpAddr>`. -/
def parseIp (cs : List Char) : Option Ip :=
  let result :=
    match readIpv4 cs with
    | some (value, rest) => some (Ip.v4 value, rest)
    | none => (readIpv6 cs).map fun (value, rest) => (Ip.v6 value, rest)
  match result with
  | some (ip, []) => some ip
  | _ => none

/-! ## The characters of an address -/

def addrChar (c : Char) : Bool := (toDigit 16 c).isSome || c = '.' || c = ':'

/-- The parser reads characters of addresses only. -/
def Reads {α : Type} (p : Parser α) : Prop :=
  ∀ cs v rest, p cs = some (v, rest) → ∃ used, cs = used ++ rest ∧ ∀ c ∈ used, addrChar c = true

theorem toDigit_mono {r r' : Nat} (h : r ≤ r') {c : Char} (hc : (toDigit r c).isSome = true) :
    (toDigit r' c).isSome = true := by
  obtain ⟨d, hd⟩ := Option.isSome_iff_exists.mp hc
  obtain ⟨hvalue, hlt⟩ := Option.filter_eq_some_iff.mp hd
  have : toDigit r' c = some d :=
    Option.filter_eq_some_iff.mpr ⟨hvalue, by simpa using lt_of_lt_of_le (by simpa using hlt) h⟩
  rw [this]
  rfl

theorem reads_readNumber {radix : Nat} (hradix : radix ≤ 16) (maxDigits bound : Nat)
    (allowZeroPrefix : Bool) : Reads (readNumber radix maxDigits bound allowZeroPrefix) := by
  intro cs v rest h
  unfold readNumber at h
  simp only at h
  split_ifs at h
  simp only [Option.some.injEq, Prod.mk.injEq] at h
  obtain ⟨-, rfl⟩ := h
  refine ⟨_, List.takeWhile_append_dropWhile.symm, fun c hc => ?_⟩
  have hdigit : (toDigit radix c).isSome = true := by
    simpa using List.mem_takeWhile_imp hc
  rw [addrChar, toDigit_mono hradix hdigit]
  rfl

theorem reads_readSeparator {α : Type} {sep : Char} (hsep : addrChar sep = true) {p : Parser α}
    (hp : Reads p) (first : Bool) : Reads (readSeparator sep first p) := by
  intro cs v rest h
  unfold readSeparator at h
  cases first with
  | true =>
      rw [if_pos rfl] at h
      exact hp cs v rest h
  | false =>
      cases cs with
      | nil => simp at h
      | cons c cs =>
          simp only [Bool.false_eq_true, if_false] at h
          split_ifs at h with hc
          subst hc
          obtain ⟨used, rfl, hused⟩ := hp cs v rest h
          refine ⟨c :: used, rfl, fun c' hc' => ?_⟩
          rcases List.mem_cons.mp hc' with rfl | hc'
          · exact hsep
          · exact hused c' hc'

theorem Reads.bind {α β : Type} {p : Parser α} {q : α → Parser β} (hp : Reads p)
    (hq : ∀ v, Reads (q v)) : Reads fun cs => (p cs).bind fun r => q r.1 r.2 := by
  intro cs v rest h
  obtain ⟨⟨u, cs'⟩, hu, hv⟩ := Option.bind_eq_some_iff.mp h
  obtain ⟨used, rfl, hused⟩ := hp _ _ _ hu
  obtain ⟨used', rfl, hused'⟩ := hq _ _ _ _ hv
  refine ⟨used ++ used', by simp, fun c hc => ?_⟩
  rcases List.mem_append.mp hc with hc | hc
  · exact hused c hc
  · exact hused' c hc

theorem Reads.map {α β : Type} {p : Parser α} (hp : Reads p) (f : α → β) :
    Reads fun cs => (p cs).map fun r => (f r.1, r.2) := by
  intro cs v rest h
  obtain ⟨⟨u, cs'⟩, hu, hv⟩ := Option.map_eq_some_iff.mp h
  cases hv
  exact hp cs u _ hu

theorem reads_readIpv4 : Reads readIpv4 := by
  have hoctet : ∀ first, Reads (readSeparator '.' first readOctet) := fun first =>
    reads_readSeparator (by decide) (reads_readNumber (by decide) 3 256 false) first
  exact (hoctet true).bind fun a => (hoctet false).bind fun b => (hoctet false).bind fun c =>
    (hoctet false).map fun d => ((a * 256 + b) * 256 + c) * 256 + d

theorem reads_readGroups (left : Nat) (first : Bool) (cs : List Char) :
    ∃ used, cs = used ++ (readGroups left first cs).2.2 ∧ ∀ c ∈ used, addrChar c = true := by
  induction left generalizing first cs with
  | zero => exact ⟨[], rfl, by simp⟩
  | succ left ih =>
      rw [readGroups]
      cases hv4 : (if 0 < left then readSeparator ':' first readIpv4 cs else none) with
      | some r =>
          obtain ⟨value, rest⟩ := r
          split_ifs at hv4
          exact reads_readSeparator (by decide) reads_readIpv4 first cs value rest hv4
      | none =>
          simp only
          cases hgroup : readSeparator ':' first readGroup cs with
          | none => exact ⟨[], rfl, by simp⟩
          | some r =>
              obtain ⟨group, rest⟩ := r
              obtain ⟨used, rfl, hused⟩ := reads_readSeparator (by decide)
                (reads_readNumber (by decide) 4 65536 true) first cs group rest hgroup
              obtain ⟨used', hrest, hused'⟩ := ih false rest
              refine ⟨used ++ used', ?_, fun c hc => ?_⟩
              · rw [List.append_assoc]
                exact congrArg (used ++ ·) hrest
              · rcases List.mem_append.mp hc with hc | hc
                · exact hused c hc
                · exact hused' c hc

theorem reads_readIpv6 : Reads readIpv6 := by
  intro cs v rest h
  unfold readIpv6 at h
  obtain ⟨used, hcs, hused⟩ := reads_readGroups 8 true cs
  generalize readGroups 8 true cs = r at h hcs
  obtain ⟨head, headIpv4, cs'⟩ := r
  simp only at h hcs
  split_ifs at h
  · simp only [Option.some.injEq, Prod.mk.injEq] at h
    obtain ⟨-, rfl⟩ := h
    exact ⟨used, hcs, hused⟩
  · split at h
    · rename_i cs''
      obtain ⟨used', hrest, hused'⟩ := reads_readGroups (7 - head.length) true cs''
      simp only [Option.some.injEq, Prod.mk.injEq] at h
      obtain ⟨-, rfl⟩ := h
      refine ⟨used ++ ':' :: ':' :: used', ?_, fun c hc => ?_⟩
      · rw [hcs, List.append_assoc]
        exact congrArg (fun l => used ++ ':' :: ':' :: l) hrest
      · simp only [List.mem_append, List.mem_cons] at hc
        rcases hc with hc | rfl | rfl | hc
        · exact hused c hc
        · decide
        · decide
        · exact hused' c hc
    · cases h

/-- **An address** has hexadecimal digits, full stops and colons only. -/
theorem mem_parseIp {cs : List Char} {ip : Ip} (h : parseIp cs = some ip) {c : Char} (hc : c ∈ cs) :
    addrChar c = true := by
  have hread : ∃ v, readIpv4 cs = some (v, []) ∨ readIpv6 cs = some (v, []) := by
    unfold parseIp at h
    cases hv4 : readIpv4 cs with
    | some r =>
        obtain ⟨value, rest⟩ := r
        rw [hv4] at h
        cases rest with
        | nil => exact ⟨value, Or.inl rfl⟩
        | cons c rest => cases h
    | none =>
        rw [hv4] at h
        cases hv6 : readIpv6 cs with
        | none =>
            rw [hv6] at h
            cases h
        | some r =>
            obtain ⟨value, rest⟩ := r
            rw [hv6] at h
            cases rest with
            | nil => exact ⟨value, Or.inr rfl⟩
            | cons c rest => cases h
  obtain ⟨v, hv4 | hv6⟩ := hread
  · obtain ⟨used, rfl, hused⟩ := reads_readIpv4 cs v [] hv4
    exact hused c (by simpa using hc)
  · obtain ⟨used, rfl, hused⟩ := reads_readIpv6 cs v [] hv6
    exact hused c (by simpa using hc)

example : parseIp "10.0.0.1".toList = some (.v4 0x0a000001) := by decide
example : parseIp "::1".toList = some (.v6 1) := by decide
example : parseIp "01.2.3.4".toList = none := by decide

end AddrText
