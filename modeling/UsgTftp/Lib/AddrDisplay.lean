import UsgTftp.Lib.AddrText

set_option autoImplicit false

/-! # Writing addresses

How the standard library writes IP and socket addresses, and the parser for socket addresses. In the
text of an IPv6 address the longest run of zero groups is left out, if it has more than one, and an
address that stands for an IPv4 one ends with its text.

Each text is read as the address that was written (`parseIp_displayIp`,
`parseSocket_displaySocket`); the flow label of a socket address is not part of its text.
-/

namespace AddrText

/-! ## Numbers -/

/-- No digit of this radix is at the front. -/
def Stops (radix : Nat) (rest : List Char) : Prop :=
  ∀ c, rest.head? = some c → toDigit radix c = none

theorem toDigit_digitChar : ∀ d < 16, toDigit 16 (Nat.digitChar d) = some d := by decide

theorem toDigit_digitChar_ten : ∀ d < 10, toDigit 10 (Nat.digitChar d) = some d := by decide

theorem toDigit_digitChar_radix {radix d : Nat} (hradix : radix = 10 ∨ radix = 16)
    (hd : d < radix) : toDigit radix (Nat.digitChar d) = some d := by
  rcases hradix with rfl | rfl
  · exact toDigit_digitChar_ten d hd
  · exact toDigit_digitChar d hd

/-- The digits that are written are those that are read, with the number as their value. -/
theorem toDigits_read {radix : Nat} (hradix : radix = 10 ∨ radix = 16) (n : Nat) :
    (∀ c ∈ Nat.toDigits radix n, (toDigit radix c).isSome = true) ∧
      (Nat.toDigits radix n).foldl (fun v c => v * radix + (toDigit radix c).getD 0) 0 = n ∧
      ((Nat.toDigits radix n).head? = some '0' → n = 0) := by
  have hone : 1 < radix := by omega
  induction n using Nat.strong_induction_on with
  | _ n ih =>
      rw [Nat.toDigits_eq_if hone]
      by_cases hn : n < radix
      · rw [if_pos hn]
        have hdigit := toDigit_digitChar_radix hradix hn
        refine ⟨by simp [hdigit], by simp [hdigit], fun hhead => ?_⟩
        have hzero : Nat.digitChar n = '0' := by simpa using hhead
        rw [hzero] at hdigit
        rcases hradix with rfl | rfl
        · exact (Option.some.inj hdigit).symm
        · exact (Option.some.inj hdigit).symm
      · rw [if_neg hn]
        obtain ⟨hdigits, hvalue, hhead⟩ := ih (n / radix) (Nat.div_lt_self (by omega) hone)
        have hdigit := toDigit_digitChar_radix hradix (Nat.mod_lt n (by omega))
        refine ⟨?_, ?_, fun hzero => ?_⟩
        · intro c hc
          rcases List.mem_append.mp hc with hc | hc
          · exact hdigits c hc
          · rw [List.mem_singleton.mp hc, hdigit]
            rfl
        · rw [List.foldl_append, hvalue, List.foldl_cons, List.foldl_nil, hdigit]
          exact Nat.div_add_mod' n radix
        · rw [List.head?_append_of_ne_nil _ Nat.toDigits_ne_nil] at hzero
          have := Nat.div_pos (Nat.le_of_not_lt hn) (by omega)
          have := hhead hzero
          omega

theorem takeWhile_append_stops {p : Char → Bool} {digits rest : List Char}
    (hdigits : ∀ c ∈ digits, p c = true) (hrest : ∀ c, rest.head? = some c → p c = false) :
    (digits ++ rest).takeWhile p = digits ∧ (digits ++ rest).dropWhile p = rest := by
  have hstop : rest.takeWhile p = [] ∧ rest.dropWhile p = rest := by
    cases rest with
    | nil => exact ⟨rfl, rfl⟩
    | cons c rest =>
        have hc := hrest c rfl
        exact ⟨by rw [List.takeWhile_cons, hc]; rfl, by rw [List.dropWhile_cons, hc]; rfl⟩
  rw [List.takeWhile_append_of_pos hdigits, List.dropWhile_append_of_pos hdigits, hstop.1, hstop.2,
    List.append_nil]
  exact ⟨rfl, rfl⟩

/-- **A number** is read as it was written. -/
theorem readNumber_toDigits {radix maxDigits bound n : Nat} (hradix : radix = 10 ∨ radix = 16)
    (allowZeroPrefix : Bool) {rest : List Char} (hn : n < bound)
    (hlength : (Nat.toDigits radix n).length ≤ maxDigits) (hrest : Stops radix rest) :
    readNumber radix maxDigits bound allowZeroPrefix (Nat.toDigits radix n ++ rest)
      = some (n, rest) := by
  obtain ⟨hdigits, hvalue, hhead⟩ := toDigits_read hradix n
  have hstop : ∀ c, rest.head? = some c → (toDigit radix c).isSome = false := by
    intro c hc
    rw [hrest c hc]
    rfl
  obtain ⟨htake, hdrop⟩ := takeWhile_append_stops hdigits hstop
  -- only zero itself begins with the digit zero
  have hprefix : ¬ ((Nat.toDigits radix n).head? = some '0' ∧
      1 < (Nat.toDigits radix n).length) := by
    rintro ⟨hzero, hlong⟩
    rw [hhead hzero, Nat.toDigits_zero] at hlong
    exact absurd hlong (by decide)
  unfold readNumber
  simp only [htake, hdrop, hvalue]
  rw [if_neg]
  rintro (hnil | hlong | ⟨-, hzero⟩ | hbound)
  · exact Nat.toDigits_ne_nil hnil
  · omega
  · exact hprefix hzero
  · omega

/-! ## IPv4 addresses -/

/-- A number without leading zeros. -/
def decimal (n : Nat) : List Char := Nat.toDigits 10 n

/-- `Display` of an IPv4 address. -/
def displayIpv4 (value : Nat) : List Char :=
  decimal (value / 2 ^ 24) ++ '.' :: (decimal (value / 2 ^ 16 % 256) ++
    '.' :: (decimal (value / 2 ^ 8 % 256) ++ '.' :: decimal (value % 256)))

theorem readOctet_decimal {n : Nat} (hn : n < 256) {rest : List Char} (hrest : Stops 10 rest) :
    readOctet (decimal n ++ rest) = some (n, rest) := by
  refine readNumber_toDigits (Or.inl rfl) false hn ?_ hrest
  exact (Nat.length_toDigits_le_iff (by decide) (by decide)).mpr (Nat.lt_trans hn (by decide))

theorem stops_cons {radix : Nat} {c : Char} (hc : toDigit radix c = none) (rest : List Char) :
    Stops radix (c :: rest) := by
  intro c' h
  rw [← Option.some.inj h]
  exact hc

theorem readSeparator_cons {α : Type} (sep : Char) (inner : Parser α) (cs : List Char) :
    readSeparator sep false inner (sep :: cs) = inner cs := by
  simp [readSeparator]

/-- **An IPv4 address** is read as it was written. -/
theorem readIpv4_displayIpv4 {value : Nat} (hvalue : value < 2 ^ 32) {rest : List Char}
    (hrest : Stops 10 rest) : readIpv4 (displayIpv4 value ++ rest) = some (value, rest) := by
  have hdot : ∀ cs, Stops 10 ('.' :: cs) := fun cs => stops_cons (by decide) cs
  have hfirst : readSeparator '.' true readOctet = readOctet := rfl
  have hsum : ((value / 2 ^ 24 * 256 + value / 2 ^ 16 % 256) * 256 + value / 2 ^ 8 % 256) * 256
      + value % 256 = value := by omega
  rw [displayIpv4, List.append_assoc, List.cons_append, List.append_assoc, List.cons_append,
    List.append_assoc, List.cons_append, readIpv4, hfirst]
  -- octet by octet
  rw [readOctet_decimal (by omega) (hdot _), Option.bind_some]
  dsimp only
  rw [readSeparator_cons, readOctet_decimal (by omega) (hdot _), Option.bind_some]
  dsimp only
  rw [readSeparator_cons, readOctet_decimal (by omega) (hdot _), Option.bind_some]
  dsimp only
  rw [readSeparator_cons, readOctet_decimal (by omega) hrest, Option.map_some, hsum]

/-- Without a full stop after its first number a text is no IPv4 address. -/
theorem readIpv4_eq_none {cs : List Char}
    (h : (cs.dropWhile fun c => (toDigit 10 c).isSome).head? ≠ some '.') :
    readIpv4 cs = none := by
  rw [readIpv4, Option.bind_eq_none_iff]
  rintro ⟨a, rest⟩ hfirst
  have hread : readOctet cs = some (a, rest) := hfirst
  unfold readOctet readNumber at hread
  simp only at hread
  split_ifs at hread
  cases hread
  rw [Option.bind_eq_none_iff]
  rintro ⟨b, rest'⟩ hsecond
  unfold readSeparator at hsecond
  rw [if_neg Bool.false_ne_true] at hsecond
  cases hdrop : cs.dropWhile fun c => (toDigit 10 c).isSome with
  | nil =>
      rw [hdrop] at hsecond
      cases hsecond
  | cons c rest =>
      rw [hdrop] at h hsecond
      have hc : c ≠ '.' := fun hc => h (by rw [hc]; rfl)
      simp only [if_neg hc] at hsecond
      cases hsecond

/-! ## Groups of an IPv6 address -/

def hex (n : Nat) : List Char := Nat.toDigits 16 n

/-- Groups with colons between them, and with one before them unless `first`. -/
def separated : Bool → List Nat → List Char
  | _, [] => []
  | first, group :: groups => (if first then [] else [':']) ++ hex group ++ separated false groups

/-- Neither a digit nor a full stop is at the front. -/
def Breaks (rest : List Char) : Prop :=
  ∀ c, rest.head? = some c → toDigit 16 c = none ∧ c ≠ '.'

/-- No group is at the front, after a colon or without one. -/
def Ends (rest : List Char) : Prop := Breaks rest ∧ ∀ cs, rest = ':' :: cs → Breaks cs

theorem breaks_nil : Breaks [] := by
  intro c h
  cases h

theorem breaks_cons {c : Char} (hc : toDigit 16 c = none ∧ c ≠ '.') (rest : List Char) :
    Breaks (c :: rest) := by
  intro c' h
  rw [← Option.some.inj h]
  exact hc

theorem ends_nil : Ends [] := ⟨breaks_nil, by rintro cs ⟨⟩⟩

theorem ends_cons {c : Char} (hc : toDigit 16 c = none ∧ c ≠ '.') (hcolon : c ≠ ':')
    (rest : List Char) : Ends (c :: rest) := by
  refine ⟨breaks_cons hc rest, fun cs h => ?_⟩
  cases h
  exact absurd rfl hcolon

theorem ends_colons (rest : List Char) : Ends (':' :: ':' :: rest) := by
  refine ⟨breaks_cons (by decide) _, fun cs h => ?_⟩
  cases h
  exact breaks_cons (by decide) rest

theorem Breaks.stops {rest : List Char} (h : Breaks rest) : Stops 16 rest :=
  fun c hc => (h c hc).1

theorem Breaks.stops_ten {rest : List Char} (h : Breaks rest) : Stops 10 rest := by
  intro c hc
  by_contra hdigit
  have := toDigit_mono (show 10 ≤ 16 by decide) (Option.isSome_iff_ne_none.mpr hdigit)
  rw [(h c hc).1] at this
  cases this

theorem head_dropWhile_digits {p : Char → Bool} {digits rest : List Char}
    (hdigits : ∀ c ∈ digits, c ≠ '.') (hrest : ∀ c, rest.head? = some c → p c = false ∧ c ≠ '.') :
    ((digits ++ rest).dropWhile p).head? ≠ some '.' := by
  induction digits with
  | nil =>
      cases rest with
      | nil => simp
      | cons c rest =>
          obtain ⟨hp, hc⟩ := hrest c rfl
          simp [hp, hc]
  | cons c digits ih =>
      rw [List.cons_append, List.dropWhile_cons]
      split
      · exact ih fun c' h => hdigits c' (List.mem_cons_of_mem _ h)
      · simpa using hdigits c List.mem_cons_self

/-- The text of a group is not taken for an IPv4 address. -/
theorem readIpv4_hex (n : Nat) {rest : List Char} (hrest : Breaks rest) :
    readIpv4 (hex n ++ rest) = none := by
  refine readIpv4_eq_none (head_dropWhile_digits ?_ fun c hc => ⟨?_, (hrest c hc).2⟩)
  · intro c hc hdot
    have hdigit := (toDigits_read (Or.inr rfl) n).1 c hc
    rw [hdot] at hdigit
    exact absurd hdigit (by decide)
  · rw [hrest.stops_ten c hc]
    rfl

theorem readIpv4_breaks {rest : List Char} (hrest : Breaks rest) : readIpv4 rest = none := by
  have hnodigits : ∀ c ∈ ([] : List Char), c ≠ '.' := by simp
  refine readIpv4_eq_none (head_dropWhile_digits hnodigits fun c hc => ⟨?_, ?_⟩)
  · rw [hrest.stops_ten c hc]
    rfl
  · exact (hrest c hc).2

theorem readGroup_hex {n : Nat} (hn : n < 65536) {rest : List Char} (hrest : Stops 16 rest) :
    readGroup (hex n ++ rest) = some (n, rest) := by
  refine readNumber_toDigits (Or.inr rfl) true hn ?_ hrest
  exact (Nat.length_toDigits_le_iff (by decide) (by decide)).mpr hn

theorem readGroup_stops {rest : List Char} (hrest : Stops 16 rest) : readGroup rest = none := by
  have hnil : rest.takeWhile (fun c => (toDigit 16 c).isSome) = [] := by
    cases rest with
    | nil => rfl
    | cons c rest => rw [List.takeWhile_cons, hrest c rfl]; rfl
  unfold readGroup readNumber
  simp only [hnil, true_or, if_true]

theorem readSeparator_ends {α : Type} {inner : Parser α}
    (hinner : ∀ cs, Breaks cs → inner cs = none) {rest : List Char} (hrest : Ends rest)
    (first : Bool) : readSeparator ':' first inner rest = none := by
  cases first with
  | true => exact hinner rest hrest.1
  | false =>
      cases rest with
      | nil => rfl
      | cons c cs =>
          by_cases hc : c = ':'
          · subst hc
            rw [readSeparator_cons]
            exact hinner cs (hrest.2 cs rfl)
          · simp [readSeparator, hc]

theorem readSeparator_first {α : Type} (inner : Parser α) (first : Bool) (cs : List Char) :
    readSeparator ':' first inner ((if first then [] else [':']) ++ cs) = inner cs := by
  cases first with
  | true => rfl
  | false => exact readSeparator_cons ':' inner cs

theorem readGroups_ends (left : Nat) (first : Bool) {rest : List Char} (hrest : Ends rest) :
    readGroups left first rest = ([], false, rest) := by
  cases left with
  | zero => rfl
  | succ left =>
      rw [readGroups, readSeparator_ends (fun _ h => readIpv4_breaks h) hrest, ite_self,
        readSeparator_ends (fun _ h => readGroup_stops h.stops) hrest]

/-- One group is read, and then those after it. -/
theorem readGroups_hex (left : Nat) (first : Bool) {group : Nat} (hgroup : group < 65536)
    {rest : List Char} (hrest : Breaks rest) :
    readGroups (left + 1) first ((if first then [] else [':']) ++ (hex group ++ rest))
      = (group :: (readGroups left false rest).1, (readGroups left false rest).2) := by
  rw [readGroups, readSeparator_first, readIpv4_hex group hrest, ite_self, readSeparator_first,
    readGroup_hex hgroup hrest.stops]

/-- Behind a group stands a colon, or what stands behind all of them. -/
theorem breaks_separated (groups : List Nat) {rest : List Char} (hrest : Breaks rest) :
    Breaks (separated false groups ++ rest) := by
  cases groups with
  | nil => exact hrest
  | cons group groups => exact breaks_cons (by decide) _

/-- **Groups** are read as they were written. -/
theorem readGroups_separated {groups : List Nat} (hgroups : ∀ g ∈ groups, g < 65536)
    {rest : List Char} (hrest : Ends rest) : ∀ (left : Nat) (first : Bool), groups.length ≤ left →
      readGroups left first (separated first groups ++ rest) = (groups, false, rest) := by
  induction groups with
  | nil => exact fun left first _ => readGroups_ends left first hrest
  | cons group groups ih =>
      intro left first hleft
      cases left with
      | zero => exact absurd hleft (Nat.not_succ_le_zero _)
      | succ left =>
          rw [separated, List.append_assoc, List.append_assoc,
            readGroups_hex left first (hgroups group List.mem_cons_self)
              (breaks_separated groups hrest.1),
            ih (fun g hg => hgroups g (List.mem_cons_of_mem _ hg)) left false
              (Nat.le_of_succ_le_succ hleft)]

/-! ## IPv6 addresses -/

/-- The eight groups of sixteen bits. -/
def segments (value : Nat) : List Nat :=
  [value / 2 ^ 112, value / 2 ^ 96 % 65536, value / 2 ^ 80 % 65536, value / 2 ^ 64 % 65536,
    value / 2 ^ 48 % 65536, value / 2 ^ 32 % 65536, value / 2 ^ 16 % 65536, value % 65536]

/-- Some groups of an address, one after the other. -/
structure Span where
  start : Nat
  len : Nat

/-- The first of the longest runs of zeros, given the longest one so far and the current one. -/
def longestZeros : List Nat → Nat → Span → Span → Span
  | [], _, longest, _ => longest
  | segment :: segments, i, longest, current =>
      if segment = 0 then
        let current : Span := ⟨if current.len = 0 then i else current.start, current.len + 1⟩
        longestZeros segments (i + 1) (if longest.len < current.len then current else longest)
          current
      else longestZeros segments (i + 1) longest ⟨0, 0⟩

/-- `Display` of an IPv6 address. -/
def displayIpv6 (value : Nat) : List Char :=
  let segments := segments value
  if segments.take 6 = [0, 0, 0, 0, 0, 0xffff] then
    "::ffff:".toList ++ displayIpv4 (value % 2 ^ 32)
  else
    let zeroes := longestZeros segments 0 ⟨0, 0⟩ ⟨0, 0⟩
    if 1 < zeroes.len then
      separated true (segments.take zeroes.start) ++
        ':' :: ':' :: separated true (segments.drop (zeroes.start + zeroes.len))
    else separated true segments

theorem segments_lt {value : Nat} (hvalue : value < 2 ^ 128) : ∀ g ∈ segments value, g < 65536 := by
  intro g hg
  simp only [segments, List.mem_cons, List.not_mem_nil, or_false] at hg
  omega

theorem groupsValue_segments (value : Nat) : groupsValue (segments value) = value := by
  simp only [groupsValue, segments, List.foldl_cons, List.foldl_nil]
  omega

/-- The groups of the span are all there, and zero. -/
def Span.Zeros (s : Span) (groups : List Nat) : Prop :=
  s.start + s.len ≤ groups.length ∧ ∀ j, s.start ≤ j → j < s.start + s.len → groups[j]? = some 0

theorem Span.zeros_empty (groups : List Nat) : Span.Zeros ⟨0, 0⟩ groups :=
  ⟨Nat.zero_le _, fun _ hlow hhigh => absurd hhigh (Nat.not_lt.mpr hlow)⟩

/-- What a span of zeros stands for. -/
theorem Span.Zeros.split {s : Span} {groups : List Nat} (h : s.Zeros groups) :
    groups = groups.take s.start ++ List.replicate s.len 0 ++ groups.drop (s.start + s.len) := by
  have hmiddle : (groups.drop s.start).take s.len = List.replicate s.len 0 := by
    rw [List.eq_replicate_iff]
    have hlength := h.1
    refine ⟨by rw [List.length_take, List.length_drop]; omega, fun g hg => ?_⟩
    obtain ⟨j, hj, rfl⟩ := List.mem_iff_getElem.mp hg
    rw [List.length_take, List.length_drop] at hj
    have hzero := h.2 (s.start + j) (by omega) (by omega)
    rw [List.getElem_take, List.getElem_drop]
    rw [List.getElem?_eq_getElem (by omega)] at hzero
    exact Option.some.inj hzero
  calc groups = groups.take s.start ++ groups.drop s.start := (List.take_append_drop _ _).symm
    _ = groups.take s.start ++ ((groups.drop s.start).take s.len ++
          (groups.drop s.start).drop s.len) :=
      congrArg (groups.take s.start ++ ·) (List.take_append_drop s.len _).symm
    _ = groups.take s.start ++ List.replicate s.len 0 ++ groups.drop (s.start + s.len) := by
      rw [hmiddle, List.drop_drop, List.append_assoc]

/-- **The longest run** is one of zeros. -/
theorem longestZeros_zeros {groups : List Nat} : ∀ (rest : List Nat) (i : Nat)
    (longest current : Span), groups.drop i = rest → longest.Zeros groups → current.Zeros groups →
      (current.len = 0 ∨ current.start + current.len = i) →
      (longestZeros rest i longest current).Zeros groups := by
  intro rest
  induction rest with
  | nil => exact fun i longest current _ hlongest _ _ => hlongest
  | cons segment rest ih =>
      intro i longest current hdrop hlongest hcurrent hend
      have hi : groups[i]? = some segment := by
        rw [← Nat.add_zero i, ← List.getElem?_drop, hdrop]
        rfl
      have hlt : i < groups.length := (List.getElem?_eq_some_iff.mp hi).1
      have hrest : groups.drop (i + 1) = rest := by
        rw [← List.drop_drop, hdrop]
        rfl
      rw [longestZeros]
      by_cases hzero : segment = 0
      · rw [if_pos hzero]
        rw [hzero] at hi
        have hnext : Span.Zeros ⟨if current.len = 0 then i else current.start, current.len + 1⟩
            groups := by
          refine ⟨?_, fun j hlow hhigh => ?_⟩
          · simp only
            split_ifs <;> omega
          · simp only at hlow hhigh
            by_cases hj : j = i
            · rw [hj, hi]
            · split_ifs at hlow hhigh
              · omega
              · exact hcurrent.2 j hlow (by omega)
        refine ih (i + 1) _ _ hrest ?_ hnext (Or.inr ?_)
        · by_cases hlonger : longest.len < current.len + 1
          · rw [if_pos hlonger]
            exact hnext
          · rw [if_neg hlonger]
            exact hlongest
        · simp only
          split_ifs <;> omega
      · rw [if_neg hzero]
        exact ih (i + 1) _ _ hrest hlongest (Span.zeros_empty groups) (Or.inl rfl)

/-- An IPv4 address ends the groups. -/
theorem readGroups_displayIpv4 (left : Nat) (first : Bool) {value : Nat} (hvalue : value < 2 ^ 32)
    {rest : List Char} (hrest : Stops 10 rest) :
    readGroups (left + 2) first ((if first then [] else [':']) ++ (displayIpv4 value ++ rest))
      = ([value / 65536, value % 65536], true, rest) := by
  rw [readGroups, if_pos (Nat.succ_pos left), readSeparator_first,
    readIpv4_displayIpv4 hvalue hrest]

/-- Two colons stand for the groups that are left out. -/
theorem readIpv6_colons {head tail : List Nat} {ipv4 : Bool} {cs cs' rest : List Char}
    (hhead : readGroups 8 true cs = (head, false, ':' :: ':' :: cs')) (hlength : head.length < 8)
    (htail : readGroups (7 - head.length) true cs' = (tail, ipv4, rest)) :
    readIpv6 cs = some (groupsValue (head ++ List.replicate (8 - head.length - tail.length) 0
      ++ tail), rest) := by
  unfold readIpv6
  rw [hhead]
  dsimp only
  rw [if_neg (Nat.ne_of_lt hlength), if_neg Bool.false_ne_true]
  simp only [htail]

theorem readIpv6_mapped {value : Nat} (hmapped : (segments value).take 6 = [0, 0, 0, 0, 0, 0xffff])
    {rest : List Char} (hrest : Stops 10 rest) :
    readIpv6 ("::ffff:".toList ++ displayIpv4 (value % 2 ^ 32) ++ rest) = some (value, rest) := by
  simp only [segments, List.take_succ_cons, List.take_zero, List.cons.injEq, and_true] at hmapped
  have htext : "::ffff:".toList ++ displayIpv4 (value % 2 ^ 32) ++ rest
      = ':' :: ':' :: (hex 0xffff ++ ':' :: (displayIpv4 (value % 2 ^ 32) ++ rest)) := by
    rw [List.append_assoc]
    rfl
  -- one group after the colons, and the address in place of the last two
  have haddr : readGroups 6 false (':' :: (displayIpv4 (value % 2 ^ 32) ++ rest))
      = ([value % 2 ^ 32 / 65536, value % 2 ^ 32 % 65536], true, rest) :=
    readGroups_displayIpv4 4 false (Nat.mod_lt _ (by decide)) hrest
  have htail : readGroups 7 true (hex 0xffff ++ ':' :: (displayIpv4 (value % 2 ^ 32) ++ rest))
      = ([0xffff, value % 2 ^ 32 / 65536, value % 2 ^ 32 % 65536], true, rest) := by
    have hbreaks : Breaks (':' :: (displayIpv4 (value % 2 ^ 32) ++ rest)) :=
      breaks_cons (by decide) _
    have hgroup := readGroups_hex 6 true (show 0xffff < 65536 by decide) hbreaks
    rw [haddr] at hgroup
    exact hgroup
  rw [htext, readIpv6_colons (readGroups_ends 8 true (ends_colons _)) (by decide) htail]
  simp only [groupsValue, List.nil_append, List.length_nil, List.length_cons, List.foldl_append,
    List.foldl_cons, List.foldl_nil, List.replicate, Option.some.injEq, Prod.mk.injEq, and_true]
  omega

/-- **An IPv6 address** is read as it was written. -/
theorem readIpv6_displayIpv6 {value : Nat} (hvalue : value < 2 ^ 128) {rest : List Char}
    (hrest : Ends rest) : readIpv6 (displayIpv6 value ++ rest) = some (value, rest) := by
  have hlt := segments_lt hvalue
  have hlength : (segments value).length = 8 := rfl
  have hsum := groupsValue_segments value
  unfold displayIpv6
  simp only
  by_cases hmapped : (segments value).take 6 = [0, 0, 0, 0, 0, 0xffff]
  · rw [if_pos hmapped]
    exact readIpv6_mapped hmapped hrest.1.stops_ten
  rw [if_neg hmapped]
  by_cases hlong : 1 < (longestZeros (segments value) 0 ⟨0, 0⟩ ⟨0, 0⟩).len
  -- a run of zeros is left out: the reader puts back as many as are missing
  · rw [if_pos hlong]
    have hempty := Span.zeros_empty (segments value)
    have hzeros : (longestZeros (segments value) 0 ⟨0, 0⟩ ⟨0, 0⟩).Zeros (segments value) :=
      longestZeros_zeros (segments value) 0 ⟨0, 0⟩ ⟨0, 0⟩ rfl hempty hempty (Or.inl rfl)
    generalize longestZeros (segments value) 0 ⟨0, 0⟩ ⟨0, 0⟩ = zeroes at hlong hzeros ⊢
    have hbound : zeroes.start + zeroes.len ≤ 8 := hzeros.1
    have hhead : ∀ g ∈ (segments value).take zeroes.start, g < 65536 :=
      fun g hg => hlt g (List.mem_of_mem_take hg)
    have htail : ∀ g ∈ (segments value).drop (zeroes.start + zeroes.len), g < 65536 :=
      fun g hg => hlt g (List.mem_of_mem_drop hg)
    have hheadLength : ((segments value).take zeroes.start).length = zeroes.start := by
      rw [List.length_take, hlength]
      omega
    have htailLength : ((segments value).drop (zeroes.start + zeroes.len)).length
        = 8 - (zeroes.start + zeroes.len) := by
      rw [List.length_drop, hlength]
    have hmiddle : 8 - zeroes.start - (8 - (zeroes.start + zeroes.len)) = zeroes.len := by omega
    have hread := readIpv6_colons
      (readGroups_separated hhead (ends_colons _) 8 true (by rw [hheadLength]; omega))
      (by rw [hheadLength]; omega)
      (readGroups_separated htail hrest _ true (by rw [hheadLength, htailLength]; omega))
    rw [hheadLength, htailLength, hmiddle, ← hzeros.split, hsum] at hread
    rw [List.append_assoc, List.cons_append, List.cons_append]
    exact hread
  · rw [if_neg hlong, readIpv6, readGroups_separated hlt hrest 8 true (Nat.le_of_eq hlength)]
    dsimp only
    rw [if_pos hlength, hsum]

/-- The text of an IPv6 address is not taken for one of an IPv4 address. -/
theorem readIpv4_displayIpv6 (value : Nat) {rest : List Char} (hrest : Breaks rest) :
    readIpv4 (displayIpv6 value ++ rest) = none := by
  have hgroups : ∀ (groups : List Nat) {rest : List Char}, Breaks rest →
      readIpv4 (separated true groups ++ rest) = none := by
    intro groups rest hrest
    cases groups with
    | nil => exact readIpv4_breaks hrest
    | cons group groups =>
        rw [separated, List.append_assoc, List.append_assoc]
        exact readIpv4_hex group (breaks_separated groups hrest)
  unfold displayIpv6
  simp only
  split_ifs with hmapped hlong
  · rw [List.append_assoc]
    exact readIpv4_breaks (breaks_cons (c := ':') (by decide) _)
  · rw [List.append_assoc, List.cons_append]
    exact hgroups _ (breaks_cons (by decide) _)
  · exact hgroups _ hrest

/-! ## Addresses -/

/-- `Display` of an address. -/
def displayIp : Ip → List Char
  | .v4 value => displayIpv4 value
  | .v6 value => displayIpv6 value

/-- The address has no more bits than its kind. -/
def Ip.Valid : Ip → Prop
  | .v4 value => value < 2 ^ 32
  | .v6 value => value < 2 ^ 128

/-- **An address** is read as it was written. -/
theorem parseIp_displayIp {ip : Ip} (h : ip.Valid) : parseIp (displayIp ip) = some ip := by
  unfold parseIp
  cases ip with
  | v4 value =>
      have hvalue : value < 2 ^ 32 := h
      have hread := readIpv4_displayIpv4 hvalue breaks_nil.stops_ten
      rw [List.append_nil] at hread
      rw [displayIp, hread]
  | v6 value =>
      have hnone := readIpv4_displayIpv6 value breaks_nil
      have hvalue : value < 2 ^ 128 := h
      have hread := readIpv6_displayIpv6 hvalue ends_nil
      rw [List.append_nil] at hnone hread
      rw [displayIp, hnone, hread]
      rfl

/-! ## Socket addresses -/

/-- A socket address; one of IPv6 also has a flow label and a scope. -/
inductive Socket where
  | v4 (ip port : Nat)
  | v6 (ip port flowinfo scopeId : Nat)
  deriving DecidableEq, Repr

/-- `Display` of a socket address: the flow label is not written, nor is a scope of zero. -/
def displaySocket : Socket → List Char
  | .v4 ip port => displayIpv4 ip ++ ':' :: decimal port
  | .v6 ip port _ scopeId =>
      '[' :: (displayIpv6 ip ++ ((if scopeId = 0 then [] else '%' :: decimal scopeId) ++
        ']' :: ':' :: decimal port))

/-- `read_given_char`. -/
def readGivenChar (c : Char) (cs : List Char) : Option (List Char) :=
  match cs with
  | c' :: cs => if c' = c then some cs else none
  | [] => none

/-- `read_number` without a limit on the digits. -/
def readDecimal (bound : Nat) : Parser Nat := fun cs => readNumber 10 cs.length bound true cs

/-- `read_port`. -/
def readPort : Parser Nat := fun cs => (readGivenChar ':' cs).bind (readDecimal (2 ^ 16))

/-- `read_scope_id`. -/
def readScopeId : Parser Nat := fun cs => (readGivenChar '%' cs).bind (readDecimal (2 ^ 32))

/-- `read_socket_addr_v4`. -/
def readSocketV4 : Parser Socket := fun cs =>
  (readIpv4 cs).bind fun (ip, cs) => (readPort cs).map fun (port, cs) => (.v4 ip port, cs)

/-- `read_socket_addr_v6`. -/
def readSocketV6 : Parser Socket := fun cs =>
  (readGivenChar '[' cs).bind fun cs =>
    (readIpv6 cs).bind fun (ip, cs) =>
      let (scopeId, cs) := (readScopeId cs).getD (0, cs)
      (readGivenChar ']' cs).bind fun cs =>
        (readPort cs).map fun (port, cs) => (.v6 ip port 0 scopeId, cs)

/-- `str::parse::<SocketAddr>`. -/
def parseSocket (cs : List Char) : Option Socket :=
  match (readSocketV4 cs).or (readSocketV6 cs) with
  | some (socket, []) => some socket
  | _ => none

/-- The fields have no more bits than their types. -/
def Socket.Valid : Socket → Prop
  | .v4 ip port => ip < 2 ^ 32 ∧ port < 2 ^ 16
  | .v6 ip port _ scopeId => ip < 2 ^ 128 ∧ port < 2 ^ 16 ∧ scopeId < 2 ^ 32

/-- What the text says of the address. -/
def Socket.unlabelled : Socket → Socket
  | .v4 ip port => .v4 ip port
  | .v6 ip port _ scopeId => .v6 ip port 0 scopeId

@[simp] theorem readGivenChar_cons (c : Char) (cs : List Char) :
    readGivenChar c (c :: cs) = some cs := if_pos rfl

theorem readGivenChar_ne {c c' : Char} (h : c' ≠ c) (cs : List Char) :
    readGivenChar c (c' :: cs) = none := if_neg h

theorem readDecimal_decimal {n bound : Nat} (hn : n < bound) {rest : List Char}
    (hrest : Stops 10 rest) : readDecimal bound (decimal n ++ rest) = some (n, rest) := by
  refine readNumber_toDigits (Or.inl rfl) true hn ?_ hrest
  rw [List.length_append, decimal]
  exact Nat.le_add_right _ _

theorem readPort_decimal {port : Nat} (hport : port < 2 ^ 16) :
    readPort (':' :: decimal port) = some (port, []) := by
  rw [readPort, readGivenChar_cons, Option.bind_some, ← List.append_nil (decimal port)]
  exact readDecimal_decimal hport (by rintro c ⟨⟩)

theorem readScopeId_decimal {scopeId : Nat} (hscope : scopeId < 2 ^ 32) (rest : List Char) :
    (readScopeId ((if scopeId = 0 then [] else '%' :: decimal scopeId) ++ ']' :: rest)).getD
      (0, (if scopeId = 0 then [] else '%' :: decimal scopeId) ++ ']' :: rest)
      = (scopeId, ']' :: rest) := by
  by_cases hzero : scopeId = 0
  · rw [if_pos hzero, hzero, List.nil_append, readScopeId, readGivenChar_ne (by decide)]
    rfl
  · rw [if_neg hzero, List.cons_append, readScopeId, readGivenChar_cons, Option.bind_some,
      readDecimal_decimal hscope (stops_cons (by decide) rest)]
    rfl

/-- **A socket address** is read as it was written, but for its flow label. -/
theorem parseSocket_displaySocket {s : Socket} (h : s.Valid) :
    parseSocket (displaySocket s) = some s.unlabelled := by
  cases s with
  | v4 ip port =>
      have hread : readSocketV4 (displaySocket (.v4 ip port)) = some (.v4 ip port, []) := by
        rw [displaySocket, readSocketV4, readIpv4_displayIpv4 h.1 (stops_cons (by decide) _),
          Option.bind_some]
        dsimp only
        rw [readPort_decimal h.2, Option.map_some]
      rw [parseSocket, hread]
      rfl
  | v6 ip port flowinfo scopeId =>
      obtain ⟨hip, hport, hscope⟩ := h
      -- a bracket is no digit
      have hnone : readSocketV4 (displaySocket (.v6 ip port flowinfo scopeId)) = none := by
        rw [displaySocket, readSocketV4, readIpv4_breaks (breaks_cons (by decide) _)]
        rfl
      have hends : Ends ((if scopeId = 0 then [] else '%' :: decimal scopeId) ++
          ']' :: ':' :: decimal port) := by
        split_ifs
        · exact ends_cons (by decide) (by decide) _
        · exact ends_cons (by decide) (by decide) _
      have hread : readSocketV6 (displaySocket (.v6 ip port flowinfo scopeId))
          = some (.v6 ip port 0 scopeId, []) := by
        rw [displaySocket, readSocketV6, readGivenChar_cons, Option.bind_some,
          readIpv6_displayIpv6 hip hends, Option.bind_some]
        dsimp only
        rw [readScopeId_decimal hscope]
        dsimp only
        rw [readGivenChar_cons, Option.bind_some, readPort_decimal hport, Option.map_some]
      rw [parseSocket, hnone, hread]
      rfl

example : displayIpv6 0xff120000000000000000000080000001 = "ff12::8000:1".toList := by
  decide +kernel

end AddrText
