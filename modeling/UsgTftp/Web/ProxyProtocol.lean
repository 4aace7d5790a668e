import UsgTftp.Lib.AddrText
import UsgTftp.Lib.ByteStream
import UsgTftp.Lib.Utf8
import UsgTftp.Server.Config

set_option autoImplicit false

/-! # PROXY protocol headers

`src/web/proxy_protocol.rs`. A connection begins with a header that gives the address of the
client, in a binary form (version 2) or as a line of text (version 1). It is read from a stream
that may arrive in any pieces, the line with a look ahead that a first piece may fail.

What is read and what is left depends on the data of the stream only (`read_proxy_header_iff`).
-/

namespace UsgTftp

/-! ## The parts of a header -/

abbrev TcpStream := ByteStream UInt8

/-- `"\r\n\r\n\0\r\nQUIT\n"`. -/
def v2Signature : Bytes := [13, 10, 13, 10, 0, 13, 10, 81, 85, 73, 84, 10]

/-- `"PROXY "`. -/
def v1Prefix : Bytes := [80, 82, 79, 88, 89, 32]

def maxV2AddrLen : Nat := 512

def lineFeed : UInt8 := 10

/-- `u16::from_be_bytes`. -/
def fromBeBytes (hi lo : UInt8) : UInt16 := UInt16.ofNat (hi.toNat * 256 + lo.toNat)

/-- The number that these octets make. -/
def octetsValue (octets : Bytes) : Nat := octets.foldl (fun v b => v * 256 + b.toNat) 0

/-- The source in the address data of family 1. -/
def ipv4Source (addrData : Bytes) : SocketAddr :=
  ⟨.v4 (BitVec.ofNat 32 (octetsValue (addrData.take 4))),
    fromBeBytes (addrData.getD 8 0) (addrData.getD 9 0)⟩

/-- The source in the address data of family 2. -/
def ipv6Source (addrData : Bytes) : SocketAddr :=
  ⟨.v6 (BitVec.ofNat 128 (octetsValue (addrData.take 16))),
    fromBeBytes (addrData.getD 32 0) (addrData.getD 33 0)⟩

/-- `str::trim`. -/
def trim (cs : List Char) : List Char := (cs.dropWhile isWhitespace).rdropWhile isWhitespace

/-- `str::parse::<IpAddr>`. -/
def parseIpAddr (cs : List Char) : Option IpAddr :=
  (AddrText.parseIp cs).map fun
    | .v4 value => .v4 (BitVec.ofNat 32 value)
    | .v6 value => .v6 (BitVec.ofNat 128 value)

/-- Decimal digits, with a value below `2 ^ 16`. -/
def decimalU16 (digits : List Char) : Option UInt16 :=
  if digits ≠ [] ∧ digits.all Char.isDigit ∧ Nat.ofDigitChars 10 digits 0 < 2 ^ 16 then
    some (UInt16.ofNat (Nat.ofDigitChars 10 digits 0))
  else none

/-- `str::parse::<u16>`: the digits after an optional plus sign. -/
def parseU16 (cs : List Char) : Option UInt16 :=
  decimalU16 (match cs with
    | '+' :: rest => rest
    | cs => cs)

/-- The fields of a line. -/
def v1Parts (header : Bytes) : List (List Char) := (trim (Utf8.lossy header)).splitOn ' '

/-- The end of `read_v1`. -/
def v1Source (header : Bytes) : Option SocketAddr :=
  let parts := v1Parts header
  if parts.length < 6 then none
  else
    (parseIpAddr (parts.getD 2 [])).bind fun srcIp =>
      (parseU16 (parts.getD 4 [])).map fun srcPort => ⟨srcIp, srcPort⟩

/-! ## Reading -/

def discard (stream : TcpStream) (remaining : Nat) : TcpStream :=
  if remaining = 0 then stream
  else
    let toRead := min remaining 256
    match stream.readExact toRead with
    | (none, stream) => stream
    | (some _, stream) => discard stream (remaining - toRead)
termination_by remaining
decreasing_by omega

/-- A branch of `read_v2`: the address data, and what follows them up to `len`. -/
def readAddrData (stream : TcpStream) (len n : Nat) (source : Bytes → SocketAddr) :
    Option SocketAddr × TcpStream :=
  if len < n then (none, discard stream len)
  else
    match stream.readExact n with
    | (none, stream) => (none, stream)
    | (some addrData, stream) =>
        (some (source addrData), if len > n then discard stream (len - n) else stream)

def readV2 (stream : TcpStream) : Option SocketAddr × TcpStream :=
  match stream.readExact 4 with
  | (none, stream) => (none, stream)
  | (some rest, stream) =>
      let verCmd := rest.getD 0 0
      let famProto := rest.getD 1 0
      let len := (fromBeBytes (rest.getD 2 0) (rest.getD 3 0)).toNat
      if verCmd >>> 4 ≠ 2 then (none, discard stream len)
      else if len > maxV2AddrLen then (none, discard stream len)
      else if verCmd &&& 0x0F ≠ 1 then (none, discard stream len)
      else if famProto >>> 4 = 1 then readAddrData stream len 12 ipv4Source
      else if famProto >>> 4 = 2 then readAddrData stream len 36 ipv6Source
      else (none, discard stream len)

/-- The loop of `read_v1`, which reads one byte after the other. -/
def readBytes (stream : TcpStream) (header : Bytes) : Option Bytes × TcpStream :=
  match stream.readExact 1 with
  | (none, stream) => (none, stream)
  | (some byte, stream) =>
      let header := header ++ [byte.getD 0 0]
      if byte.getD 0 0 = lineFeed then (some header, stream)
      else if header.length > 107 then (none, stream)
      else readBytes stream header
termination_by 108 - header.length
decreasing_by
  rename_i hlen
  simp only [header, List.length_append, List.length_singleton] at hlen ⊢
  omega

/-- The line that `read_v1` reads. -/
def readLine (stream : TcpStream) (initial : Bytes) : Option Bytes × TcpStream :=
  let (peeked, stream) := stream.peek 96
  if peeked = [] then (none, stream)
  else
    match peeked.findIdx? (· = lineFeed) with
    | some pos =>
        match stream.readExact (pos + 1) with
        | (none, stream) => (none, stream)
        | (some buf, stream) => (some (initial ++ buf), stream)
    | none =>
        if initial.length + peeked.length > 107 then (none, stream)
        else readBytes stream initial

def readV1 (stream : TcpStream) (initial : Bytes) : Option SocketAddr × TcpStream :=
  match readLine stream initial with
  | (none, stream) => (none, stream)
  | (some header, stream) => (v1Source header, stream)

/-- `read_proxy_header_inner`, which is `read_proxy_header` unless the time is up. -/
def readProxyHeader (stream : TcpStream) : Option SocketAddr × TcpStream :=
  match stream.readExact 12 with
  | (none, stream) => (none, stream)
  | (some initial, stream) =>
      if initial = v2Signature then readV2 stream
      else if initial.take 6 = v1Prefix then readV1 stream initial
      else (none, stream)

/-! ## What is read -/

theorem discard_data (remaining : Nat) (stream : TcpStream) :
    (discard stream remaining).data = stream.data.drop remaining := by
  induction remaining using Nat.strong_induction_on generalizing stream with
  | _ remaining ih =>
      rw [discard]
      by_cases hz : remaining = 0
      · simp [hz]
      · rw [if_neg hz]
        simp only
        have hread := ByteStream.readExact_eq (min remaining 256) stream
        generalize stream.readExact (min remaining 256) = next at hread ⊢
        obtain ⟨got, rest⟩ := next
        simp only at hread
        obtain ⟨rfl, hrest⟩ := hread
        by_cases hlen : min remaining 256 ≤ stream.data.length
        · simp only [if_pos hlen]
          rw [ih (remaining - min remaining 256) (by omega) rest, hrest, List.drop_drop,
            Nat.add_sub_cancel' (min_le_left _ _)]
        · -- the stream has ended
          simp only [if_neg hlen]
          rw [hrest, List.drop_eq_nil_of_le (by omega), List.drop_eq_nil_of_le (by omega)]

theorem readAddrData_eq (stream : TcpStream) {len n : Nat} (hlen : n ≤ len)
    (source : Bytes → SocketAddr) :
    (readAddrData stream len n source).1
        = (if n ≤ stream.data.length then some (source (stream.data.take n)) else none) ∧
      (readAddrData stream len n source).2.data = stream.data.drop len := by
  rw [readAddrData, if_neg (Nat.not_lt_of_le hlen)]
  have hread := ByteStream.readExact_eq n stream
  generalize stream.readExact n = next at hread ⊢
  obtain ⟨got, rest⟩ := next
  simp only at hread
  obtain ⟨rfl, hrest⟩ := hread
  by_cases hdata : n ≤ stream.data.length
  · simp only [if_pos hdata, true_and]
    by_cases hmore : len > n
    · rw [if_pos hmore, discard_data, hrest, List.drop_drop, Nat.add_sub_cancel' hlen]
    · rw [if_neg hmore, hrest, Nat.le_antisymm hlen (Nat.le_of_not_lt hmore)]
  · simp only [if_neg hdata, true_and]
    rw [hrest, List.drop_eq_nil_of_le (by omega), List.drop_eq_nil_of_le (by omega)]

/-- The address data of a header, after the bytes up to its length, with `n` bytes of them. -/
def v2Address (data : Bytes) (len n : Nat) (source : Bytes → SocketAddr) :
    Option (SocketAddr × Nat) :=
  if n ≤ len ∧ n + 4 ≤ data.length then some (source ((data.drop 4).take n), 4 + len) else none

/-- What the data after the signature give: a source, and the length of the rest of the header. -/
def v2Source (data : Bytes) : Option (SocketAddr × Nat) :=
  let len := (fromBeBytes (data.getD 2 0) (data.getD 3 0)).toNat
  if 4 ≤ data.length ∧ data.getD 0 0 >>> 4 = 2 ∧ len ≤ maxV2AddrLen ∧
      data.getD 0 0 &&& 0x0F = 1 then
    if data.getD 1 0 >>> 4 = 1 then v2Address data len 12 ipv4Source
    else if data.getD 1 0 >>> 4 = 2 then v2Address data len 36 ipv6Source
    else none
  else none

/-- What has been read of the data, and that the rest of the stream is what comes after it. -/
structure ReadsFrom {α : Type} (out : Option α × TcpStream) (data : Bytes)
    (read : Option (α × Nat)) : Prop where
  result : out.1 = read.map (·.1)
  rest : ∀ a n, read = some (a, n) → out.2.data = data.drop n

theorem readsFrom_none {α : Type} {stream : TcpStream} {data : Bytes} :
    ReadsFrom ((none : Option α), stream) data none :=
  ⟨rfl, fun _ _ h => by cases h⟩

theorem readsFrom_some {α : Type} {stream : TcpStream} {data : Bytes} (a : α) {n : Nat}
    (h : stream.data = data.drop n) : ReadsFrom (some a, stream) data (some (a, n)) :=
  ⟨rfl, fun _ _ heq => by cases heq; exact h⟩

theorem readAddrData_reads {data : Bytes} {stream : TcpStream} (hstream : stream.data = data.drop 4)
    (len n : Nat) (hn : 0 < n) (source : Bytes → SocketAddr) :
    ReadsFrom (readAddrData stream len n source) data (v2Address data len n source) := by
  by_cases hlen : n ≤ len
  · obtain ⟨hsource, hrest⟩ := readAddrData_eq stream hlen source
    rw [hstream, List.length_drop] at hsource
    rw [hstream, List.drop_drop] at hrest
    by_cases hdata : n + 4 ≤ data.length
    · rw [if_pos (by omega)] at hsource
      rw [v2Address, if_pos ⟨hlen, hdata⟩]
      refine ⟨hsource, fun addr k h => ?_⟩
      cases h
      exact hrest
    · rw [if_neg (by omega)] at hsource
      rw [v2Address, if_neg fun h => hdata h.2]
      exact ⟨hsource, fun _ _ h => by cases h⟩
  · rw [readAddrData, if_pos (Nat.lt_of_not_le hlen), v2Address, if_neg fun h => hlen h.1]
    exact readsFrom_none

theorem readV2_reads (stream : TcpStream) :
    ReadsFrom (readV2 stream) stream.data (v2Source stream.data) := by
  rw [readV2, v2Source]
  have hread := ByteStream.readExact_eq 4 stream
  generalize stream.readExact 4 = next at hread ⊢
  obtain ⟨got, rest⟩ := next
  simp only at hread
  obtain ⟨rfl, hrest⟩ := hread
  by_cases hdata : 4 ≤ stream.data.length
  · have hget : ∀ i < 4, (stream.data.take 4).getD i 0 = stream.data.getD i 0 := by
      intro i hi
      simp [List.getD_eq_getElem?_getD, hi]
    rw [if_pos hdata]
    simp only [hget 0 (by decide), hget 1 (by decide), hget 2 (by decide), hget 3 (by decide)]
    by_cases hversion : stream.data.getD 0 0 >>> 4 = 2
    · by_cases hlen : (fromBeBytes (stream.data.getD 2 0) (stream.data.getD 3 0)).toNat
          ≤ maxV2AddrLen
      · by_cases hcommand : stream.data.getD 0 0 &&& 0x0F = 1
        · have hheader := And.intro hdata (And.intro hversion (And.intro hlen hcommand))
          rw [if_neg (not_not_intro hversion), if_neg (Nat.not_lt_of_le hlen),
            if_neg (not_not_intro hcommand), if_pos hheader]
          by_cases h1 : stream.data.getD 1 0 >>> 4 = 1
          · rw [if_pos h1, if_pos h1]
            exact readAddrData_reads hrest _ 12 (by decide) ipv4Source
          · rw [if_neg h1, if_neg h1]
            by_cases h2 : stream.data.getD 1 0 >>> 4 = 2
            · rw [if_pos h2, if_pos h2]
              exact readAddrData_reads hrest _ 36 (by decide) ipv6Source
            · rw [if_neg h2, if_neg h2]
              exact readsFrom_none
        · rw [if_neg (not_not_intro hversion), if_neg (Nat.not_lt_of_le hlen), if_pos hcommand,
            if_neg fun h => hcommand h.2.2.2]
          exact readsFrom_none
      · rw [if_neg (not_not_intro hversion), if_pos (Nat.lt_of_not_le hlen),
          if_neg fun h => hlen h.2.2.1]
        exact readsFrom_none
    · rw [if_pos hversion, if_neg fun h => hversion h.2.1]
      exact readsFrom_none
  · rw [if_neg hdata, if_neg fun h => hdata h.1]
    exact readsFrom_none

/-- The line that begins with `header` and ends among the next `room` bytes of the data. -/
def lineFrom (header data : Bytes) (room : Nat) : Option (Bytes × Nat) :=
  ((data.take room).findIdx? (· = lineFeed)).map fun pos =>
    (header ++ data.take (pos + 1), pos + 1)

theorem lineFrom_cons_of_ne {b : UInt8} (hb : b ≠ lineFeed) (header data : Bytes) (room : Nat) :
    lineFrom header (b :: data) (room + 1)
      = (lineFrom (header ++ [b]) data room).map fun r => (r.1, r.2 + 1) := by
  rw [lineFrom, lineFrom, List.take_succ_cons, List.findIdx?_cons]
  simp only [hb, decide_false, Bool.false_eq_true, if_false, Option.map_map]
  congr 1
  funext pos
  simp

/-- One byte of the loop. -/
theorem readBytes_cons {stream : TcpStream} {b : UInt8} {data : Bytes}
    (hdata : stream.data = b :: data) (header : Bytes) :
    ∃ rest : TcpStream, rest.data = data ∧ readBytes stream header =
      if b = lineFeed then (some (header ++ [b]), rest)
      else if (header ++ [b]).length > 107 then (none, rest)
      else readBytes rest (header ++ [b]) := by
  obtain ⟨hgot, hrest⟩ := ByteStream.readExact_eq 1 stream
  rw [hdata] at hgot hrest
  refine ⟨(stream.readExact 1).2, hrest, ?_⟩
  rw [readBytes]
  generalize stream.readExact 1 = next at hgot
  obtain ⟨got, rest⟩ := next
  simp only [List.length_cons, Nat.le_add_left, if_true, List.take_succ_cons, List.take_zero]
    at hgot
  subst hgot
  rfl

theorem readBytes_nil {stream : TcpStream} (hdata : stream.data = []) (header : Bytes) :
    (readBytes stream header).1 = none := by
  obtain ⟨hgot, -⟩ := ByteStream.readExact_eq 1 stream
  rw [hdata] at hgot
  rw [readBytes]
  generalize stream.readExact 1 = next at hgot
  obtain ⟨got, rest⟩ := next
  obtain rfl : got = none := hgot
  rfl

/-- What the loop does after one byte decides what it reads. -/
theorem readBytes_reads_of {room : Nat} {header : Bytes}
    (hmore : ∀ (b : UInt8) (rest : TcpStream), b ≠ lineFeed →
      ReadsFrom
        (if (header ++ [b]).length > 107 then (none, rest) else readBytes rest (header ++ [b]))
        (b :: rest.data) (lineFrom header (b :: rest.data) (room + 1)))
    (stream : TcpStream) :
    ReadsFrom (readBytes stream header) stream.data (lineFrom header stream.data (room + 1)) := by
  cases hdata : stream.data with
  | nil => exact ⟨readBytes_nil hdata header, fun _ _ h => by cases h⟩
  | cons b data =>
      obtain ⟨rest, rfl, hread⟩ := readBytes_cons hdata header
      rw [hread]
      by_cases hb : b = lineFeed
      · subst hb
        rw [if_pos rfl]
        exact readsFrom_some _ rfl
      · rw [if_neg hb]
        exact hmore b rest hb

/-- **The loop** reads up to the first line feed among the bytes that there is room for. -/
theorem readBytes_reads {room : Nat} {header : Bytes} (hroom : header.length + (room + 1) = 108)
    (stream : TcpStream) :
    ReadsFrom (readBytes stream header) stream.data (lineFrom header stream.data (room + 1)) := by
  induction room generalizing header stream with
  | zero =>
      refine readBytes_reads_of (fun b rest hb => ?_) stream
      rw [if_pos (by rw [List.length_append, List.length_singleton]; omega),
        lineFrom_cons_of_ne hb]
      exact readsFrom_none
  | succ room ih =>
      refine readBytes_reads_of (fun b rest hb => ?_) stream
      have hlength : (header ++ [b]).length = header.length + 1 := by simp
      rw [if_neg (by rw [hlength]; omega), lineFrom_cons_of_ne hb]
      obtain ⟨hresult, hrest⟩ := @ih (header ++ [b]) (by rw [hlength]; omega) rest
      refine ⟨by rw [hresult, Option.map_map]; rfl, fun line n h => ?_⟩
      obtain ⟨⟨line', n'⟩, hline, heq⟩ := Option.map_eq_some_iff.mp h
      cases heq
      rw [hrest line' n' hline]
      rfl

/-- What has been peeked at decides nothing else than what the loop would. -/
theorem readLine_reads {initial : Bytes} (hinitial : initial.length = 12) (stream : TcpStream) :
    ReadsFrom (readLine stream initial) stream.data (lineFrom initial stream.data 96) := by
  rw [readLine]
  have hpeek : (stream.peek 96).1 = stream.data.take (stream.arrived 96) := rfl
  have hrest : (stream.peek 96).2.data = stream.data := rfl
  have hle := stream.arrived_le 96
  have hlen := stream.arrived_le_length 96
  have hzero := @ByteStream.arrived_eq_zero _ stream 96
  generalize stream.arrived 96 = n at hpeek hle hlen hzero
  generalize stream.peek 96 = next at hpeek hrest ⊢
  obtain ⟨peeked, stream'⟩ := next
  simp only at hpeek hrest ⊢
  subst hpeek
  rw [← hrest] at hlen hzero ⊢
  by_cases hempty : stream'.data.take n = []
  · -- nothing is there only at the end of the stream
    have hend : stream'.data = [] := by
      rcases List.take_eq_nil_iff.mp hempty with hn | hnil
      · exact (hzero.mp hn).resolve_left (by decide)
      · exact hnil
    rw [if_pos hempty, hend]
    exact readsFrom_none
  · rw [if_neg hempty]
    have htake : stream'.data.take 96
        = stream'.data.take n ++ (stream'.data.drop n).take (96 - n) := by
      rw [← List.take_add, Nat.add_sub_cancel' hle]
    cases hfind : (stream'.data.take n).findIdx? (· = lineFeed) with
    | some pos =>
        have hpos : pos < n := by
          have := (List.findIdx?_eq_some_iff_findIdx_eq.mp hfind).1
          rw [List.length_take] at this
          omega
        have hline : lineFrom initial stream'.data 96
            = some (initial ++ stream'.data.take (pos + 1), pos + 1) := by
          rw [lineFrom, htake, List.findIdx?_append, hfind]
          rfl
        simp only
        have hread := ByteStream.readExact_eq (pos + 1) stream'
        generalize stream'.readExact (pos + 1) = next at hread ⊢
        obtain ⟨got, rest⟩ := next
        obtain ⟨hgot, hdrop⟩ := hread
        simp only at hgot hdrop
        rw [if_pos (by omega)] at hgot
        subst hgot
        rw [hline]
        exact readsFrom_some _ hdrop
    | none =>
        simp only
        by_cases hlong : initial.length + (stream'.data.take n).length > 107
        · rw [List.length_take, hinitial] at hlong
          obtain rfl : n = 96 := by omega
          rw [if_pos (by rw [List.length_take, hinitial]; omega), lineFrom, hfind]
          exact readsFrom_none
        · rw [if_neg hlong]
          exact readBytes_reads (by rw [hinitial]) stream'

/-- What the data of a stream give: a source, and the length of the header. -/
def headerOf (data : Bytes) : Option (SocketAddr × Nat) :=
  if 12 ≤ data.length then
    if data.take 12 = v2Signature then (v2Source (data.drop 12)).map fun r => (r.1, 12 + r.2)
    else if data.take 6 = v1Prefix then
      (lineFrom (data.take 12) (data.drop 12) 96).bind fun r =>
        (v1Source r.1).map fun addr => (addr, 12 + r.2)
    else none
  else none

theorem ReadsFrom.after {α : Type} {out : Option α × TcpStream} {data : Bytes} {k : Nat}
    {read : Option (α × Nat)} (h : ReadsFrom out (data.drop k) read) :
    ReadsFrom out data (read.map fun r => (r.1, k + r.2)) := by
  refine ⟨by rw [h.result, Option.map_map]; rfl, fun a n heq => ?_⟩
  obtain ⟨⟨a', n'⟩, hread, heq⟩ := Option.map_eq_some_iff.mp heq
  cases heq
  rw [h.rest a' n' hread, List.drop_drop]

theorem readV1_reads {initial : Bytes} (hinitial : initial.length = 12) (stream : TcpStream) :
    ReadsFrom (readV1 stream initial) stream.data
      ((lineFrom initial stream.data 96).bind fun r =>
        (v1Source r.1).map fun addr => (addr, r.2)) := by
  obtain ⟨hresult, hrest⟩ := readLine_reads hinitial stream
  rw [readV1]
  generalize readLine stream initial = next at hresult hrest ⊢
  obtain ⟨line, stream'⟩ := next
  simp only at hresult hrest
  subst hresult
  cases hline : lineFrom initial stream.data 96 with
  | none => exact readsFrom_none
  | some r =>
      obtain ⟨header, n⟩ := r
      refine ⟨by cases hsource : v1Source header <;> simp [hsource], fun addr k heq => ?_⟩
      obtain ⟨addr', -, heq⟩ := Option.map_eq_some_iff.mp heq
      cases heq
      exact hrest header n hline

/-- **Headers** are read from the data alone. -/
theorem readProxyHeader_reads (stream : TcpStream) :
    ReadsFrom (readProxyHeader stream) stream.data (headerOf stream.data) := by
  rw [readProxyHeader, headerOf]
  have hread := ByteStream.readExact_eq 12 stream
  generalize stream.readExact 12 = next at hread ⊢
  obtain ⟨got, rest⟩ := next
  simp only at hread
  obtain ⟨rfl, hrest⟩ := hread
  by_cases hdata : 12 ≤ stream.data.length
  · rw [if_pos hdata, if_pos hdata, ← hrest]
    simp only
    by_cases hv2 : stream.data.take 12 = v2Signature
    · rw [if_pos hv2, if_pos hv2]
      have h := readV2_reads rest
      nth_rewrite 1 [hrest] at h
      exact h.after
    · rw [if_neg hv2, if_neg hv2, List.take_take, min_eq_left (by decide)]
      by_cases hv1 : stream.data.take 6 = v1Prefix
      · rw [if_pos hv1, if_pos hv1]
        have hinitial : (stream.data.take 12).length = 12 := by
          rw [List.length_take, min_eq_left hdata]
        have h := readV1_reads hinitial rest
        nth_rewrite 1 [hrest] at h
        have hall := h.after
        rw [Option.map_bind] at hall
        simpa only [Function.comp_def, Option.map_map] using hall
      · rw [if_neg hv1, if_neg hv1]
        exact readsFrom_none
  · rw [if_neg hdata, if_neg hdata]
    exact readsFrom_none

/-! ## Headers -/

/-- The bytes of a header of version 2 that say what it is. -/
structure V2Header (data : Bytes) (len : Nat) : Prop where
  signature : data.take 12 = v2Signature
  version : data.getD 12 0 >>> 4 = 2
  command : data.getD 12 0 &&& 0x0F = 1
  len_eq : (fromBeBytes (data.getD 14 0) (data.getD 15 0)).toNat = len
  len_le : len ≤ maxV2AddrLen

/-- **A header** of `n` bytes at the head of the data, and the address that it gives. The data may
end after the address. -/
inductive ProxyHeader (data : Bytes) : Nat → SocketAddr → Prop where
  | v2Ipv4 {len : Nat} (header : V2Header data len) (family : data.getD 13 0 >>> 4 = 1)
      (hlen : 12 ≤ len) (hdata : 28 ≤ data.length) :
      ProxyHeader data (16 + len) (ipv4Source ((data.drop 16).take 12))
  | v2Ipv6 {len : Nat} (header : V2Header data len) (family : data.getD 13 0 >>> 4 = 2)
      (hlen : 36 ≤ len) (hdata : 52 ≤ data.length) :
      ProxyHeader data (16 + len) (ipv6Source ((data.drop 16).take 36))
  /-- A line that ends at the first line feed from byte 12 on. -/
  | v1 {i : Nat} {addr : SocketAddr} (first : data.take 6 = v1Prefix) (hi : 12 ≤ i)
      (hmax : i ≤ 107) (hend : data[i]? = some lineFeed)
      (hline : ∀ j, 12 ≤ j → j < i → data[j]? ≠ some lineFeed)
      (hsource : v1Source (data.take (i + 1)) = some addr) : ProxyHeader data (i + 1) addr

theorem getD_drop (data : Bytes) (k i : Nat) : (data.drop k).getD i 0 = data.getD (k + i) 0 := by
  simp [List.getD_eq_getElem?_getD]

theorem v2Address_eq_some {data : Bytes} {len n m : Nat} {source : Bytes → SocketAddr}
    {addr : SocketAddr} :
    v2Address data len n source = some (addr, m) ↔
      n ≤ len ∧ n + 4 ≤ data.length ∧ source ((data.drop 4).take n) = addr ∧ 4 + len = m := by
  unfold v2Address
  split_ifs with h
  · simp [h]
  · simp only [false_iff]
    tauto

theorem headerOf_v2 {data : Bytes} {n : Nat} {addr : SocketAddr} (h12 : 12 ≤ data.length)
    (hv2 : data.take 12 = v2Signature) :
    headerOf data = some (addr, n) ↔ ProxyHeader data n addr := by
  rw [headerOf, if_pos h12, if_pos hv2]
  constructor
  · intro h
    obtain ⟨⟨addr', m⟩, hsource, heq⟩ := Option.map_eq_some_iff.mp h
    cases heq
    rw [v2Source] at hsource
    simp only [getD_drop] at hsource
    split_ifs at hsource with hhead hfamily hfamily
    · obtain ⟨-, hversion, hlen, hcommand⟩ := hhead
      obtain ⟨hmin, hdata, rfl, rfl⟩ := v2Address_eq_some.mp hsource
      rw [List.length_drop] at hdata
      rw [← Nat.add_assoc, List.drop_drop]
      exact .v2Ipv4 ⟨hv2, hversion, hcommand, rfl, hlen⟩ hfamily hmin (by omega)
    · obtain ⟨-, hversion, hlen, hcommand⟩ := hhead
      obtain ⟨hmin, hdata, rfl, rfl⟩ := v2Address_eq_some.mp hsource
      rw [List.length_drop] at hdata
      rw [← Nat.add_assoc, List.drop_drop]
      exact .v2Ipv6 ⟨hv2, hversion, hcommand, rfl, hlen⟩ hfamily hmin (by omega)
  · intro h
    rw [v2Source]
    simp only [getD_drop, List.length_drop]
    cases h with
    | @v2Ipv4 len hheader hfamily hmin hdata =>
        obtain ⟨-, hversion, hcommand, rfl, hlen⟩ := hheader
        rw [if_pos ⟨by omega, hversion, hlen, hcommand⟩, if_pos hfamily, v2Address,
          if_pos ⟨hmin, by rw [List.length_drop]; omega⟩, List.drop_drop, Option.map_some,
          ← Nat.add_assoc]
    | @v2Ipv6 len hheader hfamily hmin hdata =>
        obtain ⟨-, hversion, hcommand, rfl, hlen⟩ := hheader
        rw [if_pos ⟨by omega, hversion, hlen, hcommand⟩, if_neg (by rw [hfamily]; decide),
          if_pos hfamily, v2Address, if_pos ⟨hmin, by rw [List.length_drop]; omega⟩,
          List.drop_drop, Option.map_some, ← Nat.add_assoc]
    | v1 hfirst =>
        -- a header of version 1 has another beginning
        have hsix : v2Signature.take 6 = v1Prefix := by
          rw [← hv2, List.take_take, min_eq_left (by decide)]
          exact hfirst
        exact absurd hsix (by decide)

theorem lineFrom_eq_some {data line : Bytes} {n : Nat} :
    lineFrom (data.take 12) (data.drop 12) 96 = some (line, n) ↔
      ∃ pos < 96, data[12 + pos]? = some lineFeed ∧
        (∀ j, 12 ≤ j → j < 12 + pos → data[j]? ≠ some lineFeed) ∧
        line = data.take (12 + pos + 1) ∧ n = pos + 1 := by
  have hget : ∀ {j : Nat} (hj : j < ((data.drop 12).take 96).length),
      ((data.drop 12).take 96)[j] = lineFeed ↔ data[12 + j]? = some lineFeed := by
    intro j hj
    rw [List.length_take, List.length_drop] at hj
    rw [List.getElem_take, List.getElem_drop, List.getElem?_eq_getElem (by omega),
      Option.some.injEq]
  have htake : ∀ pos, data.take 12 ++ (data.drop 12).take (pos + 1) = data.take (12 + pos + 1) :=
    fun pos => by rw [← List.take_add]; rfl
  rw [lineFrom, Option.map_eq_some_iff]
  constructor
  · rintro ⟨pos, hfind, heq⟩
    cases heq
    obtain ⟨hlt, hend, hbefore⟩ := List.findIdx?_eq_some_iff_getElem.mp hfind
    rw [List.length_take, List.length_drop] at hlt
    refine ⟨pos, by omega, (hget _).mp (of_decide_eq_true hend), fun j hj hlt' => ?_, htake pos,
      rfl⟩
    obtain ⟨k, rfl⟩ := Nat.exists_eq_add_of_le hj
    have hk : k < pos := by omega
    intro hfeed
    exact hbefore k hk (decide_eq_true ((hget _).mpr hfeed))
  · rintro ⟨pos, hpos, hend, hbefore, rfl, rfl⟩
    have hlt := (List.getElem?_eq_some_iff.mp hend).1
    refine ⟨pos, List.findIdx?_eq_some_iff_getElem.mpr ⟨?_, ?_, fun j hj => ?_⟩, ?_⟩
    · rw [List.length_take, List.length_drop]
      omega
    · exact decide_eq_true ((hget _).mpr hend)
    · intro hfeed
      exact hbefore (12 + j) (by omega) (by omega) ((hget _).mp (of_decide_eq_true hfeed))
    · rw [htake]

theorem headerOf_v1 {data : Bytes} {n : Nat} {addr : SocketAddr} (h12 : 12 ≤ data.length)
    (hv2 : data.take 12 ≠ v2Signature) (hv1 : data.take 6 = v1Prefix) :
    headerOf data = some (addr, n) ↔ ProxyHeader data n addr := by
  rw [headerOf, if_pos h12, if_neg hv2, if_pos hv1]
  constructor
  · intro h
    obtain ⟨⟨line, m⟩, hline, hfrom⟩ := Option.bind_eq_some_iff.mp h
    obtain ⟨addr', hsource, heq⟩ := Option.map_eq_some_iff.mp hfrom
    cases heq
    obtain ⟨pos, hpos, hend, hbefore, rfl, rfl⟩ := lineFrom_eq_some.mp hline
    exact @ProxyHeader.v1 data (12 + pos) addr hv1 (by omega) (by omega) hend hbefore hsource
  · intro h
    cases h with
    | v2Ipv4 hheader | v2Ipv6 hheader => exact absurd hheader.signature hv2
    | @v1 i _ hfirst hi hmax hend hline hsource =>
        obtain ⟨pos, rfl⟩ := Nat.exists_eq_add_of_le hi
        have hread : lineFrom (data.take 12) (data.drop 12) 96
            = some (data.take (12 + pos + 1), pos + 1) :=
          lineFrom_eq_some.mpr ⟨pos, by omega, hend, hline, rfl, rfl⟩
        rw [hread, Option.bind_some, hsource]
        rfl

theorem ProxyHeader.length_ge {data : Bytes} {n : Nat} {addr : SocketAddr}
    (h : ProxyHeader data n addr) : 12 ≤ data.length := by
  cases h with
  | v2Ipv4 _ _ _ hdata | v2Ipv6 _ _ _ hdata => omega
  | v1 _ hi _ hend =>
      have := (List.getElem?_eq_some_iff.mp hend).1
      omega

theorem headerOf_iff {data : Bytes} {n : Nat} {addr : SocketAddr} :
    headerOf data = some (addr, n) ↔ ProxyHeader data n addr := by
  by_cases h12 : 12 ≤ data.length
  · by_cases hv2 : data.take 12 = v2Signature
    · exact headerOf_v2 h12 hv2
    · by_cases hv1 : data.take 6 = v1Prefix
      · exact headerOf_v1 h12 hv2 hv1
      · rw [headerOf, if_pos h12, if_neg hv2, if_neg hv1]
        refine iff_of_false (by simp) fun h => ?_
        cases h with
        | v2Ipv4 hheader | v2Ipv6 hheader => exact hv2 hheader.signature
        | v1 hfirst => exact hv1 hfirst
  · rw [headerOf, if_neg h12]
    exact iff_of_false (by simp) fun h => h12 h.length_ge

theorem readProxyHeader_some_iff {stream : TcpStream} {addr : SocketAddr} :
    (readProxyHeader stream).1 = some addr ↔ ∃ n, ProxyHeader stream.data n addr := by
  rw [(readProxyHeader_reads stream).result, Option.map_eq_some_iff]
  constructor
  · rintro ⟨⟨addr', n⟩, hheader, rfl⟩
    exact ⟨n, headerOf_iff.mp hheader⟩
  · rintro ⟨n, hn⟩
    exact ⟨(addr, n), headerOf_iff.mpr hn, rfl⟩

/-- **PROXY headers.** However the stream arrives, the result is that of its data: the source that
a header at their head gives, or none. The header alone has been consumed then, as far as it is
there. -/
theorem read_proxy_header_iff (stream : TcpStream) (addr : SocketAddr) :
    ((readProxyHeader stream).1 = some addr ↔ ∃ n, ProxyHeader stream.data n addr) ∧
      (∀ n, ProxyHeader stream.data n addr →
        (readProxyHeader stream).2.data = stream.data.drop n) ∧
      ∀ stream' : TcpStream, stream'.data = stream.data →
        (readProxyHeader stream').1 = (readProxyHeader stream).1 := by
  have hread := readProxyHeader_reads stream
  refine ⟨readProxyHeader_some_iff, fun n hn => hread.rest addr n (headerOf_iff.mpr hn),
    fun stream' hdata => ?_⟩
  rw [(readProxyHeader_reads stream').result, hdata, hread.result]

/-- A header of the binary form that arrives byte by byte, and a byte after it. -/
def v2Stream : TcpStream :=
  ⟨v2Signature ++ [0x21, 0x11, 0, 12] ++ [10, 0, 0, 1, 10, 0, 0, 2, 0x0f, 0xa0, 0, 69] ++ [71],
    List.replicate 29 1⟩

theorem read_proxy_header_iff_v2 :
    (readProxyHeader v2Stream).1 = some ⟨.v4 0x0a000001, 4000⟩ ∧
      (readProxyHeader v2Stream).2.data = [71] := by
  have hheader : ProxyHeader v2Stream.data 28 ⟨.v4 0x0a000001, 4000⟩ :=
    headerOf_iff.mp (by decide +kernel)
  obtain ⟨hsome, hrest, -⟩ := read_proxy_header_iff v2Stream ⟨.v4 0x0a000001, 4000⟩
  refine ⟨hsome.mpr ⟨28, hheader⟩, ?_⟩
  rw [hrest 28 hheader]
  rfl

end UsgTftp
