import Mathlib.Data.Bool.AllAny
import Mathlib.Data.List.Infix
import UsgTftp.Web.ProxyProtocol

set_option autoImplicit false

/-! # The text form of a PROXY header

A line of the text form is `PROXY`, the protocol, the addresses of both ends and their ports,
between single spaces. `read_v1` looks at the source only: the protocol, the destination and
whatever comes after it may be anything.

`v1_strict_iff` says which lines it would have to refuse besides those that it does.
-/

namespace UsgTftp

open AddrText

/-! ## Strict lines -/

/-- The fields of a line after `PROXY`. -/
structure V1Line where
  protocol : List Char
  src : List Char
  dst : List Char
  srcPort : List Char
  dstPort : List Char

def V1Line.fields (l : V1Line) : List (List Char) :=
  ["PROXY".toList, l.protocol, l.src, l.dst, l.srcPort, l.dstPort]

/-- The line without its end. -/
def V1Line.text (l : V1Line) : List Char := [' '].intercalate l.fields

def V1Line.bytes (l : V1Line) : Bytes := (l.text ++ ['\r', '\n']).map Utf8.byte

/-- The protocol names the family of both addresses. -/
def SameFamily (protocol src dst : List Char) : Prop :=
  (protocol = "TCP4".toList ∧ (∃ v, parseIp src = some (.v4 v)) ∧ ∃ v, parseIp dst = some (.v4 v)) ∨
    (protocol = "TCP6".toList ∧ (∃ v, parseIp src = some (.v6 v)) ∧ ∃ v, parseIp dst = some (.v6 v))

/-- **The grammar** of lines, with the source that a line gives. -/
structure V1Line.Strict (l : V1Line) (addr : SocketAddr) : Prop where
  family : SameFamily l.protocol l.src l.dst
  srcPort : decimalU16 l.srcPort = some addr.port
  dstPort : (decimalU16 l.dstPort).isSome = true
  source : parseIpAddr l.src = some addr.ip
  length : l.bytes.length ≤ 107
  unbroken : ∀ c ∈ l.text, c ≠ '\r' ∧ c ≠ '\n'

/-- What a line has that `read_v1` accepts, and does not look at. -/
structure V1Clean (line : Bytes) : Prop where
  length : line.length ≤ 107
  ending : Utf8.lossy line = trim (Utf8.lossy line) ++ ['\r', '\n']
  fields : (v1Parts line).length = 6
  family : SameFamily ((v1Parts line).getD 1 []) ((v1Parts line).getD 2 [])
    ((v1Parts line).getD 3 [])
  unsigned : ((v1Parts line).getD 4 []).head? ≠ some '+'
  dstPort : (decimalU16 ((v1Parts line).getD 5 [])).isSome = true

/-! ## The characters of a line -/

/-- ASCII, and neither a space nor a line break. -/
def plain (c : Char) : Bool := decide (c.toNat < 0x80) && !isWhitespace c

theorem plain_of_range {c : Char} (hlow : 33 ≤ c.toNat) (hhigh : c.toNat ≤ 126) :
    plain c = true := by
  simp only [plain, isWhitespace, Bool.and_eq_true, decide_eq_true_eq, Bool.not_eq_true',
    Bool.or_eq_false_iff, Bool.and_eq_false_iff, decide_eq_false_iff_not]
  omega

theorem plain_of_addrChar {c : Char} (h : addrChar c = true) : plain c = true := by
  simp only [addrChar, Bool.or_eq_true, decide_eq_true_eq] at h
  rcases h with (h | rfl) | rfl
  · obtain ⟨d, hd⟩ := Option.isSome_iff_exists.mp h
    obtain ⟨hvalue, -⟩ := Option.filter_eq_some_iff.mp hd
    refine plain_of_range ?_ ?_ <;> split_ifs at hvalue <;> omega
  · decide
  · decide

theorem plain_of_isDigit {c : Char} (h : c.isDigit = true) : plain c = true := by
  have hrange : 48 ≤ c.toNat ∧ c.toNat ≤ 57 := Char.isDigit_iff_toNat.mp h
  exact plain_of_range (by omega) (by omega)

theorem plain_ne_space {c : Char} (h : plain c = true) : c ≠ ' ' := by
  rintro rfl
  revert h
  decide

theorem digits_of_decimal {cs : List Char} {n : UInt16} (h : decimalU16 cs = some n) :
    cs ≠ [] ∧ ∀ c ∈ cs, c.isDigit = true := by
  unfold decimalU16 at h
  split_ifs at h with hdigits
  obtain ⟨hne, hall, -⟩ := hdigits
  exact ⟨hne, List.all_eq_true.mp hall⟩

theorem plain_of_decimal {cs : List Char} {n : UInt16} (h : decimalU16 cs = some n) :
    ∀ c ∈ cs, plain c = true :=
  fun c hc => plain_of_isDigit ((digits_of_decimal h).2 c hc)

theorem plain_of_family {protocol src dst : List Char} (h : SameFamily protocol src dst) :
    (∀ c ∈ protocol, plain c = true) ∧ (∀ c ∈ src, plain c = true) ∧ ∀ c ∈ dst, plain c = true := by
  have haddr : ∀ {cs : List Char} {ip : Ip}, parseIp cs = some ip → ∀ c ∈ cs, plain c = true :=
    fun hip c hc => plain_of_addrChar (mem_parseIp hip hc)
  rcases h with ⟨rfl, ⟨v, hsrc⟩, ⟨w, hdst⟩⟩ | ⟨rfl, ⟨v, hsrc⟩, ⟨w, hdst⟩⟩
  · exact ⟨List.all_iff_forall_prop.mp (by decide), haddr hsrc, haddr hdst⟩
  · exact ⟨List.all_iff_forall_prop.mp (by decide), haddr hsrc, haddr hdst⟩

def V1Line.Plain (l : V1Line) : Prop := ∀ field ∈ l.fields, ∀ c ∈ field, plain c = true

theorem V1Line.plain_of_fields {l : V1Line} (hfamily : SameFamily l.protocol l.src l.dst)
    {port port' : UInt16} (hsrcPort : decimalU16 l.srcPort = some port)
    (hdstPort : decimalU16 l.dstPort = some port') : l.Plain := by
  obtain ⟨hprotocol, hsrc, hdst⟩ := plain_of_family hfamily
  intro field hfield
  simp only [fields, List.mem_cons, List.not_mem_nil, or_false] at hfield
  rcases hfield with rfl | rfl | rfl | rfl | rfl | rfl
  · exact List.all_iff_forall_prop.mp (by decide)
  · exact hprotocol
  · exact hsrc
  · exact hdst
  · exact plain_of_decimal hsrcPort
  · exact plain_of_decimal hdstPort

theorem V1Line.Strict.plain {l : V1Line} {addr : SocketAddr} (h : l.Strict addr) : l.Plain := by
  obtain ⟨port, hport⟩ := Option.isSome_iff_exists.mp h.dstPort
  exact plain_of_fields h.family h.srcPort hport

theorem V1Line.text_eq (l : V1Line) : l.text = "PROXY ".toList ++ l.protocol ++ ' ' :: l.src ++
    ' ' :: l.dst ++ ' ' :: l.srcPort ++ ' ' :: l.dstPort := by
  simp [text, fields, List.intercalate]

section

variable {l : V1Line}

theorem V1Line.Plain.mem_text (h : l.Plain) {c : Char} (hc : c ∈ l.text) :
    c = ' ' ∨ UsgTftp.plain c = true := by
  unfold Plain at h
  simp only [fields, List.mem_cons, List.not_mem_nil, or_false, forall_eq_or_imp, forall_eq] at h
  obtain ⟨-, hprotocol, hsrc, hdst, hsrcPort, hdstPort⟩ := h
  rw [l.text_eq] at hc
  simp only [List.mem_append, List.mem_cons] at hc
  rcases hc with ((((hc | hc) | rfl | hc) | rfl | hc) | rfl | hc) | rfl | hc
  · have hhead : ∀ c ∈ "PROXY ".toList, c = ' ' ∨ UsgTftp.plain c = true :=
      List.all_iff_forall_prop.mp (by decide)
    exact hhead c hc
  · exact Or.inr (hprotocol c hc)
  · exact Or.inl rfl
  · exact Or.inr (hsrc c hc)
  · exact Or.inl rfl
  · exact Or.inr (hdst c hc)
  · exact Or.inl rfl
  · exact Or.inr (hsrcPort c hc)
  · exact Or.inl rfl
  · exact Or.inr (hdstPort c hc)

theorem V1Line.Plain.unbroken (h : l.Plain) : ∀ c ∈ l.text, c ≠ '\r' ∧ c ≠ '\n' := by
  intro c hc
  rcases h.mem_text hc with rfl | hplain
  · decide
  · constructor <;> rintro rfl <;> exact absurd hplain (by decide)

theorem V1Line.Plain.ascii (h : l.Plain) : ∀ c ∈ l.text ++ ['\r', '\n'], c.toNat < 0x80 := by
  intro c hc
  rcases List.mem_append.mp hc with hc | hc
  · rcases h.mem_text hc with rfl | hc
    · decide
    · simp only [UsgTftp.plain, Bool.and_eq_true, decide_eq_true_eq] at hc
      exact hc.1
  · simp only [List.mem_cons, List.not_mem_nil, or_false] at hc
    rcases hc with rfl | rfl <;> decide

theorem V1Line.Plain.lossy_eq_iff (h : l.Plain) {line : Bytes} :
    Utf8.lossy line = l.text ++ ['\r', '\n'] ↔ line = l.bytes :=
  Utf8.lossy_eq_iff h.ascii

theorem V1Line.Plain.splitOn_text (h : l.Plain) : l.text.splitOn ' ' = l.fields := by
  refine List.splitOn_intercalate ' ' (fun field hfield hspace => ?_) (by simp [fields])
  exact plain_ne_space (h field hfield ' ' hspace) rfl

end

/-- The end of a line is what is trimmed. -/
theorem trim_line {text : List Char} {c d : Char} (hhead : text.head? = some c)
    (hlast : text.getLast? = some d) (hc : plain c = true) (hd : plain d = true) :
    trim (text ++ ['\r', '\n']) = text := by
  have hspace : ∀ {c : Char}, plain c = true → isWhitespace c = false := by
    intro c hc
    simpa using (Bool.and_eq_true_iff.mp hc).2
  obtain ⟨tl, rfl⟩ := List.head?_eq_some_iff.mp hhead
  obtain ⟨init, hinit⟩ := List.getLast?_eq_some_iff.mp hlast
  have hfront : ((c :: tl) ++ ['\r', '\n']).dropWhile isWhitespace = (c :: tl) ++ ['\r', '\n'] := by
    rw [List.cons_append, List.dropWhile_cons_of_neg (by rw [hspace hc]; simp)]
  have hsplit : (c :: tl) ++ ['\r', '\n'] = (init ++ [d] ++ ['\r']) ++ ['\n'] := by
    rw [hinit]
    simp
  rw [trim, hfront, hsplit, List.rdropWhile_concat_pos _ _ _ (by decide),
    List.rdropWhile_concat_pos _ _ _ (by decide),
    List.rdropWhile_concat_neg _ _ _ (by rw [hspace hd]; simp), hinit]

theorem V1Line.Plain.trim_text {l : V1Line} (h : l.Plain) (hport : l.dstPort ≠ []) :
    trim (l.text ++ ['\r', '\n']) = l.text := by
  obtain ⟨init, d, hd⟩ := (List.eq_nil_or_concat' l.dstPort).resolve_left hport
  have hplain : plain d = true := by
    refine h l.dstPort (by simp [fields]) d ?_
    rw [hd]
    exact List.mem_concat_self
  refine @trim_line l.text 'P' d ?_ ?_ (by decide) hplain
  · rw [l.text_eq]
    rfl
  · rw [l.text_eq, hd, ← List.cons_append, ← List.append_assoc]
    exact List.getLast?_concat

/-! ## Lines of the grammar -/

/-- A line of the grammar is one that is accepted, and clean. -/
theorem V1Line.Strict.clean {l : V1Line} {addr : SocketAddr} (h : l.Strict addr) :
    V1Clean l.bytes := by
  have hlossy := h.plain.lossy_eq_iff.mpr rfl
  have hport : l.dstPort ≠ [] := by
    obtain ⟨port, hport⟩ := Option.isSome_iff_exists.mp h.dstPort
    exact (digits_of_decimal hport).1
  have htrim := h.plain.trim_text hport
  have hparts : v1Parts l.bytes = l.fields := by
    rw [v1Parts, hlossy, htrim, h.plain.splitOn_text]
  refine ⟨h.length, by rw [hlossy, htrim], ?_, ?_, ?_, ?_⟩ <;> rw [hparts]
  · rfl
  · exact h.family
  · intro hplus
    have hdigit := (digits_of_decimal h.srcPort).2 '+' (List.mem_of_head? hplus)
    exact absurd hdigit (by decide)
  · exact h.dstPort

theorem first_field {line : Bytes} (hfirst : line.take 6 = v1Prefix)
    (hending : Utf8.lossy line = trim (Utf8.lossy line) ++ ['\r', '\n'])
    (hfields : (v1Parts line).length = 6) : (v1Parts line).head? = some "PROXY".toList := by
  have htext : Utf8.lossy line = "PROXY ".toList ++ Utf8.lossy (line.drop 6) := by
    have hline : line = ("PROXY ".toList.map Utf8.byte) ++ line.drop 6 := by
      rw [← List.take_append_drop 6 line, hfirst]
      rfl
    nth_rewrite 1 [hline]
    exact Utf8.lossy_map_append (List.all_iff_forall_prop.mp (by decide)) _
  have hprefix : "PROXY ".toList <+: trim (Utf8.lossy line) ++ ['\r', '\n'] := by
    rw [← hending, htext]
    exact List.prefix_append _ _
  rcases List.prefix_or_prefix_of_prefix hprefix (List.prefix_append _ _) with h | h
  · obtain ⟨rest, hrest⟩ := h
    have hsplit : "PROXY ".toList ++ rest = "PROXY".toList ++ ' ' :: rest := rfl
    rw [v1Parts, ← hrest, hsplit, List.splitOn_append_cons_self_of_not_mem (by decide)]
    rfl
  · -- there would be too few fields
    have hfew : ∀ text ∈ "PROXY ".toList.inits, (text.splitOn ' ').length ≠ 6 := by decide
    exact absurd hfields (hfew _ ((List.mem_inits _ _).mpr h))

theorem exists_fields {parts : List (List Char)} (hfields : parts.length = 6)
    (hhead : parts.head? = some "PROXY".toList) : ∃ l : V1Line, parts = l.fields := by
  obtain ⟨rest, rfl⟩ := List.head?_eq_some_iff.mp hhead
  rcases rest with - | ⟨p₁, - | ⟨p₂, - | ⟨p₃, - | ⟨p₄, - | ⟨p₅, - | ⟨p₆, rest⟩⟩⟩⟩⟩⟩ <;>
    simp only [List.length_cons, List.length_nil] at hfields <;> try omega
  exact ⟨⟨p₁, p₂, p₃, p₄, p₅⟩, rfl⟩

theorem parseU16_unsigned {cs : List Char} (h : cs.head? ≠ some '+') :
    parseU16 cs = decimalU16 cs := by
  unfold parseU16
  split
  · exact absurd rfl h
  · rfl

/-- A clean line that is accepted is one of the grammar. -/
theorem V1Clean.strict {line : Bytes} {addr : SocketAddr} (h : V1Clean line)
    (hfirst : line.take 6 = v1Prefix) (hsource : v1Source line = some addr) :
    ∃ l : V1Line, l.Strict addr ∧ l.bytes = line := by
  obtain ⟨hlength, hending, hfields, hfamily, hunsigned, hdstPort⟩ := h
  have hhead := first_field hfirst hending hfields
  have hjoin : [' '].intercalate (v1Parts line) = trim (Utf8.lossy line) :=
    List.intercalate_splitOn ' '
  rw [v1Source] at hsource
  generalize v1Parts line = parts at *
  obtain ⟨l, rfl⟩ := exists_fields hfields hhead
  change SameFamily l.protocol l.src l.dst at hfamily
  change l.srcPort.head? ≠ some '+' at hunsigned
  change (decimalU16 l.dstPort).isSome = true at hdstPort
  change (parseIpAddr l.src).bind _ = some addr at hsource
  obtain ⟨ip, hip, hport⟩ := Option.bind_eq_some_iff.mp hsource
  obtain ⟨port, hsrcPort, rfl⟩ := Option.map_eq_some_iff.mp hport
  change parseU16 l.srcPort = some port at hsrcPort
  rw [parseU16_unsigned hunsigned] at hsrcPort
  obtain ⟨port', hport'⟩ := Option.isSome_iff_exists.mp hdstPort
  have hplain : l.Plain := V1Line.plain_of_fields hfamily hsrcPort hport'
  have hbytes : line = l.bytes := by
    rw [← hplain.lossy_eq_iff, hending, ← hjoin]
    rfl
  exact ⟨l, ⟨hfamily, hsrcPort, hdstPort, hip, hbytes ▸ hlength, hplain.unbroken⟩, hbytes.symm⟩

/-! ## Streams -/

/-- The line feed that ends the line at the head of the data. -/
structure LineEnd (data : Bytes) (i : Nat) : Prop where
  low : 12 ≤ i
  high : i ≤ 107
  feed : data[i]? = some lineFeed
  first : ∀ j, 12 ≤ j → j < i → data[j]? ≠ some lineFeed

theorem readProxyHeader_v1 {stream : TcpStream} (hv1 : stream.data.take 6 = v1Prefix)
    {addr : SocketAddr} :
    (readProxyHeader stream).1 = some addr ↔
      ∃ i, LineEnd stream.data i ∧ v1Source (stream.data.take (i + 1)) = some addr := by
  rw [readProxyHeader_some_iff]
  constructor
  · rintro ⟨n, hn⟩
    cases hn with
    | v2Ipv4 hheader | v2Ipv6 hheader =>
        have hsix : stream.data.take 6 = v2Signature.take 6 := by
          rw [← hheader.signature, List.take_take, min_eq_left (by decide)]
        rw [hv1] at hsix
        exact absurd hsix (by decide)
    | @v1 i _ hfirst hi hmax hend hline hsource => exact ⟨i, ⟨hi, hmax, hend, hline⟩, hsource⟩
  · rintro ⟨i, ⟨hi, hmax, hend, hline⟩, hsource⟩
    exact ⟨i + 1, .v1 hv1 hi hmax hend hline hsource⟩

theorem SameFamily.length_protocol {protocol src dst : List Char}
    (h : SameFamily protocol src dst) : protocol.length = 4 := by
  rcases h with ⟨rfl, -⟩ | ⟨rfl, -⟩ <;> rfl

/-- Nothing before the end of a line is a line feed. -/
theorem V1Line.Strict.lineFeed_notMem {l : V1Line} {addr : SocketAddr} (h : l.Strict addr) :
    lineFeed ∉ (l.text ++ ['\r']).map Utf8.byte := by
  intro hmem
  obtain ⟨c, hc, hbyte⟩ := List.mem_map.mp hmem
  have hascii : c.toNat < 0x80 := by
    refine h.plain.ascii c ?_
    rcases List.mem_append.mp hc with hc | hc
    · exact List.mem_append_left _ hc
    · rw [List.mem_singleton.mp hc]
      simp
  have hten : c.toNat = 10 := by
    have := congrArg UInt8.toNat hbyte
    rwa [Utf8.byte, UInt8.toNat_ofNat_of_lt' (lt_trans hascii (by decide))] at this
  have hfeed : c = '\n' := by
    rw [← Char.ofNat_toNat c, hten]
  subst hfeed
  rcases List.mem_append.mp hc with hc | hc
  · exact (h.unbroken _ hc).2 rfl
  · simp at hc

/-- Where the data begin with a line of the grammar, this is the line that is read. -/
theorem V1Line.Strict.line_eq {l : V1Line} {addr : SocketAddr} (h : l.Strict addr) {data : Bytes}
    (hdata : l.bytes <+: data) {i : Nat} (hi : LineEnd data i) : data.take (i + 1) = l.bytes := by
  have hlength : l.bytes.length = l.text.length + 2 := by simp [bytes]
  have hlong : 14 ≤ l.text.length := by
    have hprotocol := h.family.length_protocol
    have htext := congrArg List.length l.text_eq
    simp only [List.length_append, List.length_cons] at htext
    have hhead : "PROXY ".toList.length = 6 := rfl
    omega
  have hbytes : l.bytes = (l.text ++ ['\r']).map Utf8.byte ++ [lineFeed] := by
    simp [bytes, Utf8.byte, lineFeed]
  have hline : ((l.text ++ ['\r']).map Utf8.byte).length = l.text.length + 1 := by simp
  have hget : ∀ {j : Nat}, j < l.bytes.length → data[j]? = l.bytes[j]? := by
    intro j hj
    obtain ⟨rest, rfl⟩ := hdata
    exact List.getElem?_append_left hj
  have hlast : data[l.text.length + 1]? = some lineFeed := by
    rw [hget (by omega), hbytes, ← hline]
    exact List.getElem?_concat_length
  have hbefore : ∀ j < l.text.length + 1, data[j]? ≠ some lineFeed := by
    intro j hj hfeed
    rw [hget (by omega), hbytes, List.getElem?_append_left (by omega)] at hfeed
    exact h.lineFeed_notMem (List.mem_of_getElem? hfeed)
  obtain rfl : i = l.text.length + 1 := by
    rcases Nat.lt_trichotomy i (l.text.length + 1) with hlt | heq | hgt
    · exact absurd hi.feed (hbefore i hlt)
    · exact heq
    · exact absurd hlast (hi.first _ (by omega) hgt)
  obtain ⟨rest, rfl⟩ := hdata
  rw [show l.text.length + 1 + 1 = l.bytes.length from hlength.symm, List.take_left]

/-- **Strictness of the text form.** -/
theorem v1_strict_iff (stream : TcpStream) :
    (∀ addr, stream.data.take 6 = v1Prefix → (readProxyHeader stream).1 = some addr →
      ∃ l : V1Line, l.Strict addr ∧ l.bytes <+: stream.data) ↔
    ∀ i, stream.data.take 6 = v1Prefix → LineEnd stream.data i →
      v1Source (stream.data.take (i + 1)) ≠ none → V1Clean (stream.data.take (i + 1)) := by
  constructor
  · intro h i hv1 hi hsource
    obtain ⟨addr, haddr⟩ := Option.ne_none_iff_exists'.mp hsource
    obtain ⟨l, hstrict, hdata⟩ := h addr hv1 ((readProxyHeader_v1 hv1).mpr ⟨i, hi, haddr⟩)
    rw [hstrict.line_eq hdata hi]
    exact hstrict.clean
  · intro h addr hv1 haddr
    obtain ⟨i, hi, hsource⟩ := (readProxyHeader_v1 hv1).mp haddr
    have hclean := h i hv1 hi (by rw [hsource]; simp)
    have hfirst : (stream.data.take (i + 1)).take 6 = v1Prefix := by
      rw [List.take_take, min_eq_left (by have := hi.low; omega), hv1]
    obtain ⟨l, hstrict, hbytes⟩ := hclean.strict hfirst hsource
    exact ⟨l, hstrict, by rw [hbytes]; exact List.take_prefix _ _⟩

/-- The destination and its port are no such things, and the protocol is that of the other
family. -/
def looseLine : List Char := "PROXY TCP6 10.0.0.1 nowhere 4000 none\r\n".toList

def looseStream : TcpStream := ⟨looseLine.map Utf8.byte, []⟩

theorem v1Parts_looseLine : v1Parts looseStream.data = ["PROXY".toList, "TCP6".toList,
    "10.0.0.1".toList, "nowhere".toList, "4000".toList, "none".toList] := by
  have hlossy : Utf8.lossy looseStream.data = looseLine :=
    (Utf8.lossy_eq_iff (List.all_iff_forall_prop.mp (by decide))).mpr rfl
  rw [v1Parts, hlossy]
  decide

/-- **A line outside the grammar** is accepted. -/
theorem loose_line_accepted :
    looseStream.data.take 6 = v1Prefix ∧
      (readProxyHeader looseStream).1 = some ⟨.v4 0x0a000001, 4000⟩ ∧
      ¬∃ l : V1Line, l.Strict ⟨.v4 0x0a000001, 4000⟩ ∧ l.bytes <+: looseStream.data := by
  have hend : LineEnd looseStream.data 38 := ⟨by decide, by decide, by decide, by decide⟩
  have hwhole : looseStream.data.take (38 + 1) = looseStream.data := by decide
  have hsource : v1Source looseStream.data = some ⟨.v4 0x0a000001, 4000⟩ := by
    rw [v1Source, v1Parts_looseLine]
    decide
  refine ⟨by decide, (readProxyHeader_v1 (by decide)).mpr ⟨38, hend, hwhole ▸ hsource⟩, ?_⟩
  rintro ⟨l, hstrict, hdata⟩
  have hclean := hstrict.clean
  rw [← hstrict.line_eq hdata hend, hwhole] at hclean
  have hfamily := hclean.family
  rw [v1Parts_looseLine] at hfamily
  rcases hfamily with ⟨hprotocol, -⟩ | ⟨-, -, ⟨v, hdst⟩⟩
  · exact absurd hprotocol (by decide)
  · have hnone : parseIp "nowhere".toList = none := by decide
    exact absurd (hnone.symm.trans hdst) (by simp)

end UsgTftp
