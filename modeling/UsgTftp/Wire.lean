import UsgTftp.Lib.Segment
import UsgTftp.Lib.SeqNum

set_option autoImplicit false

/-! # Datagrams

Constants, opcodes, error codes and packet layouts (`src/lib.rs`, `src/bin/server.rs`). A
datagram is the list of its bytes. Fixed-width reads are `getU16`; its `none` is the panic
of `Buf::get_u16` on fewer than two remaining bytes.

A Rust `String` is a Lean `String`: both are sequences of Unicode scalar values, and both
are stored as UTF-8 (`asBytes`, `fromUtf8`).
-/

namespace UsgTftp

open SeqNum Segment

abbrev Bytes := List UInt8

/-! ## Constants -/

def defaultBlockSize : Nat := 512
def maxBlockSize : Nat := 65464
def maxPacketSize : Nat := 65468
def defaultTimeoutSecs : Nat := 5
def maxRetries : Nat := 5

/-! ## Opcodes and errors -/

inductive Opcode where
  | rrq
  | wrq
  | data
  | ack
  | error
  | oack
  deriving DecidableEq, Repr

def Opcode.toU16 : Opcode → UInt16
  | .rrq => 1
  | .wrq => 2
  | .data => 3
  | .ack => 4
  | .error => 5
  | .oack => 6

/-- `Opcode::from_u16` of the library; `TftpOpcode::try_from` of the server accepts the same
numbers. -/
def Opcode.fromU16 (value : UInt16) : Option Opcode :=
  if value = 1 then some .rrq
  else if value = 2 then some .wrq
  else if value = 3 then some .data
  else if value = 4 then some .ack
  else if value = 5 then some .error
  else if value = 6 then some .oack
  else none

@[simp] theorem Opcode.fromU16_toU16 (o : Opcode) : Opcode.fromU16 o.toU16 = some o := by
  cases o <;> rfl

theorem Opcode.eq_toU16_of_fromU16 {v : UInt16} {o : Opcode} (h : Opcode.fromU16 v = some o) :
    v = o.toU16 := by
  unfold Opcode.fromU16 at h
  split_ifs at h with h1 h2 h3 h4 h5 h6 <;> cases h <;> assumption

theorem Opcode.toU16_inj {o p : Opcode} (h : o.toU16 = p.toU16) : o = p := by
  have := congrArg Opcode.fromU16 h
  rw [fromU16_toU16, fromU16_toU16] at this
  exact Option.some.inj this

inductive TftpErrorCode where
  | notDefined
  | fileNotFound
  | accessViolation
  | diskFull
  | illegalOperation
  | unknownTid
  | fileExists
  | noSuchUser
  | optionNegotiation
  deriving DecidableEq, Repr

def TftpErrorCode.toU16 : TftpErrorCode → UInt16
  | .notDefined => 0
  | .fileNotFound => 1
  | .accessViolation => 2
  | .diskFull => 3
  | .illegalOperation => 4
  | .unknownTid => 5
  | .fileExists => 6
  | .noSuchUser => 7
  | .optionNegotiation => 8

inductive TftpError where
  | tftp (message : String)
  | io (message : String)
  deriving DecidableEq, Repr

/-- The text that `Display` gives. -/
def TftpError.display : TftpError → String
  | .tftp message => "TFTP error: " ++ message
  | .io message => "IO error: " ++ message

/-! ## Addresses and socket results -/

inductive IpAddr where
  | v4 (octets : BitVec 32)
  | v6 (octets : BitVec 128)
  deriving DecidableEq, Repr

structure SocketAddr where
  ip : IpAddr
  port : UInt16
  deriving DecidableEq, Repr

/-- What `timeout(d, socket.recv(..))` gives: a datagram, an error of the socket, or the
timer. -/
inductive Recv where
  | datagram (d : Bytes)
  | error (message : String)
  | timeout
  deriving DecidableEq, Repr

/-! ## Reading and writing fields -/

def putU16 (n : UInt16) : Bytes := [UInt8.ofNat (n.toNat / 256), UInt8.ofNat (n.toNat % 256)]

def getU16 : Bytes → Option (UInt16 × Bytes)
  | hi :: lo :: rest => some (UInt16.ofNat (hi.toNat * 256 + lo.toNat), rest)
  | _ => none

@[simp] theorem length_putU16 (n : UInt16) : (putU16 n).length = 2 := rfl

@[simp] theorem getU16_putU16 (n : UInt16) (rest : Bytes) :
    getU16 (putU16 n ++ rest) = some (n, rest) := by
  have hn := n.toNat_lt
  simp only [putU16, List.cons_append, List.nil_append, getU16, Option.some.injEq,
    Prod.mk.injEq, and_true]
  rw [← UInt16.toNat_inj]
  simp only [UInt8.toNat_ofNat', UInt16.toNat_ofNat']
  omega

@[simp] theorem getU16_putU16_nil (n : UInt16) : getU16 (putU16 n) = some (n, []) := by
  simpa using getU16_putU16 n []

def asBytes (s : String) : Bytes := s.toUTF8.data.toList

def fromUtf8 (bytes : Bytes) : Option String := String.fromUTF8? ⟨bytes.toArray⟩

@[simp] theorem fromUtf8_asBytes (s : String) : fromUtf8 (asBytes s) = some s := by
  simp only [fromUtf8, asBytes, Array.toArray_toList, String.toUTF8_eq_toByteArray]
  exact dif_pos s.isValidUTF8

/-- A NUL-terminated string, as requests and option packets carry it. -/
def cstring (s : String) : Bytes := asBytes s ++ [0]

def maxStringLength : Nat := 255

/-- `parse_string`: the string before the first NUL and the bytes after it. The text of the
UTF-8 error is that of the standard library and is left out. -/
def parseString (bytes : Bytes) : Except TftpError (String × Bytes) :=
  if bytes.length > maxStringLength ∧ 0 ∉ bytes.take maxStringLength then
    .error (.tftp "String too long (exceeds 255 bytes)")
  else
    match bytes.findIdx? (· = 0) with
    | none => .error (.tftp "No null terminator found")
    | some nullPos =>
        if nullPos > maxStringLength then
          .error (.tftp "String too long (exceeds 255 bytes)")
        else
          match fromUtf8 (bytes.take nullPos) with
          | none => .error (.tftp "Invalid UTF-8")
          | some s => .ok (s, bytes.drop (nullPos + 1))

theorem findIdx?_zero_append {xs rest : Bytes} (h : 0 ∉ xs) :
    (xs ++ 0 :: rest).findIdx? (· = 0) = some xs.length := by
  induction xs with
  | nil => simp [List.findIdx?_cons]
  | cons x xs ih =>
      have hx : x ≠ 0 := fun e => h (by simp [e])
      have hxs : 0 ∉ xs := fun hm => h (List.mem_cons_of_mem _ hm)
      rw [List.cons_append, List.findIdx?_cons, if_neg (by simpa using hx), ih hxs]
      rfl

/-- The text of a string on the wire, if `parse_string` reads it. -/
def wireText (bytes : Bytes) : Option String :=
  if bytes.length < maxStringLength then fromUtf8 bytes else none

theorem parseString_wireText {bytes rest : Bytes} (hnul : 0 ∉ bytes) {s : String}
    (h : wireText bytes = some s) : parseString (bytes ++ 0 :: rest) = .ok (s, rest) := by
  unfold wireText at h
  split_ifs at h with hlen
  have hmem : 0 ∈ (bytes ++ 0 :: rest).take maxStringLength := by
    rw [List.take_append, List.mem_append]
    right
    obtain ⟨k, hk⟩ : ∃ k, maxStringLength - bytes.length = k + 1 :=
      ⟨maxStringLength - bytes.length - 1, by omega⟩
    rw [hk, List.take_succ_cons]
    exact List.mem_cons_self
  rw [parseString, if_neg (fun h => h.2 hmem), findIdx?_zero_append hnul]
  dsimp only
  rw [if_neg (by omega), List.take_left, h]
  simp

theorem parseString_unreadable {bytes : Bytes} (rest : Bytes) (hnul : 0 ∉ bytes)
    (h : wireText bytes = none) : ∃ e, parseString (bytes ++ 0 :: rest) = .error e := by
  unfold wireText at h
  unfold parseString
  by_cases hlen : bytes.length < maxStringLength
  · rw [if_pos hlen] at h
    split_ifs
    · exact ⟨_, rfl⟩
    · rw [findIdx?_zero_append hnul]
      dsimp only
      rw [if_neg (by omega), List.take_left, h]
      exact ⟨_, rfl⟩
  · -- the NUL stands behind the first `maxStringLength` bytes
    have hmem : 0 ∉ (bytes ++ 0 :: rest).take maxStringLength := by
      rw [List.take_append_of_le_length (by omega)]
      intro hm
      exact hnul (List.mem_of_mem_take hm)
    have hlong : (bytes ++ 0 :: rest).length > maxStringLength := by
      rw [List.length_append, List.length_cons]
      omega
    rw [if_pos ⟨hlong, hmem⟩]
    exact ⟨_, rfl⟩

/-- **A string written with `cstring` is read back**, if it has no NUL and at most `254`
bytes. -/
theorem parseString_cstring {s : String} {rest : Bytes} (hnul : 0 ∉ asBytes s)
    (hlen : (asBytes s).length ≤ 254) : parseString (cstring s ++ rest) = .ok (s, rest) := by
  have hform : cstring s ++ rest = asBytes s ++ 0 :: rest := by simp [cstring]
  have htext : wireText (asBytes s) = some s := by
    rw [wireText, if_pos (by unfold maxStringLength; omega), fromUtf8_asBytes]
  rw [hform]
  exact parseString_wireText hnul htext

/-- `parse_string(..).unwrap_or_default()`, as the texts of ERROR packets are read. -/
def parseStringOrDefault (bytes : Bytes) : String :=
  match parseString bytes with
  | .ok (s, _) => s
  | .error _ => ""

/-! ## Packets -/

def dataPacket (blockNum : UInt16) (payload : Bytes) : Bytes :=
  putU16 Opcode.data.toU16 ++ (putU16 blockNum ++ payload)

def ackPacket (blockNum : UInt16) : Bytes := putU16 Opcode.ack.toU16 ++ putU16 blockNum

/-- `send_error_on_socket`. -/
def errorPacket (code : TftpErrorCode) (message : String) : Bytes :=
  putU16 Opcode.error.toU16 ++ (putU16 code.toU16 ++ cstring message)

/-- A name with its value, as the option maps hold them. -/
abbrev OptionEntry := (_ : String) × String

/-- `build_oack_packet`, with the options in the order the map yields them. -/
def buildOackPacket (options : List OptionEntry) : Bytes :=
  putU16 Opcode.oack.toU16 ++ options.flatMap fun o => cstring o.1 ++ cstring o.2

@[simp] theorem length_dataPacket (n : UInt16) (payload : Bytes) :
    (dataPacket n payload).length = payload.length + 4 := by
  simp only [dataPacket, List.length_append, length_putU16]; omega

@[simp] theorem length_ackPacket (n : UInt16) : (ackPacket n).length = 4 := rfl

@[simp] theorem getU16_dataPacket (n : UInt16) (payload : Bytes) :
    getU16 (dataPacket n payload) = some (Opcode.data.toU16, putU16 n ++ payload) :=
  getU16_putU16 _ _

@[simp] theorem getU16_ackPacket (n : UInt16) :
    getU16 (ackPacket n) = some (Opcode.ack.toU16, putU16 n) :=
  getU16_putU16 _ _

@[simp] theorem getU16_buildOackPacket (options : List OptionEntry) :
    getU16 (buildOackPacket options)
      = some (Opcode.oack.toU16, options.flatMap fun o => cstring o.1 ++ cstring o.2) :=
  getU16_putU16 _ _

/-- The two leading fields of a packet and the rest: two calls of `get_u16`. -/
def header (d : Bytes) : Option (UInt16 × UInt16 × Bytes) :=
  (getU16 d).bind fun (opcode, rest) =>
    (getU16 rest).map fun (field, rest) => (opcode, field, rest)

/-- The packets without a header are those that fail the check `size < 4`. -/
theorem header_eq_none_iff (d : Bytes) : header d = none ↔ d.length < 4 := by
  match d with
  | [] => simp [header, getU16]
  | [_] => simp [header, getU16]
  | [_, _] => simp [header, getU16]
  | [_, _, _] => simp [header, getU16]
  | _ :: _ :: _ :: _ :: _ => simp [header, getU16]

@[simp] theorem header_dataPacket (n : UInt16) (payload : Bytes) :
    header (dataPacket n payload) = some (Opcode.data.toU16, n, payload) := by
  simp [header]

@[simp] theorem header_ackPacket (n : UInt16) :
    header (ackPacket n) = some (Opcode.ack.toU16, n, []) := by
  simp [header]

theorem header_opcode {d rest rest' : Bytes} {o o' n : UInt16} (hd : getU16 d = some (o, rest))
    (h : header d = some (o', n, rest')) : o' = o := by
  rw [header, hd, Option.bind_some] at h
  simp only [Option.map_eq_some_iff, Prod.mk.injEq] at h
  obtain ⟨_, _, ho, _⟩ := h
  exact ho.symm

/-- Receiving into a buffer of `n` bytes cuts a longer datagram. -/
def recvInto (n : Nat) (d : Bytes) : Bytes := d.take n

theorem recvInto_of_le {n : Nat} {d : Bytes} (h : d.length ≤ n) : recvInto n d = d :=
  List.take_of_length_le h

theorem header_recvInto {k : Nat} (hk : 4 ≤ k) (d : Bytes) :
    header (recvInto k d) = (header d).map fun (o, n, rest) => (o, n, rest.take (k - 4)) := by
  obtain ⟨j, rfl⟩ : ∃ j, k = j + 4 := ⟨k - 4, by omega⟩
  match d with
  | [] => simp [recvInto, header, getU16]
  | [_] => simp [recvInto, header, getU16]
  | [_, _] => simp [recvInto, header, getU16]
  | [_, _, _] => simp [recvInto, header, getU16]
  | _ :: _ :: _ :: _ :: _ => simp [recvInto, header, getU16]

/-! ## The DATA packets of a file -/

/-- The DATA packet of absolute block `i + 1` of `file`, cut into blocks of `b` bytes. -/
def segPacket (b : Nat) (file : Bytes) (i : Nat) : Bytes :=
  dataPacket (wire (i + 1)) (block b file i)

/-- The canonical segmentation: the DATA packets of all blocks, numbered `1, 2, 3, …` modulo
`65536`. -/
def segPackets (b : Nat) (file : Bytes) : List Bytes :=
  (List.range (blockCount b file)).map (segPacket b file)

@[simp] theorem length_segPackets (b : Nat) (file : Bytes) :
    (segPackets b file).length = blockCount b file := by
  simp [segPackets]

theorem getElem?_segPackets {b : Nat} {file : Bytes} {i : Nat} (h : i < blockCount b file) :
    (segPackets b file)[i]? = some (segPacket b file i) := by
  simp [segPackets, h]

theorem mem_segPackets {b : Nat} {file d : Bytes} :
    d ∈ segPackets b file ↔ ∃ i, i < blockCount b file ∧ d = segPacket b file i := by
  simp only [segPackets, List.mem_map, List.mem_range]
  constructor
  · rintro ⟨i, hi, rfl⟩; exact ⟨i, hi, rfl⟩
  · rintro ⟨i, hi, rfl⟩; exact ⟨i, hi, rfl⟩

theorem segPackets_ne_nil (b : Nat) (file : Bytes) : segPackets b file ≠ [] := by
  intro h
  have := congrArg List.length h
  rw [length_segPackets] at this
  exact absurd this (Nat.succ_ne_zero _)

/-- DATA packets with these payloads, numbered from `1` on. -/
def dataPackets (payloads : List Bytes) : List Bytes :=
  payloads.mapIdx fun i payload => dataPacket (wire (i + 1)) payload

theorem dataPackets_map_range (payload : Nat → Bytes) (n : Nat) :
    dataPackets ((List.range n).map payload)
      = (List.range n).map fun i => dataPacket (wire (i + 1)) (payload i) := by
  apply List.ext_getElem
  · simp [dataPackets]
  · intro i h _
    simp [dataPackets]

theorem segPackets_eq_dataPackets (b : Nat) (file : Bytes) :
    segPackets b file = dataPackets (Segment.segment b file) :=
  (dataPackets_map_range _ _).symm

theorem dataPackets_inj {ds ds' : List Bytes} : dataPackets ds = dataPackets ds' ↔ ds = ds' := by
  constructor
  · intro h
    have hlen := congrArg List.length h
    rw [dataPackets, dataPackets, List.length_mapIdx, List.length_mapIdx] at hlen
    refine List.ext_getElem hlen fun i hi hi' => ?_
    have hpacket : (dataPackets ds)[i]? = (dataPackets ds')[i]? := by rw [h]
    simp only [dataPackets, List.getElem?_mapIdx, List.getElem?_eq_getElem hi,
      List.getElem?_eq_getElem hi', Option.map_some, Option.some_inj] at hpacket
    simpa only [dataPacket, List.append_cancel_left_eq] using hpacket
  · rintro rfl
    rfl

end UsgTftp
