import Mathlib.Data.List.Nodup
import Mathlib.Tactic

set_option autoImplicit false

/-! # Records in documents

How records with defaults are written to a document of keys and values, and read from it again: a
member without a value is left out, and one that is not in the document is read as its default.

`reload_record` says what a record that was written and is read again has in each of its members.
-/

namespace Record

/-! ## Documents -/

/-- A value of a document. -/
inductive Value where
  | bool (b : Bool)
  | integer (n : Int)
  /-- As its bits. -/
  | float (bits : UInt64)
  | string (s : String)
  | array (items : List Value)
  | table (entries : List (String × Value))

/-- The same value, with the keys of its tables in another order. -/
inductive Value.Reordered : Value → Value → Prop
  | refl (v : Value) : Reordered v v
  | table {entries entries' : List (String × Value)}
      (keys : ∀ k, (entries'.lookup k).isSome = (entries.lookup k).isSome)
      (values : ∀ k v v', entries.lookup k = some v → entries'.lookup k = some v' →
        Reordered v v') : Reordered (.table entries) (.table entries')

/-- Why a value cannot be written. -/
inductive WriteError where
  /-- An integer that is too large. -/
  | outOfRange
  /-- A value that is absent where one has to be. -/
  | unsupportedNone
  | custom (message : String)
  deriving DecidableEq, Repr

/-- **The two directions of a type.** Nothing is written for a value that is absent. What is read
does not depend on the order of keys. -/
structure Codec (α : Type) where
  write : α → Except WriteError (Option Value)
  read : Value → Option α
  read_reordered : ∀ {v v' : Value}, v.Reordered v' → read v' = read v

/-- The value that is read after `a` was written, with `dflt` for one that is not there. -/
def Codec.reload {α : Type} (c : Codec α) (dflt a : α) : Option α :=
  match c.write a with
  | .error _ => none
  | .ok none => some dflt
  | .ok (some v) => c.read v

/-! ## Records -/

/-- A member of a record. -/
structure Member (σ : Type) where
  name : String
  Content : Type
  codec : Codec Content
  get : σ → Content
  set : Content → σ → σ

/-- A member of the type of the given codec. -/
@[simp] def Member.of {σ α : Type} (name : String) (codec : Codec α) (get : σ → α)
    (set : α → σ → σ) : Member σ :=
  ⟨name, α, codec, get, set⟩

section Members

variable {σ : Type}

def writeEntries : List (Member σ) → σ → Except WriteError (List (String × Value))
  | [], _ => .ok []
  | m :: ms, s =>
      (m.codec.write (m.get s)).bind fun written =>
        (writeEntries ms s).map fun entries =>
          match written with
          | none => entries
          | some v => (m.name, v) :: entries

/-- The members that are there take the place of those of the record that is given. -/
def readEntries : List (Member σ) → List (String × Value) → σ → Option σ
  | [], _, s => some s
  | m :: ms, entries, s =>
      match entries.lookup m.name with
      | none => readEntries ms entries s
      | some v => (m.codec.read v).bind fun a => readEntries ms entries (m.set a s)

theorem readEntries_reordered {entries entries' : List (String × Value)}
    (keys : ∀ k, (entries'.lookup k).isSome = (entries.lookup k).isSome)
    (values : ∀ k v v', entries.lookup k = some v → entries'.lookup k = some v' → v.Reordered v')
    (members : List (Member σ)) (s : σ) :
    readEntries members entries' s = readEntries members entries s := by
  induction members generalizing s with
  | nil => rfl
  | cons m ms ih =>
      rw [readEntries, readEntries]
      have hkey := keys m.name
      cases hlook : entries.lookup m.name with
      | none =>
          rw [hlook, Option.isSome_none, Option.isSome_eq_false_iff, Option.isNone_iff_eq_none]
            at hkey
          rw [hkey]
          exact ih s
      | some v =>
          rw [hlook, Option.isSome_some] at hkey
          obtain ⟨v', hv'⟩ := Option.isSome_iff_exists.mp hkey
          rw [hv']
          simp only [m.codec.read_reordered (values m.name v v' hlook hv'), ih]

def readRecord (members : List (Member σ)) (dflt : σ) : Value → Option σ
  | .table entries => readEntries members entries dflt
  | _ => none

/-- **A record**, as a table. -/
def record (members : List (Member σ)) (dflt : σ) : Codec σ where
  write s := (writeEntries members s).map fun entries => some (.table entries)
  read := readRecord members dflt
  read_reordered h := by
    cases h with
    | refl v => rfl
    | table keys values => exact readEntries_reordered keys values members dflt

/-- Two members have different names, and to set one leaves the other as it is. -/
def Member.Apart (m n : Member σ) : Prop :=
  m.name ≠ n.name ∧ (∀ a s, n.get (m.set a s) = n.get s) ∧ ∀ a s, m.get (n.set a s) = m.get s

/-- The members are apart from each other, and are all that a record has. -/
structure Lawful (members : List (Member σ)) : Prop where
  get_set : ∀ m ∈ members, ∀ a s, m.get (m.set a s) = a
  apart : members.Pairwise Member.Apart
  ext : ∀ s s', (∀ m ∈ members, m.get s = m.get s') → s = s'

/-! ## What is read -/

/-- What each member that is read preserves. -/
theorem readEntries_preserves {P : σ → Prop} {members : List (Member σ)}
    (hset : ∀ m ∈ members, ∀ v a s, m.codec.read v = some a → P s → P (m.set a s))
    {entries : List (String × Value)} {d r : σ} (hd : P d)
    (h : readEntries members entries d = some r) : P r := by
  induction members generalizing d with
  | nil =>
      cases h
      exact hd
  | cons m ms ih =>
      have hrest := fun n hn => hset n (List.mem_cons_of_mem m hn)
      rw [readEntries] at h
      cases hlook : entries.lookup m.name with
      | none =>
          rw [hlook] at h
          exact ih hrest hd h
      | some v =>
          rw [hlook] at h
          obtain ⟨a, hread, h⟩ := Option.bind_eq_some_iff.mp h
          exact ih hrest (hset m List.mem_cons_self v a d hread hd) h

/-- **What holds of the default**, and after each member that is read, holds of what is read. -/
theorem readRecord_preserves {P : σ → Prop} {members : List (Member σ)} {dflt r : σ} {v : Value}
    (hset : ∀ m ∈ members, ∀ v a s, m.codec.read v = some a → P s → P (m.set a s))
    (hdflt : P dflt) (h : (record members dflt).read v = some r) : P r := by
  cases v with
  | table entries => exact readEntries_preserves hset hdflt h
  -- nothing else is read as a record
  | bool _ => cases h
  | integer _ => cases h
  | float _ => cases h
  | string _ => cases h
  | array _ => cases h

/-! ## What is read again -/

/-- The members that are read after those of `s` were written, with `d` for what is left out. -/
def reloadEntries (members : List (Member σ)) (d s : σ) : Option σ :=
  match writeEntries members s with
  | .error _ => none
  | .ok entries => readEntries members entries d

theorem reload_record_eq (members : List (Member σ)) (dflt d s : σ) :
    (record members dflt).reload d s = reloadEntries members dflt s := by
  unfold Codec.reload reloadEntries record
  simp only
  cases writeEntries members s with
  | error e => rfl
  | ok entries => rfl

/-- Under a name that no member has nothing is written. -/
theorem lookup_writeEntries {members : List (Member σ)} {s : σ} {entries : List (String × Value)}
    (h : writeEntries members s = .ok entries) {k : String} (hk : ∀ m ∈ members, m.name ≠ k) :
    entries.lookup k = none := by
  induction members generalizing entries with
  | nil =>
      cases h
      rfl
  | cons m ms ih =>
      have hrest := fun rest h => @ih rest h fun n hn => hk n (List.mem_cons_of_mem m hn)
      rw [writeEntries] at h
      cases hwrite : m.codec.write (m.get s) with
      | error e => rw [hwrite] at h; cases h
      | ok written =>
          rw [hwrite] at h
          cases hms : writeEntries ms s with
          | error e => rw [hms] at h; cases h
          | ok rest =>
              rw [hms] at h
              cases written with
              | none =>
                  cases h
                  exact hrest rest hms
              | some v =>
                  cases h
                  rw [List.lookup_cons, beq_false_of_ne (hk m List.mem_cons_self).symm]
                  exact hrest rest hms

theorem readEntries_cons_ne {members : List (Member σ)} {k : String} (v : Value)
    (hk : ∀ m ∈ members, m.name ≠ k) (entries : List (String × Value)) (d : σ) :
    readEntries members ((k, v) :: entries) d = readEntries members entries d := by
  induction members generalizing d with
  | nil => rfl
  | cons m ms ih =>
      have hrest := ih fun n hn => hk n (List.mem_cons_of_mem m hn)
      rw [readEntries, readEntries, List.lookup_cons, beq_false_of_ne (hk m List.mem_cons_self)]
      simp only [hrest]

/-- **One member** is read again, and then those after it. -/
theorem reloadEntries_cons {m : Member σ} {ms : List (Member σ)}
    (hnames : ∀ n ∈ ms, n.name ≠ m.name) (d s : σ) :
    reloadEntries (m :: ms) d s =
      match m.codec.write (m.get s) with
      | .error _ => none
      | .ok none => reloadEntries ms d s
      | .ok (some v) => (m.codec.read v).bind fun a => reloadEntries ms (m.set a d) s := by
  unfold reloadEntries
  rw [writeEntries]
  cases hwrite : m.codec.write (m.get s) with
  | error e => rfl
  | ok written =>
      cases hms : writeEntries ms s with
      | error e =>
          cases written with
          | none => rfl
          | some v => exact (Option.bind_fun_none _).symm
      | ok rest =>
          cases written with
          | none =>
              show readEntries (m :: ms) rest d = readEntries ms rest d
              rw [readEntries, lookup_writeEntries hms hnames]
          | some v =>
              show readEntries (m :: ms) ((m.name, v) :: rest) d = _
              rw [readEntries, List.lookup_cons_self]
              simp only [readEntries_cons_ne v hnames]

/-- What no member sets stays as it was. -/
theorem reloadEntries_frame {γ : Type} (g : σ → γ) {members : List (Member σ)}
    (hframe : ∀ m ∈ members, ∀ a s, g (m.set a s) = g s) {d s r : σ}
    (h : reloadEntries members d s = some r) : g r = g d := by
  unfold reloadEntries at h
  cases hw : writeEntries members s with
  | error e => rw [hw] at h; cases h
  | ok entries =>
      rw [hw] at h
      apply readEntries_preserves (P := fun s => g s = g d) _ rfl h
      intro m hm _ a s _ hs
      rw [hframe m hm, hs]

/-- **Each member** of what is read is what its own value is read as. -/
theorem reload_of_reloadEntries {members : List (Member σ)}
    (hget : ∀ m ∈ members, ∀ a s, m.get (m.set a s) = a)
    (hapart : members.Pairwise Member.Apart)
    {d s r : σ} (h : reloadEntries members d s = some r) :
    ∀ m ∈ members, m.codec.reload (m.get d) (m.get s) = some (m.get r) := by
  induction members generalizing d with
  | nil => simp
  | cons m ms ih =>
      obtain ⟨hm, hms⟩ := List.pairwise_cons.mp hapart
      have hrest := @ih (fun n hn => hget n (List.mem_cons_of_mem m hn)) hms
      -- the members behind it leave `m` as it was read
      have hframe : ∀ {d}, reloadEntries ms d s = some r → m.get r = m.get d :=
        reloadEntries_frame m.get fun n hn => (hm n hn).2.2
      rw [reloadEntries_cons fun n hn => (hm n hn).1.symm] at h
      intro n hn
      unfold Codec.reload
      cases hwrite : m.codec.write (m.get s) with
      | error e => rw [hwrite] at h; cases h
      | ok written =>
          rw [hwrite] at h
          cases written with
          | none =>
              rcases List.mem_cons.mp hn with rfl | hn
              · rw [hwrite, hframe h]
              · exact hrest h n hn
          | some v =>
              obtain ⟨a, hread, h⟩ := Option.bind_eq_some_iff.mp h
              rcases List.mem_cons.mp hn with rfl | hn
              · rw [hwrite, hframe h, hget n hn]
                exact hread
              · rw [← (hm n hn).2.1 a d]
                exact hrest h n hn

/-- Members that can be read can be read one after the other. -/
theorem isSome_reloadEntries {members : List (Member σ)}
    (hapart : members.Pairwise Member.Apart)
    {d s : σ} (h : ∀ m ∈ members, (m.codec.reload (m.get d) (m.get s)).isSome) :
    (reloadEntries members d s).isSome := by
  induction members generalizing d with
  | nil => rfl
  | cons m ms ih =>
      obtain ⟨hm, hms⟩ := List.pairwise_cons.mp hapart
      have hhead := h m List.mem_cons_self
      have htail := fun n hn => h n (List.mem_cons_of_mem m hn)
      rw [reloadEntries_cons fun n hn => (hm n hn).1.symm]
      unfold Codec.reload at hhead
      cases hwrite : m.codec.write (m.get s) with
      | error e => rw [hwrite] at hhead; cases hhead
      | ok written =>
          rw [hwrite] at hhead
          cases written with
          | none => exact ih hms htail
          | some v =>
              obtain ⟨a, ha⟩ := Option.isSome_iff_exists.mp hhead
              have hread : m.codec.read v = some a := ha
              have hrest := @ih hms (m.set a d) fun n hn => by
                rw [(hm n hn).2.1 a d]
                exact htail n hn
              simpa only [hread, Option.bind_some] using hrest

/-- **A record that is written and read again** has in each member what that is read as; in a
member that is left out it has what the default has. -/
theorem reload_record {members : List (Member σ)} (hlawful : Lawful members) (dflt d s s' : σ) :
    (record members dflt).reload d s = some s' ↔
      ∀ m ∈ members, m.codec.reload (m.get dflt) (m.get s) = some (m.get s') := by
  rw [reload_record_eq]
  refine ⟨reload_of_reloadEntries hlawful.get_set hlawful.apart, fun h => ?_⟩
  have hsome := isSome_reloadEntries hlawful.apart (d := dflt) (s := s) fun m hm => by
    rw [h m hm]
    rfl
  obtain ⟨r, hr⟩ := Option.isSome_iff_exists.mp hsome
  -- what is read agrees with `s'` in each member, and there is nothing else in a record
  have hmembers := reload_of_reloadEntries hlawful.get_set hlawful.apart hr
  rw [hr, hlawful.ext r s' fun m hm => Option.some.inj ((hmembers m hm).symm.trans (h m hm))]

/-! ## What can be written -/

/-- The value can be written, or is left out. -/
def Codec.Writes {α : Type} (c : Codec α) (a : α) : Prop := ∃ written, c.write a = .ok written

theorem isOk_writeEntries {members : List (Member σ)} {s : σ} :
    (∃ entries, writeEntries members s = .ok entries) ↔
      ∀ m ∈ members, m.codec.Writes (m.get s) := by
  induction members with
  | nil => exact iff_of_true ⟨[], rfl⟩ (by simp)
  | cons m ms ih =>
      rw [List.forall_mem_cons, ← ih, writeEntries]
      cases hwrite : m.codec.write (m.get s) with
      | error e =>
          refine iff_of_false (by rintro ⟨entries, ⟨⟩⟩) ?_
          rintro ⟨⟨written, hw⟩, -⟩
          rw [hwrite] at hw
          cases hw
      | ok written =>
          rw [and_iff_right ⟨written, hwrite⟩]
          cases hms : writeEntries ms s with
          | error e => exact iff_of_false (by rintro ⟨entries, ⟨⟩⟩) (by rintro ⟨entries, ⟨⟩⟩)
          | ok rest => exact iff_of_true ⟨_, rfl⟩ ⟨rest, rfl⟩

/-- **A record can be written** if each of its members can. -/
theorem writes_record (members : List (Member σ)) (dflt s : σ) :
    (record members dflt).Writes s ↔ ∀ m ∈ members, m.codec.Writes (m.get s) := by
  rw [← isOk_writeEntries]
  unfold Codec.Writes record
  simp only
  cases writeEntries members s with
  | error e => exact iff_of_false (by rintro ⟨w, ⟨⟩⟩) (by rintro ⟨entries, ⟨⟩⟩)
  | ok entries => exact iff_of_true ⟨_, rfl⟩ ⟨entries, rfl⟩

/-! ## Documents as texts -/

/-- How documents are written as texts. -/
structure Format where
  print : Value → String
  parse : String → Option Value
  writeErrorText : WriteError → String
  /-- What is wrong with a text that cannot be read. -/
  readErrorText : String → String

namespace Format

variable {α : Type} (format : Format) (c : Codec α)

def toText (a : α) : Except String String :=
  match c.write a with
  | .error e => .error (format.writeErrorText e)
  | .ok none => .error (format.writeErrorText .unsupportedNone)
  | .ok (some v) => .ok (format.print v)

def ofText (s : String) : Except String α :=
  match (format.parse s).bind c.read with
  | some a => .ok a
  | none => .error (format.readErrorText s)

/-- What is printed is parsed as the same value, but for the order of keys. -/
def Exact (v : Value) : Prop := ∃ v', format.parse (format.print v) = some v' ∧ v.Reordered v'

/-- **A record as a text**: whether the text of `s` is that of `s'`. -/
theorem ofText_toText_iff {members : List (Member σ)} {dflt d s s' : σ}
    (hexact : ∀ v, (record members dflt).write s = .ok (some v) → format.Exact v) :
    (∃ text, format.toText (record members dflt) s = .ok text ∧
        format.ofText (record members dflt) text = .ok s') ↔
      (record members dflt).reload d s = some s' := by
  unfold toText Codec.reload
  cases hwrite : (record members dflt).write s with
  | error e => exact iff_of_false (by rintro ⟨text, ⟨⟩, -⟩) (by rintro ⟨⟩)
  | ok written =>
      cases written with
      | none =>
          -- a record is never absent
          exfalso
          unfold record at hwrite
          simp only at hwrite
          cases hentries : writeEntries members s with
          | error e => rw [hentries] at hwrite; cases hwrite
          | ok entries => rw [hentries] at hwrite; cases hwrite
      | some v =>
          obtain ⟨v', hparse, hreordered⟩ := hexact v hwrite
          have hread := (record members dflt).read_reordered hreordered
          have htext : format.ofText (record members dflt) (format.print v) = .ok s' ↔
              (record members dflt).read v = some s' := by
            unfold ofText
            rw [hparse, Option.bind_some, hread]
            cases (record members dflt).read v with
            | none => exact iff_of_false (by rintro ⟨⟩) (by rintro ⟨⟩)
            | some r => rw [Except.ok.injEq, Option.some.injEq]
          rw [← htext]
          exact ⟨by rintro ⟨text, ⟨⟩, h⟩; exact h, fun h => ⟨_, rfl, h⟩⟩

end Format

end Members

/-! ## Types -/

/-- A type whose values are not tables. -/
theorem read_reordered_of_noTable {α : Type} (read : Value → Option α)
    (h : ∀ entries, read (.table entries) = none) {v v' : Value} (hv : v.Reordered v') :
    read v' = read v := by
  cases hv with
  | refl v => rfl
  | table _ _ => rw [h, h]

def readBoolean : Value → Option Bool
  | .bool b => some b
  | _ => none

def boolean : Codec Bool where
  write b := .ok (some (.bool b))
  read := readBoolean
  read_reordered := read_reordered_of_noTable readBoolean fun _ => rfl

/-- An integer below a bound. -/
def readBelow (bound : Nat) : Value → Option Nat
  | .integer n => if 0 ≤ n ∧ n < bound then some n.toNat else none
  | _ => none

def readUint64 (v : Value) : Option UInt64 := (readBelow (2 ^ 64) v).map UInt64.ofNat

/-- Integers of a document have a sign and 64 bits. -/
def uint64 : Codec UInt64 where
  write n :=
    if n.toNat < 2 ^ 63 then .ok (some (.integer n.toNat)) else .error .outOfRange
  read := readUint64
  read_reordered := read_reordered_of_noTable readUint64 fun _ => rfl

def readUint16 (v : Value) : Option UInt16 := (readBelow (2 ^ 16) v).map UInt16.ofNat

def uint16 : Codec UInt16 where
  write n := .ok (some (.integer n.toNat))
  read := readUint16
  read_reordered := read_reordered_of_noTable readUint16 fun _ => rfl

/-- An integer is a number as well. -/
def readFloat64 : Value → Option UInt64
  | .float bits => some bits
  | .integer n => some (Float.ofInt n).toBits
  | _ => none

/-- A number of double precision, as its bits. -/
def float64 : Codec UInt64 where
  write bits := .ok (some (.float bits))
  read := readFloat64
  read_reordered := read_reordered_of_noTable readFloat64 fun _ => rfl

def readText : Value → Option String
  | .string s => some s
  | _ => none

/-- A type whose values have texts. -/
def textual {α : Type} (write : α → Except WriteError String) (read : String → Option α) :
    Codec α where
  write a := (write a).map fun s => some (.string s)
  read v := (readText v).bind read
  read_reordered := read_reordered_of_noTable (fun v => (readText v).bind read) fun _ => rfl

def text : Codec String := textual .ok some

/-- A type of few values, which have names. -/
def named {α : Type} (name : α → String) (variants : List α) : Codec α :=
  textual (fun a => .ok (name a)) fun s => variants.find? fun a => name a = s

def readTexts : Value → Option (List String)
  | .array items => items.mapM readText
  | _ => none

def texts : Codec (List String) where
  write ss := .ok (some (.array (ss.map .string)))
  read := readTexts
  read_reordered := read_reordered_of_noTable readTexts fun _ => rfl

/-- A value that can be absent. -/
def optional {α : Type} (c : Codec α) : Codec (Option α) where
  write
    | none => .ok none
    | some a => c.write a
  read v := (c.read v).map some
  read_reordered h := by rw [c.read_reordered h]

theorem reload_of_write {α : Type} {c : Codec α} {d a : α} {v : Value}
    (h : c.write a = .ok (some v)) : c.reload d a = c.read v := by
  rw [Codec.reload, h]

theorem reload_of_error {α : Type} {c : Codec α} {d a : α} {e : WriteError}
    (h : c.write a = .error e) : c.reload d a = none := by
  rw [Codec.reload, h]

@[simp] theorem reload_boolean (d b : Bool) : boolean.reload d b = some b := rfl

@[simp] theorem reload_float64 (d bits : UInt64) : float64.reload d bits = some bits := rfl

theorem reload_textual {α : Type} (write : α → Except WriteError String)
    (read : String → Option α) (d a : α) :
    (textual write read).reload d a = (write a).toOption.bind read := by
  unfold Codec.reload textual
  simp only
  cases write a with
  | error e => rfl
  | ok s => rfl

@[simp] theorem reload_text (d s : String) : text.reload d s = some s := reload_textual _ _ d s

/-- Names that are different can be told apart. -/
theorem reload_named {α : Type} {name : α → String} {variants : List α} {d a : α}
    (hmem : a ∈ variants) (hnames : (variants.map name).Nodup) :
    (named name variants).reload d a = some a := by
  rw [named, reload_textual]
  show variants.find? (fun b => name b = name a) = some a
  cases hfind : variants.find? fun b => name b = name a with
  | none =>
      have := List.find?_eq_none.mp hfind a hmem
      simp at this
  | some b =>
      have hb := List.find?_some hfind
      have hname : name b = name a := by simpa using hb
      rw [List.inj_on_of_nodup_map hnames (List.mem_of_find?_eq_some hfind) hmem hname]

theorem mapM_readText (ss : List String) : (ss.map Value.string).mapM readText = some ss := by
  induction ss with
  | nil => rfl
  | cons s ss ih =>
      rw [List.map_cons, List.mapM_cons, ih]
      rfl

@[simp] theorem reload_texts (d ss : List String) : texts.reload d ss = some ss := mapM_readText ss

theorem readBelow_integer {bound n : Nat} (h : n < bound) :
    readBelow bound (.integer n) = some n := by
  rw [readBelow, if_pos ⟨Int.natCast_nonneg n, Int.ofNat_lt.mpr h⟩, Int.toNat_natCast]

@[simp] theorem reload_uint16 (d n : UInt16) : uint16.reload d n = some n := by
  have hwrite : uint16.write n = .ok (some (.integer n.toNat)) := rfl
  have hread : uint16.read = readUint16 := rfl
  rw [reload_of_write hwrite, hread, readUint16, readBelow_integer n.toNat_lt, Option.map_some,
    UInt16.ofNat_toNat]

/-- **An integer** is read as it was written if a document can have it. -/
@[simp] theorem reload_uint64 (d n : UInt64) :
    uint64.reload d n = some n ↔ n.toNat < 2 ^ 63 := by
  by_cases hn : n.toNat < 2 ^ 63
  · have hwrite : uint64.write n = .ok (some (.integer n.toNat)) := if_pos hn
    have hread : uint64.read = readUint64 := rfl
    rw [reload_of_write hwrite, hread, readUint64, readBelow_integer n.toNat_lt, Option.map_some,
      UInt64.ofNat_toNat]
    exact iff_of_true rfl hn
  · have hwrite : uint64.write n = .error .outOfRange := if_neg hn
    rw [reload_of_error hwrite]
    exact iff_of_false (by rintro ⟨⟩) hn

@[simp] theorem reload_optional_none {α : Type} (c : Codec α) (d : Option α) :
    (optional c).reload d none = some d := rfl

/-- A value that is there and has a text is read as it would be if it had to be there. -/
theorem reload_optional_some {α : Type} (write : α → Except WriteError String)
    (read : String → Option α) (d : Option α) (a : α) :
    (optional (textual write read)).reload d (some a) =
      ((write a).toOption.bind read).map some := by
  unfold Codec.reload optional textual
  simp only
  cases write a with
  | error e => rfl
  | ok s => rfl

@[simp] theorem writes_boolean (b : Bool) : boolean.Writes b := ⟨_, rfl⟩

@[simp] theorem writes_float64 (bits : UInt64) : float64.Writes bits := ⟨_, rfl⟩

@[simp] theorem writes_uint16 (n : UInt16) : uint16.Writes n := ⟨_, rfl⟩

@[simp] theorem writes_texts (ss : List String) : texts.Writes ss := ⟨_, rfl⟩

@[simp] theorem writes_text (s : String) : text.Writes s := ⟨_, rfl⟩

@[simp] theorem writes_named {α : Type} (name : α → String) (variants : List α) (a : α) :
    (named name variants).Writes a :=
  ⟨_, rfl⟩

@[simp] theorem writes_uint64 (n : UInt64) : uint64.Writes n ↔ n.toNat < 2 ^ 63 := by
  unfold Codec.Writes uint64
  simp only
  split_ifs with hn
  · exact iff_of_true ⟨_, rfl⟩ hn
  · exact iff_of_false (by rintro ⟨w, ⟨⟩⟩) hn

@[simp] theorem writes_optional {α : Type} (c : Codec α) (o : Option α) :
    (optional c).Writes o ↔ ∀ a ∈ o, c.Writes a := by
  cases o with
  | none => exact iff_of_true ⟨none, rfl⟩ (by simp)
  | some a => simp [Codec.Writes, optional]

/-! ## The order of keys -/

theorem lookup_eq_some_iff {entries : List (String × Value)}
    (hnodup : (entries.map Prod.fst).Nodup) {k : String} {v : Value} :
    entries.lookup k = some v ↔ (k, v) ∈ entries := by
  induction entries with
  | nil => simp
  | cons e entries ih =>
      obtain ⟨k', v'⟩ := e
      obtain ⟨hk', hrest⟩ := List.nodup_cons.mp hnodup
      rw [List.lookup_cons]
      by_cases hk : k = k'
      · subst hk
        have hno : (k, v) ∉ entries := fun hmem => hk' (List.mem_map.mpr ⟨(k, v), hmem, rfl⟩)
        rw [beq_self_eq_true, List.mem_cons, or_iff_left hno, Prod.mk.injEq, and_iff_right rfl]
        exact (Option.some.injEq v' v).to_iff.trans eq_comm
      · rw [beq_false_of_ne hk, List.mem_cons, ih hrest]
        simp [hk]

/-- What is under a key of entries that are each reordered. -/
theorem lookup_of_forall₂ {entries entries' : List (String × Value)}
    (h : List.Forall₂ (fun e e' => e.1 = e'.1 ∧ e.2.Reordered e'.2) entries entries') (k : String) :
    entries.lookup k = none ∧ entries'.lookup k = none ∨
      ∃ v v', entries.lookup k = some v ∧ entries'.lookup k = some v' ∧ v.Reordered v' := by
  induction h with
  | nil => exact Or.inl ⟨rfl, rfl⟩
  | @cons e e' entries entries' he _ ih =>
      obtain ⟨k₁, v⟩ := e
      obtain ⟨k₂, v'⟩ := e'
      obtain ⟨rfl, hv⟩ := he
      rw [List.lookup_cons, List.lookup_cons]
      cases k == k₁ with
      | true => exact Or.inr ⟨v, v', rfl, rfl, hv⟩
      | false => exact ih

/-- **Entries in another order** are the same table. -/
theorem Value.Reordered.of_perm {entries mid entries' : List (String × Value)}
    (hnodup : (entries.map Prod.fst).Nodup) (hperm : entries.Perm mid)
    (h : List.Forall₂ (fun e e' => e.1 = e'.1 ∧ e.2.Reordered e'.2) mid entries') :
    Value.Reordered (.table entries) (.table entries') := by
  have hnodup' : (mid.map Prod.fst).Nodup := (hperm.map Prod.fst).nodup_iff.mp hnodup
  have hlook : ∀ k, mid.lookup k = entries.lookup k := by
    intro k
    apply Option.ext
    intro v
    rw [lookup_eq_some_iff hnodup, lookup_eq_some_iff hnodup', hperm.mem_iff]
  refine .table (fun k => ?_) fun k v v' hv hv' => ?_
  · rw [← hlook k]
    rcases lookup_of_forall₂ h k with ⟨hnone, hnone'⟩ | ⟨w, w', hw, hw', -⟩
    · rw [hnone, hnone']
    · rw [hw, hw']
      rfl
  · rcases lookup_of_forall₂ h k with ⟨hnone, -⟩ | ⟨w, w', hw, hw', hreordered⟩
    · rw [← hlook k, hnone] at hv
      cases hv
    · rw [← hlook k, hw] at hv
      rw [hw'] at hv'
      rw [← Option.some.inj hv, ← Option.some.inj hv']
      exact hreordered

end Record
