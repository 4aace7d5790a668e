import UsgTftp.Lib.Path
import UsgTftp.Lib.Rfc3339

set_option autoImplicit false

/-! # The audit log over the web

`audit_log` of `src/web/handlers.rs`: the events of the two log files are merged, filtered, sorted
by the texts of their timestamps, the latest first, and sent page by page. Texts are compared by
their characters, which is the order of their bytes.

The timestamps are written by `to_rfc3339`, whose texts are ordered as the instants are
(`Lib/Rfc3339.lean`). So an event is listed before all earlier ones, and the pages at the multiples
of the effective limit, one after the other, are the whole list (`audit_log_chronological`).

The reading of JSON is not modelled: `Json` says what `audit_log` asks of it.
-/

namespace UsgTftp

open Posix Rfc3339

/-! ## Requests and events -/

/-- What is asked of `serde_json`: `from_str`, and `get` with `as_str`. -/
structure Json (V : Type) where
  fromStr : String → Option V
  getStr : V → String → Option String

structure AuditQuery where
  offset : Option Nat
  limit : Option Nat
  eventType : Option String
  search : Option String

structure AuditResponse (V : Type) where
  events : List V
  total : Nat
  offset : Nat
  limit : Nat

/-- What the handler reads: the path of the web log, the parts of the configuration that it looks
at, and the files. -/
structure AuditState (V : Type) where
  logPath : Path
  auditFile : Option Path
  rootDir : Path
  json : Json V
  toLowercase : String → String
  pathExists : Path → Bool
  /-- `read_to_string`, if it succeeds. -/
  readToString : Path → Option String

/-! ## The handler -/

/-- `str::lines`: a line feed ends a line, with the carriage return before it. -/
def lines (contents : String) : List String :=
  let pieces := contents.toList.splitOn '\n'
  let ended := pieces.dropLast.map fun line =>
    if line.getLast? = some '\r' then line.dropLast else line
  let last := pieces.getLast?.toList.filter (· ≠ [])
  (ended ++ last).map String.ofList

example : lines "a\r\n\nb\r" = ["a", "", "b\r"] := by decide +kernel

section Handler

variable {V : Type} (s : AuditState V)

def tftpAuditPath : Path :=
  s.auditFile.getD (s.rootDir.join [".audit", "tftp-audit.jsonl"])

/-- Paths are compared by their components. -/
def samePath (p q : Path) : Bool :=
  p.absolute = q.absolute ∧ p.lead = q.lead ∧
    (p.body.filter fun seg => ¬ Path.Noise seg) = q.body.filter fun seg => ¬ Path.Noise seg

/-- The events of one file; lines that are no JSON are left out. -/
def fileEvents (path : Path) : List V :=
  match s.readToString path with
  | some contents => (lines contents).filterMap s.json.fromStr
  | none => []

/-- The events of both files. -/
def allEvents : List V :=
  fileEvents s s.logPath ++
    if s.pathExists (tftpAuditPath s) ∧ samePath (tftpAuditPath s) s.logPath = false then
      fileEvents s (tftpAuditPath s)
    else []

def hasType (eventType : String) (e : V) : Bool := s.json.getStr e "event_type" = some eventType

/-- The field is a text that contains `searchLower`, whatever the case. -/
def checkField (searchLower : String) (e : V) (field : String) : Bool :=
  (s.json.getStr e field).any fun text =>
    decide (searchLower.toList <:+: (s.toLowercase text).toList)

def isFound (search : String) (e : V) : Bool :=
  let searchLower := s.toLowercase search
  checkField s searchLower e "path" || checkField s searchLower e "filename" ||
    checkField s searchLower e "client_addr"

def retainType (eventType : Option String) (events : List V) : List V :=
  match eventType with
  | some eventType => events.filter (hasType s eventType)
  | none => events

def retainFound (search : Option String) (events : List V) : List V :=
  match search with
  | some search => events.filter (isFound s search)
  | none => events

def filteredEvents (q : AuditQuery) : List V :=
  retainFound s q.search (retainType s q.eventType (allEvents s))

def timestamp (e : V) : String := (s.json.getStr e "timestamp").getD ""

/-- `sort_by`, which is stable, by descending timestamps. -/
def sortedEvents (q : AuditQuery) : List V :=
  (filteredEvents s q).mergeSort fun a b => decide (timestamp s b ≤ timestamp s a)

def effectiveLimit (q : AuditQuery) : Nat := min (q.limit.getD 50) 500

def auditLog (q : AuditQuery) : AuditResponse V :=
  let events := sortedEvents s q
  let offset := q.offset.getD 0
  ⟨(events.drop offset).take (effectiveLimit q), events.length, offset, effectiveLimit q⟩

end Handler

/-! ## Order -/

section Order

variable {V : Type} {s : AuditState V} {q : AuditQuery}

/-- The event carries the time of the instant `i`. -/
def HappensAt (s : AuditState V) (e : V) (i : Instant) : Prop :=
  s.json.getStr e "timestamp" = some i.toRfc3339

theorem HappensAt.timestamp_eq {e : V} {i : Instant} (h : HappensAt s e i) :
    timestamp s e = i.toRfc3339 := by
  rw [timestamp, h]
  rfl

/-- The timestamps descend. -/
theorem sortedEvents_pairwise :
    (sortedEvents s q).Pairwise fun a b => timestamp s b ≤ timestamp s a := by
  have hsorted : (sortedEvents s q).Pairwise fun a b =>
      decide (timestamp s b ≤ timestamp s a) = true := by
    apply List.pairwise_mergeSort
    · intro a b c hab hbc
      rw [decide_eq_true_iff] at hab hbc ⊢
      exact le_trans hbc hab
    · intro a b
      rw [Bool.or_eq_true, decide_eq_true_iff, decide_eq_true_iff]
      exact le_total _ _
  exact hsorted.imp fun h => of_decide_eq_true h

/-- **A later event is listed before an earlier one.** -/
theorem later_before_earlier {i j : Nat} (hi : i < (sortedEvents s q).length)
    (hj : j < (sortedEvents s q).length) {a b : Instant}
    (ha : HappensAt s (sortedEvents s q)[i] a) (hb : HappensAt s (sortedEvents s q)[j] b)
    (hlt : b < a) : i < j := by
  have htext := Instant.toRfc3339_lt_iff.mpr hlt
  rcases Nat.lt_trichotomy i j with h | h | h
  · exact h
  · subst h
    rw [← ha.timestamp_eq, ← hb.timestamp_eq] at htext
    exact absurd htext (lt_irrefl _)
  · have hle := List.pairwise_iff_getElem.mp sortedEvents_pairwise j i hj hi h
    rw [ha.timestamp_eq, hb.timestamp_eq] at hle
    exact absurd htext (not_lt_of_ge hle)

end Order

/-! ## Pages -/

/-- **Pages of one size**, one after the other, are the start of the list. -/
theorem flatMap_pages {α : Type} (l : List α) (m n : Nat) :
    ((List.range n).flatMap fun k => (l.drop (k * m)).take m) = l.take (n * m) := by
  induction n with
  | zero => rw [Nat.zero_mul, List.take_zero]; rfl
  | succ n ih =>
      rw [List.range_succ, List.flatMap_append, ih, List.flatMap_singleton, Nat.succ_mul,
        List.take_add]

/-- **The audit log is chronological and complete.** What is listed are the events of both files
that pass the filters, a later one before an earlier one, and the pages at the multiples of the
effective limit are this list, without loss or repetition. -/
theorem audit_log_chronological {V : Type} (s : AuditState V) (q : AuditQuery) :
    (sortedEvents s q).Perm (filteredEvents s q) ∧
    (∀ i j, ∀ hi : i < (sortedEvents s q).length, ∀ hj : j < (sortedEvents s q).length,
      ∀ a b : Instant, HappensAt s (sortedEvents s q)[i] a →
        HappensAt s (sortedEvents s q)[j] b → b < a → i < j) ∧
    (1 ≤ q.limit.getD 50 → 1 ≤ effectiveLimit q ∧ effectiveLimit q ≤ 500 ∧
      ∀ n, (sortedEvents s q).length ≤ n * effectiveLimit q →
        ((List.range n).flatMap fun k =>
          (auditLog s { q with offset := some (k * effectiveLimit q) }).events)
            = sortedEvents s q) := by
  refine ⟨List.mergeSort_perm _ _, fun i j hi hj a b ha hb hlt =>
    later_before_earlier hi hj ha hb hlt, fun hlimit => ⟨?_, ?_, fun n hn => ?_⟩⟩
  · rw [effectiveLimit]
    omega
  · exact Nat.min_le_right _ _
  · calc
      ((List.range n).flatMap fun k =>
          (auditLog s { q with offset := some (k * effectiveLimit q) }).events)
        = (sortedEvents s q).take (n * effectiveLimit q) :=
          flatMap_pages (sortedEvents s q) (effectiveLimit q) n
      _ = sortedEvents s q := List.take_of_length_le hn

/-- The start of a leap second, and the middle of it. -/
def leapSecond (nanos : Nat) (h : nanos < 10 ^ 9) : Instant :=
  ⟨2016, 12, 31, 23, 59, 60, nanos, by decide, by decide, by decide, by decide, by decide,
    by decide, by decide, by decide, h⟩

def leapStart : String := (leapSecond 0 (by decide)).toRfc3339

def leapMiddle : String := (leapSecond 500000000 (by decide)).toRfc3339

/-- A log of two events, which are their timestamps. -/
def twoEvents : AuditState String where
  logPath := Path.ofString "/var/log/web.jsonl"
  auditFile := none
  rootDir := Path.ofString "/srv/tftp"
  json := ⟨some, fun e field => if field = "timestamp" then some e else none⟩
  toLowercase := id
  pathExists := fun _ => false
  readToString := fun _ => some (leapStart ++ "\n" ++ leapMiddle ++ "\n")

def pagesOfOne : AuditQuery := ⟨none, some 1, none, none⟩

theorem sortedEvents_twoEvents :
    sortedEvents twoEvents pagesOfOne = [leapMiddle, leapStart] := by
  have hfiltered : filteredEvents twoEvents pagesOfOne = [leapStart, leapMiddle] := by
    decide +kernel
  have hle : ¬ timestamp twoEvents leapMiddle ≤ timestamp twoEvents leapStart := by
    decide +kernel
  rw [sortedEvents, hfiltered]
  simp [List.mergeSort, List.MergeSort.Internal.splitInTwo, hle]

theorem audit_log_chronological_two :
    (sortedEvents twoEvents pagesOfOne).idxOf leapMiddle
      < (sortedEvents twoEvents pagesOfOne).idxOf leapStart ∧
    ((List.range 2).flatMap fun k => (auditLog twoEvents
      { pagesOfOne with offset := some (k * effectiveLimit pagesOfOne) }).events)
        = [leapMiddle, leapStart] := by
  obtain ⟨-, horder, hpages⟩ := audit_log_chronological twoEvents pagesOfOne
  obtain ⟨-, -, hall⟩ := hpages (by decide)
  have hmem : ∀ e ∈ [leapMiddle, leapStart], (sortedEvents twoEvents pagesOfOne).idxOf e
      < (sortedEvents twoEvents pagesOfOne).length := by
    intro e he
    rw [sortedEvents_twoEvents]
    exact List.idxOf_lt_length_iff.mpr he
  constructor
  · refine horder _ _ (hmem _ (by simp)) (hmem _ (by simp)) (leapSecond 500000000 (by decide))
      (leapSecond 0 (by decide)) ?_ ?_ (by decide)
    · rw [List.getElem_idxOf]
      rfl
    · rw [List.getElem_idxOf]
      rfl
  · rw [hall 2 (by rw [sortedEvents_twoEvents]; decide), sortedEvents_twoEvents]

end UsgTftp
