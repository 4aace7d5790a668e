import UsgTftp.Lib.LineLog
import UsgTftp.Web.AuditLog

set_option autoImplicit false

/-! # The audit trail

`append_to_audit_file` of `src/audit.rs`, `WebAuditLogger::append` of `src/web/audit.rs`, and what
`audit_log` reads back from the two files. The files are opened for appending, and a write appends
all of its bytes.

`writeln!` writes a record of the server in two calls, first the text and then the line feed, and
the tasks of other transfers write to the same file. The web interface writes a record with its
line feed at once. `audit_trail_shown`: the web records are all shown, and those of the server just
if no two of them are being written at the same time.
-/

namespace UsgTftp

open LineLog

/-! ## The files -/

section Files

variable {V : Type}

/-- What the trail relies on in `serde_json`: `to_string` gives the text of one object on one line,
`from_str` reads it back, and it refuses an empty text and a text with more after the object. -/
structure JsonLines (json : Json V) (toText : V → String) : Prop where
  read : ∀ e, json.fromStr (toText e) = some e
  oneLine : ∀ e, '\n' ∉ (toText e).toList
  ends : ∀ e, (toText e).toList.getLast? = some '\x7d'
  empty : json.fromStr "" = none
  trailing : ∀ e e' es,
    json.fromStr (String.ofList ((e :: e' :: es).flatMap fun e => (toText e).toList)) = none

variable (toText : V → String)

/-- The file of the writes. -/
def logContents (ps : List (Piece V)) : String :=
  String.ofList (render '\n' (fun e => (toText e).toList) ps)

/-- The log of the web interface: each record is written with its line feed. -/
def webLog (written : List V) : String := logContents toText (written.map .line)

/-- The log of the server after the writes of its tasks. -/
def tftpLog (events : List (Event V)) : String := logContents toText (Trail.run events).pieces

end Files

/-! ## Reading -/

section Reading

variable {V : Type} {json : Json V} {toText : V → String}

/-- No line of a log ends with a carriage return. -/
theorem JsonLines.getLast?_ne (h : JsonLines json toText) (g : List V) :
    (g.flatMap fun e => (toText e).toList).getLast? ≠ some '\r' := by
  induction g using List.reverseRec with
  | nil => simp
  | append_singleton g e _ =>
      rw [List.flatMap_append, List.flatMap_singleton, List.getLast?_append, h.ends e, Option.some_or]
      decide

theorem JsonLines.fromStr_group (h : JsonLines json toText) (g : List V) :
    json.fromStr (String.ofList (g.flatMap fun e => (toText e).toList)) = single g := by
  match g with
  | [] => exact h.empty
  | [e] =>
      rw [List.flatMap_singleton, String.ofList_toList]
      exact h.read e
  | e :: e' :: es => exact h.trailing e e' es

/-- The lines of a text without carriage returns at the ends of lines; an empty last line does
not count. -/
theorem lines_eq (contents : String)
    (h : ∀ piece ∈ contents.toList.splitOn '\n', piece.getLast? ≠ some '\r') :
    ∃ init last, contents.toList.splitOn '\n' = init ++ [last] ∧
      lines contents = (init ++ [last].filter (· ≠ [])).map String.ofList := by
  obtain ⟨last, hlast⟩ : ∃ last, (contents.toList.splitOn '\n').getLast? = some last :=
    ⟨_, List.getLast?_eq_some_getLast (List.splitOn_ne_nil _ _)⟩
  have hsplit := List.dropLast_append_getLast? last hlast
  refine ⟨_, last, hsplit.symm, ?_⟩
  unfold lines
  simp only [hlast, Option.toList_some]
  congr 2
  rw [List.map_congr_left (g := id)]
  · exact List.map_id _
  · intro piece hpiece
    exact if_neg (h piece (List.mem_of_mem_dropLast hpiece))

/-- **What is read back** from a log are the records that are alone on their line. -/
theorem fileEvents_log {s : AuditState V} (h : JsonLines s.json toText) {path : Posix.Path}
    {ps : List (Piece V)} (hread : s.readToString path = some (logContents toText ps)) :
    fileEvents s path = alone ps := by
  have hsplit : (logContents toText ps).toList.splitOn '\n'
      = (groups ps).map fun g => g.flatMap fun e => (toText e).toList := by
    rw [logContents, String.toList_ofList]
    exact splitOn_render _ h.oneLine ps
  obtain ⟨init, last, hpieces, hlines⟩ := lines_eq (logContents toText ps) (by
    rw [hsplit]
    intro piece hpiece
    obtain ⟨g, -, rfl⟩ := List.mem_map.mp hpiece
    exact h.getLast?_ne g)
  have hlast : ([last].filter (· ≠ [])).filterMap (s.json.fromStr ∘ String.ofList)
      = [last].filterMap (s.json.fromStr ∘ String.ofList) := by
    by_cases hnil : last = []
    · subst hnil
      simp only [List.filterMap_cons, Function.comp_apply]
      rw [show String.ofList [] = "" from rfl, h.empty]
      rfl
    · rw [List.filter_cons_of_pos (by simpa using hnil), List.filter_nil]
  calc
    fileEvents s path = (lines (logContents toText ps)).filterMap s.json.fromStr := by
      rw [fileEvents, hread]
    _ = (init ++ [last].filter (· ≠ [])).filterMap (s.json.fromStr ∘ String.ofList) := by
      rw [hlines, List.filterMap_map]
    _ = ((logContents toText ps).toList.splitOn '\n').filterMap
          (s.json.fromStr ∘ String.ofList) := by
      rw [hpieces, List.filterMap_append, List.filterMap_append, hlast]
    _ = (groups ps).filterMap single := by
      rw [hsplit, List.filterMap_map]
      exact List.filterMap_congr fun g _ => h.fromStr_group g

end Reading

/-- **What the audit log shows.** All records of the web interface, and those of the server that
are alone on their line, as far as the filters let them through. Without a filter all records of
the server are shown just if no two of them were being written at the same time. -/
theorem audit_trail_shown {V : Type} (s : AuditState V) (toText : V → String)
    (hjson : JsonLines s.json toText) (web : List V) (events : List (Event V))
    (hweb : s.readToString s.logPath = some (webLog toText web))
    (htftp : s.readToString (tftpAuditPath s) = some (tftpLog toText events))
    (hexists : s.pathExists (tftpAuditPath s) = true)
    (hpath : samePath (tftpAuditPath s) s.logPath = false) :
    (∀ q, (sortedEvents s q).Perm (retainFound s q.search (retainType s q.eventType
      (web ++ alone (Trail.run events).pieces)))) ∧
    (∀ offset limit, (sortedEvents s ⟨offset, limit, none, none⟩).Perm
      (web ++ records (Trail.run events).pieces) ↔ OneAtATime events) := by
  have hall : allEvents s = web ++ alone (Trail.run events).pieces := by
    rw [allEvents, if_pos ⟨hexists, hpath⟩, fileEvents_log hjson hweb,
      fileEvents_log hjson htftp, alone_lines]
  have hsorted : ∀ q, (sortedEvents s q).Perm (retainFound s q.search
      (retainType s q.eventType (web ++ alone (Trail.run events).pieces))) := by
    intro q
    rw [← hall]
    exact List.mergeSort_perm _ _
  refine ⟨hsorted, fun offset limit => ?_⟩
  rw [← (apart_iff_one_at_a_time events).1, ← alone_eq_records_iff]
  constructor
  · intro h
    -- as many are found as were written
    have hlen := ((hsorted ⟨offset, limit, none, none⟩).symm.trans h).length_eq
    refine (alone_sublist _).eq_of_length ?_
    simp only [retainFound, retainType, List.length_append] at hlen
    omega
  · intro h
    rw [← h]
    exact hsorted ⟨offset, limit, none, none⟩

/-- Two records of the server. -/
def recordText (first : Bool) : String :=
  if first then "\x7b\"a\":1\x7d" else "\x7b\"a\":2\x7d"

def recordJson : Json Bool where
  fromStr := fun text =>
    if text = recordText true then some true
    else if text = recordText false then some false else none
  getStr := fun _ _ => none

/-- The log of the server is read from the default place. -/
def serverLog (events : List (Event Bool)) : AuditState Bool where
  logPath := Posix.Path.ofString "/var/log/web.jsonl"
  auditFile := none
  rootDir := Posix.Path.ofString "/srv/tftp"
  json := recordJson
  toLowercase := id
  pathExists := fun _ => true
  readToString := fun path =>
    if samePath path (Posix.Path.ofString "/var/log/web.jsonl") then
      some (webLog recordText [true])
    else some (tftpLog recordText events)

theorem recordJson_lines : JsonLines recordJson recordText := by
  have hlength : ∀ e, (recordText e).toList.length = 7 := by decide +kernel
  refine ⟨by decide +kernel, by decide +kernel, by decide +kernel, by decide +kernel, ?_⟩
  intro e e' es
  have hne : ∀ e'', String.ofList ((e :: e' :: es).flatMap fun e => (recordText e).toList)
      ≠ recordText e'' := by
    intro e'' heq
    have hlen := congrArg (fun text => text.toList.length) heq
    simp only [String.toList_ofList, List.flatMap_cons, List.length_append, hlength] at hlen
    omega
  unfold recordJson
  simp only
  rw [if_neg (hne true), if_neg (hne false)]

/-- One record after the other, and one record in the middle of the other. -/
theorem audit_trail_shown_two :
    (sortedEvents (serverLog [.append true, .finish, .append false, .finish])
      ⟨none, none, none, none⟩).Perm [true, true, false] ∧
    ¬ (sortedEvents (serverLog [.append true, .append false, .finish, .finish])
      ⟨none, none, none, none⟩).Perm [true, true, false] := by
  have hsame : samePath (Posix.Path.ofString "/var/log/web.jsonl")
      (Posix.Path.ofString "/var/log/web.jsonl") = true := by decide +kernel
  have hother : samePath ((Posix.Path.ofString "/srv/tftp").join [".audit", "tftp-audit.jsonl"])
      (Posix.Path.ofString "/var/log/web.jsonl") = false := by decide +kernel
  have hshown : ∀ events : List (Event Bool), (sortedEvents (serverLog events)
      ⟨none, none, none, none⟩).Perm ([true] ++ records (Trail.run events).pieces)
        ↔ OneAtATime events := by
    intro events
    have hweb : (serverLog events).readToString (serverLog events).logPath
        = some (webLog recordText [true]) := by
      simp only [serverLog, hsame, if_true]
    have htftp : (serverLog events).readToString (tftpAuditPath (serverLog events))
        = some (tftpLog recordText events) := by
      simp only [serverLog, tftpAuditPath, Option.getD_none, hother, Bool.false_eq_true, if_false]
    exact (audit_trail_shown (serverLog events) recordText recordJson_lines [true] events
      hweb htftp rfl hother).2 none none
  constructor
  · refine (hshown [.append true, .finish, .append false, .finish]).mpr ?_
    rw [← (apart_iff_one_at_a_time _).1, ← alone_eq_records_iff]
    rfl
  · intro h
    have hone := (hshown [.append true, .append false, .finish, .finish]).mp h
    have htwo := hone [.append true, .append false] ⟨[.finish, .finish], rfl⟩
    exact absurd htwo (by decide)

end UsgTftp
