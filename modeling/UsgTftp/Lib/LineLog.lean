import Mathlib.Data.List.Chain
import Mathlib.Data.List.Induction

set_option autoImplicit false

/-! # Logs with one record to a line

Records are appended to a log as texts that a separator ends. A writer appends the text and the
separator together, or the text first and the separator after it, and then another writer may
come in between.

`groups` are the records that end up on the same line; a reader that takes a line for one record
finds those that are alone on theirs (`alone`). Every record is found just if no record comes
between another one and its separator (`alone_eq_records_iff`), and for writers that append in two
steps this means one writer at a time (`apart_iff_one_at_a_time`).
-/

namespace LineLog

variable {V : Type}

/-- What one write appends. -/
inductive Piece (V : Type) where
  | text (e : V)
  | separator
  /-- A text and its separator. -/
  | line (e : V)

/-- The records of each line; the last line has not been ended. -/
def groups : List (Piece V) → List (List V)
  | [] => [[]]
  | .text e :: ps => (groups ps).modifyHead (e :: ·)
  | .separator :: ps => [] :: groups ps
  | .line e :: ps => [e] :: groups ps

/-- The record of a line that has one. -/
def single : List V → Option V
  | [e] => some e
  | _ => none

/-- The records that are alone on their line. -/
def alone (ps : List (Piece V)) : List V := (groups ps).filterMap single

/-- All records, in the order in which they were written. -/
def records (ps : List (Piece V)) : List V := (groups ps).flatten

def Piece.hasRecord : Piece V → Bool
  | .separator => false
  | _ => true

/-- The piece leaves its line open. -/
def Piece.leavesOpen : Piece V → Bool
  | .text _ => true
  | _ => false

/-- No record comes between another one and its separator. -/
def Apart (ps : List (Piece V)) : Prop :=
  ps.IsChain fun p q => p.leavesOpen = true → q.hasRecord = false

/-! ## Lines with one record -/

theorem exists_groups (ps : List (Piece V)) : ∃ g gs, groups ps = g :: gs := by
  induction ps with
  | nil => exact ⟨_, _, rfl⟩
  | cons p ps ih =>
      cases p with
      | text e =>
          obtain ⟨g, gs, h⟩ := ih
          exact ⟨e :: g, gs, by rw [groups, h]; rfl⟩
      | separator => exact ⟨_, _, rfl⟩
      | line e => exact ⟨_, _, rfl⟩

/-- The first line begins with a separator just if the log does. -/
theorem head_groups_eq_nil {ps : List (Piece V)} {g : List V} {gs : List (List V)}
    (h : groups ps = g :: gs) : g = [] ↔ ∀ p ∈ ps.head?, p.hasRecord = false := by
  cases ps with
  | nil =>
      cases h
      simp
  | cons p ps =>
      cases p with
      | text e =>
          obtain ⟨g', gs', hps⟩ := exists_groups ps
          rw [groups, hps] at h
          cases h
          simp [Piece.hasRecord]
      | separator =>
          cases h
          simp [Piece.hasRecord]
      | line e =>
          cases h
          simp [Piece.hasRecord]

/-- **No line has two records** just if the records are apart. -/
theorem groups_short_iff (ps : List (Piece V)) : (∀ g ∈ groups ps, g.length ≤ 1) ↔ Apart ps := by
  induction ps with
  | nil => simp [groups, Apart]
  | cons p ps ih =>
      rw [Apart, List.isChain_cons, ← Apart, ← ih]
      cases p with
      | text e =>
          obtain ⟨g, gs, hps⟩ := exists_groups ps
          have hhead := head_groups_eq_nil hps
          rw [groups, hps]
          simp only [List.modifyHead_cons, List.forall_mem_cons, List.length_cons,
            Piece.leavesOpen, forall_const]
          rw [← hhead]
          constructor
          · rintro ⟨hg, hgs⟩
            have hnil : g = [] := List.length_eq_zero_iff.mp (by omega)
            exact ⟨hnil, by simp [hnil], hgs⟩
          · rintro ⟨rfl, -, hgs⟩
            exact ⟨by simp, hgs⟩
      | separator => simp [groups, Piece.leavesOpen]
      | line e => simp [groups, Piece.leavesOpen]

theorem filterMap_single_sublist (gs : List (List V)) :
    (gs.filterMap single).Sublist gs.flatten := by
  induction gs with
  | nil => exact List.Sublist.slnil
  | cons g gs ih =>
      match g with
      | [] => exact ih
      | [a] => exact ih.cons_cons a
      | a :: b :: g => exact ih.trans (List.sublist_append_right (a :: b :: g) gs.flatten)

theorem filterMap_single_eq_iff (gs : List (List V)) :
    gs.filterMap single = gs.flatten ↔ ∀ g ∈ gs, g.length ≤ 1 := by
  induction gs with
  | nil => simp
  | cons g gs ih =>
      match g with
      | [] =>
          rw [List.forall_mem_cons]
          exact ih.trans (and_iff_right (Nat.zero_le _)).symm
      | [a] => simpa [single] using ih
      | a :: b :: g =>
          refine iff_of_false (fun h => ?_) (by simp)
          have hlen := congrArg List.length h
          have hle := (filterMap_single_sublist gs).length_le
          simp only [single, List.filterMap_cons, List.flatten_cons, List.length_append,
            List.length_cons] at hlen
          omega

/-- **Every record is found** just if no record comes between another one and its separator. -/
theorem alone_eq_records_iff (ps : List (Piece V)) : alone ps = records ps ↔ Apart ps :=
  (filterMap_single_eq_iff (groups ps)).trans (groups_short_iff ps)

/-- What is found was written, in this order. -/
theorem alone_sublist (ps : List (Piece V)) : (alone ps).Sublist (records ps) :=
  filterMap_single_sublist (groups ps)

/-- Records that are written with their separators are all found. -/
theorem alone_lines (es : List V) : alone (es.map Piece.line) = es := by
  induction es with
  | nil => rfl
  | cons e es ih =>
      rw [alone] at ih ⊢
      rw [List.map_cons, groups, List.filterMap_cons, ih]
      rfl

/-! ## The text of a log -/

section Text

variable {α : Type} [BEq α] [LawfulBEq α] (sep : α) (text : V → List α)

def Piece.render : Piece V → List α
  | .text e => text e
  | .separator => [sep]
  | .line e => text e ++ [sep]

def render (ps : List (Piece V)) : List α := ps.flatMap (Piece.render sep text)

variable {sep}

theorem splitOn_append {xs : List α} (h : sep ∉ xs) (ys : List α) :
    (xs ++ ys).splitOn sep = (ys.splitOn sep).modifyHead (xs ++ ·) := by
  induction xs with
  | nil =>
      obtain ⟨y, rest, hy⟩ := List.exists_cons_of_ne_nil (List.splitOn_ne_nil sep ys)
      rw [List.nil_append, hy]
      rfl
  | cons x xs ih =>
      have hx : (x == sep) = false := by
        rw [beq_eq_false_iff_ne]
        rintro rfl
        exact h List.mem_cons_self
      rw [List.cons_append, List.splitOn_cons_eq_if_modifyHead, hx,
        ih fun hmem => h (List.mem_cons_of_mem x hmem)]
      obtain ⟨y, rest, hy⟩ := List.exists_cons_of_ne_nil (List.splitOn_ne_nil sep ys)
      rw [hy]
      rfl

theorem splitOn_separator (ys : List α) : (sep :: ys).splitOn sep = [] :: ys.splitOn sep := by
  rw [List.splitOn_cons_eq_if_modifyHead, beq_self_eq_true, if_pos rfl]

/-- **The lines of the text** are the groups. -/
theorem splitOn_render (h : ∀ e, sep ∉ text e) (ps : List (Piece V)) :
    (render sep text ps).splitOn sep = (groups ps).map fun g => g.flatMap text := by
  induction ps with
  | nil => rfl
  | cons p ps ih =>
      obtain ⟨g, gs, hps⟩ := exists_groups ps
      rw [render, List.flatMap_cons, ← render]
      cases p with
      | text e =>
          rw [Piece.render, splitOn_append (h e), ih, groups, hps]
          rfl
      | separator =>
          rw [Piece.render, List.singleton_append, splitOn_separator, ih, groups]
          rfl
      | line e =>
          rw [Piece.render, List.append_assoc, splitOn_append (h e), List.singleton_append,
            splitOn_separator, ih, groups]
          simp

end Text

/-! ## Writers in two steps -/

/-- A log, and how many records have not been ended yet. -/
structure Trail (V : Type) where
  pieces : List (Piece V) := []
  unended : Nat := 0

inductive Event (V : Type) where
  /-- A writer appends its text. -/
  | append (e : V)
  /-- A writer ends its record. -/
  | finish

def Trail.step (s : Trail V) : Event V → Trail V
  | .append e => ⟨s.pieces ++ [.text e], s.unended + 1⟩
  | .finish => if s.unended = 0 then s else ⟨s.pieces ++ [.separator], s.unended - 1⟩

def Trail.run (events : List (Event V)) : Trail V := events.foldl Trail.step {}

/-- At no time two records are being appended. -/
def OneAtATime (events : List (Event V)) : Prop :=
  ∀ es, es <+: events → (Trail.run es).unended ≤ 1

theorem run_append_singleton (es : List (Event V)) (e : Event V) :
    Trail.run (es ++ [e]) = (Trail.run es).step e := by
  rw [Trail.run, List.foldl_append]
  rfl

theorem oneAtATime_append (es : List (Event V)) (e : Event V) :
    OneAtATime (es ++ [e]) ↔ OneAtATime es ∧ ((Trail.run es).step e).unended ≤ 1 := by
  constructor
  · intro h
    refine ⟨fun es' hes => h es' (hes.trans (List.prefix_append _ _)), ?_⟩
    have hlast := h _ (List.prefix_refl _)
    rwa [run_append_singleton] at hlast
  · rintro ⟨h, hlast⟩ es' hes
    rcases List.prefix_concat_iff.mp hes with rfl | hes
    · rw [run_append_singleton]
      exact hlast
    · exact h es' hes

theorem apart_append (ps : List (Piece V)) (p : Piece V) :
    Apart (ps ++ [p]) ↔ Apart ps ∧ ∀ q ∈ ps.getLast?, q.leavesOpen = true → p.hasRecord = false := by
  rw [Apart, List.isChain_append]
  simp [Apart]

/-- **One writer at a time.** The records are apart just if there was one writer at a time; and
then a record is unended just if its text comes last. -/
theorem apart_iff_one_at_a_time (events : List (Event V)) :
    (Apart (Trail.run events).pieces ↔ OneAtATime events) ∧
    (OneAtATime events →
      ((Trail.run events).unended = 1 ↔
        ∃ q ∈ (Trail.run events).pieces.getLast?, q.leavesOpen = true)) := by
  induction events using List.reverseRec with
  | nil =>
      refine ⟨iff_of_true List.IsChain.nil fun es hes => ?_, fun _ => by simp [Trail.run]⟩
      rw [List.prefix_nil.mp hes]
      exact Nat.zero_le _
  | append_singleton es e ih =>
      obtain ⟨hapart, hlast⟩ := ih
      rw [oneAtATime_append, run_append_singleton]
      cases e with
      | append e =>
          -- the new text is apart from the others just if no record is unended
          have hends : ((Trail.run es).step (.append e)).pieces.getLast? = some (.text e) := by
            simp [Trail.step]
          constructor
          · show Apart ((Trail.run es).pieces ++ [.text e]) ↔ OneAtATime es ∧
              (Trail.run es).unended + 1 ≤ 1
            rw [apart_append, hapart]
            refine and_congr_right fun hone => ?_
            have hle := hone es (List.prefix_refl _)
            have hopen := hlast hone
            constructor
            · intro h
              by_contra hunended
              obtain ⟨q, hq, hqopen⟩ := hopen.mp (by omega)
              exact absurd (h q hq hqopen) (by simp [Piece.hasRecord])
            · intro h q hq hqopen
              have := hopen.mpr ⟨q, hq, hqopen⟩
              omega
          · rintro ⟨hone, hle⟩
            refine iff_of_true ?_ ⟨_, hends, rfl⟩
            have hle : (Trail.run es).unended + 1 ≤ 1 := hle
            show (Trail.run es).unended + 1 = 1
            omega
      | finish =>
          rw [Trail.step]
          split_ifs with hzero
          · refine ⟨hapart.trans (and_iff_left (by omega)).symm, fun h => hlast h.1⟩
          · constructor
            · show Apart ((Trail.run es).pieces ++ [.separator]) ↔ OneAtATime es ∧
                (Trail.run es).unended - 1 ≤ 1
              rw [apart_append, hapart]
              refine and_congr_right fun hone => ?_
              have hle := hone es (List.prefix_refl _)
              exact iff_of_true (fun _ _ _ => rfl) (by omega)
            · rintro ⟨hone, -⟩
              have hle := hone es (List.prefix_refl _)
              have hnot : ∀ q ∈ ((Trail.run es).pieces ++ [Piece.separator]).getLast?,
                  q.leavesOpen = false := by
                intro q hq
                rw [List.getLast?_concat] at hq
                cases hq
                rfl
              refine iff_of_false (by show (Trail.run es).unended - 1 ≠ 1; omega) ?_
              rintro ⟨q, hq, hopen⟩
              rw [hnot q hq] at hopen
              cases hopen

end LineLog
