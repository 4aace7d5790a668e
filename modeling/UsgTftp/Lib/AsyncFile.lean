import Mathlib.Tactic

set_option autoImplicit false

/-! # Files whose writes are queued

An asynchronous file hands its data to the disk in parts. `write_all` returns once the last part is
queued; what comes of a queued part is reported by the next operation, and lost if there is none. So
a caller that has seen no error knows the outcome of every part but the last (`Tracks`), and that of
the last one only after `flush` (`Tracks.complete_of_flush`).

`disk n` says what is wrong with the `n`-th part that is queued. A part that fails leaves nothing.
-/

namespace AsyncFile

variable {ε α : Type}

/-- How data are cut into the parts that are queued one at a time. -/
structure Parts (α : Type) where
  parts : List α → List (List α)
  flatten : ∀ data, (parts data).flatten = data
  ne_nil : ∀ data, ∀ part ∈ parts data, part ≠ []

/-- All data in one part. -/
def Parts.whole : Parts α where
  parts := fun data => if data.isEmpty then [] else [data]
  flatten := by
    intro data
    cases data <;> simp
  ne_nil := by
    intro data part h
    cases data with
    | nil => cases h
    | cons a data =>
        rw [List.mem_singleton.mp h]
        exact List.cons_ne_nil a data

/-- An open file: the parts that were queued, and the failure of the last one that is still to be
reported. -/
structure Handle (ε α : Type) where
  queued : List (List α) := []
  unreported : Option ε := none

namespace Handle

/-- Queue one part, unless there is a failure to report. -/
def queue (disk : Nat → Option ε) (h : Handle ε α) (part : List α) :
    Handle ε α × Except ε Unit :=
  match h.unreported with
  | some e => ({ h with unreported := none }, .error e)
  | none => (⟨h.queued ++ [part], disk h.queued.length⟩, .ok ())

def queueAll (disk : Nat → Option ε) (h : Handle ε α) : List (List α) → Handle ε α × Except ε Unit
  | [] => (h, .ok ())
  | part :: rest =>
      match h.queue disk part with
      | (h', .error e) => (h', .error e)
      | (h', .ok ()) => h'.queueAll disk rest

def writeAll (cut : Parts α) (disk : Nat → Option ε) (h : Handle ε α) (data : List α) :
    Handle ε α × Except ε Unit :=
  h.queueAll disk (cut.parts data)

/-- Wait for the last part. -/
def flush (h : Handle ε α) : Handle ε α × Except ε Unit :=
  match h.unreported with
  | some e => ({ h with unreported := none }, .error e)
  | none => (h, .ok ())

/-- The disk took every part. -/
def Complete (disk : Nat → Option ε) (h : Handle ε α) : Prop :=
  ∀ k < h.queued.length, disk k = none

end Handle

/-! ## What is on the disk -/

/-- The parts that the disk takes, counted from `n`. -/
def taken (disk : Nat → Option ε) : Nat → List (List α) → List α
  | _, [] => []
  | n, part :: rest =>
      match disk n with
      | none => part ++ taken disk (n + 1) rest
      | some _ => taken disk (n + 1) rest

def Handle.onDisk (disk : Nat → Option ε) (h : Handle ε α) : List α := taken disk 0 h.queued

theorem length_taken_le (disk : Nat → Option ε) : ∀ (n : Nat) (parts : List (List α)),
    (taken disk n parts).length ≤ parts.flatten.length := by
  intro n parts
  induction parts generalizing n with
  | nil => exact Nat.le_refl _
  | cons part rest ih =>
      have := ih (n + 1)
      rw [taken, List.flatten_cons, List.length_append]
      split
      · rw [List.length_append]
        omega
      · omega

/-- All data are on the disk exactly if it took every part. -/
theorem taken_eq_iff {disk : Nat → Option ε} : ∀ (n : Nat) (parts : List (List α)),
    (∀ part ∈ parts, part ≠ []) →
    (taken disk n parts = parts.flatten ↔ ∀ k < parts.length, disk (n + k) = none) := by
  intro n parts
  induction parts generalizing n with
  | nil =>
      intro _
      exact iff_of_true rfl fun k hk => absurd hk (Nat.not_lt_zero k)
  | cons part rest ih =>
      intro hne
      have hrest := ih (n + 1) fun p hp => hne p (List.mem_cons_of_mem _ hp)
      have hsplit : (∀ k < (part :: rest).length, disk (n + k) = none) ↔
          disk n = none ∧ ∀ k < rest.length, disk (n + 1 + k) = none := by
        constructor
        · intro h
          refine ⟨h 0 (Nat.succ_pos _), fun k hk => ?_⟩
          rw [Nat.add_assoc, Nat.add_comm 1 k]
          exact h (k + 1) (Nat.succ_lt_succ hk)
        · rintro ⟨hzero, hsucc⟩ k hk
          cases k with
          | zero => exact hzero
          | succ k =>
              rw [Nat.add_comm k 1, ← Nat.add_assoc]
              exact hsucc k (Nat.lt_of_succ_lt_succ hk)
      rw [hsplit, taken, List.flatten_cons]
      cases hd : disk n with
      | none => rw [List.append_cancel_left_eq, hrest, eq_self, true_and]
      | some e =>
          -- the part that is not there is missed
          refine iff_of_false (fun heq => ?_) (by rintro ⟨h, -⟩; cases h)
          simp only at heq
          have hlen := congrArg List.length heq
          have hle := length_taken_le disk (n + 1) rest
          have hpos := List.length_pos_iff.mpr (hne part List.mem_cons_self)
          rw [List.length_append] at hlen
          omega

theorem Handle.onDisk_eq_iff {disk : Nat → Option ε} {h : Handle ε α}
    (hne : ∀ part ∈ h.queued, part ≠ []) :
    h.onDisk disk = h.queued.flatten ↔ h.Complete disk := by
  unfold onDisk Complete
  rw [taken_eq_iff 0 h.queued hne]
  simp only [Nat.zero_add]

/-! ## What the caller knows -/

namespace Handle

/-- As long as no operation has failed, every part but the last is on the disk, and what came of
the last one is still to be reported. -/
structure Tracks (disk : Nat → Option ε) (h : Handle ε α) : Prop where
  earlier : ∀ k, k + 1 < h.queued.length → disk k = none
  last : ∀ k, k + 1 = h.queued.length → h.unreported = disk k
  start : h.queued = [] → h.unreported = none

variable {disk : Nat → Option ε} {h h' : Handle ε α} {part : List α} {parts : List (List α)}

theorem tracks_new : Tracks disk ({} : Handle ε α) where
  earlier := fun _ hk => absurd hk (Nat.not_lt_zero _)
  last := fun _ hk => absurd hk (Nat.succ_ne_zero _)
  start := fun _ => rfl

/-- **Nothing to report** means that nothing is missing. -/
theorem Tracks.complete_iff (ht : Tracks disk h) : h.Complete disk ↔ h.unreported = none := by
  rcases List.eq_nil_or_concat h.queued with hnil | ⟨init, last, hlast⟩
  · refine iff_of_true (fun k hk => ?_) (ht.start hnil)
    rw [hnil] at hk
    exact absurd hk (Nat.not_lt_zero k)
  · have hlen : init.length + 1 = h.queued.length := by rw [hlast, List.length_concat]
    rw [ht.last _ hlen]
    constructor
    · intro hall
      exact hall _ (by omega)
    · intro hd k hk
      by_cases heq : k = init.length
      · rw [heq, hd]
      · exact ht.earlier k (by omega)

/-- **The step**: a part that is queued without an error keeps the caller's knowledge. -/
theorem queue_eq_ok : h.queue disk part = (h', .ok ()) ↔
    h.unreported = none ∧ h' = ⟨h.queued ++ [part], disk h.queued.length⟩ := by
  unfold queue
  cases hu : h.unreported with
  | some e =>
      refine iff_of_false (fun heq => ?_) (by rintro ⟨hnone, -⟩; cases hnone)
      cases (Prod.mk.inj heq).2
  | none => exact ⟨fun heq => ⟨rfl, (Prod.mk.inj heq).1.symm⟩, fun heq => by rw [heq.2]⟩

theorem Tracks.queue (ht : Tracks disk h) (hq : h.queue disk part = (h', .ok ())) :
    Tracks disk h' := by
  obtain ⟨hnone, rfl⟩ := queue_eq_ok.mp hq
  have hcomplete := ht.complete_iff.mpr hnone
  refine ⟨fun k hk => ?_, fun k hk => ?_, fun hnil => ?_⟩
  · rw [List.length_append, List.length_singleton] at hk
    exact hcomplete k (by omega)
  · rw [List.length_append, List.length_singleton] at hk
    rw [Nat.succ.inj hk]
  · simp at hnil

theorem queueAll_cons_ok {rest : List (List α)} :
    h.queueAll disk (part :: rest) = (h', .ok ()) ↔
      h.unreported = none ∧
      queueAll disk ⟨h.queued ++ [part], disk h.queued.length⟩ rest = (h', .ok ()) := by
  rw [queueAll]
  cases hq : h.queue disk part with
  | mk next result =>
      cases result with
      | error e =>
          refine iff_of_false (fun heq => by cases (Prod.mk.inj heq).2) ?_
          rintro ⟨hnone, -⟩
          rw [queue_eq_ok.mpr ⟨hnone, rfl⟩] at hq
          cases (Prod.mk.inj hq).2
      | ok u =>
          obtain ⟨hnone, rfl⟩ := queue_eq_ok.mp hq
          exact ⟨fun heq => ⟨hnone, heq⟩, fun heq => heq.2⟩

/-- **The run**: all parts are queued, and the caller still knows about all but the last. -/
theorem Tracks.queueAll : ∀ {parts : List (List α)} {h : Handle ε α}, Tracks disk h →
    h.queueAll disk parts = (h', .ok ()) → Tracks disk h' ∧ h'.queued = h.queued ++ parts := by
  intro parts
  induction parts with
  | nil =>
      intro h ht hq
      rw [← (Prod.mk.inj hq).1]
      exact ⟨ht, (List.append_nil _).symm⟩
  | cons part rest ih =>
      intro h ht hq
      obtain ⟨hnone, hrest⟩ := queueAll_cons_ok.mp hq
      obtain ⟨ht', hqueued⟩ := ih (ht.queue (queue_eq_ok.mpr ⟨hnone, rfl⟩)) hrest
      exact ⟨ht', by rw [hqueued, List.append_assoc]; rfl⟩

/-- **When no error is seen**: if nothing is missing before the last of the parts. -/
theorem queueAll_isOk_iff : ∀ {parts : List (List α)} {h : Handle ε α},
    (∃ h', h.queueAll disk parts = (h', .ok ())) ↔
      parts = [] ∨ h.unreported = none ∧
        ∀ k, k + 1 < parts.length → disk (h.queued.length + k) = none := by
  intro parts
  induction parts with
  | nil => intro h; exact iff_of_true ⟨h, rfl⟩ (Or.inl rfl)
  | cons part rest ih =>
      intro h
      simp only [queueAll_cons_ok, exists_and_left, ih, List.length_append, List.length_singleton]
      constructor
      · rintro ⟨hnone, hrest⟩
        refine Or.inr ⟨hnone, fun k hk => ?_⟩
        rw [List.length_cons] at hk
        rcases hrest with rfl | ⟨hzero, hsucc⟩
        · rw [List.length_nil] at hk
          omega
        · cases k with
          | zero => exact hzero
          | succ k =>
              have := hsucc k (by omega)
              rwa [Nat.add_assoc, Nat.add_comm 1 k] at this
      · rintro (h | ⟨hnone, hall⟩)
        · cases h
        refine ⟨hnone, ?_⟩
        cases rest with
        | nil => exact Or.inl rfl
        | cons next rest =>
            right
            refine ⟨hall 0 (by simp), fun k hk => ?_⟩
            rw [Nat.add_assoc, Nat.add_comm 1 k]
            exact hall (k + 1) (by simpa using hk)

theorem queueAll_append (more : List (List α)) : ∀ (parts : List (List α)) (h : Handle ε α),
    h.queueAll disk (parts ++ more) =
      match h.queueAll disk parts with
      | (h', .error e) => (h', .error e)
      | (h', .ok ()) => h'.queueAll disk more := by
  intro parts
  induction parts with
  | nil => intro h; rfl
  | cons part rest ih =>
      intro h
      rw [List.cons_append, queueAll, queueAll]
      cases h.queue disk part with
      | mk next result =>
          cases result with
          | error e => rfl
          | ok u => exact ih next

end Handle

/-- If the disk takes all but the last of the first `n` parts, then it takes the last one too. -/
def TakesLast (disk : Nat → Option ε) (n : Nat) : Prop :=
  (∀ k, k + 1 < n → disk k = none) → ∀ k, k + 1 = n → disk k = none

namespace Handle

variable {disk : Nat → Option ε} {h h' : Handle ε α} {parts : List (List α)}

/-- **Without `flush`** nothing is missing exactly if the disk takes the last part. -/
theorem Tracks.complete_iff_takesLast (ht : Tracks disk h) :
    h.Complete disk ↔ TakesLast disk h.queued.length := by
  constructor
  · intro hall _ k hk
    exact hall k (by omega)
  · intro htakes k hk
    by_cases hlast : k + 1 = h.queued.length
    · exact htakes ht.earlier k hlast
    · exact ht.earlier k (by omega)

/-- If an error is seen, then it was not the last part that failed. -/
theorem Tracks.takesLast_of_error (ht : Tracks disk h) {e : ε}
    (hq : h.queueAll disk parts = (h', .error e)) :
    TakesLast disk (h.queued.length + parts.length) := by
  intro hall
  exfalso
  have hok : ∃ h', h.queueAll disk parts = (h', .ok ()) := by
    rw [queueAll_isOk_iff]
    by_cases hnil : parts = []
    · exact Or.inl hnil
    · have hpos := List.length_pos_iff.mpr hnil
      refine Or.inr ⟨?_, fun k hk => hall _ (by omega)⟩
      rw [← ht.complete_iff]
      exact fun k hk => hall k (by omega)
  obtain ⟨next, hnext⟩ := hok
  rw [hq] at hnext
  cases (Prod.mk.inj hnext).2

/-- **After `flush`** nothing is missing. -/
theorem Tracks.complete_of_flush (ht : Tracks disk h) (hf : h.flush = (h', .ok ())) :
    h'.Complete disk ∧ h'.queued = h.queued := by
  unfold flush at hf
  cases hu : h.unreported with
  | some e =>
      rw [hu] at hf
      cases (Prod.mk.inj hf).2
  | none =>
      rw [hu] at hf
      rw [← (Prod.mk.inj hf).1]
      exact ⟨ht.complete_iff.mpr hu, rfl⟩

end Handle

end AsyncFile
