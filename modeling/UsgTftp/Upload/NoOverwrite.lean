import UsgTftp.Lib.Reactive
import UsgTftp.Server.Tasks

set_option autoImplicit false

/-! # Uploads that must not overwrite

Any number of write requests, from the check in `handle_client` to the rename in
`write_file_safely`. With `allow_overwrite = false` a request for a file that exists is
refused, but the check is made when the request arrives and the rename comes after the whole
transfer. Runs in which no transfer comes upon the file of another keep what was committed
(`uploads_keep_committed`); two requests for the same new name do not
(`uploads_overwrite_committed`).
-/

namespace UsgTftp

open Posix Path

/-! ## The system -/

/-- The transfers and the file tree they share. -/
structure Uploads (ι : Type) where
  tree : Tree
  transfers : ι → Transfer

namespace Uploads

variable {ι : Type}

def start (t : Tree) : Uploads ι := ⟨t, fun _ => .idle⟩

/-- Transfer `k` takes a step. -/
def step [DecidableEq ι] (env : Env) (glob : Glob) (config : ServerConfig) (order : IterOrder)
    (k : ι) (input : TransferInput) (s : Uploads ι) : Uploads ι :=
  let r := (s.transfers k).step env glob config order s.tree input
  ⟨r.1, Function.update s.transfers k r.2⟩

/-- File `i` is the temporary file of transfer `k`, or the file that it has committed. -/
def Owns (s : Uploads ι) (k : ι) (i : Nat) : Prop :=
  (∃ c st, s.transfers k = .storing c st ∧ st.inode = some i) ∨
  ∃ c loc, s.transfers k = .storing c (.committed loc) ∧ s.tree.entry loc = some (.file i)

/-- The path names no link, and no file of a transfer other than `k`. -/
def Untaken (env : Env) (s : Uploads ι) (k : ι) (p : Path) : Prop :=
  ∀ loc m, lookup env s.tree false p p.comps = .ok (.found loc, m) →
    (∀ target, s.tree.entry loc ≠ some (.symlink target)) ∧
    ∀ i j, s.tree.entry loc = some (.file i) → j ≠ k → ¬ s.Owns j i

/-- Transfer `k` does not come upon the file of another transfer in its next step: neither
under its temporary name when it creates its temporary file, nor at its destination when it
renames. -/
structure Clear (env : Env) (s : Uploads ι) (k : ι) : Prop where
  temp : ∀ c, s.transfers k = .storing c .createTemp → s.Untaken env k c.tempPath
  dest : ∀ c i, s.transfers k = .storing c (.flushed i) → s.Untaken env k c.filePath

def Step [DecidableEq ι] (env : Env) (glob : Glob) (config : ServerConfig)
    (order : IterOrder) (s s' : Uploads ι) : Prop :=
  ∃ k input, s' = s.step env glob config order k input

def ClearStep [DecidableEq ι] (env : Env) (glob : Glob) (config : ServerConfig)
    (order : IterOrder) (s s' : Uploads ι) : Prop :=
  ∃ k input, s.Clear env k ∧ s' = s.step env glob config order k input

/-- What was committed before `s` is there in `s'`, unchanged. -/
def CommittedKept (s s' : Uploads ι) : Prop :=
  ∀ k c loc, s.transfers k = .storing c (.committed loc) →
    ∃ i, s.tree.entry loc = some (.file i) ∧ s.tree.content i = c.data ∧
      s'.tree.entry loc = some (.file i) ∧ s'.tree.content i = c.data

/-! ## The invariant -/

structure Invariant (env : Env) (s : Uploads ι) : Prop where
  held : ∀ k c st i, s.transfers k = .storing c st → st.inode = some i →
    ∃ loc, TempHeld env c s.tree loc i (st.contents c.data)
  done : ∀ k c loc, s.transfers k = .storing c (.committed loc) →
    ∃ i, s.tree.entry loc = some (.file i) ∧ s.tree.content i = c.data
  distinct : ∀ j k i, s.Owns j i → s.Owns k i → j = k
  written : ∀ k c i w, s.transfers k = .storing c (.writing i w) → w ≤ c.data.length

theorem invariant_start (env : Env) (t : Tree) : Invariant env (start t : Uploads ι) where
  held := by intro k c st i h; cases h
  done := by intro k c loc h; cases h
  distinct := by rintro j k i (⟨c, st, h, -⟩ | ⟨c, loc, h, -⟩) <;> cases h
  written := by intro k c i w h; cases h

section Step

variable {env : Env} {s s' : Uploads ι} {k : ι}

/-- The files of the transfers other than `k`. -/
def OwnedByOthers (s : Uploads ι) (k : ι) (i : Nat) : Prop := ∃ j, j ≠ k ∧ s.Owns j i

/-- What a step of transfer `k` achieves. -/
structure Advances (env : Env) (k : ι) (s s' : Uploads ι) : Prop where
  inv : Invariant env s'
  keeps : Keeps env (s.OwnedByOthers k) s.tree s'.tree

/-- Every owned file is somewhere. -/
theorem Invariant.owned_entry (h : Invariant env s) {i : Nat} (ho : s.Owns k i) :
    ∃ loc, s.tree.entry loc = some (.file i) := by
  rcases ho with ⟨c, st, hst, hi⟩ | ⟨c, loc, -, he⟩
  · obtain ⟨loc, hheld⟩ := h.held k c st i hst hi
    exact ⟨loc, hheld.entry⟩
  · exact ⟨loc, he⟩

/-- What a step of transfer `k` has to keep: the files of the others, and the facts about its
own. -/
theorem Invariant.update (h : Invariant env s)
    (hother : ∀ j, j ≠ k → s'.transfers j = s.transfers j)
    (hkeeps : Keeps env (s.OwnedByOthers k) s.tree s'.tree)
    (hheld : ∀ c st i, s'.transfers k = .storing c st → st.inode = some i →
      ∃ loc, TempHeld env c s'.tree loc i (st.contents c.data))
    (hdone : ∀ c loc, s'.transfers k = .storing c (.committed loc) →
      ∃ i, s'.tree.entry loc = some (.file i) ∧ s'.tree.content i = c.data)
    (howns : ∀ i, s'.Owns k i → ∀ j, j ≠ k → ¬ s.Owns j i)
    (hwritten : ∀ c i w, s'.transfers k = .storing c (.writing i w) → w ≤ c.data.length) :
    Advances env k s s' := by
  -- the other transfers own what they owned before
  have hback : ∀ j i, j ≠ k → s'.Owns j i → s.Owns j i := by
    rintro j i hj (⟨c, st, hst, hi⟩ | ⟨c, loc, hst, he⟩)
    · rw [hother j hj] at hst
      exact Or.inl ⟨c, st, hst, hi⟩
    · rw [hother j hj] at hst
      obtain ⟨a, ha, -⟩ := h.done j c loc hst
      obtain ⟨ha', -⟩ := hkeeps loc a ⟨j, hj, Or.inr ⟨c, loc, hst, ha⟩⟩ ha
      rw [ha'] at he
      cases he
      exact Or.inr ⟨c, loc, hst, ha⟩
  refine ⟨⟨?_, ?_, ?_, ?_⟩, hkeeps⟩
  · intro j c st i hst hi
    by_cases hj : j = k
    · subst hj
      exact hheld c st i hst hi
    · rw [hother j hj] at hst
      obtain ⟨loc, held⟩ := h.held j c st i hst hi
      obtain ⟨he, hc, hnames⟩ := hkeeps loc i ⟨j, hj, Or.inl ⟨c, st, hst, hi⟩⟩ held.entry
      obtain ⟨m, hm⟩ := held.named
      exact ⟨loc, he, hc.trans held.content, m, hnames _ m hm⟩
  · intro j c loc hst
    by_cases hj : j = k
    · subst hj
      exact hdone c loc hst
    · rw [hother j hj] at hst
      obtain ⟨a, ha, hdata⟩ := h.done j c loc hst
      obtain ⟨ha', hc, -⟩ := hkeeps loc a ⟨j, hj, Or.inr ⟨c, loc, hst, ha⟩⟩ ha
      exact ⟨a, ha', hc.trans hdata⟩
  · intro a b i ha hb
    by_cases hak : a = k
    · by_cases hbk : b = k
      · rw [hak, hbk]
      · subst hak
        exact absurd (hback b i hbk hb) (howns i ha b hbk)
    · by_cases hbk : b = k
      · subst hbk
        exact absurd (hback a i hak ha) (howns i hb a hak)
      · exact h.distinct a b i (hback a i hak ha) (hback b i hbk hb)
  · intro j c i w hst
    by_cases hj : j = k
    · subst hj
      exact hwritten c i w hst
    · rw [hother j hj] at hst
      exact h.written j c i w hst

/-- The same for a transfer in `write_file_safely`. -/
theorem Invariant.update_storing (h : Invariant env s)
    (hother : ∀ j, j ≠ k → s'.transfers j = s.transfers j) {c : Commit} {st : CommitState}
    (hk : s'.transfers k = .storing c st)
    (hkeeps : Keeps env (s.OwnedByOthers k) s.tree s'.tree)
    (hheld : ∀ i, st.inode = some i → ¬ s.OwnedByOthers k i ∧
      ∃ loc, TempHeld env c s'.tree loc i (st.contents c.data))
    (hdone : ∀ loc, st = .committed loc → ∃ i, ¬ s.OwnedByOthers k i ∧
      s'.tree.entry loc = some (.file i) ∧ s'.tree.content i = c.data)
    (hwritten : ∀ i w, st = .writing i w → w ≤ c.data.length) : Advances env k s s' := by
  refine h.update hother hkeeps ?_ ?_ ?_ ?_
  · intro c' st' i hk' hi
    rw [hk] at hk'
    cases hk'
    exact (hheld i hi).2
  · intro c' loc hk'
    rw [hk] at hk'
    cases hk'
    obtain ⟨i, -, he⟩ := hdone loc rfl
    exact ⟨i, he⟩
  · rintro i (⟨c', st', hk', hi⟩ | ⟨c', loc, hk', he⟩) j hj hown
    · rw [hk] at hk'
      cases hk'
      exact (hheld i hi).1 ⟨j, hj, hown⟩
    · rw [hk] at hk'
      cases hk'
      obtain ⟨a, hno, ha, -⟩ := hdone loc rfl
      rw [ha] at he
      cases he
      exact hno ⟨j, hj, hown⟩
  · intro c' i w hk'
    rw [hk] at hk'
    cases hk'
    exact hwritten i w rfl

theorem Invariant.not_ownedByOthers (h : Invariant env s) {i : Nat} (ho : s.Owns k i) :
    ¬ s.OwnedByOthers k i := by
  rintro ⟨j, hj, hown⟩
  exact hj (h.distinct j k i hown ho)

/-- The temporary file is created. -/
theorem Invariant.created (h : Invariant env s)
    (hother : ∀ j, j ≠ k → s'.transfers j = s.transfers j) {c : Commit} {inode : Nat} {loc : Loc}
    (hk : s'.transfers k = .storing c (.writing inode 0)) (hclear : s.Untaken env k c.tempPath)
    (hcreate : create env s.tree c.tempPath = .ok (s'.tree, loc, inode)) :
    Advances env k s s' := by
  obtain ⟨m, hm, hadd | ⟨hl, hfile, ht⟩⟩ :=
    create_of_no_link (fun l m target hl => (hclear l m hl).1 target) hcreate
  -- a new inode is nobody's
  · have hnew : ¬ s.OwnedByOthers k inode := by
      rintro ⟨j, -, hown⟩
      obtain ⟨l, hl⟩ := h.owned_entry hown
      have := s.tree.inode_lt l inode hl
      rw [hadd.inode_eq] at this
      exact Nat.lt_irrefl _ this
    refine h.update_storing hother hk (keeps_of_extends hadd.extends_ ?_) ?_ ?_ ?_
    · intro i hi _
      exact hadd.contents i (fun he => hnew (he ▸ hi))
    · intro i hi
      cases hi
      exact ⟨hnew, loc, hadd.entry, hadd.content, m, hm⟩
    · intro l hl
      cases hl
    · intro i w hw
      cases hw
      exact Nat.zero_le _
  -- an old file at the temporary name is truncated, and it is nobody's either
  · have hold : ¬ s.OwnedByOthers k inode := by
      rintro ⟨j, hj, hown⟩
      exact (hclear loc m hl).2 inode j hfile hj hown
    refine h.update_storing hother hk ?_ ?_ ?_ ?_
    · rw [ht]
      exact keeps_setContent hold []
    · intro i hi
      cases hi
      refine ⟨hold, loc, ?_, ?_, m, hm⟩
      · rw [ht]
        exact hfile
      · rw [ht]
        exact Function.update_self _ _ _
    · intro l hl
      cases hl
    · intro i w hw
      cases hw
      exact Nat.zero_le _

/-- The temporary file is renamed. -/
theorem Invariant.renamed (h : Invariant env s)
    (hother : ∀ j, j ≠ k → s'.transfers j = s.transfers j) {c : Commit} {inode : Nat}
    (hst : s.transfers k = .storing c (.flushed inode))
    (hk : s'.transfers k
      = .storing c (.committed ((destination env s.tree c.filePath).getD [])))
    (hclear : s.Untaken env k c.filePath)
    (hr : rename env s.tree c.tempPath c.filePath = .ok s'.tree) : Advances env k s s' := by
  obtain ⟨loc, held⟩ := h.held k c _ inode hst rfl
  have hno : ¬ s.OwnedByOthers k inode := h.not_ownedByOthers (Or.inl ⟨c, _, hst, rfl⟩)
  obtain ⟨old, new, m, hold, hnew, hmove⟩ := rename_file hr
  obtain ⟨m', hm'⟩ := held.named
  rw [hm'] at hold
  cases hold
  rw [hnew] at hk
  have hdata : s.tree.content inode = c.data := held.content
  refine h.update_storing hother hk ?_ ?_ ?_ ?_
  · rcases hmove inode held.entry with ⟨ht, -⟩ | hmoved
    · rw [ht]
      exact Keeps.refl
    · -- what the rename replaces is no link and nobody's file
      refine keeps_moved hmoved hno ?_ ?_
      · intro target he
        obtain ⟨n, hn⟩ := lookup_of_destination hnew he
        exact (hclear new n hn).1 target he
      · rintro j he ⟨a, ha, hown⟩
        obtain ⟨n, hn⟩ := lookup_of_destination hnew he
        exact (hclear new n hn).2 j a he ha hown
  · intro i hi
    cases hi
  · intro l hl
    cases hl
    refine ⟨inode, hno, ?_⟩
    rcases hmove inode held.entry with ⟨ht, he⟩ | hmoved
    · rw [ht]
      exact ⟨he, hdata⟩
    · rw [hmoved.content, hmoved.entry]
      exact ⟨if_pos rfl, hdata⟩
  · intro i w hw
    cases hw

/-- A step of `write_file_safely`. -/
theorem Invariant.move (h : Invariant env s) (hclear : s.Clear env k)
    (hother : ∀ j, j ≠ k → s'.transfers j = s.transfers j) {c : Commit} {st st' : CommitState}
    (hst : s.transfers k = .storing c st) (hk : s'.transfers k = .storing c st')
    (hmove : CommitMove env c s.tree st s'.tree st') : Advances env k s s' := by
  generalize ht' : s'.tree = t' at hmove
  cases hmove with
  | ended hi =>
      refine h.update_storing hother hk (ht' ▸ Keeps.refl) ?_ ?_ ?_
      · intro i hi'
        rw [hi] at hi'
        cases hi'
      · rintro l rfl
        obtain ⟨i, he, hc⟩ := h.done k c l hst
        rw [ht']
        exact ⟨i, h.not_ownedByOthers (Or.inr ⟨c, l, hst, he⟩), he, hc⟩
      · rintro i w rfl
        cases hi
  | fails e hno =>
      refine h.update_storing hother hk (ht' ▸ Keeps.refl) ?_ ?_ ?_
      · intro i hi
        cases hi
      · intro l hl
        cases hl
      · intro i w hw
        cases hw
  | dirs hdirs hi hno =>
      refine h.update_storing hother hk ?_ ?_ ?_ ?_
      · rw [ht']
        exact keeps_of_extends hdirs.extends_ (fun i _ _ => by rw [hdirs.content])
      · intro i hi'
        rw [hi] at hi'
        cases hi'
      · intro l hl
        exact absurd hl (hno l)
      · rintro i w rfl
        cases hi
  | temp hcreate =>
      subst ht'
      exact h.created hother hk (hclear.temp c hst) hcreate
  | write inode w n hlt =>
      obtain ⟨loc, held⟩ := h.held k c _ inode hst rfl
      have hno : ¬ s.OwnedByOthers k inode := h.not_ownedByOthers (Or.inl ⟨c, _, hst, rfl⟩)
      refine h.update_storing hother hk ?_ ?_ ?_ ?_
      · rw [ht']
        exact keeps_setContent hno _
      · intro i hi
        cases hi
        rw [ht']
        refine ⟨hno, loc, ?_⟩
        rw [held.content, CommitState.contents, overwrite_take c.data (Nat.le_of_lt hlt)]
        exact held.setContent_self _
      · intro l hl
        cases hl
      · intro i w' hw'
        cases hw'
        rw [List.length_take, List.length_drop]
        omega
  | flush inode w hle =>
      obtain ⟨loc, held⟩ := h.held k c _ inode hst rfl
      refine h.update_storing hother hk (ht' ▸ Keeps.refl) ?_ ?_ ?_
      · intro i hi
        cases hi
        refine ⟨h.not_ownedByOthers (Or.inl ⟨c, _, hst, rfl⟩), loc, ?_⟩
        rw [ht']
        refine ⟨held.entry, held.content.trans ?_, held.named⟩
        exact List.take_of_length_le hle
      · intro l hl
        cases hl
      · intro i w' hw'
        cases hw'
  | rename inode hr =>
      subst ht'
      exact h.renamed hother hst hk (hclear.dest c inode hst) hr

/-- **A step that is clear keeps the invariant.** -/
theorem Invariant.step [DecidableEq ι] (h : Invariant env s) (hclear : s.Clear env k)
    (glob : Glob) (config : ServerConfig) (order : IterOrder) (input : TransferInput) :
    Advances env k s (s.step env glob config order k input) := by
  have hother : ∀ j, j ≠ k →
      (s.step env glob config order k input).transfers j = s.transfers j := by
    intro j hj
    exact Function.update_of_ne hj _ _
  have hself : (s.step env glob config order k input).transfers k
      = ((s.transfers k).step env glob config order s.tree input).2 := Function.update_self _ _ _
  have htree : (s.step env glob config order k input).tree
      = ((s.transfers k).step env glob config order s.tree input).1 := rfl
  rcases Transfer.step_cases env glob config order s.tree (s.transfers k) input with
    hsame | ⟨ht, henter⟩ | ⟨c, st, outcome, hst, hr⟩
  · have : s.step env glob config order k input = s := by
      unfold Uploads.step
      simp only [hsame, Function.update_eq_self]
    rw [this]
    exact ⟨h, Keeps.refl⟩
  · -- a transfer that enters the commit has no file yet
    rw [← hself] at henter
    refine h.update hother ?_ ?_ ?_ ?_ ?_
    · rw [htree, ht]
      exact Keeps.refl
    · intro c st i hst hi
      rw [henter c st hst] at hi
      cases hi
    · intro c loc hst
      exact absurd (henter c _ hst) (by intro h; cases h)
    · rintro i (⟨c, st, hst, hi⟩ | ⟨c, loc, hst, -⟩)
      · rw [henter c st hst] at hi
        cases hi
      · exact absurd (henter c _ hst) (by intro h; cases h)
    · intro c i w hst
      exact absurd (henter c _ hst) (by intro h; cases h)
  · rw [hr] at hself htree
    refine h.move hclear hother hst hself ?_
    rw [htree]
    exact commit_step_move env c outcome s.tree st

end Step

/-! ## Runs -/

section Runs

variable [DecidableEq ι] {env : Env} {glob : Glob} {config : ServerConfig} {order : IterOrder}

/-- A transfer that has committed stays so. -/
theorem step_committed {s : Uploads ι} {j k : ι} {input : TransferInput} {c : Commit} {loc : Loc}
    (h : s.transfers j = .storing c (.committed loc)) :
    (s.step env glob config order k input).transfers j = .storing c (.committed loc) := by
  by_cases hj : j = k
  · subst hj
    refine (Function.update_self _ _ _).trans ?_
    rw [h]
    cases input <;> rfl
  · exact (Function.update_of_ne hj _ _).trans h

theorem invariant_of_clear {s s' : Uploads ι} (hs : Invariant env s)
    (h : Relation.ReflTransGen (ClearStep env glob config order) s s') : Invariant env s' := by
  refine Reactive.invariant_of_step (Invariant env) ?_ hs h
  rintro s s' hs ⟨k, input, hclear, rfl⟩
  exact (hs.step hclear glob config order input).inv

/-- The file of a transfer that has committed stays where it is. -/
theorem Invariant.committed_step {s : Uploads ι} (h : Invariant env s) {j k : ι} {c : Commit}
    {loc : Loc} {i : Nat} (hclear : s.Clear env k) (input : TransferInput)
    (hj : s.transfers j = .storing c (.committed loc)) (he : s.tree.entry loc = some (.file i)) :
    (s.step env glob config order k input).tree.entry loc = some (.file i) := by
  by_cases hjk : j = k
  · subst hjk
    have htree : (s.step env glob config order j input).tree = s.tree := by
      unfold Uploads.step
      rw [hj]
      cases input <;> rfl
    rw [htree, he]
  · have hown : s.OwnedByOthers k i := ⟨j, hjk, Or.inr ⟨c, loc, hj, he⟩⟩
    exact ((h.step hclear glob config order input).keeps loc i hown he).1

/-- The state after a list of steps. -/
def run (env : Env) (glob : Glob) (config : ServerConfig) (order : IterOrder) (s : Uploads ι)
    (steps : List (ι × TransferInput)) : Uploads ι :=
  steps.foldl (fun s x => s.step env glob config order x.1 x.2) s

theorem run_reachable (steps : List (ι × TransferInput)) :
    ∀ s, Relation.ReflTransGen (Step env glob config order) s
      (run env glob config order s steps) := by
  induction steps with
  | nil => intro s; exact .refl
  | cons x steps ih => intro s; exact .head ⟨x.1, x.2, rfl⟩ (ih _)

end Runs

section Clear

variable {env : Env} {glob : Glob} {config : ServerConfig} {order : IterOrder} {s s' : Uploads ι}
  {k : ι}

/-- A check that is enough for a clear step: nothing at all is where the transfer creates or
renames. -/
def clearCheck (env : Env) (s : Uploads ι) (k : ι) : Bool :=
  match (s.transfers k).commit with
  | some (c, .createTemp) => isAbsent env s.tree c.tempPath
  | some (c, .flushed _) => isAbsent env s.tree c.filePath
  | _ => true

theorem clear_of_check (h : clearCheck env s k = true) : s.Clear env k := by
  constructor
  · intro c hc loc m hl
    rw [clearCheck, hc] at h
    exact absurd hl (lookup_of_isAbsent h loc m)
  · intro c i hc loc m hl
    rw [clearCheck, hc] at h
    exact absurd hl (lookup_of_isAbsent h loc m)

/-- The check before every step of a run. -/
def clearRun [DecidableEq ι] (env : Env) (glob : Glob) (config : ServerConfig)
    (order : IterOrder) : Uploads ι → List (ι × TransferInput) → Bool
  | _, [] => true
  | s, x :: steps =>
      clearCheck env s x.1 &&
        clearRun env glob config order (s.step env glob config order x.1 x.2) steps

theorem run_clear [DecidableEq ι] (steps : List (ι × TransferInput)) :
    ∀ s, clearRun env glob config order s steps = true →
      Relation.ReflTransGen (ClearStep env glob config order) s
        (run env glob config order s steps) := by
  induction steps with
  | nil => intro s _; exact .refl
  | cons x steps ih =>
      intro s h
      rw [clearRun, Bool.and_eq_true] at h
      exact .head ⟨x.1, x.2, clear_of_check h.1, rfl⟩ (ih _ h.2)

theorem not_committedKept {c : Commit} {loc : Loc} {i : Nat}
    (h : (s.transfers k).commit = some (c, .committed loc))
    (he : s'.tree.entry loc = some (.file i)) (hne : s'.tree.content i ≠ c.data) :
    ¬ CommittedKept s s' := by
  intro hkept
  obtain ⟨j, -, -, hj, hdata⟩ := hkept k c loc (Transfer.eq_storing h)
  rw [he] at hj
  cases hj
  exact hne hdata

end Clear

end Uploads

/-- A request to write `a.txt`. -/
def txtRequest : Bytes := putU16 Opcode.wrq.toU16 ++ (cstring "a.txt" ++ cstring "octet")

end UsgTftp
