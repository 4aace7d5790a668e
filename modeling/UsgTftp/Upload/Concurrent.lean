import UsgTftp.Lib.Reactive
import UsgTftp.Server.Commit

set_option autoImplicit false

/-! # Two files written at once

Two calls of `write_file_safely` run in tasks of their own, so their steps interleave in every
order. The temporary name replaces the extension of the destination, so two destinations can
share it, and it can be the name of a file that is there already. Runs that never meet such a
name keep their data apart (`concurrent_commits_unmixed`); a run that does can report success
for a file that holds nothing of its data (`concurrent_commits_mixed`).
-/

namespace UsgTftp

open Posix Path

/-! ## The system -/

/-- Two calls of `write_file_safely` on one file tree. -/
structure Commits where
  tree : Tree
  procs : Bool → CommitState

namespace Commits

def start (t : Tree) : Commits := ⟨t, fun _ => .createDirs⟩

/-- Call `k` takes its next step. -/
def step (env : Env) (c : Bool → Commit) (k : Bool) (io : IoOutcome) (s : Commits) : Commits :=
  let r := (c k).step env io s.tree (s.procs k)
  ⟨r.1, Function.update s.procs k r.2⟩

theorem step_procs_self (env : Env) (c : Bool → Commit) (k : Bool) (io : IoOutcome)
    (s : Commits) : (s.step env c k io).procs k = ((c k).step env io s.tree (s.procs k)).2 :=
  Function.update_self _ _ _

theorem step_procs_other (env : Env) (c : Bool → Commit) (k : Bool) (io : IoOutcome)
    (s : Commits) : (s.step env c k io).procs (!k) = s.procs (!k) :=
  Function.update_of_ne (by simp) _ _

/-- No name clash in the step that call `k` is about to take: if it creates its temporary
file, then neither a file nor a link has that name; if it renames it, then the destination is
not the temporary file that the other call still has. -/
structure Clear (env : Env) (c : Bool → Commit) (s : Commits) (k : Bool) : Prop where
  temp : s.procs k = .createTemp → FreeName env s.tree (c k).tempPath
  dest : ∀ i, s.procs k = .flushed i → ∀ loc j,
    destination env s.tree (c k).filePath = some loc → (s.procs (!k)).inode = some j →
    s.tree.entry loc ≠ some (.file j)

/-- A step of either call. -/
def Step (env : Env) (c : Bool → Commit) (s s' : Commits) : Prop :=
  ∃ k io, s' = s.step env c k io

def ClearStep (env : Env) (c : Bool → Commit) (s s' : Commits) : Prop :=
  ∃ k io, s.Clear env c k ∧ s' = s.step env c k io

/-- If call `k` returns `Ok` in this step, then its destination holds its data. -/
def OwnData (env : Env) (c : Bool → Commit) (s : Commits) (k : Bool) (io : IoOutcome) : Prop :=
  ∀ loc, (s.step env c k io).procs k = .committed loc → s.procs k ≠ .committed loc →
    destination env s.tree (c k).filePath = some loc ∧
    ∃ i, (s.step env c k io).tree.entry loc = some (.file i) ∧
      (s.step env c k io).tree.content i = (c k).data

/-- The call has returned `Ok` and left a file with other data at its destination. -/
theorem not_ownData {env : Env} {c : Bool → Commit} {s : Commits} {k : Bool} {io : IoOutcome}
    {loc : Loc} {i : Nat} (hst : s.procs k ≠ .committed loc)
    (hst' : (s.step env c k io).procs k = .committed loc)
    (hentry : (s.step env c k io).tree.entry loc = some (.file i))
    (hdata : (s.step env c k io).tree.content i ≠ (c k).data) : ¬ OwnData env c s k io := by
  intro h
  obtain ⟨-, j, hj, hown⟩ := h loc hst' hst
  rw [hentry] at hj
  cases hj
  exact hdata hown

/-- The files of `t₀` are there with their content, but for those that a call has replaced by
renaming to them. -/
def OthersKept (t₀ : Tree) (s : Commits) : Prop :=
  ∀ l i, t₀.entry l = some (.file i) →
    (s.tree.entry l = some (.file i) ∧ s.tree.content i = t₀.content i) ∨
    ∃ k, s.procs k = .committed l

/-! ## The invariant -/

/-- The temporary file `i` of a call in state `st`. Its name resolves to it or not at all, and
resolves to it as long as the other call has not renamed. -/
structure Live (env : Env) (c : Commit) (low : Nat) (t : Tree) (st : CommitState) (alone : Prop)
    (i : Nat) : Prop where
  low_le : low ≤ i
  lt_next : i < t.nextInode
  temp : ∃ loc, t.entry loc = some (.file i) ∧ t.content i = st.contents c.data ∧
    (∀ r m, lookup env t false c.tempPath c.tempPath.comps = .ok (r, m) → r = .found loc) ∧
    (alone → ∃ m, lookup env t false c.tempPath c.tempPath.comps = .ok (.found loc, m))

/-- Call `k` has not renamed. -/
def Uncommitted (s : Commits) (k : Bool) : Prop := ∀ loc, s.procs k ≠ .committed loc

structure Invariant (env : Env) (c : Bool → Commit) (t₀ : Tree) (s : Commits) : Prop where
  next : t₀.nextInode ≤ s.tree.nextInode
  live : ∀ k i, (s.procs k).inode = some i →
    Live env (c k) t₀.nextInode s.tree (s.procs k) (s.Uncommitted (!k)) i
  distinct : ∀ k i, (s.procs k).inode = some i → (s.procs (!k)).inode ≠ some i
  written : ∀ k i w, s.procs k = .writing i w → w ≤ (c k).data.length
  content : ∀ i, i < t₀.nextInode → s.tree.content i = t₀.content i
  entry : ∀ l i, t₀.entry l = some (.file i) →
    s.tree.entry l = some (.file i) ∨ ∃ k, s.procs k = .committed l

theorem invariant_start (env : Env) (c : Bool → Commit) (t₀ : Tree) :
    Invariant env c t₀ (start t₀) where
  next := Nat.le_refl _
  live := by intro k i h; cases h
  distinct := by intro k i h; cases h
  written := by intro k i w h; cases h
  content := fun _ _ => rfl
  entry := fun _ _ h => Or.inl h

section Step

variable {env : Env} {c : Bool → Commit} {t₀ : Tree} {s : Commits}

theorem Invariant.othersKept (h : Invariant env c t₀ s) : OthersKept t₀ s := by
  intro l i hl
  rcases h.entry l i hl with he | hk
  · exact Or.inl ⟨he, h.content i (t₀.inode_lt l i hl)⟩
  · exact Or.inr hk

/-- A live file is kept by a step of the other call that only adds entries. -/
theorem Live.of_extends {c : Commit} {low i : Nat} {t t' : Tree} {st : CommitState}
    {alone alone' : Prop} (h : Live env c low t st alone i) (ha : alone) (hext : Extends t t')
    (hnext : t.nextInode ≤ t'.nextInode) (hcontent : t'.content i = t.content i) :
    Live env c low t' st alone' i := by
  obtain ⟨loc, he, hc, -, hnamed⟩ := h.temp
  have held : TempHeld env c t' loc i (st.contents c.data) :=
    TempHeld.of_extends ⟨he, hc, hnamed ha⟩ hext hcontent
  obtain ⟨m, hm⟩ := held.named
  refine ⟨h.low_le, Nat.lt_of_lt_of_le h.lt_next hnext, loc, held.entry, held.content, ?_,
    fun _ => ⟨m, hm⟩⟩
  intro r m' hr
  rw [hm] at hr
  cases hr
  rfl

/-- What a step of call `k` has to keep. -/
theorem Invariant.update (h : Invariant env c t₀ s) {k : Bool} {s' : Commits}
    (hnk : s'.procs (!k) = s.procs (!k))
    (hnext : s.tree.nextInode ≤ s'.tree.nextInode)
    (hself : ∀ i, (s'.procs k).inode = some i → (s.procs (!k)).inode ≠ some i ∧
      Live env (c k) t₀.nextInode s'.tree (s'.procs k) (s.Uncommitted (!k)) i)
    (hother : ∀ i, (s.procs (!k)).inode = some i →
      Live env (c (!k)) t₀.nextInode s'.tree (s.procs (!k)) (s'.Uncommitted k) i)
    (hwritten : ∀ i w, s'.procs k = .writing i w → w ≤ (c k).data.length)
    (hcontent : ∀ i, i < t₀.nextInode → s'.tree.content i = s.tree.content i)
    (hentry : ∀ l i, i < t₀.nextInode → s.tree.entry l = some (.file i) →
      s'.tree.entry l = some (.file i) ∨ s'.procs k = .committed l)
    (hcommitted : ∀ l, s.procs k = .committed l → s'.procs k = .committed l) :
    Invariant env c t₀ s' := by
  -- every field is about `k` or about the other call
  have hcases : ∀ {P : Bool → Prop}, P k → P (!k) → ∀ j, P j := by
    intro P h1 h2 j
    by_cases hj : j = k
    · exact hj ▸ h1
    · rw [Bool.eq_not_of_ne hj]
      exact h2
  refine ⟨Nat.le_trans h.next hnext, hcases ?_ ?_, hcases ?_ ?_, hcases ?_ ?_, ?_, ?_⟩
  · intro i hi
    unfold Uncommitted
    rw [hnk]
    exact (hself i hi).2
  · intro i hi
    rw [hnk] at hi ⊢
    rw [Bool.not_not]
    exact hother i hi
  · intro i hi
    rw [hnk]
    exact (hself i hi).1
  · intro i hi hi'
    rw [hnk] at hi
    rw [Bool.not_not] at hi'
    exact (hself i hi').1 hi
  · exact hwritten
  · intro i w hw
    rw [hnk] at hw
    exact h.written _ i w hw
  · intro i hi
    exact (hcontent i hi).trans (h.content i hi)
  · intro l i hl
    rcases h.entry l i hl with he | ⟨j, hj⟩
    · rcases hentry l i (t₀.inode_lt l i hl) he with he' | he'
      · exact Or.inl he'
      · exact Or.inr ⟨k, he'⟩
    · right
      by_cases hjk : j = k
      · exact ⟨k, hcommitted l (hjk ▸ hj)⟩
      · refine ⟨!k, hnk.trans ?_⟩
        rw [← Bool.eq_not_of_ne hjk]
        exact hj

/-- A step that adds entries, and changes the content of at most the file the call holds
after it. -/
theorem Invariant.update_extends (h : Invariant env c t₀ s) {k : Bool} {s' : Commits}
    (hnk : s'.procs (!k) = s.procs (!k)) (hopen : s.Uncommitted k)
    (hext : Extends s.tree s'.tree) (hnext : s.tree.nextInode ≤ s'.tree.nextInode)
    (hself : ∀ i, (s'.procs k).inode = some i → (s.procs (!k)).inode ≠ some i ∧
      Live env (c k) t₀.nextInode s'.tree (s'.procs k) (s.Uncommitted (!k)) i)
    (hcontent : ∀ i, i < s.tree.nextInode → (s'.procs k).inode ≠ some i →
      s'.tree.content i = s.tree.content i)
    (hwritten : ∀ i w, s'.procs k = .writing i w → w ≤ (c k).data.length) :
    Invariant env c t₀ s' := by
  refine h.update hnk hnext hself ?_ hwritten ?_ ?_ ?_
  · intro i hi
    have hlive := h.live (!k) i hi
    rw [Bool.not_not] at hlive
    refine hlive.of_extends hopen hext hnext (hcontent i hlive.lt_next ?_)
    intro hst
    exact (hself i hst).1 hi
  · intro i hi
    refine hcontent i (Nat.lt_of_lt_of_le hi h.next) ?_
    intro hst
    exact absurd (hself i hst).2.low_le (Nat.not_le.mpr hi)
  · intro l i _ he
    exact Or.inl (hext.entry_eq he)
  · intro l hl
    exact absurd hl (hopen l)

/-- What the rename of call `k` does. -/
theorem Invariant.rename (h : Invariant env c t₀ s) {k : Bool} {i : Nat} {t' : Tree}
    (hst : s.procs k = .flushed i)
    (hr : Posix.rename env s.tree (c k).tempPath (c k).filePath = .ok t') :
    ∃ old new, destination env s.tree (c k).filePath = some new ∧
      s.tree.entry old = some (.file i) ∧ s.tree.content i = (c k).data ∧
      ((t' = s.tree ∧ s.tree.entry new = some (.file i)) ∨ FileMoved s.tree t' old new i) := by
  obtain ⟨old, new, m, hold, hnew, hmove⟩ := rename_file hr
  have hlive := h.live k i (by rw [hst]; rfl)
  obtain ⟨loc, he, hc, hnamed, -⟩ := hlive.temp
  have hloc := hnamed _ _ hold
  cases hloc
  rw [hst] at hc
  exact ⟨old, new, hnew, he, hc, hmove i he⟩

theorem Invariant.ownData (h : Invariant env c t₀ s) (k : Bool) (io : IoOutcome) :
    OwnData env c s k io := by
  intro loc hloc hne
  have hmove := commit_step_move env (c k) io s.tree (s.procs k)
  rw [step_procs_self] at hloc
  rw [hloc] at hmove
  show _ ∧ ∃ i, ((c k).step env io s.tree (s.procs k)).1.entry loc = _ ∧
    ((c k).step env io s.tree (s.procs k)).1.content i = _
  generalize ((c k).step env io s.tree (s.procs k)).1 = t' at hmove
  obtain ⟨i, hst, hr, hdest⟩ := hmove.committed hne
  obtain ⟨old, new, hnew, -, hdata, hmoved⟩ := h.rename hst hr
  rw [hnew] at hdest
  subst hdest
  refine ⟨hnew, i, ?_⟩
  rcases hmoved with ⟨rfl, he⟩ | hmoved
  · exact ⟨he, hdata⟩
  · rw [hmoved.content, hmoved.entry]
    exact ⟨if_pos rfl, hdata⟩

/-- The write of a chunk to the temporary file. -/
theorem Live.write {c : Commit} {low i w n : Nat} {t : Tree} {alone : Prop}
    (h : Live env c low t (.writing i w) alone i) (hw : w ≤ c.data.length) :
    Live env c low
      (t.setContent i (overwrite (t.content i) w ((c.data.drop w).take n)))
      (.writing i (w + ((c.data.drop w).take n).length)) alone i := by
  obtain ⟨loc, he, hc, hnamed, halone⟩ := h.temp
  refine ⟨h.low_le, h.lt_next, loc, he, ?_, ?_, ?_⟩
  · refine (Function.update_self _ _ _).trans ?_
    rw [hc]
    exact overwrite_take c.data hw n
  · rw [lookup_setContent]
    exact hnamed
  · rw [lookup_setContent]
    exact halone

/-- The temporary file of the other call after a file was moved, neither from nor to it. -/
theorem Live.moved {c : Commit} {low i j : Nat} {t t' : Tree} {st : CommitState}
    {alone alone' : Prop} {old new : Loc} (h : Live env c low t st alone i) (ha : alone)
    (hmove : FileMoved t t' old new j) (hne : i ≠ j) (hnew : t.entry new ≠ some (.file i))
    (halone' : ¬ alone') : Live env c low t' st alone' i := by
  -- the temporary file is neither what is moved nor what is replaced
  obtain ⟨loc, he, hc, -, hnamed⟩ := h.temp
  obtain ⟨m, hm⟩ := hnamed ha
  have hold' : loc ≠ old := by
    rintro rfl
    rw [hmove.source] at he
    cases he
    exact hne rfl
  have hnew' : loc ≠ new := by
    rintro rfl
    exact hnew he
  refine ⟨h.low_le, ?_, loc, ?_, ?_, ?_, fun h => absurd h halone'⟩
  · rw [hmove.nextInode]
    exact h.lt_next
  · rw [hmove.entry, if_neg hnew', if_neg hold', he]
  · rw [hmove.content, hc]
  · intro r m' hr
    obtain ⟨hnul, hempty⟩ := lookup_ok hm
    rw [lookup_eq hnul hempty] at hm hr
    have := walk_replace hmove _ _ _ loc m (r, m') hm hold' hnew' hr
    cases this
    rfl

theorem eq_of_procs {s s' : Commits} {k : Bool} (htree : s'.tree = s.tree)
    (hk : s'.procs k = s.procs k) (hnk : s'.procs (!k) = s.procs (!k)) : s' = s := by
  obtain ⟨t, p⟩ := s
  obtain ⟨t', p'⟩ := s'
  dsimp only at htree hk hnk
  rw [htree]
  congr 1
  funext j
  by_cases hj : j = k
  · rw [hj, hk]
  · rw [Bool.eq_not_of_ne hj, hnk]

section Cases

variable {k : Bool} {s' : Commits} {inode w n : Nat}

/-- The temporary file is created. -/
theorem Invariant.created (h : Invariant env c t₀ s) (hnk : s'.procs (!k) = s.procs (!k))
    {loc : Loc} {t' : Tree} (ht' : s'.tree = t') (hst : s.procs k = .createTemp)
    (hst' : s'.procs k = .writing inode 0) (hclear : FreeName env s.tree (c k).tempPath)
    (hcreate : create env s.tree (c k).tempPath = .ok (t', loc, inode)) :
    Invariant env c t₀ s' := by
  obtain ⟨hadd, m, hm⟩ := create_of_free hclear hcreate
  have hlow : t₀.nextInode ≤ inode := hadd.inode_eq ▸ h.next
  refine h.update_extends hnk ?_ (ht' ▸ hadd.extends_) ?_ ?_ ?_ ?_
  · intro l hl
    rw [hst] at hl
    cases hl
  · rw [ht', hadd.nextInode]
    exact Nat.le_succ _
  · intro i hi
    rw [hst'] at hi
    cases hi
    refine ⟨?_, hlow, ?_, loc, ?_, ?_, ?_, fun _ => ⟨m, ?_⟩⟩
    -- the inode is new, so the other process does not hold it
    · intro hother
      have := (h.live _ _ hother).lt_next
      rw [hadd.inode_eq] at this
      exact Nat.lt_irrefl _ this
    · rw [ht', hadd.nextInode, hadd.inode_eq]
      exact Nat.lt_succ_self _
    · rw [ht', hadd.entry]
    · rw [ht', hst', hadd.content]
      rfl
    · intro r m' hr
      rw [ht', hm] at hr
      cases hr
      rfl
    · rw [ht', hm]
  · intro i _ hi
    rw [hst'] at hi
    rw [ht', hadd.contents i (fun he => hi (he ▸ rfl))]
  · intro i w hw
    rw [hst'] at hw
    cases hw
    exact Nat.zero_le _

/-- A chunk is written. -/
theorem Invariant.wrote (h : Invariant env c t₀ s) (hnk : s'.procs (!k) = s.procs (!k))
    (ht' : s'.tree = s.tree.setContent inode
      (overwrite (s.tree.content inode) w (((c k).data.drop w).take n)))
    (hst : s.procs k = .writing inode w)
    (hst' : s'.procs k = .writing inode (w + (((c k).data.drop w).take n).length))
    (hlt : w < (c k).data.length) : Invariant env c t₀ s' := by
  have hself := h.live k inode (by rw [hst]; rfl)
  have hdist := h.distinct k inode (by rw [hst]; rfl)
  rw [hst] at hself
  refine h.update_extends hnk ?_ (fun l _ => by rw [ht']; rfl) (by rw [ht']; rfl) ?_ ?_ ?_
  · intro l hl
    rw [hst] at hl
    cases hl
  · intro i hi
    rw [hst'] at hi ⊢
    cases hi
    rw [ht']
    exact ⟨hdist, hself.write (Nat.le_of_lt hlt)⟩
  · intro i _ hi
    rw [hst'] at hi
    rw [ht']
    exact Function.update_of_ne (fun he : i = inode => hi (he ▸ rfl)) _ _
  · intro i w' hw'
    rw [hst'] at hw'
    cases hw'
    rw [List.length_take, List.length_drop]
    omega

/-- The data are flushed. -/
theorem Invariant.flushed (h : Invariant env c t₀ s) (hnk : s'.procs (!k) = s.procs (!k))
    (ht' : s'.tree = s.tree) (hst : s.procs k = .writing inode w)
    (hst' : s'.procs k = .flushed inode) (hle : (c k).data.length ≤ w) :
    Invariant env c t₀ s' := by
  have hself := h.live k inode (by rw [hst]; rfl)
  have hdist := h.distinct k inode (by rw [hst]; rfl)
  refine h.update_extends hnk ?_ (fun l _ => by rw [ht']) (by rw [ht']) ?_ ?_ ?_
  · intro l hl
    rw [hst] at hl
    cases hl
  · intro i hi
    rw [hst'] at hi ⊢
    cases hi
    obtain ⟨loc, he, hc, hnamed⟩ := hself.temp
    rw [ht']
    refine ⟨hdist, hself.low_le, hself.lt_next, loc, he, hc.trans ?_, hnamed⟩
    rw [hst]
    exact List.take_of_length_le hle
  · intro i _ _
    rw [ht']
  · intro i w' hw'
    rw [hst'] at hw'
    cases hw'

/-- The temporary file is renamed. -/
theorem Invariant.renamed (h : Invariant env c t₀ s) (hnk : s'.procs (!k) = s.procs (!k))
    {t' : Tree} (ht' : s'.tree = t') (hst : s.procs k = .flushed inode)
    (hst' : s'.procs k = .committed ((destination env s.tree (c k).filePath).getD []))
    (hr : Posix.rename env s.tree (c k).tempPath (c k).filePath = .ok t')
    (hclear : ∀ loc i, destination env s.tree (c k).filePath = some loc →
      (s.procs (!k)).inode = some i → s.tree.entry loc ≠ some (.file i)) :
    Invariant env c t₀ s' := by
  have hself := h.live k inode (by rw [hst]; rfl)
  have hdist := h.distinct k inode (by rw [hst]; rfl)
  obtain ⟨old, new, hnew, hold, -, hmoved⟩ := h.rename hst hr
  have hopen : s.Uncommitted (!(!k)) := by
    rw [Bool.not_not]
    intro l hl
    rw [hst] at hl
    cases hl
  have hdone : ¬ s'.Uncommitted k := fun hu => hu _ hst'
  -- `rename` does nothing if both names are links to one inode, else it moves the file
  rw [hnew] at hst'
  refine h.update hnk ?_ ?_ ?_ ?_ ?_ ?_ ?_
  · rw [ht']
    rcases hmoved with ⟨rfl, -⟩ | hmoved
    · exact Nat.le_refl _
    · rw [hmoved.nextInode]
  · intro i hi
    rw [hst'] at hi
    cases hi
  · intro i hi
    rw [ht']
    have hlive := h.live (!k) i hi
    rcases hmoved with ⟨rfl, -⟩ | hmoved
    · obtain ⟨loc, he, hc, hnamed, -⟩ := hlive.temp
      exact ⟨hlive.low_le, hlive.lt_next, loc, he, hc, hnamed, fun hu => absurd hu hdone⟩
    · have hne : i ≠ inode := fun he => hdist (he ▸ hi)
      exact hlive.moved hopen hmoved hne (hclear new i hnew hi) hdone
  · intro i w hw
    rw [hst'] at hw
    cases hw
  · intro i _
    rw [ht']
    rcases hmoved with ⟨rfl, -⟩ | hmoved
    · rfl
    · rw [hmoved.content]
  · intro l i hi he
    rw [ht', hst']
    rcases hmoved with ⟨rfl, -⟩ | hmoved
    · exact Or.inl he
    · by_cases hl : l = new
      · exact Or.inr (hl ▸ rfl)
      · left
        rw [hmoved.entry, if_neg hl, if_neg, he]
        rintro rfl
        rw [hold] at he
        cases he
        exact absurd hself.low_le (Nat.not_le.mpr hi)
  · intro l hl
    rw [hst] at hl
    cases hl

end Cases

/-- **A step without a name clash keeps the invariant.** -/
theorem Invariant.step (h : Invariant env c t₀ s) {k : Bool} (hclear : s.Clear env c k)
    (io : IoOutcome) : Invariant env c t₀ (s.step env c k io) := by
  have hmove := commit_step_move env (c k) io s.tree (s.procs k)
  have hnk := step_procs_other env c k io s
  have htree : (s.step env c k io).tree = ((c k).step env io s.tree (s.procs k)).1 := rfl
  rw [← step_procs_self env c k io s, ← htree] at hmove
  -- from here on only what one move can do matters
  generalize s.step env c k io = s' at hmove hnk
  generalize hst : s.procs k = st at hmove
  generalize hst' : s'.procs k = st' at hmove
  generalize ht' : s'.tree = t' at hmove
  cases hmove with
  | ended hi => exact eq_of_procs ht' (hst'.trans hst.symm) hnk ▸ h
  | fails e hno =>
      refine h.update_extends hnk (fun l => hst ▸ hno l) (fun l _ => by rw [ht']) (by rw [ht'])
        ?_ ?_ ?_
      · intro i hi
        rw [hst'] at hi
        cases hi
      · intro i _ _
        rw [ht']
      · intro i w hw
        rw [hst'] at hw
        cases hw
  | dirs hdirs hi hno =>
      refine h.update_extends hnk ?_ (ht' ▸ hdirs.extends_) ?_ ?_ ?_ ?_
      · intro l hl
        rw [hst] at hl
        cases hl
      · rw [ht', hdirs.nextInode]
      · intro i hi'
        rw [hst', hi] at hi'
        cases hi'
      · intro i _ _
        rw [ht', hdirs.content]
      · intro i w hw
        rw [hst'] at hw
        rw [hw] at hi
        cases hi
  | temp hcreate => exact h.created hnk ht' hst hst' (hclear.temp hst) hcreate
  | write inode w n hlt => exact h.wrote hnk ht' hst hst' hlt
  | flush inode w hle => exact h.flushed hnk ht' hst hst' hle
  | rename inode hr => exact h.renamed hnk ht' hst hst' hr (hclear.dest inode hst)

end Step

/-- The state after a list of steps. -/
def run (env : Env) (c : Bool → Commit) (s : Commits) (steps : List (Bool × IoOutcome)) : Commits :=
  steps.foldl (fun s x => s.step env c x.1 x.2) s

theorem run_reachable (env : Env) (c : Bool → Commit) (steps : List (Bool × IoOutcome)) :
    ∀ s, Relation.ReflTransGen (Step env c) s (run env c s steps) := by
  induction steps with
  | nil => intro s; exact .refl
  | cons x steps ih => intro s; exact .head ⟨x.1, x.2, rfl⟩ (ih _)

/-- A check that is enough for a step without a clash: the temporary name lacks its last
component, and the other call has no temporary file when this one renames. -/
def clearCheck (env : Env) (c : Bool → Commit) (s : Commits) (k : Bool) : Bool :=
  match s.procs k with
  | .createTemp => isAbsent env s.tree (c k).tempPath
  | .flushed _ => (s.procs (!k)).inode = none
  | _ => true

theorem clear_of_check {env : Env} {c : Bool → Commit} {s : Commits} {k : Bool}
    (h : clearCheck env c s k = true) : s.Clear env c k := by
  constructor
  · intro hst l m hl
    rw [clearCheck, hst] at h
    exact absurd hl (lookup_of_isAbsent h l m)
  · intro i hst loc j _ hj
    rw [clearCheck, hst] at h
    dsimp only at h
    rw [of_decide_eq_true h] at hj
    cases hj

/-- The check before every step of a run. -/
def clearRun (env : Env) (c : Bool → Commit) : Commits → List (Bool × IoOutcome) → Bool
  | _, [] => true
  | s, x :: steps => clearCheck env c s x.1 && clearRun env c (s.step env c x.1 x.2) steps

theorem run_clear {env : Env} {c : Bool → Commit} (steps : List (Bool × IoOutcome)) :
    ∀ s, clearRun env c s steps = true →
      Relation.ReflTransGen (ClearStep env c) s (run env c s steps) := by
  induction steps with
  | nil => intro s _; exact .refl
  | cons x steps ih =>
      intro s h
      rw [clearRun, Bool.and_eq_true] at h
      exact .head ⟨x.1, x.2, clear_of_check h.1, rfl⟩ (ih _ h.2)

/-- Two calls: the first writes `/srv/tftp/a.txt`, the second `/srv/tftp/a.cfg`. -/
def twoFiles (first second : Bytes) : Bool → Commit
  | true => ⟨ofString "/srv/tftp/a.txt", first⟩
  | false => ⟨ofString "/srv/tftp/a.cfg", second⟩

end Commits

/-- **Concurrent writes without name clashes do not mix.** In every state that steps without a
name clash lead to, the files that were there are kept, but for the destinations that were
renamed to; and whichever call returns `Ok` next, its destination then holds its data. -/
theorem concurrent_commits_unmixed (env : Env) (c : Bool → Commit) (t₀ : Tree) (s : Commits)
    (h : Relation.ReflTransGen (Commits.ClearStep env c) (Commits.start t₀) s) :
    Commits.OthersKept t₀ s ∧ ∀ k io, Commits.OwnData env c s k io := by
  have hinv : Commits.Invariant env c t₀ s := by
    refine Reactive.invariant_of_step (Commits.Invariant env c t₀) ?_
      (Commits.invariant_start env c t₀) h
    rintro s s' hs ⟨k, io, hclear, rfl⟩
    exact hs.step hclear io
  exact ⟨hinv.othersKept, hinv.ownData⟩

/-- The first call runs alone, up to its rename. -/
theorem concurrent_commits_unmixed_alone :
    let env : Env := ⟨[], 40⟩
    let c := Commits.twoFiles [1] [2]
    let s := Commits.run env c (Commits.start emptyRoot)
      [(true, .ok 0), (true, .ok 0), (true, .ok 8), (true, .ok 0)]
    Commits.OwnData env c s true (.ok 0) ∧
    (s.step env c true (.ok 0)).procs true = .committed ["srv", "tftp", "a.txt"] := by
  intro env c s
  have h : Relation.ReflTransGen (Commits.ClearStep env c) (Commits.start emptyRoot) s :=
    Commits.run_clear _ _ (by decide +kernel)
  have hown := concurrent_commits_unmixed env c emptyRoot s h
  exact ⟨hown.2 true (.ok 0), by decide +kernel⟩

/-- **The temporary name is shared.** `a.txt` and `a.cfg` are both written through
`a..tftp-tmp`. The first call has flushed its data when the second one creates, and so cuts,
the file; the first call then renames the empty file and returns `Ok`. -/
theorem concurrent_commits_mixed :
    let env : Env := ⟨[], 40⟩
    let c := Commits.twoFiles [1] [2]
    let t := emptyRoot
    validateAndResolvePath env t (ofString "/srv/tftp") "a.txt" = .ok (c true).filePath ∧
    validateAndResolvePath env t (ofString "/srv/tftp") "a.cfg" = .ok (c false).filePath ∧
    (c true).filePath ≠ (c false).filePath ∧
    ∃ s, Relation.ReflTransGen (Commits.Step env c) (Commits.start t) s ∧
      ¬ Commits.OwnData env c s true (.ok 0) := by
  intro env c t
  let s := Commits.run env c (Commits.start t)
    [(true, .ok 0), (true, .ok 0), (true, .ok 8), (true, .ok 0), (false, .ok 0), (false, .ok 0)]
  refine ⟨by decide +kernel, by decide +kernel, by decide +kernel, s,
    Commits.run_reachable env c _ _, ?_⟩
  have hst : s.procs true ≠ .committed ["srv", "tftp", "a.txt"] := by decide +kernel
  have hok : (s.step env c true (.ok 0)).procs true = .committed ["srv", "tftp", "a.txt"] := by
    decide +kernel
  have hfile : (s.step env c true (.ok 0)).tree.entry ["srv", "tftp", "a.txt"]
      = some (.file 0) := by decide +kernel
  have hempty : (s.step env c true (.ok 0)).tree.content 0 ≠ (c true).data := by decide +kernel
  exact Commits.not_ownData hst hok hfile hempty

end UsgTftp
