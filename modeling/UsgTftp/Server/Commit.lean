import UsgTftp.Lib.FileMoves
import UsgTftp.PathSecurity

set_option autoImplicit false

/-! # Writing a received file

`write_file_safely` of `src/bin/server.rs` as a process on the file tree, with one step for
each call that other tasks may run between: creating the missing directories, creating or
truncating the temporary file, each write to it, the flush, and the rename. The handle of
the temporary file is its inode, and the process writes at its own offset. Every step may
also fail with an I/O error.
-/

namespace UsgTftp

open Posix

/-! ## The process -/

/-- A call of `write_file_safely`. -/
structure Commit where
  filePath : Path
  data : Bytes
  deriving DecidableEq, Repr

def Commit.tempPath (c : Commit) : Path := c.filePath.withExtension ".tftp-tmp"

inductive CommitState where
  | createDirs
  | createTemp
  /-- The handle is open and the first `written` bytes have been written. -/
  | writing (inode written : Nat)
  /-- The data are flushed and the handle is dropped. -/
  | flushed (inode : Nat)
  /-- `Ok`, after the rename to the location `loc`. -/
  | committed (loc : Loc)
  | failed (e : Errno)
  deriving DecidableEq, Repr

/-- What the system does in one step: it succeeds, taking at most `n` bytes if the step is a
write, or it reports an error. -/
inductive IoOutcome where
  | ok (n : Nat)
  | error (e : Errno)
  deriving DecidableEq, Repr

/-- Writing `chunk` at an offset. A gap after the end of the file is filled with zeros. -/
def overwrite (old : Bytes) (offset : Nat) (chunk : Bytes) : Bytes :=
  old.take offset ++ List.replicate (offset - old.length) 0 ++ chunk
    ++ old.drop (offset + chunk.length)

/-- One step of `write_file_safely`. -/
def Commit.step (env : Env) (c : Commit) (io : IoOutcome) (t : Tree) :
    CommitState → Tree × CommitState
  | .committed loc => (t, .committed loc)
  | .failed e => (t, .failed e)
  | st =>
      match io with
      | .error e => (t, .failed e)
      | .ok n =>
          match st with
          | .createDirs =>
              match createParents env t c.filePath with
              | (t', .ok ()) => (t', .createTemp)
              | (t', .error e) => (t', .failed e)
          | .createTemp =>
              match create env t c.tempPath with
              | .ok (t', _, inode) => (t', .writing inode 0)
              | .error e => (t, .failed e)
          | .writing inode written =>
              if written < c.data.length then
                let chunk := (c.data.drop written).take n
                (t.setContent inode (overwrite (t.content inode) written chunk),
                  .writing inode (written + chunk.length))
              else (t, .flushed inode)
          | .flushed _ =>
              match rename env t c.tempPath c.filePath with
              | .ok t' => (t', .committed ((destination env t c.filePath).getD []))
              | .error e => (t, .failed e)
          | st => (t, st)

/-- The inode of the temporary file, while the process has one. -/
def CommitState.inode : CommitState → Option Nat
  | .writing inode _ => some inode
  | .flushed inode => some inode
  | _ => none

/-- What the temporary file holds in that state. -/
def CommitState.contents (data : Bytes) : CommitState → Bytes
  | .writing _ written => data.take written
  | _ => data

/-! ## What a step can do -/

/-- `t'` is `t` with directories added. -/
structure DirsAdded (t t' : Tree) : Prop where
  extends_ : Extends t t'
  content : t'.content = t.content
  nextInode : t'.nextInode = t.nextInode
  file : ∀ l i, t'.entry l = some (.file i) → t.entry l = some (.file i)

theorem DirsAdded.refl (t : Tree) : DirsAdded t t := ⟨fun _ _ => rfl, rfl, rfl, fun _ _ h => h⟩

theorem dirsAdded_createParents (env : Env) (t : Tree) (p : Path) :
    DirsAdded t (createParents env t p).1 := by
  have hall : ∀ ps : List Path, DirsAdded t (createDirAll env t ps).1 := by
    intro ps
    have hstep : ∀ q ∈ ps, ∀ t' t'', DirsAdded t t' → mkdir env t' q = .ok t'' →
        DirsAdded t t'' := by
      intro q _ t' t'' h hm
      obtain ⟨d, n, m, hl, rfl⟩ := mkdir_eq_ok.mp hm
      refine ⟨?_, ?_, ?_, ?_⟩
      · intro l hl
        rw [t'.extends_addDir d n l (by rw [h.extends_ l hl]; exact hl), h.extends_ l hl]
      · rw [Tree.addDir_content, h.content]
      · rw [Tree.addDir_nextInode, h.nextInode]
      · intro l i hi
        obtain ⟨hnul, hempty⟩ := lookup_ok hl
        rw [lookup_eq hnul hempty] at hl
        obtain ⟨hdir, hnone⟩ := walk_eq_absent t' _ _ _ _ _ _ _ hl
        by_cases hld : l = d ++ [n]
        · rw [hld, Tree.addDir_entry hdir hnone] at hi
          cases hi
        · rw [Tree.addDir_entry_of_ne hld] at hi
          exact h.file l i hi
    have hnil : ∀ t', DirsAdded t t' → DirsAdded t (createDirAll env t' []).1 := fun _ h => h
    have h := createDirAll_invariant hstep hnil t (DirsAdded.refl t)
    rwa [List.append_nil] at h
  unfold createParents
  split
  · exact DirsAdded.refl t
  · exact hall _

/-- `t'` is `t` with a new empty file at `loc`. -/
structure FileAdded (t t' : Tree) (loc : Loc) (inode : Nat) : Prop where
  inode_eq : inode = t.nextInode
  nextInode : t'.nextInode = t.nextInode + 1
  absent : t.entry loc = none
  entry : t'.entry loc = some (.file inode)
  other : ∀ l, l ≠ loc → t'.entry l = t.entry l
  content : t'.content inode = []
  contents : ∀ i, i ≠ inode → t'.content i = t.content i

theorem FileAdded.extends_ {t t' : Tree} {loc : Loc} {inode : Nat}
    (h : FileAdded t t' loc inode) : Extends t t' := by
  intro l hl
  exact h.other l (fun he => hl (he ▸ h.absent))

theorem lookup_setContent {env : Env} {t : Tree} (p : Path) (i : Nat) (new : Bytes)
    (follow : Bool) :
    lookup env (t.setContent i new) follow p p.comps = lookup env t follow p p.comps := by
  unfold lookup
  split_ifs
  · rfl
  · rfl
  · exact @walk_congr t (t.setContent i new) rfl follow _ _ _

/-- A name that is no link leads to itself. -/
theorem lookup_follow_of_no_link {env : Env} {t : Tree} {p : Path}
    (hlink : ∀ l m target, lookup env t false p p.comps = .ok (.found l, m) →
      t.entry l ≠ some (.symlink target)) :
    lookup env t true p p.comps = lookup env t false p p.comps := by
  by_cases hok : p.hasNul = false ∧ ¬ p.IsEmpty
  · obtain ⟨hnul, hempty⟩ := hok
    rw [lookup_eq hnul hempty, lookup_eq hnul hempty]
    apply walk_follow t _ _ _ _ rfl
    intro l m target hl
    exact hlink l m target (by rw [lookup_eq hnul hempty, hl])
  · unfold lookup
    by_cases hnul : p.hasNul = true
    · rw [if_pos hnul, if_pos hnul]
    · have hempty : p.IsEmpty := by
        by_contra hempty
        exact hok ⟨by simpa using hnul, hempty⟩
      rw [if_neg hnul, if_neg hnul, if_pos hempty, if_pos hempty]

/-- What `create` does if the name is no link: it makes a new file, which the name then
names, or it empties the file that the name names. -/
theorem create_of_no_link {env : Env} {t t' : Tree} {p : Path} {loc : Loc} {inode : Nat}
    (hlink : ∀ l m target, lookup env t false p p.comps = .ok (.found l, m) →
      t.entry l ≠ some (.symlink target))
    (h : create env t p = .ok (t', loc, inode)) :
    ∃ m, lookup env t' false p p.comps = .ok (.found loc, m) ∧
      (FileAdded t t' loc inode ∨
        lookup env t false p p.comps = .ok (.found loc, m) ∧ t.entry loc = some (.file inode) ∧
          t' = t.setContent inode []) := by
  have hsame := lookup_follow_of_no_link hlink
  obtain ⟨-, ⟨m, hl, hfile, rfl⟩ | ⟨d, n, m, hl, rfl, rfl, rfl⟩⟩ := create_eq_ok h
  · rw [hsame] at hl
    exact ⟨m, by rw [lookup_setContent]; exact hl, Or.inr ⟨hl, hfile, rfl⟩⟩
  · rw [hsame] at hl
    obtain ⟨hnul, hempty⟩ := lookup_ok hl
    rw [lookup_eq hnul hempty] at hl
    obtain ⟨hdir, hnone⟩ := walk_eq_absent t _ _ _ _ _ _ _ hl
    refine ⟨m, ?_, Or.inl ⟨rfl, Tree.addFile_nextInode hdir hnone, hnone,
      Tree.addFile_entry hdir hnone, fun l hl => Tree.addFile_entry_of_ne hl,
      Tree.addFile_content hdir hnone, fun i hi => Tree.addFile_content_of_ne hi⟩⟩
    rw [lookup_eq hnul hempty]
    exact walk_added (t.extends_addFile d n) false (Tree.addFile_entry hdir hnone)
      (by intro target hx; cases hx) _ _ _ _ hl

/-- The path names neither a file nor a link. -/
def FreeName (env : Env) (t : Tree) (p : Path) : Prop :=
  ∀ l m, lookup env t false p p.comps = .ok (.found l, m) → t.entry l = some .dir

/-- If neither a file nor a link has the name, then a successful `create` makes a new file. -/
theorem create_of_free {env : Env} {t t' : Tree} {p : Path} {loc : Loc} {inode : Nat}
    (hfree : FreeName env t p) (h : create env t p = .ok (t', loc, inode)) :
    FileAdded t t' loc inode ∧ ∃ m, lookup env t' false p p.comps = .ok (.found loc, m) := by
  have hlink : ∀ l m target, lookup env t false p p.comps = .ok (.found l, m) →
      t.entry l ≠ some (.symlink target) := by
    intro l m target hl hlink
    rw [hfree l m hl] at hlink
    cases hlink
  obtain ⟨m, hm, hadd | ⟨hl, hfile, -⟩⟩ := create_of_no_link hlink h
  · exact ⟨hadd, m, hm⟩
  · rw [hfree loc m hl] at hfile
    cases hfile

/-- **What a step can do**, by the state it starts in. -/
inductive CommitMove (env : Env) (c : Commit) (t : Tree) :
    CommitState → Tree → CommitState → Prop
  | ended {st : CommitState} (hinode : st.inode = none) : CommitMove env c t st t st
  | fails {st : CommitState} (e : Errno) (hst : ∀ loc, st ≠ .committed loc) :
      CommitMove env c t st t (.failed e)
  | dirs {t' : Tree} {st : CommitState} (h : DirsAdded t t') (hinode : st.inode = none)
      (hst : ∀ loc, st ≠ .committed loc) : CommitMove env c t .createDirs t' st
  | temp {t' : Tree} {loc : Loc} {inode : Nat}
      (h : create env t c.tempPath = .ok (t', loc, inode)) :
      CommitMove env c t .createTemp t' (.writing inode 0)
  | write (inode written n : Nat) (h : written < c.data.length) :
      CommitMove env c t (.writing inode written)
        (t.setContent inode (overwrite (t.content inode) written ((c.data.drop written).take n)))
        (.writing inode (written + ((c.data.drop written).take n).length))
  | flush (inode written : Nat) (h : c.data.length ≤ written) :
      CommitMove env c t (.writing inode written) t (.flushed inode)
  | rename (inode : Nat) {t' : Tree} (h : rename env t c.tempPath c.filePath = .ok t') :
      CommitMove env c t (.flushed inode) t'
        (.committed ((destination env t c.filePath).getD []))

theorem commit_step_move (env : Env) (c : Commit) (io : IoOutcome) (t : Tree)
    (st : CommitState) :
    CommitMove env c t st (c.step env io t st).1 (c.step env io t st).2 := by
  cases st with
  | committed loc => exact .ended rfl
  | failed e => exact .ended rfl
  | createDirs =>
      cases io with
      | error e => exact .fails e (by intro loc h; cases h)
      | ok n =>
          have hdirs := dirsAdded_createParents env t c.filePath
          simp only [Commit.step]
          split
          · rename_i t' h
            rw [h] at hdirs
            exact .dirs hdirs rfl (by intro loc h; cases h)
          · rename_i t' e h
            rw [h] at hdirs
            exact .dirs hdirs rfl (by intro loc h; cases h)
  | createTemp =>
      cases io with
      | error e => exact .fails e (by intro loc h; cases h)
      | ok n =>
          simp only [Commit.step]
          split
          · rename_i t' loc inode h
            exact .temp h
          · rename_i e h
            exact .fails e (by intro loc h; cases h)
  | writing inode written =>
      cases io with
      | error e => exact .fails e (by intro loc h; cases h)
      | ok n =>
          simp only [Commit.step]
          split_ifs with hlt
          · exact .write inode written n hlt
          · exact .flush inode written (by omega)
  | flushed inode =>
      cases io with
      | error e => exact .fails e (by intro loc h; cases h)
      | ok n =>
          simp only [Commit.step]
          split
          · rename_i t' h
            exact .rename inode h
          · rename_i e h
            exact .fails e (by intro loc h; cases h)

/-- `Ok` is returned by the rename only. -/
theorem CommitMove.committed {env : Env} {c : Commit} {t t' : Tree} {st : CommitState} {loc : Loc}
    (h : CommitMove env c t st t' (.committed loc)) (hne : st ≠ .committed loc) :
    ∃ inode, st = .flushed inode ∧ Posix.rename env t c.tempPath c.filePath = .ok t' ∧
      loc = (destination env t c.filePath).getD [] := by
  generalize hst' : CommitState.committed loc = st' at h
  cases h with
  | ended => exact absurd hst'.symm hne
  | rename inode h =>
      cases hst'
      exact ⟨inode, rfl, h, rfl⟩
  | dirs _ _ hno => exact absurd hst'.symm (hno loc)
  | _ => cases hst'

/-- Appending a chunk at the end of what has been written. -/
theorem overwrite_take (data : Bytes) {written : Nat} (h : written ≤ data.length) (n : Nat) :
    overwrite (data.take written) written ((data.drop written).take n)
      = data.take (written + ((data.drop written).take n).length) := by
  have hlen : (data.take written).length = written := by
    rw [List.length_take]
    omega
  have htail : (data.take written).drop (written + ((data.drop written).take n).length) = [] := by
    apply List.drop_eq_nil_of_le
    omega
  rw [overwrite, List.take_of_length_le (Nat.le_of_eq hlen), hlen, Nat.sub_self, htail,
    List.replicate_zero, List.append_nil, List.append_nil, List.take_add]
  congr 1
  rw [List.length_take, List.take_eq_take_iff]
  omega

/-! ## Temporary files -/

/-- The process's temporary file lies at `loc`, under the temporary name, and holds
`bytes`. -/
structure TempHeld (env : Env) (c : Commit) (t : Tree) (loc : Loc) (inode : Nat) (bytes : Bytes) :
    Prop where
  entry : t.entry loc = some (.file inode)
  content : t.content inode = bytes
  named : ∃ m, lookup env t false c.tempPath c.tempPath.comps = .ok (.found loc, m)

section TempHeld

variable {env : Env} {c : Commit} {t t' : Tree} {loc : Loc} {inode : Nat} {bytes : Bytes}

/-- The file is kept by everything that only adds entries. -/
theorem TempHeld.of_extends (h : TempHeld env c t loc inode bytes) (hext : Extends t t')
    (hcontent : t'.content inode = t.content inode) : TempHeld env c t' loc inode bytes where
  entry := hext.entry_eq h.entry
  content := hcontent.trans h.content
  named := by
    obtain ⟨m, hm⟩ := h.named
    obtain ⟨hnul, hempty⟩ := lookup_ok hm
    rw [lookup_eq hnul hempty] at hm
    exact ⟨m, by rw [lookup_eq hnul hempty]; exact walk_extends hext false _ _ _ _ _ hm⟩

theorem TempHeld.setContent_self (h : TempHeld env c t loc inode bytes) (new : Bytes) :
    TempHeld env c (t.setContent inode new) loc inode new where
  entry := h.entry
  content := Function.update_self _ _ _
  named := by rw [lookup_setContent]; exact h.named

end TempHeld

end UsgTftp
