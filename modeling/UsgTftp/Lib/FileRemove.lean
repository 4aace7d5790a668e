import UsgTftp.Lib.FileMoves

set_option autoImplicit false

/-! # Removing files and directories

The system calls `unlink` and `rmdir`, and Rust's `remove_dir_all` on top of them. For each
there is a lemma that says what the tree lacks afterwards.
-/

namespace Posix

/-- The object at `l` is another one, or it holds other data. -/
def Changed (t t' : Tree) (l : Loc) : Prop :=
  t'.entry l ≠ t.entry l ∨ ∃ i, t.entry l = some (.file i) ∧ t'.content i ≠ t.content i

theorem not_changed (t : Tree) (l : Loc) : ¬ Changed t t l := by
  rintro (h | ⟨i, -, h⟩)
  · exact h rfl
  · exact h rfl

/-! ## Changes of a tree -/

namespace Tree

/-- The tree without the entries that are gone. What lies below one of them is gone too. -/
def prune (t : Tree) (gone : Loc → Bool) (hroot : gone [] = false)
    (hbelow : ∀ l n, gone l = true → gone (l ++ [n]) = true) : Tree where
  entry := fun l => if gone l then none else t.entry l
  content := t.content
  nextInode := t.nextInode
  support := t.support
  root_dir := by
    rw [hroot, if_neg Bool.false_ne_true]
    exact t.root_dir
  parent_dir := by
    intro l n h
    split_ifs at h with hgone
    · exact absurd rfl h
    · rw [if_neg (fun hl => hgone (hbelow l n hl))]
      exact t.parent_dir l n h
  inode_lt := by
    intro l i h
    split_ifs at h
    exact t.inode_lt l i h
  mem_support := by
    intro l h
    split_ifs at h
    · exact absurd rfl h
    · exact t.mem_support l h

/-- Remove the object at `l` with all below it. The root stays. -/
def remove (t : Tree) (l : Loc) : Tree :=
  if h : l ≠ [] then
    t.prune (fun k => l <+: k) (by simpa using h)
      (by intro k n hk; simp only [decide_eq_true_eq] at hk ⊢; exact hk.trans ⟨[n], rfl⟩)
  else t

/-- Remove all that lies below the directory `d`. -/
def clear (t : Tree) (d : Loc) : Tree :=
  t.prune (fun k => d <+: k ∧ k ≠ d) (by simp) <| by
    intro k n hk
    simp only [decide_eq_true_eq] at hk ⊢
    refine ⟨hk.1.trans ⟨[n], rfl⟩, ?_⟩
    rintro rfl
    have := hk.1.length_le
    rw [List.length_append, List.length_singleton] at this
    omega

theorem remove_entry {t : Tree} {l : Loc} (h : l ≠ []) (k : Loc) :
    (t.remove l).entry k = if l <+: k then none else t.entry k := by
  rw [remove, dif_pos h]
  simp only [prune, decide_eq_true_eq]

theorem clear_entry (t : Tree) (d k : Loc) :
    (t.clear d).entry k = if d <+: k ∧ k ≠ d then none else t.entry k := by
  simp only [clear, prune, decide_eq_true_eq]

@[simp] theorem remove_content (t : Tree) (l : Loc) : (t.remove l).content = t.content := by
  unfold remove
  split_ifs <;> rfl

@[simp] theorem clear_content (t : Tree) (d : Loc) : (t.clear d).content = t.content := rfl

@[simp] theorem remove_support (t : Tree) (l : Loc) : (t.remove l).support = t.support := by
  unfold remove
  split_ifs <;> rfl

/-- Removing what is no directory removes one entry. -/
theorem remove_entry_of_not_dir {t : Tree} {l : Loc} {e : Entry} (h : t.entry l = some e)
    (hdir : e ≠ .dir) (k : Loc) : (t.remove l).entry k = if k = l then none else t.entry k := by
  have hne : l ≠ [] := by
    rintro rfl
    rw [t.root_dir] at h
    exact hdir (Option.some.inj h).symm
  rw [remove_entry hne]
  by_cases hk : k = l
  · rw [if_pos hk, if_pos (hk ▸ List.prefix_rfl)]
  · rw [if_neg hk]
    split_ifs with hp
    · exact (Tree.entry_below_file h hdir hp (Ne.symm hk)).symm
    · rfl

end Tree

/-! ## Calls -/

/-- `unlink`, which follows no link in the last component. -/
def removeFile (env : Env) (t : Tree) (p : Path) : Except Errno Tree :=
  match lookup env t false p p.comps with
  | .error e => .error e
  | .ok (.absent _ _, _) => .error .enoent
  | .ok (.found l, _) =>
      if t.entry l = some .dir then .error .eisdir
      else if p.trailingSlash then .error .enotdir
      else .ok (t.remove l)

/-- `rmdir`, for a directory without entries. -/
def rmdir (env : Env) (t : Tree) (p : Path) : Except Errno Tree :=
  match lookup env t false p p.comps with
  | .error e => .error e
  | .ok (.absent _ _, _) => .error .enoent
  | .ok (.found l, _) =>
      if t.entry l ≠ some .dir then .error .enotdir
      else if l = [] then .error .ebusy
      else if p.comps.getLast? = some "." then .error .einval
      else if emptyDir t l = false ∨ p.comps.getLast? = some ".." then .error .enotempty
      else .ok (t.remove l)

/-- `remove_dir_all`: the entries below the directory are removed, links without being followed,
and then the directory. A path that names a link removes the link. -/
def removeDirAll (env : Env) (t : Tree) (p : Path) : Tree × Except Errno Unit :=
  match lookup env t false p p.fullComps with
  | .error e => (t, .error e)
  | .ok (.absent _ _, _) => (t, .error .enoent)
  | .ok (.found l, _) =>
      match t.entry l with
      | some .dir =>
          match rmdir env (t.clear l) p with
          | .ok t' => (t', .ok ())
          | .error e => (t.clear l, .error e)
      | some (.symlink _) =>
          match removeFile env t p with
          | .ok t' => (t', .ok ())
          | .error e => (t, .error e)
      | _ => (t, .error .enotdir)

/-! ## What the calls do -/

section Calls

variable {env : Env} {t t' : Tree} {p : Path}

theorem removeFile_eq_ok : removeFile env t p = .ok t' ↔
    p.trailingSlash = false ∧ ∃ l m, lookup env t false p p.comps = .ok (.found l, m) ∧
      t.entry l ≠ some .dir ∧ t' = t.remove l := by
  unfold removeFile
  constructor
  · intro h
    split at h
    · cases h
    · cases h
    · rename_i l m hl
      split_ifs at h with hdir hslash
      cases h
      exact ⟨by simpa using hslash, l, m, hl, hdir, rfl⟩
  · rintro ⟨hslash, l, m, hl, hdir, rfl⟩
    rw [hl]
    simp only
    rw [if_neg hdir, hslash, if_neg Bool.false_ne_true]

theorem emptyDir_iff {l : Loc} :
    emptyDir t l = true ↔ ∀ k, l <+: k → k ≠ l → t.entry k = none := by
  unfold emptyDir
  rw [List.all_eq_true]
  simp only [decide_eq_true_eq]
  constructor
  · intro h k hp hne
    by_contra hsome
    rcases h k (t.mem_support k hsome) with hk | hk | hk
    · exact hk hp
    · exact hne hk
    · exact hsome hk
  · intro h k _
    by_cases hp : l <+: k
    · by_cases hne : k = l
      · exact Or.inr (Or.inl hne)
      · exact Or.inr (Or.inr (h k hp hne))
    · exact Or.inl hp

/-- What `rmdir` removes: one directory without entries. -/
theorem rmdir_eq_ok (h : rmdir env t p = .ok t') :
    ∃ l m, lookup env t false p p.comps = .ok (.found l, m) ∧ t.entry l = some .dir ∧
      ∀ k, t'.entry k = if k = l then none else t.entry k := by
  unfold rmdir at h
  split at h
  · cases h
  · cases h
  · rename_i l m hl
    split_ifs at h with hdir hroot hdot hempty
    cases h
    rw [not_or, Bool.not_eq_false] at hempty
    refine ⟨l, m, hl, not_not.mp hdir, fun k => ?_⟩
    rw [Tree.remove_entry hroot]
    by_cases hk : k = l
    · rw [if_pos hk, if_pos (hk ▸ List.prefix_rfl)]
    · rw [if_neg hk]
      split_ifs with hp
      · exact (emptyDir_iff.mp hempty.1 k hp hk).symm
      · rfl

theorem rmdir_content (h : rmdir env t p = .ok t') : t'.content = t.content := by
  unfold rmdir at h
  split at h
  · cases h
  · cases h
  · split_ifs at h
    cases h
    exact Tree.remove_content _ _

theorem lookup_congr (hentry : t'.entry = t.entry) (follow : Bool) (cs : List String) :
    lookup env t' follow p cs = lookup env t follow p cs := by
  unfold lookup
  rw [walk_congr hentry]

/-- Whether `rmdir` succeeds depends on the entries alone. -/
theorem rmdir_isOk_congr (hentry : t'.entry = t.entry) :
    (rmdir env t' p).isOk = (rmdir env t p).isOk := by
  have hempty : ∀ l, emptyDir t' l = emptyDir t l := by
    intro l
    rw [Bool.eq_iff_iff, emptyDir_iff, emptyDir_iff, hentry]
  unfold rmdir
  rw [lookup_congr hentry]
  split
  · rfl
  · rfl
  · rename_i l m _
    rw [hentry, hempty l]
    split_ifs <;> rfl

/-- The tree has all entries of a part of it. -/
theorem extends_clear (t : Tree) (d : Loc) : Extends (t.clear d) t := by
  intro l hl
  rw [Tree.clear_entry] at hl ⊢
  split_ifs at hl ⊢
  · exact absurd rfl hl
  · rfl

/-- The directory that `rmdir` removes last is the one that was emptied. -/
theorem lookup_clear {l k : Loc} {m n : Nat}
    (hl : lookup env t false p p.fullComps = .ok (.found l, m))
    (hk : lookup env (t.clear l) false p p.comps = .ok (.found k, n))
    (hdir : (t.clear l).entry k = some .dir) : k = l := by
  have hdir' : t.entry k = some .dir := (extends_clear t l).entry_eq hdir
  obtain ⟨hnul, hempty⟩ := lookup_ok hk
  rw [lookup_eq hnul hempty] at hk hl
  have hfound := walk_extends (extends_clear t l) false _ _ _ _ _ hk
  by_cases hslash : p.trailingSlash = true
  · -- the slash asks for a directory, and there is one
    have hfollow : walk t true env.maxSymlinks (p.start env.cwd) p.comps = .ok (.found k, n) := by
      apply walk_follow t _ _ _ _ hfound
      intro loc i target hloc hlink
      cases hloc
      rw [hdir'] at hlink
      cases hlink
    rw [Path.fullComps, if_pos hslash, walk_append t false (List.cons_ne_nil _ _), hfollow, andThen,
      walk_dot hdir', walk_nil] at hl
    cases hl
    rfl
  · rw [fullComps_of_noSlash (by simpa using hslash), hfound] at hl
    cases hl
    rfl

/-- **What `remove_dir_all` does to a directory**: all below it is gone, and so is the directory
itself unless the system refuses to remove it. -/
theorem removeDirAll_dir {l : Loc} {m : Nat}
    (hl : lookup env t false p p.fullComps = .ok (.found l, m)) (hdir : t.entry l = some .dir) :
    (removeDirAll env t p).1.content = t.content ∧
    ∀ k, (removeDirAll env t p).1.entry k =
      if l <+: k ∧ (k = l → (rmdir env (t.clear l) p).isOk = true) then none else t.entry k := by
  unfold removeDirAll
  rw [hl]
  simp only [hdir]
  cases hr : rmdir env (t.clear l) p with
  | error e =>
      refine ⟨rfl, fun k => ?_⟩
      show (t.clear l).entry k = _
      simp only [Tree.clear_entry, Except.isOk, Except.toBool, Bool.false_eq_true, ne_eq,
        imp_false]
  | ok t' =>
      obtain ⟨k', n, hk', hdir', hentry⟩ := rmdir_eq_ok hr
      have heq : k' = l := lookup_clear hl hk' hdir'
      subst heq
      refine ⟨(rmdir_content hr).trans (Tree.clear_content t k'), fun k => ?_⟩
      show t'.entry k = _
      simp only [hentry, Tree.clear_entry, Except.isOk, Except.toBool, implies_true, and_true]
      by_cases hk : k = k'
      · rw [if_pos hk, if_pos (hk ▸ List.prefix_rfl)]
      · rw [if_neg hk]
        by_cases hp : k' <+: k
        · rw [if_pos ⟨hp, hk⟩, if_pos hp]
        · rw [if_neg (fun h => hp h.1), if_neg hp]

end Calls

end Posix
