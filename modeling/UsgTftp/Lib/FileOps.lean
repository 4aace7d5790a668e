import UsgTftp.Lib.FileTree

set_option autoImplicit false

/-! # Operations on file trees

The system calls `lstat`, `stat`, `realpath`, `mkdir`, `open` and `rename`, and Rust's
`create_dir_all` on top of them. Each call resolves its path in the tree it is given; those
that change the tree return the new one. For each call that can change the tree there is a
lemma that says everything a successful call may do.
-/

namespace Posix

/-! ## Changes of a tree -/

namespace Tree

/-- Add an entry to a directory that has none of that name. -/
def add (t : Tree) (d : Loc) (n : String) (e : Entry) (nextInode : Nat)
    (hdir : t.entry d = some .dir) (hnone : t.entry (d ++ [n]) = none)
    (hnext : t.nextInode ≤ nextInode) (hinode : ∀ i, e = .file i → i < nextInode) : Tree where
  entry := fun l => if l = d ++ [n] then some e else t.entry l
  content := t.content
  nextInode := nextInode
  support := (d ++ [n]) :: t.support
  root_dir := by
    rw [if_neg (by simp)]
    exact t.root_dir
  parent_dir := by
    intro l m h
    have hl : t.entry l = some .dir := by
      by_cases hm : l ++ [m] = d ++ [n]
      · rw [(List.append_inj' hm rfl).1, hdir]
      · rw [if_neg hm] at h
        exact t.parent_dir l m h
    rw [if_neg (fun he => by rw [he, hnone] at hl; cases hl)]
    exact hl
  inode_lt := by
    intro l i h
    split_ifs at h with hl
    · exact hinode i (Option.some.inj h)
    · exact Nat.lt_of_lt_of_le (t.inode_lt l i h) hnext
  mem_support := by
    intro l h
    split_ifs at h with hl
    · exact hl ▸ List.mem_cons_self
    · exact List.mem_cons_of_mem _ (t.mem_support l h)

/-- The tree of the root alone. -/
def empty : Tree where
  entry := fun l => if l = [] then some .dir else none
  content := fun _ => []
  nextInode := 0
  support := [[]]
  root_dir := rfl
  parent_dir := by
    intro l n h
    rw [if_neg (by simp)] at h
    exact absurd rfl h
  inode_lt := by
    intro l i h
    split_ifs at h
    cases h
  mem_support := by
    intro l h
    split_ifs at h with hl
    · exact hl ▸ List.mem_cons_self
    · exact absurd rfl h

def setContent (t : Tree) (i : Nat) (bytes : List UInt8) : Tree :=
  { t with content := Function.update t.content i bytes }

def addDir (t : Tree) (d : Loc) (n : String) : Tree :=
  if h : t.entry d = some .dir ∧ t.entry (d ++ [n]) = none then
    t.add d n .dir t.nextInode h.1 h.2 (Nat.le_refl _) (by intro i hi; cases hi)
  else t

/-- A new empty file, with the next inode. -/
def addFile (t : Tree) (d : Loc) (n : String) : Tree :=
  if h : t.entry d = some .dir ∧ t.entry (d ++ [n]) = none then
    (t.add d n (.file t.nextInode) (t.nextInode + 1) h.1 h.2 (Nat.le_succ _)
      (by intro i hi; cases hi; exact Nat.lt_succ_self _)).setContent t.nextInode []
  else t

/-- A new symbolic link. -/
def addLink (t : Tree) (d : Loc) (n : String) (target : Path) : Tree :=
  if h : t.entry d = some .dir ∧ t.entry (d ++ [n]) = none then
    t.add d n (.symlink target) t.nextInode h.1 h.2 (Nat.le_refl _) (by intro i hi; cases hi)
  else t

theorem addDir_entry_of_ne {t : Tree} {d l : Loc} {n : String} (h : l ≠ d ++ [n]) :
    (t.addDir d n).entry l = t.entry l := by
  unfold addDir
  split_ifs
  · exact if_neg h
  · rfl

theorem addFile_entry_of_ne {t : Tree} {d l : Loc} {n : String} (h : l ≠ d ++ [n]) :
    (t.addFile d n).entry l = t.entry l := by
  unfold addFile
  split_ifs
  · exact if_neg h
  · rfl

theorem addDir_entry {t : Tree} {d : Loc} {n : String} (hdir : t.entry d = some .dir)
    (hnone : t.entry (d ++ [n]) = none) : (t.addDir d n).entry (d ++ [n]) = some .dir := by
  rw [addDir, dif_pos ⟨hdir, hnone⟩]
  exact if_pos rfl

theorem addFile_entry {t : Tree} {d : Loc} {n : String} (hdir : t.entry d = some .dir)
    (hnone : t.entry (d ++ [n]) = none) :
    (t.addFile d n).entry (d ++ [n]) = some (.file t.nextInode) := by
  rw [addFile, dif_pos ⟨hdir, hnone⟩]
  exact if_pos rfl

theorem addDir_content (t : Tree) (d : Loc) (n : String) : (t.addDir d n).content = t.content := by
  unfold addDir
  split_ifs <;> rfl

theorem addFile_content_of_ne {t : Tree} {d : Loc} {n : String} {i : Nat} (h : i ≠ t.nextInode) :
    (t.addFile d n).content i = t.content i := by
  unfold addFile
  split_ifs
  · exact Function.update_of_ne h _ _
  · rfl

theorem addFile_content {t : Tree} {d : Loc} {n : String} (hdir : t.entry d = some .dir)
    (hnone : t.entry (d ++ [n]) = none) : (t.addFile d n).content t.nextInode = [] := by
  rw [addFile, dif_pos ⟨hdir, hnone⟩]
  exact Function.update_self _ _ _

theorem addDir_nextInode (t : Tree) (d : Loc) (n : String) :
    (t.addDir d n).nextInode = t.nextInode := by
  unfold addDir
  split_ifs <;> rfl

theorem addFile_nextInode {t : Tree} {d : Loc} {n : String} (hdir : t.entry d = some .dir)
    (hnone : t.entry (d ++ [n]) = none) : (t.addFile d n).nextInode = t.nextInode + 1 := by
  rw [addFile, dif_pos ⟨hdir, hnone⟩]
  rfl

@[simp] theorem setContent_entry (t : Tree) (i : Nat) (bytes : List UInt8) :
    (t.setContent i bytes).entry = t.entry := rfl

@[simp] theorem setContent_nextInode (t : Tree) (i : Nat) (bytes : List UInt8) :
    (t.setContent i bytes).nextInode = t.nextInode := rfl

theorem extends_addDir (t : Tree) (d : Loc) (n : String) : Extends t (t.addDir d n) := by
  intro l hl
  by_cases h : t.entry d = some .dir ∧ t.entry (d ++ [n]) = none
  · exact addDir_entry_of_ne (fun he => hl (by rw [he, h.2]))
  · rw [addDir, dif_neg h]

theorem extends_addFile (t : Tree) (d : Loc) (n : String) : Extends t (t.addFile d n) := by
  intro l hl
  by_cases h : t.entry d = some .dir ∧ t.entry (d ++ [n]) = none
  · exact addFile_entry_of_ne (fun he => hl (by rw [he, h.2]))
  · rw [addFile, dif_neg h]

/-- Move the subtree at `old` to `new`, in place of what is there. -/
def move (t : Tree) (old new : Loc) (hold : old ≠ []) (hnew : new ≠ [])
    (hout : ¬ old <+: new) (hparent : t.entry new.dropLast = some .dir) : Tree where
  entry := fun l =>
    if new <+: l then t.entry (old ++ l.drop new.length)
    else if old <+: l then none
    else t.entry l
  content := t.content
  nextInode := t.nextInode
  support := t.support ++ t.support.map fun l => new ++ l.drop old.length
  root_dir := by
    rw [if_neg (by rwa [List.prefix_nil]), if_neg (by rwa [List.prefix_nil])]
    exact t.root_dir
  parent_dir := by
    intro l n h
    by_cases hl : new <+: l
    · -- inside the moved subtree
      have hln : new <+: l ++ [n] := hl.trans (List.prefix_append _ _)
      rw [if_pos hln, List.drop_append_of_le_length hl.length_le, ← List.append_assoc] at h
      rw [if_pos hl]
      exact t.parent_dir _ _ h
    · have hold' : ¬ old <+: l := by
        intro ho
        by_cases hln : new <+: l ++ [n]
        · rcases List.prefix_concat_iff.mp (by simpa using hln) with he | he
          · exact hout (he ▸ ho.trans (List.prefix_append _ _))
          · exact hl he
        · rw [if_neg hln, if_pos (ho.trans (List.prefix_append _ _))] at h
          exact h rfl
      rw [if_neg hl, if_neg hold']
      by_cases hln : new <+: l ++ [n]
      · -- `l` is the directory the subtree is moved into
        rcases List.prefix_concat_iff.mp (by simpa using hln) with he | he
        · have : new.dropLast = l := by rw [he]; simp
          rw [← this, hparent]
        · exact absurd he hl
      · rw [if_neg hln] at h
        split_ifs at h with ho
        · exact absurd rfl h
        · exact t.parent_dir l n h
  inode_lt := by
    intro l i h
    split_ifs at h
    · exact t.inode_lt _ i h
    · exact t.inode_lt _ i h
  mem_support := by
    intro l h
    rw [List.mem_append, List.mem_map]
    split_ifs at h with hl ho
    · right
      refine ⟨_, t.mem_support _ h, ?_⟩
      rw [List.drop_left]
      obtain ⟨s, rfl⟩ := hl
      rw [List.drop_left]
    · exact absurd rfl h
    · exact Or.inl (t.mem_support l h)

end Tree

/-! ## Calls -/

/-- The resolution of a path argument, with the components the call looks at. -/
def lookup (env : Env) (t : Tree) (follow : Bool) (p : Path) (cs : List String) : WalkResult :=
  if p.hasNul then .error .einval
  else if p.IsEmpty then .error .enoent
  else walk t follow env.maxSymlinks (p.start env.cwd) cs

/-- `realpath`: the location of the object the path names. -/
def canonicalize (env : Env) (t : Tree) (p : Path) : Except Errno Loc :=
  match lookup env t true p p.fullComps with
  | .ok (.found loc, _) => .ok loc
  | .ok (.absent _ _, _) => .error .enoent
  | .error e => .error e

/-- `stat`. -/
def metadata (env : Env) (t : Tree) (p : Path) : Except Errno Entry :=
  (canonicalize env t p).bind fun loc =>
    match t.entry loc with
    | some e => .ok e
    | none => .error .enoent

/-- `lstat`. -/
def symlinkMetadata (env : Env) (t : Tree) (p : Path) : Except Errno Entry :=
  match lookup env t false p p.fullComps with
  | .ok (.found loc, _) =>
      match t.entry loc with
      | some e => .ok e
      | none => .error .enoent
  | .ok (.absent _ _, _) => .error .enoent
  | .error e => .error e

def isDir (env : Env) (t : Tree) (p : Path) : Bool := metadata env t p = .ok .dir

def pathExists (env : Env) (t : Tree) (p : Path) : Bool := (metadata env t p).isOk

/-- `open` for reading: the location of the object that is read. -/
def openRead (env : Env) (t : Tree) (p : Path) : Except Errno Loc := canonicalize env t p

/-- `mkdir`, which does not follow a link in the last component. -/
def mkdir (env : Env) (t : Tree) (p : Path) : Except Errno Tree :=
  match lookup env t false p p.comps with
  | .ok (.found _, _) => .error .eexist
  | .ok (.absent d n, _) => .ok (t.addDir d n)
  | .error e => .error e

/-- `open` for writing, which creates the file or cuts it to length zero: the new tree with
the location and the inode of the file. -/
def create (env : Env) (t : Tree) (p : Path) : Except Errno (Tree × Loc × Nat) :=
  match lookup env t true p p.comps with
  | .error e => .error e
  | .ok (target, _) =>
      if p.trailingSlash then .error .eisdir
      else
        match target with
        | .found loc =>
            match t.entry loc with
            | some (.file i) => .ok (t.setContent i [], loc, i)
            | _ => .error .eisdir
        | .absent d n => .ok (t.addFile d n, d ++ [n], t.nextInode)

/-- A path whose last component names an entry. -/
def lastNormal (p : Path) : Bool :=
  match p.comps.getLast? with
  | some c => c ≠ "." ∧ c ≠ ".."
  | none => false

/-- No entry lies below `l`. -/
def emptyDir (t : Tree) (l : Loc) : Bool :=
  t.support.all fun k => ¬ l <+: k ∨ k = l ∨ t.entry k = none

/-- May the object at `old` take the place of the one at `new`? -/
def replaces (t : Tree) (old new : Loc) : Except Errno Unit :=
  match t.entry old, t.entry new with
  | some .dir, some .dir => if emptyDir t new then .ok () else .error .enotempty
  | some .dir, some _ => .error .enotdir
  | some _, some .dir => .error .eisdir
  | _, _ => .ok ()

/-- Both locations hold the same object. -/
def sameObject (t : Tree) (old new : Loc) : Bool :=
  old = new ||
    match t.entry old, t.entry new with
    | some (.file i), some (.file j) => i = j
    | _, _ => false

/-- The move itself, once both locations are known. -/
def renameAt (t : Tree) (old new : Loc) : Except Errno Tree :=
  if h : old ≠ [] ∧ new ≠ [] ∧ ¬ old <+: new ∧ t.entry new.dropLast = some .dir then
    .ok (t.move old new h.1 h.2.1 h.2.2.1 h.2.2.2)
  else .error .einval

/-- `rename`, which follows no link in the last components. Renaming a name to another name of
the same file does nothing. -/
def rename (env : Env) (t : Tree) (p q : Path) : Except Errno Tree :=
  if lastNormal p = false ∨ lastNormal q = false then .error .ebusy
  else
    match lookup env t false p p.comps with
    | .error e => .error e
    | .ok (.absent _ _, _) => .error .enoent
    | .ok (.found old, _) =>
        if (p.trailingSlash ∨ q.trailingSlash) ∧ t.entry old ≠ some .dir then .error .enotdir
        else
          match lookup env t false q q.comps with
          | .error e => .error e
          | .ok (.absent d n, _) => renameAt t old (d ++ [n])
          | .ok (.found new, _) =>
              if sameObject t old new then .ok t
              else (replaces t old new).bind fun _ => renameAt t old new

/-- `create_dir_all` on a path and its parents, nearest first. -/
def createDirAll (env : Env) (t : Tree) : List Path → Tree × Except Errno Unit
  | [] => (t, .error .other)
  | p :: parents =>
      if p.IsEmpty then (t, .ok ())
      else
        match mkdir env t p with
        | .ok t' => (t', .ok ())
        | .error .enoent =>
            match createDirAll env t parents with
            | (t', .ok ()) =>
                match mkdir env t' p with
                | .ok t'' => (t'', .ok ())
                | .error e => if isDir env t' p then (t', .ok ()) else (t', .error e)
            | (t', .error e) => (t', .error e)
        | .error e => if isDir env t p then (t, .ok ()) else (t, .error e)

/-! ## What the calls do -/

section Calls

variable {env : Env} {t : Tree} {p : Path}

theorem lookup_eq {follow : Bool} {cs : List String} (hnul : p.hasNul = false)
    (hempty : ¬ p.IsEmpty) :
    lookup env t follow p cs = walk t follow env.maxSymlinks (p.start env.cwd) cs := by
  rw [lookup, hnul, if_neg Bool.false_ne_true, if_neg hempty]

theorem lookup_ok {follow : Bool} {cs : List String} {r : Target × Nat}
    (h : lookup env t follow p cs = .ok r) : p.hasNul = false ∧ ¬ p.IsEmpty := by
  unfold lookup at h
  split_ifs at h with hnul hempty
  exact ⟨by simpa using hnul, hempty⟩

theorem canonicalize_eq_ok {loc : Loc} :
    canonicalize env t p = .ok loc ↔
      ∃ n, lookup env t true p p.fullComps = .ok (.found loc, n) := by
  unfold canonicalize
  constructor
  · intro h
    split at h
    · rename_i loc' n hl
      cases h
      exact ⟨n, hl⟩
    · cases h
    · cases h
  · rintro ⟨n, hn⟩
    rw [hn]

theorem metadata_of_canonicalize {loc : Loc} {e : Entry} (h : canonicalize env t p = .ok loc)
    (he : t.entry loc = some e) : metadata env t p = .ok e := by
  rw [metadata, h, Except.bind]
  simp only [he]

theorem fullComps_of_noSlash (h : p.trailingSlash = false) : p.fullComps = p.comps := by
  rw [Path.fullComps, h, if_neg Bool.false_ne_true, List.append_nil]

theorem isDir_iff : isDir env t p = true ↔
    ∃ loc, canonicalize env t p = .ok loc ∧ t.entry loc = some .dir := by
  unfold isDir metadata
  rw [decide_eq_true_iff]
  cases canonicalize env t p with
  | error e => simp [Except.bind]
  | ok loc =>
      simp only [Except.bind, Except.ok.injEq, exists_eq_left']
      cases t.entry loc <;> simp

/-- **What `mkdir` does**: it adds one directory, at the place its path lacks. -/
theorem mkdir_eq_ok {t' : Tree} : mkdir env t p = .ok t' ↔
    ∃ d n m, lookup env t false p p.comps = .ok (.absent d n, m) ∧ t' = t.addDir d n := by
  unfold mkdir
  constructor
  · intro h
    split at h
    · cases h
    · rename_i d n m hl
      cases h
      exact ⟨d, n, m, hl, rfl⟩
    · cases h
  · rintro ⟨d, n, m, hl, rfl⟩
    rw [hl]

/-- **What `create` does**: it empties a file that exists, or adds one at the place its path
lacks. -/
theorem create_eq_ok {t' : Tree} {loc : Loc} {i : Nat}
    (h : create env t p = .ok (t', loc, i)) : p.trailingSlash = false ∧
    ((∃ m, lookup env t true p p.comps = .ok (.found loc, m) ∧ t.entry loc = some (.file i) ∧
        t' = t.setContent i []) ∨
      ∃ d n m, lookup env t true p p.comps = .ok (.absent d n, m) ∧ loc = d ++ [n] ∧
        t' = t.addFile d n ∧ i = t.nextInode) := by
  unfold create at h
  split at h
  · cases h
  · rename_i target m hl
    split_ifs at h with hslash
    refine ⟨by simpa using hslash, ?_⟩
    split at h
    · rename_i loc'
      split at h
      · rename_i j hentry
        cases h
        exact Or.inl ⟨m, hl, hentry, rfl⟩
      · cases h
    · rename_i d n
      cases h
      exact Or.inr ⟨d, n, m, hl, rfl, rfl, rfl⟩

/-- The three outcomes of one turn of `create_dir_all`. -/
theorem createDirAll_cons (hempty : ¬ p.IsEmpty) (ps : List Path) :
    (∃ t', mkdir env t p = .ok t' ∧ createDirAll env t (p :: ps) = (t', .ok ())) ∨
    (∃ e, mkdir env t p = .error e ∧ e ≠ .enoent ∧
      createDirAll env t (p :: ps) = (t, if isDir env t p then .ok () else .error e)) ∨
    (mkdir env t p = .error .enoent ∧
      createDirAll env t (p :: ps) =
        match createDirAll env t ps with
        | (t', .ok ()) =>
            match mkdir env t' p with
            | .ok t'' => (t'', .ok ())
            | .error e => (t', if isDir env t' p then .ok () else .error e)
        | (t', .error e) => (t', .error e)) := by
  rw [createDirAll, if_neg hempty]
  cases hm : mkdir env t p with
  | ok t' => exact Or.inl ⟨t', rfl, rfl⟩
  | error e =>
      by_cases he : e = .enoent
      · subst he
        refine Or.inr (Or.inr ⟨rfl, ?_⟩)
        simp only
        split
        · split
          · rfl
          · split_ifs <;> rfl
        · rfl
      · refine Or.inr (Or.inl ⟨e, rfl, he, ?_⟩)
        simp only
        split_ifs <;> rfl

/-- `create_dir_all` stops at a path that cannot be made and is no directory, unless only its
parent is missing. -/
theorem createDirAll_fails (hempty : ¬ p.IsEmpty) (hdir : isDir env t p = false) {e : Errno}
    (hmkdir : mkdir env t p = .error e) {ps : List Path}
    (hps : e = .enoent → ∃ e', createDirAll env t ps = (t, .error e')) :
    ∃ e', createDirAll env t (p :: ps) = (t, .error e') := by
  rcases createDirAll_cons hempty ps with ⟨t', h, -⟩ | ⟨e', -, -, h'⟩ | ⟨h, h'⟩
  · rw [hmkdir] at h
    cases h
  · rw [h', hdir]
    exact ⟨e', rfl⟩
  · rw [hmkdir] at h
    obtain ⟨e', hrest⟩ := hps (Except.error.inj h)
    exact ⟨e', by rw [h', hrest]⟩

/-- **Invariants of `create_dir_all`.** What each `mkdir` keeps, the whole call keeps. -/
theorem createDirAll_invariant {inv : Tree → Prop} {pre post : List Path}
    (hmkdir : ∀ p ∈ pre, ∀ t t', inv t → mkdir env t p = .ok t' → inv t')
    (hpost : ∀ t, inv t → inv (createDirAll env t post).1) :
    ∀ t, inv t → inv (createDirAll env t (pre ++ post)).1 := by
  induction pre with
  | nil => exact hpost
  | cons p pre ih =>
      intro t ht
      have hp := hmkdir p List.mem_cons_self
      have hrest := ih (fun q hq => hmkdir q (List.mem_cons_of_mem _ hq)) t ht
      rw [List.cons_append]
      by_cases hempty : p.IsEmpty
      · rw [createDirAll, if_pos hempty]
        exact ht
      · rcases createDirAll_cons hempty (pre ++ post) with ⟨t', hm, h⟩ | ⟨e, -, -, h⟩ | ⟨-, h⟩
        · rw [h]
          exact hp t t' ht hm
        · rw [h]
          exact ht
        · -- the parents are made first, then the directory is tried again
          rw [h]
          split
          · rename_i t' heq
            rw [heq] at hrest
            split
            · rename_i t'' hm
              exact hp t' t'' hrest hm
            · exact hrest
          · rename_i t' e heq
            rw [heq] at hrest
            exact hrest

end Calls

/-! ## Resolving what exists -/

/-- Dots at the end of a path lead nowhere else. -/
theorem walk_dots {t : Tree} {links : Nat} {cur : Loc} {xs dots : List String} {loc : Loc} {n : Nat}
    (hdots : ∀ c ∈ dots, c = ".")
    (h : walk t true links cur (xs ++ dots) = .ok (.found loc, n)) :
    walk t true links cur xs = .ok (.found loc, n) := by
  induction dots using List.reverseRecOn with
  | nil => rwa [List.append_nil] at h
  | append_singleton dots c ih =>
      have hc : c = "." := hdots c (by simp)
      subst hc
      rw [← List.append_assoc] at h
      obtain ⟨loc', n', hwalk, hdir, hlast⟩ := walk_prefix (List.cons_ne_nil _ _) h
      rw [walk_dot hdir, walk_nil] at hlast
      cases hlast
      exact ih (fun c hc => hdots c (List.mem_append_left _ hc)) hwalk

/-- What a path names is found without the dots and slashes at its end. -/
theorem walk_of_canonicalize {env : Env} {t : Tree} {p : Path} {loc : Loc}
    (h : canonicalize env t p = .ok loc) :
    ¬ p.IsEmpty ∧ ∃ n, walk t true env.maxSymlinks (p.start env.cwd) p.comps
      = .ok (.found loc, n) := by
  obtain ⟨n, hn⟩ := canonicalize_eq_ok.mp h
  obtain ⟨hnul, hempty⟩ := lookup_ok hn
  rw [lookup_eq hnul hempty, Path.fullComps] at hn
  refine ⟨hempty, n, walk_dots ?_ hn⟩
  intro c hc
  split_ifs at hc
  · exact List.mem_singleton.mp hc
  · cases hc

/-- A path that names something names a link or that thing when its last link is not
followed. -/
theorem walk_nofollow_found (t : Tree) :
    ∀ (links : Nat) (cur : Loc) (xs : List String) (loc : Loc) (n : Nat),
      walk t true links cur xs = .ok (.found loc, n) →
      ∃ loc' n', walk t false links cur xs = .ok (.found loc', n') := by
  intro links cur xs
  induction links, cur, xs using walk_induction t with
  | nil links cur => exact fun _ _ _ => ⟨cur, links, walk_nil _ _ _ _⟩
  | notDir links cur c rest hdir =>
      intro loc n h
      rw [walk_notDir hdir] at h
      cases h
  | dot links cur rest hdir ih =>
      intro loc n h
      rw [walk_dot hdir] at h ⊢
      exact ih loc n h
  | dotdot links cur rest hdir ih =>
      intro loc n h
      rw [walk_dotdot hdir] at h ⊢
      exact ih loc n h
  | absent links cur c rest hdir hc he =>
      intro loc n h
      rw [walk_absent hdir hc he] at h
      split_ifs at h
      cases h
  | plain links cur c rest e hdir hc he hplain ih =>
      intro loc n h
      rw [walk_plain hdir hc he hplain] at h ⊢
      exact ih loc n h
  | link links cur c rest target hdir hc he ih =>
      intro loc n h
      rw [walk_link hdir hc he] at h ⊢
      by_cases hrest : rest = []
      · -- the walk that does not follow stops at the link itself
        rw [if_pos ⟨hrest, rfl⟩]
        exact ⟨_, _, rfl⟩
      · rw [if_neg (fun h => hrest h.1)] at h
        rw [if_neg (fun h => hrest h.1)]
        split_ifs at h ⊢
        cases links with
        | zero => cases h
        | succ k => exact ih k rfl loc n h

/-- What a walk finds is there. -/
theorem walk_found_entry (t : Tree) (follow : Bool) :
    ∀ (links : Nat) (cur : Loc) (xs : List String) (loc : Loc) (n : Nat),
      (xs = [] → t.entry cur ≠ none) → walk t follow links cur xs = .ok (.found loc, n) →
      t.entry loc ≠ none := by
  have hsome : ∀ {l : Loc} {e : Entry}, t.entry l = some e → t.entry l ≠ none := by
    intro l e he
    rw [he]
    exact Option.some_ne_none e
  intro links cur xs
  induction links, cur, xs using walk_induction t with
  | nil links cur =>
      intro loc n hcur h
      rw [walk_nil] at h
      cases h
      exact hcur rfl
  | notDir links cur c rest hdir =>
      intro loc n _ h
      rw [walk_notDir hdir] at h
      cases h
  | dot links cur rest hdir ih =>
      intro loc n _ h
      rw [walk_dot hdir] at h
      exact ih loc n (fun _ => hsome hdir) h
  | dotdot links cur rest hdir ih =>
      intro loc n _ h
      rw [walk_dotdot hdir] at h
      refine ih loc n (fun _ => ?_) h
      induction cur using List.reverseRecOn with
      | nil => exact hsome t.root_dir
      | append_singleton init last _ =>
          rw [List.dropLast_concat]
          exact hsome (t.parent_dir init last (hsome hdir))
  | absent links cur c rest hdir hc he =>
      intro loc n _ h
      rw [walk_absent hdir hc he] at h
      split_ifs at h
      cases h
  | plain links cur c rest e hdir hc he hplain ih =>
      intro loc n _ h
      rw [walk_plain hdir hc he hplain] at h
      exact ih loc n (fun _ => hsome he) h
  | link links cur c rest target hdir hc he ih =>
      intro loc n _ h
      rw [walk_link hdir hc he] at h
      split_ifs at h
      · cases h
        exact hsome he
      · cases links with
        | zero => cases h
        | succ m =>
            refine ih m rfl loc n (fun _ => ?_) h
            unfold Path.start
            split_ifs
            · exact hsome t.root_dir
            · exact hsome hdir

theorem lookup_found_entry {env : Env} {t : Tree} {p : Path} {follow : Bool} {loc : Loc} {n : Nat}
    (h : lookup env t follow p p.comps = .ok (.found loc, n)) : t.entry loc ≠ none := by
  obtain ⟨hnul, hempty⟩ := lookup_ok h
  rw [lookup_eq hnul hempty] at h
  refine walk_found_entry t follow _ _ _ loc n (fun hnil => ?_) h
  -- only the path of the root has no components
  have habs : p.absolute = true := by
    by_contra habs
    exact hempty ⟨by simpa using habs, hnil⟩
  rw [Path.start, if_pos habs, t.root_dir]
  exact Option.some_ne_none _

/-- `create_dir_all` leaves a directory that exists as it is. -/
theorem createDirAll_of_dir {env : Env} {t : Tree} {p : Path} {ps : List Path} {loc : Loc} {n : Nat}
    (hslash : p.trailingSlash = false)
    (hwalk : lookup env t true p p.comps = .ok (.found loc, n)) (hdir : t.entry loc = some .dir) :
    createDirAll env t (p :: ps) = (t, .ok ()) := by
  obtain ⟨hnul, hempty⟩ := lookup_ok hwalk
  have hmkdir : mkdir env t p = .error .eexist := by
    rw [lookup_eq hnul hempty] at hwalk
    obtain ⟨loc', n', h⟩ := walk_nofollow_found t _ _ _ _ _ hwalk
    rw [mkdir, lookup_eq hnul hempty, h]
  have hisDir : isDir env t p = true := by
    rw [isDir_iff]
    exact ⟨loc, canonicalize_eq_ok.mpr ⟨n, by rw [fullComps_of_noSlash hslash, hwalk]⟩, hdir⟩
  rw [createDirAll, if_neg hempty, hmkdir]
  simp only
  rw [hisDir, if_pos rfl]

end Posix
