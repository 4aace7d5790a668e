import UsgTftp.Lib.FileMoves

set_option autoImplicit false

/-! # Whole files

`std::fs::read` and `std::fs::write`. A file that was written is read as its bytes
(`readFile_writeFile`), wherever the links of its path lead.
-/

namespace Posix

variable {env : Env} {t : Tree} {p : Path}

/-- `std::fs::read`; a directory can be opened, but not read. -/
def readFile (env : Env) (t : Tree) (p : Path) : Except Errno (List UInt8) :=
  match openRead env t p with
  | .error e => .error e
  | .ok loc =>
      match t.entry loc with
      | some (.file i) => .ok (t.content i)
      | _ => .error .eisdir

/-- `std::fs::write`, with space for the bytes. -/
def writeFile (env : Env) (t : Tree) (p : Path) (bytes : List UInt8) :
    Tree × Except Errno Unit :=
  match create env t p with
  | .error e => (t, .error e)
  | .ok (t', _, i) => (t'.setContent i bytes, .ok ())

/-- The path can be opened for writing. -/
def Writable (env : Env) (t : Tree) (p : Path) : Prop := ∃ r, create env t p = .ok r

instance : Decidable (Writable env t p) :=
  match h : create env t p with
  | .ok r => .isTrue ⟨r, h⟩
  | .error e => .isFalse (by rintro ⟨r, hr⟩; rw [h] at hr; cases hr)

theorem walk_setContent (t : Tree) (i : Nat) (bytes : List UInt8) (follow : Bool) (links : Nat)
    (cur : Loc) (xs : List String) :
    walk (t.setContent i bytes) follow links cur xs = walk t follow links cur xs :=
  @walk_congr t (t.setContent i bytes) rfl follow links cur xs

theorem readFile_of_walk {loc : Loc} {i m : Nat} (hslash : p.trailingSlash = false)
    (hnul : p.hasNul = false) (hempty : ¬ p.IsEmpty)
    (hwalk : walk t true env.maxSymlinks (p.start env.cwd) p.comps = .ok (.found loc, m))
    (he : t.entry loc = some (.file i)) : readFile env t p = .ok (t.content i) := by
  have hopen : openRead env t p = .ok loc := by
    rw [openRead, canonicalize_eq_ok]
    exact ⟨m, by rw [fullComps_of_noSlash hslash, lookup_eq hnul hempty, hwalk]⟩
  rw [readFile, hopen]
  simp only [he]

theorem readFile_eq_ok {bytes : List UInt8} (h : readFile env t p = .ok bytes) :
    ∃ loc i, canonicalize env t p = .ok loc ∧ t.entry loc = some (.file i) ∧
      t.content i = bytes := by
  unfold readFile openRead at h
  split at h
  · cases h
  · rename_i loc hloc
    split at h
    · rename_i i he
      cases h
      exact ⟨loc, i, hloc, he, rfl⟩
    · cases h

/-- A file that is read is still read when only entries were added. -/
theorem readFile_extends {t' : Tree} (hext : Extends t t') (hcontent : t'.content = t.content)
    {bytes : List UInt8} (h : readFile env t p = .ok bytes) : readFile env t' p = .ok bytes := by
  obtain ⟨loc, i, hloc, he, rfl⟩ := readFile_eq_ok h
  obtain ⟨m, hm⟩ := canonicalize_eq_ok.mp hloc
  obtain ⟨hnul, hempty⟩ := lookup_ok hm
  rw [lookup_eq hnul hempty] at hm
  have hloc' : canonicalize env t' p = .ok loc := by
    rw [canonicalize_eq_ok]
    exact ⟨m, by rw [lookup_eq hnul hempty]; exact walk_extends hext true _ _ _ _ _ hm⟩
  rw [readFile, openRead, hloc']
  simp only [hext.entry_eq he, hcontent]

/-- `create_dir_all` only adds directories. -/
theorem createDirAll_extends (env : Env) (ps : List Path) (t : Tree) :
    Extends t (createDirAll env t ps).1 ∧ (createDirAll env t ps).1.content = t.content := by
  have hmkdir : ∀ p ∈ ps, ∀ t₁ t₂, (Extends t t₁ ∧ t₁.content = t.content) →
      mkdir env t₁ p = .ok t₂ → Extends t t₂ ∧ t₂.content = t.content := by
    intro p _ t₁ t₂ h hm
    obtain ⟨d, n, -, -, rfl⟩ := mkdir_eq_ok.mp hm
    refine ⟨fun l hl => ?_, (Tree.addDir_content t₁ d n).trans h.2⟩
    have hl₁ := h.1 l hl
    rw [Tree.extends_addDir t₁ d n l (by rwa [hl₁]), hl₁]
  have hnil : ∀ t₁, (Extends t t₁ ∧ t₁.content = t.content) →
      Extends t (createDirAll env t₁ []).1 ∧ (createDirAll env t₁ []).1.content = t.content :=
    fun _ h => h
  have h := createDirAll_invariant hmkdir hnil t ⟨fun _ _ => rfl, rfl⟩
  rwa [List.append_nil] at h

/-- A file that can be read can be written. -/
theorem writable_of_readFile {bytes : List UInt8} (h : readFile env t p = .ok bytes) :
    Writable env t p := by
  obtain ⟨loc, i, hloc, he, -⟩ := readFile_eq_ok h
  obtain ⟨m, hm⟩ := canonicalize_eq_ok.mp hloc
  have hslash : p.trailingSlash = false := by
    -- a slash at the end asks for a directory
    by_contra hslash
    obtain ⟨hnul, hempty⟩ := lookup_ok hm
    rw [lookup_eq hnul hempty, Path.fullComps, if_pos (by simpa using hslash)] at hm
    obtain ⟨d, k, -, hdir, hw⟩ := walk_prefix (List.cons_ne_nil _ _) hm
    rw [walk_dot hdir, walk_nil] at hw
    cases hw
    rw [hdir] at he
    cases he
  rw [fullComps_of_noSlash hslash] at hm
  refine ⟨(t.setContent i [], loc, i), ?_⟩
  rw [create, hm]
  simp only [hslash, Bool.false_eq_true, if_false, he]

/-- **What was written is read.** -/
theorem readFile_writeFile (h : Writable env t p) (bytes : List UInt8) :
    (writeFile env t p bytes).2 = .ok () ∧
      readFile env (writeFile env t p bytes).1 p = .ok bytes := by
  obtain ⟨⟨t', loc, i⟩, hcreate⟩ := h
  obtain ⟨hslash, hcases⟩ := create_eq_ok hcreate
  have hplain : ∀ target, Entry.file i ≠ .symlink target := by
    intro target hx
    cases hx
  have hread : readFile env (t'.setContent i bytes) p
      = .ok ((t'.setContent i bytes).content i) := by
    rcases hcases with ⟨m, hl, he, rfl⟩ | ⟨d, n, m, hl, rfl, rfl, rfl⟩
    -- a file that is there: the path leads where it led
    · obtain ⟨hnul, hempty⟩ := lookup_ok hl
      rw [lookup_eq hnul hempty] at hl
      refine readFile_of_walk (m := m) hslash hnul hempty ?_ he
      rw [walk_setContent, walk_setContent]
      exact hl
    -- a new one: the path leads to the entry that was missing
    · obtain ⟨hnul, hempty⟩ := lookup_ok hl
      rw [lookup_eq hnul hempty] at hl
      obtain ⟨hdir, hnone⟩ := walk_eq_absent t _ _ _ _ _ _ _ hl
      have hadd := Tree.addFile_entry hdir hnone
      refine readFile_of_walk (m := m) hslash hnul hempty ?_ hadd
      rw [walk_setContent]
      exact walk_added (t.extends_addFile d n) true hadd hplain _ _ _ _ hl
  have hcontent : (t'.setContent i bytes).content i = bytes := Function.update_self _ _ _
  rw [writeFile, hcreate]
  rw [hcontent] at hread
  exact ⟨rfl, hread⟩

end Posix
