import UsgTftp.Lib.FileRemove
import UsgTftp.Lib.NamesIn

set_option autoImplicit false

/-! # What a change of the tree spares

A program that holds an open file under a name of its own relies on what the others do to the tree
in between. It is enough that they make no entry of that name (`SparesName`) and leave the file and
its content alone (`SparesFile`); that the entry stays is not needed.

The file has what each call spares, by the names in its path: a call that follows no link at the
end of its path works on an entry with the path's last name (`lookup_last`).
-/

namespace Posix

/-! ## Relying on others -/

/-- No entry of the name `x` is new. -/
def SparesName (t t' : Tree) (x : String) : Prop :=
  ∀ d e, t'.entry (d ++ [x]) = some e → t.entry (d ++ [x]) = some e

/-- The file `i` gets no new entry, and its content stays. -/
structure SparesFile (t t' : Tree) (i : Nat) : Prop where
  next : t.nextInode ≤ t'.nextInode
  entry : ∀ l, t'.entry l = some (.file i) → t.entry l = some (.file i)
  content : t'.content i = t.content i

/-- Some entries are gone, and nothing else is changed. -/
structure Pruned (t t' : Tree) : Prop where
  nextInode : t'.nextInode = t.nextInode
  entry : ∀ l e, t'.entry l = some e → t.entry l = some e
  content : t'.content = t.content

section Relations

variable {t t' t'' : Tree} {x : String} {i : Nat}

theorem SparesName.refl (t : Tree) (x : String) : SparesName t t x := fun _ _ h => h

theorem SparesName.trans (h : SparesName t t' x) (h' : SparesName t' t'' x) :
    SparesName t t'' x :=
  fun d e he => h d e (h' d e he)

theorem SparesName.absent (h : SparesName t t' x) {d : Loc} (hd : t.entry (d ++ [x]) = none) :
    t'.entry (d ++ [x]) = none := by
  cases he : t'.entry (d ++ [x]) with
  | none => rfl
  | some e =>
      rw [h d e he] at hd
      cases hd

theorem SparesFile.refl (t : Tree) (i : Nat) : SparesFile t t i := ⟨Nat.le_refl _, fun _ h => h, rfl⟩

theorem SparesFile.trans (h : SparesFile t t' i) (h' : SparesFile t' t'' i) : SparesFile t t'' i :=
  ⟨Nat.le_trans h.next h'.next, fun l he => h.entry l (h'.entry l he),
    h'.content.trans h.content⟩

theorem Pruned.refl (t : Tree) : Pruned t t := ⟨rfl, fun _ _ h => h, rfl⟩

theorem Pruned.trans (h : Pruned t t') (h' : Pruned t' t'') : Pruned t t'' :=
  ⟨h'.nextInode.trans h.nextInode, fun l e he => h.entry l e (h'.entry l e he),
    h'.content.trans h.content⟩

theorem Pruned.sparesName (h : Pruned t t') (x : String) : SparesName t t' x :=
  fun _ _ he => h.entry _ _ he

theorem Pruned.sparesFile (h : Pruned t t') (i : Nat) : SparesFile t t' i :=
  ⟨h.nextInode.ge, fun _ he => h.entry _ _ he, by rw [h.content]⟩

end Relations

/-! ## Removing -/

section Remove

variable {env : Env} {t t' : Tree} {p : Path}

theorem pruned_prune (t : Tree) (gone : Loc → Bool) (hroot : gone [] = false)
    (hbelow : ∀ l n, gone l = true → gone (l ++ [n]) = true) :
    Pruned t (t.prune gone hroot hbelow) := by
  refine ⟨rfl, fun l e he => ?_, rfl⟩
  replace he : (if gone l then none else t.entry l) = some e := he
  split_ifs at he
  exact he

theorem pruned_remove (t : Tree) (l : Loc) : Pruned t (t.remove l) := by
  unfold Tree.remove
  split_ifs
  · apply pruned_prune
  · apply Pruned.refl

theorem pruned_clear (t : Tree) (d : Loc) : Pruned t (t.clear d) := by
  apply pruned_prune

theorem pruned_removeFile (h : removeFile env t p = .ok t') : Pruned t t' := by
  obtain ⟨-, l, m, -, -, rfl⟩ := removeFile_eq_ok.mp h
  apply pruned_remove

theorem pruned_rmdir (h : rmdir env t p = .ok t') : Pruned t t' := by
  unfold rmdir at h
  split at h
  · cases h
  · cases h
  · split_ifs at h
    cases h
    apply pruned_remove

theorem pruned_removeDirAll (env : Env) (t : Tree) (p : Path) :
    Pruned t (removeDirAll env t p).1 := by
  unfold removeDirAll
  split
  · apply Pruned.refl
  · apply Pruned.refl
  · rename_i l m hl
    split
    -- a directory is emptied and then removed
    · split
      · rename_i t' hr
        exact (pruned_clear t l).trans (pruned_rmdir hr)
      · apply pruned_clear
    · split
      · rename_i t' hr
        exact pruned_removeFile hr
      · apply Pruned.refl
    · apply Pruned.refl

end Remove

/-! ## The last name of a path -/

section LastName

variable {env : Env} {t t' : Tree} {p q : Path} {x : String}

/-- A walk that follows no link at its end ends at an entry of the last name. -/
theorem walk_last {links : Nat} {cur : Loc} {xs : List String} {r : Target} {m : Nat}
    (hx : Normal x) (h : walk t false links cur (xs ++ [x]) = .ok (r, m)) :
    ∃ d, t.entry d = some .dir ∧
      r = if t.entry (d ++ [x]) = none then .absent d x else .found (d ++ [x]) := by
  obtain ⟨d, k, -, hdir, hw⟩ := walk_prefix (List.cons_ne_nil _ _) h
  rw [walk_single k hdir hx] at hw
  refine ⟨d, hdir, ?_⟩
  split_ifs at hw ⊢
  · cases hw
    rfl
  · cases hw
    rfl

theorem lookup_last (hp : p.comps.getLast? = some x) (hx : Normal x) {r : Target} {m : Nat}
    (h : lookup env t false p p.comps = .ok (r, m)) : ∃ d, r.loc = d ++ [x] := by
  obtain ⟨xs, hxs⟩ := List.getLast?_eq_some_iff.mp hp
  obtain ⟨hnul, hempty⟩ := lookup_ok h
  rw [lookup_eq hnul hempty, hxs] at h
  obtain ⟨d, -, rfl⟩ := walk_last hx h
  refine ⟨d, ?_⟩
  split_ifs
  · rfl
  · rfl

theorem destination_last (hp : p.comps.getLast? = some x) (hx : Normal x) {loc : Loc}
    (h : destination env t p = some loc) : ∃ d, loc = d ++ [x] := by
  unfold destination at h
  split at h
  · rename_i l m hl
    cases h
    exact lookup_last hp hx hl
  · rename_i d n m hl
    cases h
    exact lookup_last hp hx hl
  · cases h

/-- `mkdir` makes an entry of its path's last name. -/
theorem mkdir_last (h : mkdir env t p = .ok t') :
    ∃ d n, p.comps.getLast? = some n ∧ t.entry d = some .dir ∧ t.entry (d ++ [n]) = none ∧
      t' = t.addDir d n := by
  obtain ⟨d, n, m, hl, rfl⟩ := mkdir_eq_ok.mp h
  obtain ⟨hnul, hempty⟩ := lookup_ok hl
  rw [lookup_eq hnul hempty] at hl
  obtain ⟨hdir, hnone⟩ := walk_eq_absent t _ _ _ _ _ _ _ hl
  refine ⟨d, n, ?_, hdir, hnone, rfl⟩
  cases hlast : p.comps.getLast? with
  | none =>
      rw [List.getLast?_eq_none_iff.mp hlast, walk_nil] at hl
      cases hl
  | some x =>
      obtain ⟨xs, hxs⟩ := List.getLast?_eq_some_iff.mp hlast
      rw [hxs] at hl
      by_cases hx : Normal x
      · obtain ⟨d', -, hr⟩ := walk_last hx hl
        split_ifs at hr
        cases hr
        rfl
      · -- a dot at the end names something, or nothing at all
        obtain ⟨d', k, -, hdir', hw⟩ := walk_prefix (List.cons_ne_nil _ _) hl
        rcases not_and_or.mp hx with hx | hx
        · rw [not_not.mp hx, walk_dot hdir', walk_nil] at hw
          cases hw
        · rw [not_not.mp hx, walk_dotdot hdir', walk_nil] at hw
          cases hw

theorem addDir_entry_eq {d : Loc} {n : String} (hdir : t.entry d = some .dir)
    (hnone : t.entry (d ++ [n]) = none) {l : Loc} {e : Entry}
    (h : (t.addDir d n).entry l = some e) : t.entry l = some e ∨ l = d ++ [n] ∧ e = .dir := by
  by_cases hl : l = d ++ [n]
  · rw [hl, Tree.addDir_entry hdir hnone] at h
    exact Or.inr ⟨hl, (Option.some.inj h).symm⟩
  · rw [Tree.addDir_entry_of_ne hl] at h
    exact Or.inl h

/-- **`create_dir_all` spares** the names that are not in its paths. -/
theorem createDirAll_sparesName {ps : List Path} (x : String) (hps : ∀ p ∈ ps, x ∉ p.comps) (t : Tree) :
    SparesName t (createDirAll env t ps).1 x := by
  have hmkdir : ∀ p ∈ ps, ∀ t₁ t₂, SparesName t t₁ x → mkdir env t₁ p = .ok t₂ →
      SparesName t t₂ x := by
    intro p hp t₁ t₂ h hm
    obtain ⟨d, n, hn, hdir, hnone, rfl⟩ := mkdir_last hm
    intro d' e he
    rcases addDir_entry_eq hdir hnone he with he | ⟨hl, -⟩
    · exact h d' e he
    · have hnx : x = n := by
        have := congrArg List.getLast? hl
        rw [List.getLast?_concat, List.getLast?_concat] at this
        exact Option.some.inj this
      exact absurd (hnx ▸ List.mem_of_getLast? hn) (hps p hp)
  have hnil : ∀ t', SparesName t t' x → SparesName t (createDirAll env t' []).1 x := fun _ h => h
  have h := createDirAll_invariant hmkdir hnil t (SparesName.refl t x)
  rwa [List.append_nil] at h

/-- **`create_dir_all` spares** every file. -/
theorem createDirAll_sparesFile (ps : List Path) (i : Nat) (t : Tree) :
    SparesFile t (createDirAll env t ps).1 i := by
  have hmkdir : ∀ p ∈ ps, ∀ t₁ t₂, SparesFile t t₁ i → mkdir env t₁ p = .ok t₂ →
      SparesFile t t₂ i := by
    intro p _ t₁ t₂ h hm
    obtain ⟨d, n, -, hdir, hnone, rfl⟩ := mkdir_last hm
    refine h.trans ⟨(Tree.addDir_nextInode t₁ d n).ge, fun l he => ?_, by rw [Tree.addDir_content]⟩
    rcases addDir_entry_eq hdir hnone he with he | ⟨-, he⟩
    · exact he
    · cases he
  have hnil : ∀ t', SparesFile t t' i → SparesFile t (createDirAll env t' []).1 i := fun _ h => h
  have h := createDirAll_invariant hmkdir hnil t (SparesFile.refl t i)
  rwa [List.append_nil] at h

end LastName

/-! ## Moving, adding and writing a file -/

section Files

variable {t t' : Tree} {x : String} {i j : Nat}

theorem FileMoved.sparesName {old new d : Loc} {y : String} (h : FileMoved t t' old new i)
    (hnew : new = d ++ [y]) (hne : x ≠ y) : SparesName t t' x := by
  intro d' e he
  rw [h.entry] at he
  split_ifs at he with hl
  · rw [hnew] at hl
    exact absurd (List.append_inj_right' hl rfl) (by simpa using hne)
  · exact he

theorem FileMoved.sparesFile {old new : Loc} (h : FileMoved t t' old new i) (hne : j ≠ i) :
    SparesFile t t' j := by
  refine ⟨h.nextInode.ge, fun l he => ?_, by rw [h.content]⟩
  rw [h.entry] at he
  split_ifs at he
  · cases he
    exact absurd rfl hne
  · exact he

theorem sparesName_setContent (t : Tree) (i : Nat) (bytes : List UInt8) (x : String) :
    SparesName t (t.setContent i bytes) x := fun _ _ h => h

theorem sparesFile_setContent (t : Tree) (bytes : List UInt8) (hne : j ≠ i) :
    SparesFile t (t.setContent i bytes) j :=
  ⟨Nat.le_refl _, fun _ h => h, Function.update_of_ne hne _ _⟩

end Files

end Posix
