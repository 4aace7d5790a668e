import UsgTftp.Lib.FileMoves

set_option autoImplicit false

/-! # Calls that fail for no reason the tree shows

A disk may be full and a device may fail. Any call can give any error then, and it changes nothing.
`createDirAllFaulty` is Rust's `create_dir_all` where each of its calls may fail so. Its `mkdir`s
that succeed are those of the tree, so what each of them keeps is kept by the whole
(`createDirAllFaulty_invariant`). In particular what a path names is the same after some of the
directories on the way to it were made: it names nothing (`mkdir_parent`).
-/

namespace Posix

/-- A call that fails with `fault`, if there is one. -/
def faulty {α : Type} (fault : Option Errno) (result : Except Errno α) : Except Errno α :=
  match fault with
  | some e => .error e
  | none => result

@[simp] theorem faulty_none {α : Type} (result : Except Errno α) : faulty none result = result :=
  rfl

theorem faulty_eq_ok {α : Type} {fault : Option Errno} {result : Except Errno α} {a : α} :
    faulty fault result = .ok a ↔ fault = none ∧ result = .ok a := by
  cases fault with
  | none => exact ⟨fun h => ⟨rfl, h⟩, fun h => h.2⟩
  | some e => exact iff_of_false (by intro h; cases h) (by rintro ⟨h, -⟩; cases h)

/-! ## Making directories -/

/-- The faults of `create_dir_all` at one path: `mkdir` and the `stat` after it, and both of them
again once the parents are made. -/
structure DirFaults where
  mkdir : Option Errno
  stat : Bool
  mkdirAgain : Option Errno
  statAgain : Bool

def DirFaults.none : DirFaults := ⟨.none, false, .none, false⟩

/-- `create_dir_all` on a path and its parents, nearest first. -/
def createDirAllFaulty (faults : Path → DirFaults) (env : Env) (t : Tree) :
    List Path → Tree × Except Errno Unit
  | [] => (t, .error .other)
  | p :: parents =>
      if p.IsEmpty then (t, .ok ())
      else
        match faulty (faults p).mkdir (mkdir env t p) with
        | .ok t' => (t', .ok ())
        | .error .enoent =>
            match createDirAllFaulty faults env t parents with
            | (t', .ok ()) =>
                match faulty (faults p).mkdirAgain (mkdir env t' p) with
                | .ok t'' => (t'', .ok ())
                | .error e =>
                    if isDir env t' p ∧ (faults p).statAgain = false then (t', .ok ())
                    else (t', .error e)
            | (t', .error e) => (t', .error e)
        | .error e =>
            if isDir env t p ∧ (faults p).stat = false then (t, .ok ()) else (t, .error e)

/-- Without faults it is `create_dir_all`. -/
theorem createDirAllFaulty_none (env : Env) (t : Tree) (ps : List Path) :
    createDirAllFaulty (fun _ => .none) env t ps = createDirAll env t ps := by
  induction ps with
  | nil => rfl
  | cons p ps ih =>
      generalize hfaulty : createDirAllFaulty (fun _ => .none) env t (p :: ps) = made
      rw [createDirAllFaulty, ih] at hfaulty
      simp only [DirFaults.none, faulty_none, and_true] at hfaulty
      exact hfaulty.symm

/-- **Invariants of `create_dir_all` with faults.** What each `mkdir` keeps, the whole call
keeps. -/
theorem createDirAllFaulty_invariant {env : Env} {inv : Tree → Prop} (faults : Path → DirFaults)
    {ps : List Path} (hmkdir : ∀ p ∈ ps, ∀ t t', inv t → mkdir env t p = .ok t' → inv t') :
    ∀ t, inv t → inv (createDirAllFaulty faults env t ps).1 := by
  induction ps with
  | nil => exact fun t ht => ht
  | cons p ps ih =>
      intro t ht
      have hp := hmkdir p List.mem_cons_self
      have hrest := ih (fun q hq => hmkdir q (List.mem_cons_of_mem _ hq)) t ht
      by_cases hempty : p.IsEmpty
      · rw [createDirAllFaulty, if_pos hempty]
        exact ht
      · rw [createDirAllFaulty, if_neg hempty]
        split
        · rename_i t' hm
          exact hp t t' ht (faulty_eq_ok.mp hm).2
        · -- the parents are made first, then the directory is tried again
          generalize createDirAllFaulty faults env t ps = made at hrest
          obtain ⟨t', result⟩ := made
          cases result with
          | error e => exact hrest
          | ok u =>
              simp only
              split
              · rename_i t'' hm
                exact hp t' t'' hrest (faulty_eq_ok.mp hm).2
              · split_ifs <;> exact hrest
        · split_ifs <;> exact ht

/-! ## The new directory and the paths through it -/

/-- What a walk lacks is the last of its components. -/
theorem getLast_of_absent (t : Tree) :
    ∀ (links : Nat) (cur : Loc) (xs : List String) (d : Loc) (n : String) (m : Nat),
      walk t false links cur xs = .ok (.absent d n, m) → xs.getLast? = some n := by
  intro links cur xs
  induction links, cur, xs using walk_induction t with
  | nil links cur =>
      intro d n m h
      rw [walk_nil] at h
      cases h
  | notDir links cur c rest hdir =>
      intro d n m h
      rw [walk_notDir hdir] at h
      cases h
  | dot links cur rest hdir ih =>
      intro d n m h
      rw [walk_dot hdir] at h
      rw [List.getLast?_cons, ih d n m h]
      rfl
  | dotdot links cur rest hdir ih =>
      intro d n m h
      rw [walk_dotdot hdir] at h
      rw [List.getLast?_cons, ih d n m h]
      rfl
  | absent links cur c rest hdir hc he =>
      intro d n m h
      rw [walk_absent hdir hc he] at h
      split_ifs at h with hrest
      cases h
      rw [hrest]
      rfl
  | plain links cur c rest e hdir hc he hplain ih =>
      intro d n m h
      rw [walk_plain hdir hc he hplain] at h
      rw [List.getLast?_cons, ih d n m h]
      rfl
  | link links cur c rest target hdir hc he ih =>
      intro d n m h
      rw [walk_link hdir hc he] at h
      split_ifs at h with hlast hempty
      · cases h
      · cases links with
        | zero => cases h
        | succ k =>
            -- the components of the link come before those that are left
            have hlast' := ih k rfl d n m h
            have hrest : rest ≠ [] := fun hrest => hlast ⟨hrest, rfl⟩
            obtain ⟨init, last, rfl⟩ := List.eq_nil_or_concat rest |>.resolve_left hrest
            simp only [List.concat_eq_append] at hlast' ⊢
            rw [← List.append_assoc, List.getLast?_concat] at hlast'
            rw [← hlast', ← List.cons_append, List.getLast?_concat]

section Below

variable {env : Env} {t t' : Tree} {p q : Path} {tail : List String}

/-- A path through what is missing names nothing. -/
theorem contentOf_below_missing (hstart : p.start env.cwd = q.start env.cwd)
    (hcomps : p.comps = q.comps ++ tail) (htail : tail ≠ [])
    (hmissing : ∀ l k, walk t true env.maxSymlinks (q.start env.cwd) q.comps
      ≠ .ok (.found l, k)) : contentOf env t p = none := by
  unfold contentOf
  cases hc : canonicalize env t p with
  | error e => rfl
  | ok loc =>
      exfalso
      obtain ⟨k, hk⟩ := canonicalize_eq_ok.mp hc
      obtain ⟨hnul, hempty⟩ := lookup_ok hk
      rw [lookup_eq hnul hempty, hstart, Path.fullComps, hcomps, List.append_assoc] at hk
      obtain ⟨l, k', hw, -, -⟩ := walk_prefix (by simp [htail]) hk
      exact hmissing l k' hw

/-- A path through an empty directory names nothing, unless it leads back. -/
theorem contentOf_below_empty (hstart : p.start env.cwd = q.start env.cwd)
    (hcomps : p.comps = q.comps ++ tail) (htail : tail ≠ []) (hnormal : ∀ c ∈ tail, Normal c)
    {l : Loc} {k : Nat}
    (hfound : walk t true env.maxSymlinks (q.start env.cwd) q.comps = .ok (.found l, k))
    (hdir : t.entry l = some .dir) (hempty : ∀ c, t.entry (l ++ [c]) = none) :
    contentOf env t p = none := by
  unfold contentOf
  cases hc : canonicalize env t p with
  | error e => rfl
  | ok loc =>
      exfalso
      obtain ⟨m, hm⟩ := canonicalize_eq_ok.mp hc
      obtain ⟨hnul, hpath⟩ := lookup_ok hm
      rw [lookup_eq hnul hpath, hstart, Path.fullComps, hcomps, List.append_assoc,
        walk_append t true (by simp [htail]), hfound, andThen] at hm
      obtain ⟨c, cs, rfl⟩ := List.exists_cons_of_ne_nil htail
      generalize (if p.trailingSlash = true then ["."] else []) = dots at hm
      rw [List.cons_append, walk_absent hdir (hnormal c List.mem_cons_self) (hempty c)] at hm
      split_ifs at hm
      cases hm

/-- **A directory on the way to a path**, when it is made, changes nothing about what the path
names: there was nothing, and there is nothing yet. -/
theorem mkdir_parent (habs : q.absolute = p.absolute) (hcomps : p.comps = q.comps ++ tail)
    (htail : tail ≠ []) (hnormal : ∀ c ∈ tail, Normal c) (h : mkdir env t q = .ok t') :
    contentOf env t p = none ∧ contentOf env t' p = none := by
  have hstart : p.start env.cwd = q.start env.cwd := by rw [Path.start, Path.start, habs]
  obtain ⟨d, n, m, hl, rfl⟩ := mkdir_eq_ok.mp h
  obtain ⟨hnul, hempty⟩ := lookup_ok hl
  rw [lookup_eq hnul hempty] at hl
  obtain ⟨hdir, hnone⟩ := walk_eq_absent t false _ _ _ _ _ _ hl
  have hfollow := walk_follow t _ _ _ _ hl (by intro l k target hl'; cases hl')
  have hadded := Tree.addDir_entry hdir hnone
  refine ⟨contentOf_below_missing hstart hcomps htail ?_,
    contentOf_below_empty hstart hcomps htail hnormal
      (walk_added (Tree.extends_addDir t d n) true hadded (by intro target he; cases he)
        _ _ _ _ hfollow) hadded fun c => ?_⟩
  · intro l k hw
    rw [hfollow] at hw
    cases hw
  · rw [Tree.addDir_entry_of_ne (by simp)]
    exact Tree.entry_below_none hnone (List.prefix_append _ _)

end Below

end Posix
