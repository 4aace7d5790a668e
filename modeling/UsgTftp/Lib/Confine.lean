import UsgTftp.Lib.FileOps

set_option autoImplicit false

/-! # Creating below a directory

What `create_dir_all` and `create` can touch when the path leads to a directory `D` and its
remaining names are not there yet. As long as the first of them is absent below `D`, there
is no link further down, and every object that is created lies below `D`
(`createDirAll_grown`, `create_grown`). If it is a link that leads nowhere, then
`create_dir_all` fails and changes nothing (`createDirAll_through_link`).
-/

namespace Posix

/-- The trees differ only below `R`: in their entries, and in the contents of files with a
name there. -/
structure Confined (R : Loc) (t t' : Tree) : Prop where
  entry : ∀ l, t'.entry l ≠ t.entry l → R <+: l
  content : ∀ i, t'.content i ≠ t.content i → ∃ l, R <+: l ∧ t'.entry l = some (.file i)

theorem Confined.refl (R : Loc) (t : Tree) : Confined R t t :=
  ⟨fun _ h => absurd rfl h, fun _ h => absurd rfl h⟩

/-- Where no link lies on the way, a walk reaches what its names say or stops at the first
name that is not there. -/
theorem walk_below {t : Tree} {follow : Bool} {links : Nat} :
    ∀ (ys : List String) (cur : Loc), (∀ c ∈ ys, Normal c) →
      (∀ i target, t.entry (cur ++ ys.take (i + 1)) ≠ some (.symlink target)) →
      ∀ r, walk t follow links cur ys = .ok r →
        r = (.found (cur ++ ys), links) ∨
        ∃ i d c, i < ys.length ∧ r = (.absent d c, links) ∧ d ++ [c] = cur ++ ys.take (i + 1) := by
  intro ys
  induction ys with
  | nil =>
      intro cur _ _ r h
      rw [walk_nil] at h
      cases h
      exact Or.inl (by rw [List.append_nil])
  | cons c ys ih =>
      intro cur hnormal hlink r h
      have hc := hnormal c List.mem_cons_self
      by_cases hdir : t.entry cur = some .dir
      · cases he : t.entry (cur ++ [c]) with
        | none =>
            rw [walk_absent hdir hc he] at h
            split_ifs at h
            cases h
            exact Or.inr ⟨0, cur, c, Nat.succ_pos _, rfl, rfl⟩
        | some e =>
            have hplain : ∀ target, e ≠ .symlink target := by
              rintro target rfl
              exact hlink 0 target he
            rw [walk_plain hdir hc he hplain] at h
            have hstep : ∀ zs, cur ++ [c] ++ zs = cur ++ c :: zs := fun zs => by simp
            have hlink' : ∀ i target,
                t.entry (cur ++ [c] ++ ys.take (i + 1)) ≠ some (.symlink target) := by
              intro i target
              rw [hstep, ← List.take_succ_cons]
              exact hlink (i + 1) target
            rcases ih (cur ++ [c]) (fun x hx => hnormal x (List.mem_cons_of_mem _ hx)) hlink' r h
              with h | ⟨i, d, x, hi, hr, hd⟩
            · left
              rw [h, hstep]
            · right
              refine ⟨i + 1, d, x, Nat.succ_lt_succ hi, hr, ?_⟩
              rw [hd, hstep, List.take_succ_cons]
      · rw [walk_notDir hdir] at h
        cases h

/-! ## Growth below a directory -/

/-- `t'` is `t` with directories added at and below the name `n` of the directory `D`. -/
structure Grown (D : Loc) (n : String) (t t' : Tree) : Prop where
  entry : ∀ l, t'.entry l = t.entry l ∨ D ++ [n] <+: l ∧ t'.entry l = some .dir
  content : t'.content = t.content

section Grown

variable {env : Env} {t t' : Tree} {D : Loc} {n : String} {start : Loc} {links : Nat}
  {K ys : List String}

theorem Grown.refl (D : Loc) (n : String) (t : Tree) : Grown D n t t :=
  ⟨fun _ => Or.inl rfl, rfl⟩

theorem Grown.extends (h : Grown D n t t') (hnone : t.entry (D ++ [n]) = none) :
    Extends t t' := by
  intro l hl
  rcases h.entry l with he | ⟨hp, -⟩
  · exact he
  · exact absurd (Tree.entry_below_none hnone hp) hl

theorem Grown.noLink (h : Grown D n t t') (hnone : t.entry (D ++ [n]) = none) {l : Loc}
    (hp : D ++ [n] <+: l) : t'.entry l = none ∨ t'.entry l = some .dir := by
  rcases h.entry l with he | ⟨-, he⟩
  · exact Or.inl (he.trans (Tree.entry_below_none hnone hp))
  · exact Or.inr he

theorem Grown.confined (h : Grown D n t t') {R : Loc} (hR : R <+: D) : Confined R t t' where
  entry := by
    intro l hl
    rcases h.entry l with he | ⟨hp, -⟩
    · exact absurd he hl
    · exact (hR.trans (List.prefix_append _ _)).trans hp
  content := fun i hi => absurd (by rw [h.content]) hi

theorem Grown.addDir (h : Grown D n t t') {d : Loc} {c : String} (hp : D ++ [n] <+: d ++ [c])
    (hdir : t'.entry d = some .dir) (hnone : t'.entry (d ++ [c]) = none) :
    Grown D n t (t'.addDir d c) where
  entry := by
    intro l
    by_cases hl : l = d ++ [c]
    · right
      rw [hl]
      exact ⟨hp, Tree.addDir_entry hdir hnone⟩
    · rw [Tree.addDir_entry_of_ne hl]
      exact h.entry l
  content := by rw [Tree.addDir_content, h.content]

/-- The names below `D` are reached, or the first one that is missing lies below `D`. -/
theorem Grown.walk (h : Grown D n t t') (hnone : t.entry (D ++ [n]) = none)
    (hD : walk t true env.maxSymlinks start K = .ok (.found D, links))
    (hnormal : ∀ c ∈ n :: ys, Normal c) {follow : Bool} {r : Target × Nat}
    (hw : walk t' follow env.maxSymlinks start (K ++ n :: ys) = .ok r) :
    (∃ m, r = (.found (D ++ n :: ys), m)) ∨
      ∃ d c m, r = (.absent d c, m) ∧ D ++ [n] <+: d ++ [c] := by
  rw [walk_append t' follow (List.cons_ne_nil _ _),
    walk_extends (h.extends hnone) true _ _ _ _ _ hD, andThen] at hw
  have hbelow : ∀ i, D ++ [n] <+: D ++ (n :: ys).take (i + 1) := by
    intro i
    rw [List.take_succ_cons]
    exact ⟨ys.take i, by simp⟩
  have hlink : ∀ i target, t'.entry (D ++ (n :: ys).take (i + 1)) ≠ some (.symlink target) := by
    intro i target he
    rcases h.noLink hnone (hbelow i) with hl | hl
    · rw [hl] at he; cases he
    · rw [hl] at he; cases he
  rcases walk_below (n :: ys) D hnormal hlink r hw with hr | ⟨i, d, c, -, hr, hd⟩
  · exact Or.inl ⟨links, hr⟩
  · exact Or.inr ⟨d, c, links, hr, hd ▸ hbelow i⟩

/-- A path whose components are those of `D` and some of the names below it. -/
structure PathBelow (env : Env) (start : Loc) (K ys : List String) (q : Path) : Prop where
  start : q.start env.cwd = start
  comps : ∃ zs, zs <+: ys ∧ zs ≠ [] ∧ q.comps = K ++ zs

/-- **`create_dir_all` grows the tree below `D` only.** The paths of `pre` lead below `D`,
and `q` to a directory that exists. -/
theorem createDirAll_grown (pre post : List Path) {q : Path} {E : Loc} {m : Nat}
    (hnone : t.entry (D ++ [n]) = none)
    (hD : walk t true env.maxSymlinks start K = .ok (.found D, links))
    (hnormal : ∀ c ∈ n :: ys, Normal c)
    (hpre : ∀ x ∈ pre, PathBelow env start K (n :: ys) x) (hslash : q.trailingSlash = false)
    (hq : lookup env t true q q.comps = .ok (.found E, m)) (hE : t.entry E = some .dir) :
    Grown D n t (createDirAll env t (pre ++ q :: post)).1 := by
  -- below `D` every `mkdir` adds a directory, and `q` exists, so nothing above it is made
  refine createDirAll_invariant ?_ ?_ t (Grown.refl D n t)
  · intro x hx t' t'' h hm
    obtain ⟨d, c, k, hl, rfl⟩ := mkdir_eq_ok.mp hm
    obtain ⟨hnul, hempty⟩ := lookup_ok hl
    obtain ⟨zs, hzs, hne, hcomps⟩ := (hpre x hx).comps
    obtain ⟨z, zs', rfl⟩ := List.exists_cons_of_ne_nil hne
    obtain ⟨rfl, hzs'⟩ := List.cons_prefix_cons.mp hzs
    rw [lookup_eq hnul hempty, (hpre x hx).start, hcomps] at hl
    have hsub : ∀ c ∈ z :: zs', Normal c := fun c hc => hnormal c (hzs.subset hc)
    obtain ⟨hdir, hnone'⟩ := walk_eq_absent t' _ _ _ _ _ _ _ hl
    rcases h.walk hnone hD hsub hl with ⟨_, hr⟩ | ⟨d', c', _, hr, hp⟩
    · cases hr
    · cases hr
      exact h.addDir hp hdir hnone'
  · intro t' h
    obtain ⟨hnul, hempty⟩ := lookup_ok hq
    have hq' : lookup env t' true q q.comps = .ok (.found E, m) := by
      rw [lookup_eq hnul hempty] at hq ⊢
      exact walk_extends (h.extends hnone) true _ _ _ _ _ hq
    rw [createDirAll_of_dir hslash hq' ((h.extends hnone).entry_eq hE)]
    exact h

/-- **`create` then adds a file below `D`.** -/
theorem create_grown {R : Loc} (hR : R <+: D) (h : Grown D n t t')
    (hnone : t.entry (D ++ [n]) = none)
    (hD : walk t true env.maxSymlinks start K = .ok (.found D, links))
    (hnormal : ∀ c ∈ n :: ys, Normal c) {p : Path} (hstart : p.start env.cwd = start)
    (hcomps : p.comps = K ++ n :: ys) {t'' : Tree} {loc : Loc} {i : Nat}
    (hc : create env t' p = .ok (t'', loc, i)) : R <+: loc ∧ Confined R t t'' := by
  have hwalk : ∀ {r : Target × Nat}, lookup env t' true p p.comps = .ok r →
      walk t' true env.maxSymlinks start (K ++ n :: ys) = .ok r := by
    intro r hl
    obtain ⟨hnul, hempty⟩ := lookup_ok hl
    rwa [lookup_eq hnul hempty, hstart, hcomps] at hl
  obtain ⟨-, ⟨m, hl, he, rfl⟩ | ⟨d, c, m, hl, rfl, rfl, rfl⟩⟩ := create_eq_ok hc
  · -- a file cannot be there: everything below `D` is absent or a directory
    rcases h.walk hnone hD hnormal (hwalk hl) with ⟨_, hr⟩ | ⟨_, _, _, hr, -⟩
    · cases hr
      have hp : D ++ [n] <+: D ++ n :: ys := ⟨ys, by simp⟩
      rcases h.noLink hnone hp with hx | hx
      · rw [hx] at he; cases he
      · rw [hx] at he; cases he
    · cases hr
  · obtain ⟨hdir, hnone'⟩ := walk_eq_absent t' _ _ _ _ _ _ _ (hwalk hl)
    rcases h.walk hnone hD hnormal (hwalk hl) with ⟨_, hr⟩ | ⟨d', c', _, hr, hp⟩
    · cases hr
    · cases hr
      have hloc : R <+: d ++ [c] := (hR.trans (List.prefix_append _ _)).trans hp
      refine ⟨hloc, ?_, ?_⟩
      · intro l hl
        by_cases hlc : l = d ++ [c]
        · exact hlc ▸ hloc
        · rw [Tree.addFile_entry_of_ne hlc] at hl
          exact (h.confined hR).entry l hl
      · intro j hj
        by_cases hjn : j = t'.nextInode
        · exact ⟨d ++ [c], hloc, hjn ▸ Tree.addFile_entry hdir hnone'⟩
        · rw [Tree.addFile_content_of_ne hjn, h.content] at hj
          exact absurd rfl hj

/-- **A link that leads nowhere stops `create_dir_all`.** `ps` are paths through the link, the
last one the link itself; nothing is changed. -/
theorem createDirAll_through_link {ps : List Path} (post : List Path) {q : Path} {loc : Loc}
    {m : Nat}
    (hq : lookup env t false q q.comps = .ok (.found loc, m))
    (hnot : ∀ x ∈ ps ++ [q], isDir env t x = false)
    (hps : ∀ x ∈ ps, ¬ x.IsEmpty ∧ ∃ e, mkdir env t x = .error e) :
    ∃ e, createDirAll env t (ps ++ q :: post) = (t, .error e) := by
  induction ps with
  | nil =>
      have hm : mkdir env t q = .error .eexist := by rw [mkdir, hq]
      rw [List.nil_append]
      apply createDirAll_fails (lookup_ok hq).2 (hnot q (by simp)) hm
      intro he
      cases he
  | cons x ps ih =>
      obtain ⟨hempty, e, hm⟩ := hps x List.mem_cons_self
      have hrest := ih (fun y hy => hnot y (List.mem_cons_of_mem _ hy))
        (fun y hy => hps y (List.mem_cons_of_mem _ hy))
      rw [List.cons_append]
      exact createDirAll_fails hempty (hnot x (by simp)) hm (fun _ => hrest)

end Grown

end Posix
