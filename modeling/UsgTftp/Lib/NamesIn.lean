import UsgTftp.Lib.FileMoves

set_option autoImplicit false

/-! # Opening a name in a directory

A path that leads to a directory `d` and ends with a name `n` opens the file of that name, makes
it, or follows the link of that name (`NamesIn`). `LeadsInside` says where the object that is opened
lies.
-/

namespace Posix

/-- A file can be opened for writing there. -/
def Target.Takes (t : Tree) : Target → Prop
  | .found l => ∃ i, t.entry l = some (.file i)
  | .absent _ _ => True

/-- **Where `create` opens a file.** -/
theorem create_iff {env : Env} {t : Tree} {p : Path} {loc : Loc} :
    (∃ t' i, create env t p = .ok (t', loc, i)) ↔ p.trailingSlash = false ∧
      ∃ r k, lookup env t true p p.comps = .ok (r, k) ∧ r.Takes t ∧ loc = r.loc := by
  constructor
  · rintro ⟨t', i, hc⟩
    obtain ⟨hslash, ⟨m, hl, he, -⟩ | ⟨d, n, m, hl, hloc, -, -⟩⟩ := create_eq_ok hc
    · exact ⟨hslash, _, m, hl, ⟨i, he⟩, rfl⟩
    · exact ⟨hslash, _, m, hl, trivial, hloc⟩
  · rintro ⟨hslash, r, k, hl, htakes, rfl⟩
    unfold create
    rw [hl, hslash]
    cases r with
    | found l =>
        obtain ⟨i, he⟩ := htakes
        simp only [he, Bool.false_eq_true, if_false]
        exact ⟨_, _, rfl⟩
    | absent d n => exact ⟨_, _, rfl⟩

/-- If the path leads to a file, or to a place for one, then to one in a directory below `R`. -/
def LeadsInside (env : Env) (t : Tree) (R : Loc) (p : Path) : Prop :=
  ∀ r k, lookup env t true p p.comps = .ok (r, k) → r.Takes t → R <+: r.loc.dropLast

theorem leadsInside_iff {env : Env} {t : Tree} {R : Loc} {p : Path}
    (hslash : p.trailingSlash = false) : LeadsInside env t R p ↔
      ∀ t' loc i, create env t p = .ok (t', loc, i) → R <+: loc.dropLast := by
  constructor
  · intro h t' loc i hc
    obtain ⟨-, r, k, hl, htakes, rfl⟩ := create_iff.mp ⟨t', i, hc⟩
    exact h r k hl htakes
  · intro h r k hl htakes
    obtain ⟨t', i, hc⟩ := create_iff.mpr ⟨hslash, r, k, hl, htakes, rfl⟩
    exact h t' _ i hc

/-- The path leads to the name `n` of the directory `d`. -/
structure NamesIn (env : Env) (t : Tree) (p : Path) (d : Loc) (n : String) : Prop where
  dir : t.entry d = some .dir
  normal : Normal n
  slash : p.trailingSlash = false
  lookup_eq : ∃ k, ∀ follow, lookup env t follow p p.comps = walk t follow k d [n]

section

variable {env : Env} {t : Tree} {p : Path} {d R : Loc} {n : String}

/-- A name in a directory is found if anything has it, a link at its end not being followed. -/
theorem walk_single (k : Nat) (hdir : t.entry d = some .dir) (hn : Normal n) :
    walk t false k d [n] =
      if t.entry (d ++ [n]) = none then .ok (.absent d n, k) else .ok (.found (d ++ [n]), k) := by
  cases he : t.entry (d ++ [n]) with
  | none => rw [walk_absent hdir hn he, if_pos rfl, if_pos rfl]
  | some e =>
      rw [if_neg (Option.some_ne_none e)]
      by_cases hlink : ∃ target, e = .symlink target
      · obtain ⟨target, rfl⟩ := hlink
        rw [walk_link hdir hn he, if_pos ⟨rfl, rfl⟩]
      · rw [walk_plain hdir hn he (fun target ht => hlink ⟨target, ht⟩), walk_nil]

/-- What `lstat` says of the name. -/
theorem NamesIn.symlinkMetadata_eq (h : NamesIn env t p d n) :
    symlinkMetadata env t p = match t.entry (d ++ [n]) with
      | some e => .ok e
      | none => .error .enoent := by
  obtain ⟨k, hk⟩ := h.lookup_eq
  rw [symlinkMetadata, fullComps_of_noSlash h.slash, hk, walk_single k h.dir h.normal]
  cases he : t.entry (d ++ [n]) with
  | none => rw [if_pos rfl]
  | some e =>
      rw [if_neg (Option.some_ne_none e)]
      simp only [he]

/-- A free name, or that of a file, opens a file in the directory. -/
theorem NamesIn.leadsInside_place (h : NamesIn env t p d n)
    (hfree : ∀ e, t.entry (d ++ [n]) = some e → ∃ i, e = .file i) :
    LeadsInside env t R p ↔ R <+: d := by
  obtain ⟨k, hk⟩ := h.lookup_eq
  have hplace : ∃ r : Target, lookup env t true p p.comps = .ok (r, k) ∧ r.Takes t ∧
      r.loc = d ++ [n] := by
    cases he : t.entry (d ++ [n]) with
    | none =>
        refine ⟨.absent d n, ?_, trivial, rfl⟩
        rw [hk, walk_absent h.dir h.normal he, if_pos rfl]
    | some e =>
        obtain ⟨i, rfl⟩ := hfree e he
        refine ⟨.found (d ++ [n]), ?_, ⟨i, he⟩, rfl⟩
        rw [hk, walk_plain h.dir h.normal he (by intro target ht; cases ht), walk_nil]
  obtain ⟨r, hr, htakes, hloc⟩ := hplace
  constructor
  · intro hin
    have := hin r k hr htakes
    rwa [hloc, List.dropLast_concat] at this
  · intro hR r' k' hr' _
    rw [hr] at hr'
    cases hr'
    rwa [hloc, List.dropLast_concat]

/-- The name of a directory opens no file. -/
theorem NamesIn.not_takes_dir (h : NamesIn env t p d n) (he : t.entry (d ++ [n]) = some .dir)
    {r : Target} {k' : Nat} (hr : lookup env t true p p.comps = .ok (r, k')) : ¬ r.Takes t := by
  obtain ⟨k, hk⟩ := h.lookup_eq
  rw [hk, walk_plain h.dir h.normal he (by intro target ht; cases ht), walk_nil] at hr
  cases hr
  rintro ⟨i, hi⟩
  rw [he] at hi
  cases hi

theorem NamesIn.leadsInside_dir (h : NamesIn env t p d n)
    (he : t.entry (d ++ [n]) = some .dir) : LeadsInside env t R p :=
  fun _ _ hr htakes => absurd htakes (h.not_takes_dir he hr)

end

end Posix
