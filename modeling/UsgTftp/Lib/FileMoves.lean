import UsgTftp.Lib.FileOps

set_option autoImplicit false

/-! # Moving files

What `rename` does when the object that is moved is a file (`rename_file`), and which
resolutions survive it. Directories and links stay where they are, except that the file may
take the place of a link; so a path that named another object names it still, or fails
(`walk_replace`).
-/

namespace Posix

/-! ## The effect of `rename` -/

/-- Nothing lies below what is no directory. -/
theorem Tree.entry_below_file {t : Tree} {l l' : Loc} {e : Entry} (h : t.entry l = some e)
    (hdir : e ≠ .dir) (hp : l <+: l') (hne : l ≠ l') : t.entry l' = none := by
  obtain ⟨s, rfl⟩ := hp
  induction s using List.reverseRecOn with
  | nil => exact absurd (List.append_nil l).symm hne
  | append_singleton s n ih =>
      by_contra hsome
      rw [← List.append_assoc] at hsome
      have hparent := t.parent_dir _ n hsome
      by_cases hs : s = []
      · rw [hs, List.append_nil, h] at hparent
        exact hdir (Option.some.inj hparent)
      · rw [ih (by simpa using hs)] at hparent
        cases hparent

/-- `t'` is `t` with the file at `old` moved to `new`. -/
structure FileMoved (t t' : Tree) (old new : Loc) (i : Nat) : Prop where
  source : t.entry old = some (.file i)
  ne : old ≠ new
  notDir : t.entry new ≠ some .dir
  entry : ∀ l, t'.entry l
    = if l = new then some (.file i) else if l = old then none else t.entry l
  content : t'.content = t.content
  nextInode : t'.nextInode = t.nextInode

theorem renameAt_file {t t' : Tree} {old new : Loc} {i : Nat} (hold : t.entry old = some (.file i))
    (hnew : t.entry new ≠ some .dir) (h : renameAt t old new = .ok t') :
    FileMoved t t' old new i := by
  unfold renameAt at h
  split_ifs at h with hc
  cases h
  obtain ⟨-, -, hout, -⟩ := hc
  refine ⟨hold, fun h => hout (h ▸ List.prefix_rfl), hnew, fun l => ?_, rfl, rfl⟩
  show (if new <+: l then t.entry (old ++ l.drop new.length)
    else if old <+: l then none else t.entry l) = _
  by_cases hl : l = new
  · rw [if_pos (hl ▸ List.prefix_rfl), if_pos hl, hl, List.drop_length, List.append_nil, hold]
  rw [if_neg hl]
  by_cases hbelow : new <+: l
  · -- nothing is below the file, and nothing was below the place it takes
    have hne : l.drop new.length ≠ [] := by
      obtain ⟨s, rfl⟩ := hbelow
      rw [List.drop_left]
      rintro rfl
      exact hl (List.append_nil new)
    have h1 : t.entry (old ++ l.drop new.length) = none :=
      Tree.entry_below_file hold (by intro hd; cases hd) (List.prefix_append _ _)
        (fun he => hne (List.append_cancel_left (he.symm.trans (List.append_nil old).symm)))
    have h2 : t.entry l = none := by
      cases hn : t.entry new with
      | none => exact Tree.entry_below_none hn hbelow
      | some e =>
          exact Tree.entry_below_file hn (fun he => hnew (he ▸ hn)) hbelow (Ne.symm hl)
    rw [if_pos hbelow, h1, h2]
    split_ifs <;> rfl
  · rw [if_neg hbelow]
    by_cases ho : l = old
    · rw [if_pos (ho ▸ List.prefix_rfl), if_pos ho]
    · rw [if_neg ho]
      split_ifs with hp
      · exact (Tree.entry_below_file hold (by intro hd; cases hd) hp (Ne.symm ho)).symm
      · rfl

/-- The location a path names or would name, its last link not followed. -/
def destination (env : Env) (t : Tree) (p : Path) : Option Loc :=
  match lookup env t false p p.comps with
  | .ok (.found loc, _) => some loc
  | .ok (.absent d n, _) => some (d ++ [n])
  | .error _ => none

/-- The path lacks its last component only. -/
def isAbsent (env : Env) (t : Tree) (p : Path) : Bool :=
  match lookup env t false p p.comps with
  | .ok (.absent _ _, _) => true
  | _ => false

theorem lookup_of_isAbsent {env : Env} {t : Tree} {p : Path} (h : isAbsent env t p = true)
    (loc : Loc) (m : Nat) : lookup env t false p p.comps ≠ .ok (.found loc, m) := by
  intro hl
  rw [isAbsent, hl] at h
  cases h

theorem lookup_of_destination {env : Env} {t : Tree} {p : Path} {loc : Loc} {e : Entry}
    (h : destination env t p = some loc) (he : t.entry loc = some e) :
    ∃ m, lookup env t false p p.comps = .ok (.found loc, m) := by
  unfold destination at h
  split at h
  · rename_i l m hl
    cases h
    exact ⟨m, hl⟩
  · rename_i d n m hl
    cases h
    obtain ⟨hnul, hempty⟩ := lookup_ok hl
    rw [lookup_eq hnul hempty] at hl
    rw [(walk_eq_absent t _ _ _ _ _ _ _ hl).2] at he
    cases he
  · cases h

/-- **What `rename` does to a file**: nothing if both names name it already, and else it moves
the file to the destination. -/
theorem rename_file {env : Env} {t t' : Tree} {p q : Path} (h : rename env t p q = .ok t') :
    ∃ old new m, lookup env t false p p.comps = .ok (.found old, m) ∧
      destination env t q = some new ∧
      ∀ i, t.entry old = some (.file i) →
        (t' = t ∧ t.entry new = some (.file i)) ∨ FileMoved t t' old new i := by
  unfold rename at h
  split_ifs at h
  split at h
  · cases h
  · cases h
  · rename_i old m hold
    split_ifs at h
    unfold destination
    split at h
    · cases h
    -- the new name is free
    · rename_i d n k hq
      refine ⟨old, d ++ [n], m, hold, by rw [hq], fun i hi => Or.inr ?_⟩
      have hnone : t.entry (d ++ [n]) = none := by
        obtain ⟨hnul, hempty⟩ := lookup_ok hq
        rw [lookup_eq hnul hempty] at hq
        exact (walk_eq_absent t _ _ _ _ _ _ _ hq).2
      exact renameAt_file hi (by rw [hnone]; exact (Option.some_ne_none _).symm) h
    -- something is there already, perhaps another name of the same file
    · rename_i new k hq
      refine ⟨old, new, m, hold, by rw [hq], fun i hi => ?_⟩
      split_ifs at h with hsame
      · cases h
        left
        refine ⟨rfl, ?_⟩
        unfold sameObject at hsame
        rw [Bool.or_eq_true, decide_eq_true_iff] at hsame
        rcases hsame with rfl | hsame
        · exact hi
        · rw [hi] at hsame
          split at hsame
          · rename_i a b ha hb
            cases ha
            rw [hb, of_decide_eq_true hsame]
          · cases hsame
      · right
        cases hr : replaces t old new with
        | error e => rw [hr] at h; cases h
        | ok u =>
            rw [hr] at h
            refine renameAt_file hi (fun hdir => ?_) h
            rw [replaces, hi, hdir] at hr
            cases hr

/-- **What `rename` can do to anything**: it changes only what lies at or below the two names, and
no file or link takes the place of a directory. -/
theorem rename_changes {env : Env} {t t' : Tree} {p q : Path} (h : rename env t p q = .ok t') :
    lastNormal q = true ∧ t'.content = t.content ∧
    ∃ old new m, lookup env t false p p.comps = .ok (.found old, m) ∧
      destination env t q = some new ∧
      (∀ l, t'.entry l ≠ t.entry l → old <+: l ∨ new <+: l) ∧
      (t.entry old ≠ some .dir → q.trailingSlash = false ∧ (t' = t ∨ t.entry new ≠ some .dir)) := by
  have hat : ∀ {old new : Loc}, renameAt t old new = .ok t' → t'.content = t.content ∧
      ∀ l, t'.entry l ≠ t.entry l → old <+: l ∨ new <+: l := by
    intro old new h
    unfold renameAt at h
    split_ifs at h
    cases h
    refine ⟨rfl, fun l hl => ?_⟩
    by_contra hno
    rw [not_or] at hno
    exact hl ((if_neg hno.2).trans (if_neg hno.1))
  unfold rename at h
  split_ifs at h with hnormal
  rw [not_or, Bool.not_eq_false, Bool.not_eq_false] at hnormal
  split at h
  · cases h
  · cases h
  · rename_i old m hold
    split_ifs at h with hslash
    have hq : t.entry old ≠ some .dir → q.trailingSlash = false := by
      intro hne
      by_contra hq
      exact hslash ⟨Or.inr (by simpa using hq), hne⟩
    unfold destination
    split at h
    · cases h
    -- the new name is free
    · rename_i d n k hl
      obtain ⟨hcontent, hentry⟩ := hat h
      have hnone : t.entry (d ++ [n]) = none := by
        obtain ⟨hnul, hempty⟩ := lookup_ok hl
        rw [lookup_eq hnul hempty] at hl
        exact (walk_eq_absent t _ _ _ _ _ _ _ hl).2
      refine ⟨hnormal.2, hcontent, old, d ++ [n], m, hold, by rw [hl], hentry,
        fun hne => ⟨hq hne, Or.inr ?_⟩⟩
      rw [hnone]
      exact (Option.some_ne_none _).symm
    · rename_i new k hl
      split_ifs at h with hsame
      · cases h
        exact ⟨hnormal.2, rfl, old, new, m, hold, by rw [hl], fun l hl => absurd rfl hl,
          fun hne => ⟨hq hne, Or.inl rfl⟩⟩
      · cases hr : replaces t old new with
        | error e =>
            rw [hr] at h
            cases h
        | ok u =>
            rw [hr] at h
            obtain ⟨hcontent, hentry⟩ := hat h
            refine ⟨hnormal.2, hcontent, old, new, m, hold, by rw [hl], hentry,
              fun hne => ⟨hq hne, Or.inr fun hdir => ?_⟩⟩
            -- a directory is replaced by a directory only
            unfold replaces at hr
            rw [hdir] at hr
            cases he : t.entry old with
            | none => exact absurd he (lookup_found_entry hold)
            | some e =>
                rw [he] at hr hne
                cases e with
                | dir => exact hne rfl
                | file i => cases hr
                | symlink target => cases hr

/-- A file can be moved to another name of its directory. -/
theorem exists_renameAt {t : Tree} {d : Loc} {a b : String} (hdir : t.entry d = some .dir)
    (hne : a ≠ b) : ∃ t', renameAt t (d ++ [a]) (d ++ [b]) = .ok t' := by
  have hout : ¬ d ++ [a] <+: d ++ [b] := by
    intro hp
    have heq : d ++ [a] = d ++ [b] := hp.eq_of_length (by simp)
    exact hne (List.cons.inj (List.append_cancel_left heq)).1
  exact ⟨_, dif_pos ⟨by simp, by simp, hout, by rw [List.dropLast_concat, hdir]⟩⟩

section Siblings

variable {env : Env} {t : Tree} {p q : Path} {d : Loc} {a b : String} {i m : Nat}

/-- **A file renamed to a name beside it** takes that name, unless a directory has it. -/
theorem rename_sibling {k : Nat} (hp : lastNormal p = true) (hq : lastNormal q = true)
    (hpslash : p.trailingSlash = false) (hqslash : q.trailingSlash = false)
    (hdir : t.entry d = some .dir) (hne : a ≠ b)
    (hold : lookup env t false p p.comps = .ok (.found (d ++ [a]), m))
    (hfile : t.entry (d ++ [a]) = some (.file i))
    (hnew : lookup env t false q q.comps = if t.entry (d ++ [b]) = none then
      .ok (.absent d b, k) else .ok (.found (d ++ [b]), k))
    (hother : t.entry (d ++ [b]) ≠ some (.file i)) (hnot : t.entry (d ++ [b]) ≠ some .dir) :
    ∃ t', rename env t p q = .ok t' ∧ FileMoved t t' (d ++ [a]) (d ++ [b]) i := by
  obtain ⟨t', ht'⟩ := exists_renameAt hdir hne
  refine ⟨t', ?_, renameAt_file hfile hnot ht'⟩
  rw [rename, if_neg (by simp [hp, hq]), hold]
  simp only
  rw [if_neg (by simp [hpslash, hqslash]), hnew]
  split_ifs with hnone
  · exact ht'
  · -- what is replaced is another object
    have hloc : d ++ [a] ≠ d ++ [b] := fun heq =>
      hne (List.cons.inj (List.append_cancel_left heq)).1
    have hsame : sameObject t (d ++ [a]) (d ++ [b]) = false := by
      rw [sameObject, Bool.or_eq_false_iff, decide_eq_false_iff_not]
      refine ⟨hloc, ?_⟩
      rw [hfile]
      cases he : t.entry (d ++ [b]) with
      | none => rfl
      | some e =>
          cases e with
          | file j =>
              have hij : i ≠ j := by
                rintro rfl
                exact hother he
              simpa using hij
          | dir => rfl
          | symlink target => rfl
    have hreplaces : replaces t (d ++ [a]) (d ++ [b]) = .ok () := by
      rw [replaces, hfile]
      cases he : t.entry (d ++ [b]) with
      | none => rfl
      | some e =>
          cases e with
          | file j => rfl
          | dir => exact absurd he hnot
          | symlink target => rfl
    simp only [hsame, Bool.false_eq_true, if_false, hreplaces, Except.bind]
    exact ht'

/-- A file is not renamed to a path that asks for a directory, or that names one. -/
theorem rename_file_refused (hold : lookup env t false p p.comps = .ok (.found (d ++ [a]), m))
    (hfile : t.entry (d ++ [a]) = some (.file i))
    (hnew : q.trailingSlash = true ∨
      ∃ k, lookup env t false q q.comps = .ok (.found (d ++ [b]), k) ∧
        t.entry (d ++ [b]) = some .dir) :
    ∃ e, rename env t p q = .error e := by
  have hnot : t.entry (d ++ [a]) ≠ some .dir := by
    rw [hfile]
    intro h
    cases h
  unfold rename
  split_ifs with hlast
  · exact ⟨_, rfl⟩
  rw [hold]
  simp only
  split_ifs with hslash
  · exact ⟨_, rfl⟩
  rcases hnew with hq | ⟨k, hl, hdir⟩
  · exact absurd ⟨Or.inr hq, hnot⟩ hslash
  · have hloc : d ++ [a] ≠ d ++ [b] := fun heq => hnot (by rw [heq, hdir])
    have hsame : sameObject t (d ++ [a]) (d ++ [b]) = false := by
      rw [sameObject, Bool.or_eq_false_iff, decide_eq_false_iff_not, hfile, hdir]
      exact ⟨hloc, rfl⟩
    have hreplaces : replaces t (d ++ [a]) (d ++ [b]) = .error .eisdir := by
      rw [replaces, hfile, hdir]
    rw [hl]
    simp only [hsame, Bool.false_eq_true, if_false, hreplaces, Except.bind]
    exact ⟨_, rfl⟩

end Siblings

/-! ## Resolutions that survive -/

/-- An object is found as before if directories and links are kept, and so is the object. -/
theorem walk_kept {t t' : Tree}
    (hkeep : ∀ l e, t.entry l = some e → (∀ i, e ≠ .file i) → t'.entry l = some e)
    (follow : Bool) :
    ∀ (links : Nat) (cur : Loc) (xs : List String) (loc : Loc) (n : Nat),
      walk t follow links cur xs = .ok (.found loc, n) → t'.entry loc = t.entry loc →
      walk t' follow links cur xs = .ok (.found loc, n) := by
  have hdirs : ∀ {l}, t.entry l = some .dir → t'.entry l = some .dir := fun h =>
    hkeep _ _ h (by intro i hi; cases hi)
  intro links cur xs
  induction links, cur, xs using walk_induction t with
  | nil links cur =>
      intro loc n h _
      rwa [walk_nil] at h ⊢
  | notDir links cur c rest hdir =>
      intro loc n h _
      rw [walk_notDir hdir] at h
      cases h
  | dot links cur rest hdir ih =>
      intro loc n h hloc
      rw [walk_dot hdir] at h
      rw [walk_dot (hdirs hdir)]
      exact ih loc n h hloc
  | dotdot links cur rest hdir ih =>
      intro loc n h hloc
      rw [walk_dotdot hdir] at h
      rw [walk_dotdot (hdirs hdir)]
      exact ih loc n h hloc
  | absent links cur c rest hdir hc he =>
      intro loc n h _
      rw [walk_absent hdir hc he] at h
      split_ifs at h
      cases h
  | plain links cur c rest e hdir hc he hplain ih =>
      intro loc n h hloc
      rw [walk_plain hdir hc he hplain] at h
      by_cases hfile : ∃ i, e = .file i
      · obtain ⟨i, rfl⟩ := hfile
        obtain rfl : rest = [] := rest_eq_nil_of_notDir (by rw [he]; intro hd; cases hd) h
        rw [walk_nil] at h
        cases h
        rw [walk_plain (hdirs hdir) hc (hloc.trans he) hplain, walk_nil]
      · have hkept := hkeep _ _ he (fun i hi => hfile ⟨i, hi⟩)
        rw [walk_plain (hdirs hdir) hc hkept hplain]
        exact ih loc n h hloc
  | link links cur c rest target hdir hc he ih =>
      intro loc n h hloc
      have hkept := hkeep _ _ he (by intro i hi; cases hi)
      rw [walk_link hdir hc he] at h
      rw [walk_link (hdirs hdir) hc hkept]
      split_ifs at h ⊢ with hlast hempty
      · exact h
      · cases links with
        | zero => cases h
        | succ m => exact ih m rfl loc n h hloc

/-- The last component of a walk that lacked only that is found once it is there. -/
theorem walk_added {t t' : Tree} (hext : Extends t t') (follow : Bool) {d : Loc} {x : String}
    {e : Entry} (hadd : t'.entry (d ++ [x]) = some e) (hplain : ∀ target, e ≠ .symlink target) :
    ∀ (links : Nat) (cur : Loc) (xs : List String) (n : Nat),
      walk t follow links cur xs = .ok (.absent d x, n) →
      walk t' follow links cur xs = .ok (.found (d ++ [x]), n) := by
  intro links cur xs
  induction links, cur, xs using walk_induction t with
  | nil links cur =>
      intro n h
      rw [walk_nil] at h
      cases h
  | notDir links cur c rest hdir =>
      intro n h
      rw [walk_notDir hdir] at h
      cases h
  | dot links cur rest hdir ih =>
      intro n h
      rw [walk_dot hdir] at h
      rw [walk_dot (hext.entry_eq hdir)]
      exact ih n h
  | dotdot links cur rest hdir ih =>
      intro n h
      rw [walk_dotdot hdir] at h
      rw [walk_dotdot (hext.entry_eq hdir)]
      exact ih n h
  | absent links cur c rest hdir hc he =>
      intro n h
      rw [walk_absent hdir hc he] at h
      split_ifs at h with hrest
      cases h
      rw [hrest, walk_plain (hext.entry_eq hdir) hc hadd hplain, walk_nil]
  | plain links cur c rest e' hdir hc he hplain' ih =>
      intro n h
      rw [walk_plain hdir hc he hplain'] at h
      rw [walk_plain (hext.entry_eq hdir) hc (hext.entry_eq he) hplain']
      exact ih n h
  | link links cur c rest target hdir hc he ih =>
      intro n h
      rw [walk_link hdir hc he] at h
      rw [walk_link (hext.entry_eq hdir) hc (hext.entry_eq he)]
      split_ifs at h ⊢ with hlast hempty
      · cases h
      · cases links with
        | zero => cases h
        | succ m => exact ih m rfl n h

/-- **After a file was moved**, a path that named another object, not at the destination,
names that object still, or fails: the file may have taken the place of a link on its way. -/
theorem walk_replace {t t' : Tree} {old new : Loc} {i : Nat} (hmove : FileMoved t t' old new i) :
    ∀ (links : Nat) (cur : Loc) (xs : List String) (loc : Loc) (n : Nat) (r : Target × Nat),
      walk t false links cur xs = .ok (.found loc, n) → loc ≠ old → loc ≠ new →
      walk t' false links cur xs = .ok r → r = (.found loc, n) := by
  have hdirs : ∀ {l}, t.entry l = some .dir → t'.entry l = some .dir := by
    intro l hl
    rw [hmove.entry, if_neg (fun h : l = new => hmove.notDir (h ▸ hl)), if_neg, hl]
    rintro rfl
    rw [hmove.source] at hl
    cases hl
  intro links cur xs
  induction links, cur, xs using walk_induction t with
  | nil links cur =>
      intro loc n r h _ _ h'
      rw [walk_nil] at h h'
      rw [← Except.ok.inj h', Except.ok.inj h]
  | notDir links cur c rest hdir =>
      intro loc n r h
      rw [walk_notDir hdir] at h
      cases h
  | dot links cur rest hdir ih =>
      intro loc n r h hold hnew h'
      rw [walk_dot hdir] at h
      rw [walk_dot (hdirs hdir)] at h'
      exact ih loc n r h hold hnew h'
  | dotdot links cur rest hdir ih =>
      intro loc n r h hold hnew h'
      rw [walk_dotdot hdir] at h
      rw [walk_dotdot (hdirs hdir)] at h'
      exact ih loc n r h hold hnew h'
  | absent links cur c rest hdir hc he =>
      intro loc n r h
      rw [walk_absent hdir hc he] at h
      split_ifs at h
      cases h
  | plain links cur c rest e hdir hc he hplain ih =>
      intro loc n r h hold hnew h'
      rw [walk_plain hdir hc he hplain] at h
      have hkept : t'.entry (cur ++ [c]) = some e := by
        by_cases hd : e = .dir
        · rw [hd] at he ⊢
          exact hdirs he
        · -- a file can only be the last component, so it is the object itself
          have hrest := rest_eq_nil_of_notDir (by rw [he]; exact fun h => hd (Option.some.inj h)) h
          have hloc : loc = cur ++ [c] := by
            rw [hrest, walk_nil] at h
            cases h
            rfl
          rw [← hloc] at he ⊢
          rw [hmove.entry, if_neg hnew, if_neg hold, he]
      rw [walk_plain (hdirs hdir) hc hkept hplain] at h'
      exact ih loc n r h hold hnew h'
  | link links cur c rest target hdir hc he ih =>
      intro loc n r h hold hnew h'
      by_cases hc' : cur ++ [c] = new
      · -- the link was replaced by the file
        have hfile : t'.entry (cur ++ [c]) = some (.file i) := by
          rw [hmove.entry, if_pos hc']
        rw [walk_link hdir hc he] at h
        rw [walk_plain (hdirs hdir) hc hfile (by intro x hx; cases hx)] at h'
        obtain rfl : rest = [] := rest_eq_nil_of_notDir (by rw [hfile]; intro hd; cases hd) h'
        rw [if_pos ⟨rfl, rfl⟩] at h
        cases h
        exact absurd hc' hnew
      · have hkept : t'.entry (cur ++ [c]) = some (.symlink target) := by
          rw [hmove.entry, if_neg hc', if_neg, he]
          intro ho
          rw [ho, hmove.source] at he
          cases he
        rw [walk_link hdir hc he] at h
        rw [walk_link (hdirs hdir) hc hkept] at h'
        split_ifs at h h' with hlast hempty
        · rw [← Except.ok.inj h', Except.ok.inj h]
        · cases links with
          | zero => cases h
          | succ m => exact ih m rfl loc n r h hold hnew h'

/-! ## Files that are kept -/

/-- The files in `keep` stay where they are, with their content and their names. -/
def Keeps (env : Env) (keep : Nat → Prop) (t t' : Tree) : Prop :=
  ∀ loc i, keep i → t.entry loc = some (.file i) →
    t'.entry loc = some (.file i) ∧ t'.content i = t.content i ∧
    ∀ (p : Path) m, lookup env t false p p.comps = .ok (.found loc, m) →
      lookup env t' false p p.comps = .ok (.found loc, m)

section Keeps

variable {env : Env} {keep : Nat → Prop} {t t' : Tree}

theorem Keeps.refl : Keeps env keep t t := fun _ _ _ he => ⟨he, rfl, fun _ _ h => h⟩

theorem keeps_of_extends (hext : Extends t t')
    (hcontent : ∀ i, keep i → i < t.nextInode → t'.content i = t.content i) :
    Keeps env keep t t' := by
  intro loc i hi he
  refine ⟨hext.entry_eq he, hcontent i hi (t.inode_lt loc i he), ?_⟩
  intro p m h
  obtain ⟨hnul, hempty⟩ := lookup_ok h
  rw [lookup_eq hnul hempty] at h ⊢
  exact walk_extends hext false _ _ _ _ _ h

theorem keeps_setContent {i : Nat} (hi : ¬ keep i) (bytes : List UInt8) :
    Keeps env keep t (t.setContent i bytes) := by
  refine keeps_of_extends (fun _ _ => rfl) ?_
  intro j hj _
  exact Function.update_of_ne (fun h : j = i => hi (h ▸ hj)) _ _

/-- Moving a file keeps the directories and the links, if the destination was none. -/
theorem FileMoved.keeps_dirs {old new : Loc} {i : Nat} (hmove : FileMoved t t' old new i)
    (hlink : ∀ target, t.entry new ≠ some (.symlink target)) :
    ∀ l e, t.entry l = some e → (∀ j, e ≠ .file j) → t'.entry l = some e := by
  intro l e he hplain
  have hold : l ≠ old := by
    rintro rfl
    rw [hmove.source] at he
    exact hplain i (Option.some.inj he).symm
  have hnew : l ≠ new := by
    rintro rfl
    cases e with
    | dir => exact hmove.notDir he
    | file j => exact hplain j rfl
    | symlink target => exact hlink target he
  rw [hmove.entry, if_neg hnew, if_neg hold, he]

/-- **Moving a file keeps every other file**, if no link and no such file is at the
destination. -/
theorem keeps_moved {old new : Loc} {i : Nat} (hmove : FileMoved t t' old new i) (hi : ¬ keep i)
    (hlink : ∀ target, t.entry new ≠ some (.symlink target))
    (hfile : ∀ j, t.entry new = some (.file j) → ¬ keep j) : Keeps env keep t t' := by
  intro loc j hj he
  have hold : loc ≠ old := by
    rintro rfl
    rw [hmove.source] at he
    cases he
    exact hi hj
  have hnew : loc ≠ new := by
    rintro rfl
    exact hfile j he hj
  have hloc : t'.entry loc = some (.file j) := by
    rw [hmove.entry, if_neg hnew, if_neg hold, he]
  refine ⟨hloc, by rw [hmove.content], ?_⟩
  intro p m h
  obtain ⟨hnul, hempty⟩ := lookup_ok h
  rw [lookup_eq hnul hempty] at h ⊢
  exact walk_kept (hmove.keeps_dirs hlink) false _ _ _ _ _ h (hloc.trans he.symm)

end Keeps

/-! ## The content behind a name -/

/-- The content of the file a path names. -/
def contentOf (env : Env) (t : Tree) (p : Path) : Option (List UInt8) :=
  match canonicalize env t p with
  | .error _ => none
  | .ok loc =>
      match t.entry loc with
      | some (.file i) => some (t.content i)
      | _ => none

/-- The location a walk ends at. -/
def Target.loc : Target → Loc
  | .found loc => loc
  | .absent d n => d ++ [n]

/-- A walk that led to a place, free or held by a file, finds the file that is put there. -/
theorem walk_lands {t t' : Tree}
    (hkeep : ∀ l e, t.entry l = some e → (∀ i, e ≠ .file i) → t'.entry l = some e)
    {new : Loc} {j : Nat} (hput : t'.entry new = some (.file j))
    (hfree : ∀ e, t.entry new = some e → ∃ i, e = .file i) :
    ∀ (links : Nat) (cur : Loc) (xs : List String) (r : Target) (n : Nat),
      walk t false links cur xs = .ok (r, n) → r.loc = new →
      walk t' false links cur xs = .ok (.found new, n) := by
  have hdirs : ∀ {l}, t.entry l = some .dir → t'.entry l = some .dir := fun h =>
    hkeep _ _ h (by intro i hi; cases hi)
  have hfile : ∀ target, Entry.file j ≠ .symlink target := by intro target h; cases h
  intro links cur xs
  induction links, cur, xs using walk_induction t with
  | nil links cur =>
      intro r n h hr
      rw [walk_nil] at h ⊢
      cases h
      rw [← hr]
      rfl
  | notDir links cur c rest hdir =>
      intro r n h
      rw [walk_notDir hdir] at h
      cases h
  | dot links cur rest hdir ih =>
      intro r n h hr
      rw [walk_dot hdir] at h
      rw [walk_dot (hdirs hdir)]
      exact ih r n h hr
  | dotdot links cur rest hdir ih =>
      intro r n h hr
      rw [walk_dotdot hdir] at h
      rw [walk_dotdot (hdirs hdir)]
      exact ih r n h hr
  | absent links cur c rest hdir hc he =>
      intro r n h hr
      rw [walk_absent hdir hc he] at h
      split_ifs at h with hrest
      cases h
      have hnew : cur ++ [c] = new := hr
      rw [hrest, walk_plain (hdirs hdir) hc (hnew ▸ hput) hfile, walk_nil, hnew]
  | plain links cur c rest e hdir hc he hplain ih =>
      intro r n h hr
      rw [walk_plain hdir hc he hplain] at h
      cases e with
      | symlink target => exact absurd rfl (hplain target)
      | dir =>
          rw [walk_plain (hdirs hdir) hc (hdirs he) hplain]
          exact ih r n h hr
      | file i =>
          obtain rfl : rest = [] := rest_eq_nil_of_notDir (by rw [he]; intro hd; cases hd) h
          rw [walk_nil] at h
          cases h
          have hnew : cur ++ [c] = new := hr
          rw [walk_plain (hdirs hdir) hc (hnew ▸ hput) hfile, walk_nil, hnew]
  | link links cur c rest target hdir hc he ih =>
      intro r n h hr
      have hkept := hkeep _ _ he (by intro i hi; cases hi)
      rw [walk_link hdir hc he] at h
      rw [walk_link (hdirs hdir) hc hkept]
      split_ifs at h ⊢ with hlast hempty
      · cases h
        have hnew : cur ++ [c] = new := hr
        obtain ⟨i, hi⟩ := hfree _ (hnew ▸ he)
        cases hi
      · cases links with
        | zero => cases h
        | succ m => exact ih m rfl r n h hr

/-- A file under a name without a link in its last component. -/
theorem contentOf_of_lookup {env : Env} {t : Tree} {p : Path} {loc : Loc} {i m : Nat}
    (hslash : p.trailingSlash = false) (h : lookup env t false p p.comps = .ok (.found loc, m))
    (he : t.entry loc = some (.file i)) : contentOf env t p = some (t.content i) := by
  obtain ⟨hnul, hempty⟩ := lookup_ok h
  rw [lookup_eq hnul hempty] at h
  have hfollow := walk_follow t _ _ _ _ h (by
    intro l k target hl hlink
    cases hl
    rw [he] at hlink
    cases hlink)
  rw [contentOf, canonicalize, fullComps_of_noSlash hslash, lookup_eq hnul hempty, hfollow]
  dsimp only
  rw [he]

/-- **After a rename the new name has the file's content**, if it was no link. -/
theorem contentOf_renamed {env : Env} {t t' : Tree} {p q : Path} {old : Loc} {i m : Nat}
    (hold : lookup env t false p p.comps = .ok (.found old, m))
    (hfile : t.entry old = some (.file i))
    (hlink : ∀ loc k target, lookup env t false q q.comps = .ok (.found loc, k) →
      t.entry loc ≠ some (.symlink target))
    (h : rename env t p q = .ok t') : contentOf env t' q = some (t.content i) := by
  -- a file is not renamed to a name with a trailing slash
  have hslash : q.trailingSlash = false := by
    by_contra hq
    rw [Bool.not_eq_false] at hq
    unfold rename at h
    split_ifs at h
    rw [hold] at h
    dsimp only at h
    rw [if_pos ⟨Or.inr hq, by rw [hfile]; intro hd; cases hd⟩] at h
    cases h
  obtain ⟨old', new, m', hold', hdest, hmoved⟩ := rename_file h
  rw [hold] at hold'
  cases hold'
  rcases hmoved i hfile with ⟨rfl, hnew⟩ | hmove
  · obtain ⟨k, hk⟩ := lookup_of_destination hdest hnew
    exact contentOf_of_lookup hslash hk hnew
  · have hput : t'.entry new = some (.file i) := by rw [hmove.entry, if_pos rfl]
    have hnolink : ∀ target, t.entry new ≠ some (.symlink target) := by
      intro target ht
      obtain ⟨k, hk⟩ := lookup_of_destination hdest ht
      exact hlink new k target hk ht
    have hfree : ∀ e, t.entry new = some e → ∃ j, e = .file j := by
      intro e he
      cases e with
      | dir => exact absurd he hmove.notDir
      | file j => exact ⟨j, rfl⟩
      | symlink target => exact absurd he (hnolink target)
    have hlands : ∃ k, lookup env t' false q q.comps = .ok (.found new, k) := by
      unfold destination at hdest
      split at hdest
      · rename_i loc k hk
        obtain ⟨hnul, hempty⟩ := lookup_ok hk
        rw [lookup_eq hnul hempty] at hk ⊢
        exact ⟨k, walk_lands (hmove.keeps_dirs hnolink) hput hfree _ _ _ _ _ hk
          (Option.some.inj hdest)⟩
      · rename_i d n k hk
        obtain ⟨hnul, hempty⟩ := lookup_ok hk
        rw [lookup_eq hnul hempty] at hk ⊢
        exact ⟨k, walk_lands (hmove.keeps_dirs hnolink) hput hfree _ _ _ _ _ hk
          (Option.some.inj hdest)⟩
      · cases hdest
    obtain ⟨k, hk⟩ := hlands
    rw [contentOf_of_lookup hslash hk hput, hmove.content]

end Posix
