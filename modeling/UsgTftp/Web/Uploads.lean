import UsgTftp.Server.Request
import UsgTftp.Web.Policy

set_option autoImplicit false

/-! # Uploads and the write policy

A field of an upload makes the missing parents of its destination and then puts its file there or
leaves nothing (`fieldTree_cases`). If patterns are set, the destination is allowed, and so is all
that the field changes; if none is set, the field keeps the policy exactly if it changes nothing.
`web_write_policy_iff` puts this together with the other two handlers.
-/

namespace UsgTftp

open Posix Posix.Path Reactive

section Field

variable {s : AppState} {t : Tree} {dest : Path} {field : UploadField} {rel : List String}
  {R loc : Loc}

/-- The tree after a field that is not refused. -/
def fieldTree (s : AppState) (t : Tree) (dest : Path) (field : UploadField) : Tree :=
  match createParents s.env t dest with
  | (t', .error _) => t'
  | (t', .ok ()) => (storeField s t' dest field).1

theorem uploadField_tree {targetDir : String} {st : UploadState}
    (hname : field.fileName.getD "" ≠ "")
    (h : uploadTarget s st.tree targetDir (field.fileName.getD "") = .ok dest) :
    (uploadField s targetDir st field).tree = fieldTree s st.tree dest field := by
  unfold uploadField fieldTree
  simp only [if_neg hname, h]
  cases createParents s.env st.tree dest with
  | mk t' result =>
      cases result with
      | error e => rfl
      | ok u =>
          simp only
          cases storeField s t' dest field with
          | mk t'' stored =>
              cases stored with
              | error message => rfl
              | ok u => rfl

/-- A field that is refused changes nothing. -/
theorem uploadField_refused {targetDir : String} {st : UploadState}
    (h : field.fileName.getD "" = "" ∨
      ∃ message, uploadTarget s st.tree targetDir (field.fileName.getD "") = .error message) :
    (uploadField s targetDir st field).tree = st.tree := by
  unfold uploadField
  simp only
  split_ifs with hname
  · rfl
  · obtain ⟨message, hmessage⟩ := h.resolve_left hname
    rw [hmessage]
    rfl

/-! ## Places for a file -/

theorem takesFile_congr {t' : Tree} (hentry : t'.entry = t.entry) :
    takesFile s.env t' dest = takesFile s.env t dest := by
  unfold takesFile
  rw [lookup_congr hentry, hentry]

theorem Beside.takesFile_iff {d : Loc} {last : String}
    (hb : Beside s t dest field.uuid d last) :
    takesFile s.env t dest = true ↔
      dest.trailingSlash = false ∧ t.entry (d ++ [last]) ≠ some .dir := by
  obtain ⟨k, hk⟩ := hb.dest_lookup t (fun _ _ => rfl) false
  rw [walk_single k hb.dir hb.normal] at hk
  unfold takesFile
  rw [hk, Bool.and_eq_true, Bool.not_eq_true']
  apply and_congr_right
  intro _
  by_cases hnone : t.entry (d ++ [last]) = none
  · rw [if_pos hnone, hnone]
    exact iff_of_true rfl (by intro h; cases h)
  · rw [if_neg hnone]
    exact decide_eq_true_iff

/-- The path of the root is no place for a file. -/
theorem Validated.takesFile_root (h : Validated s.env t s.rootDir dest rel R loc)
    (hrel : names rel = []) (t' : Tree) : takesFile s.env t' dest = false := by
  have hsegs : dest.segs.getLast? = some "" := by
    rw [h.path, h.single hrel, join, List.getLast?_concat]
  unfold takesFile
  by_cases hcomps : dest.comps = []
  · have habs : dest.absolute = true := by
      by_contra habs
      exact h.not_isEmpty ⟨by simpa using habs, hcomps⟩
    have hroot : lookup s.env t' false dest dest.comps = .ok (.found [], s.env.maxSymlinks) := by
      rw [lookup_eq h.hasNul h.not_isEmpty, hcomps, walk_nil, Path.start, if_pos habs]
    rw [hroot, Bool.and_eq_false_iff]
    exact Or.inr (by simp only [t'.root_dir, ne_eq, not_true_eq_false, decide_false])
  · have hslash : dest.trailingSlash = true := by
      rw [trailingSlash, decide_eq_true_iff]
      exact ⟨hcomps, hsegs⟩
    rw [hslash]
    rfl

/-! ## What a field does -/

/-- The file of the field was put into the directory `d`, in the tree `t₁` that has the
parents. -/
structure FileStored (s : AppState) (t₁ t' : Tree) (dest : Path) (field : UploadField) (d : Loc)
    (last : String) : Prop where
  complete : field.chunks.all Chunk.isWritten = true
  takes : takesFile s.env t₁ dest = true
  put : FilePut t₁ t' (d ++ [last])
  slash : dest.trailingSlash = false
  not_dir : t₁.entry (d ++ [last]) ≠ some .dir
  named : ∃ k, lookup s.env t₁ false dest dest.comps =
    if t₁.entry (d ++ [last]) = none then .ok (.absent d last, k)
    else .ok (.found (d ++ [last]), k)

/-- If the file did not take the place of a link, then the destination names it. -/
theorem FileStored.lookup_eq {t₁ t' : Tree} {d : Loc} {last : String}
    (h : FileStored s t₁ t' dest field d last)
    (hlink : ∀ target, t₁.entry (d ++ [last]) ≠ some (.symlink target)) :
    ∃ m, lookup s.env t' false dest dest.comps = .ok (.found (d ++ [last]), m) := by
  have hkeep : ∀ l e, t₁.entry l = some e → (∀ i, e ≠ .file i) → t'.entry l = some e := by
    intro l e he hfile
    rw [h.put.entry l, he]
    rintro rfl
    cases e with
    | dir => exact h.not_dir he
    | file i => exact hfile i rfl
    | symlink target => exact hlink target he
  have hfree : ∀ e, t₁.entry (d ++ [last]) = some e → ∃ i, e = .file i := by
    intro e he
    cases e with
    | dir => exact absurd he h.not_dir
    | file i => exact ⟨i, rfl⟩
    | symlink target => exact absurd he (hlink target)
  obtain ⟨k, hk⟩ := h.named
  have hland : ∃ r : Target, lookup s.env t₁ false dest dest.comps = .ok (r, k) ∧
      r.loc = d ++ [last] := by
    split_ifs at hk
    · exact ⟨_, hk, rfl⟩
    · exact ⟨_, hk, rfl⟩
  obtain ⟨r, hr, hloc⟩ := hland
  obtain ⟨hnul, hempty⟩ := lookup_ok hr
  rw [Posix.lookup_eq hnul hempty] at hr
  exact ⟨k, by
    rw [Posix.lookup_eq hnul hempty, walk_lands hkeep h.put.inode hfree _ _ _ _ _ hr hloc]⟩

/-- **What a field does** after its parents were made: it stores its file, or leaves nothing. It
stores it if it is complete and there is a place. -/
theorem fieldTree_cases (h : Validated s.env t s.rootDir dest rel R loc)
    (hnew : NewUuid (createParents s.env t dest).1 field.uuid) :
    (SameObjects (createParents s.env t dest).1 (fieldTree s t dest field) ∧
      ¬ ((createParents s.env t dest).2 = .ok () ∧ field.chunks.all Chunk.isWritten = true ∧
        takesFile s.env (createParents s.env t dest).1 dest = true)) ∨
    ((createParents s.env t dest).2 = .ok () ∧ ∃ d last,
      FileStored s (createParents s.env t dest).1 (fieldTree s t dest field) dest field d
        last) := by
  unfold fieldTree
  cases hc : createParents s.env t dest with
  | mk t₁ result =>
      cases result with
      | error e => exact Or.inl ⟨SameObjects.refl t₁, by rintro ⟨h, -⟩; cases h⟩
      | ok u =>
          have hok : (createParents s.env t dest).2 = .ok () := by rw [hc]
          rw [hc] at hnew
          rcases List.eq_nil_or_concat (names rel) with hrel | ⟨cs, last, hrel⟩
          · refine Or.inl ⟨(h.not_stored_root hrel hnew).1, ?_⟩
            rintro ⟨-, -, htakes⟩
            rw [h.takesFile_root hrel] at htakes
            cases htakes
          · have hrel' : names rel = cs ++ [last] := by simpa using hrel
            obtain ⟨d, hb⟩ := h.beside hrel' hok hnew.2
            rw [hc] at hb
            by_cases hstore : field.chunks.all Chunk.isWritten = true ∧
                takesFile s.env t₁ dest = true
            · obtain ⟨hslash, hnot⟩ := hb.takesFile_iff.mp hstore.2
              obtain ⟨k, hk⟩ := hb.dest_lookup t₁ (fun _ _ => rfl) false
              rw [walk_single k hb.dir hb.normal] at hk
              exact Or.inr ⟨rfl, d, last, hstore.1, hstore.2,
                (hb.stored hnew hstore.1 ⟨hslash, hnot⟩).1, hslash, hnot, k, hk⟩
            · refine Or.inl ⟨(hb.not_stored hnew fun hno => hstore ⟨hno.1, ?_⟩).1, ?_⟩
              · exact hb.takesFile_iff.mpr hno.2
              · rintro ⟨-, hcomplete, htakes⟩
                exact hstore ⟨hcomplete, htakes⟩

/-- **When storing a field succeeds**: it is complete and there is a place for it. -/
theorem Validated.storeField_isOk_iff (h : Validated s.env t s.rootDir dest rel R loc)
    (hok : (createParents s.env t dest).2 = .ok ())
    (hnew : NewUuid (createParents s.env t dest).1 field.uuid) :
    (storeField s (createParents s.env t dest).1 dest field).2 = .ok () ↔
      field.chunks.all Chunk.isWritten = true ∧
        takesFile s.env (createParents s.env t dest).1 dest = true := by
  rcases List.eq_nil_or_concat (names rel) with hrel | ⟨cs, last, hrel⟩
  · refine iff_of_false (h.not_stored_root hrel hnew).2 ?_
    rintro ⟨-, htakes⟩
    rw [h.takesFile_root hrel] at htakes
    cases htakes
  · have hrel' : names rel = cs ++ [last] := by simpa using hrel
    obtain ⟨d, hb⟩ := h.beside hrel' hok hnew.2
    rw [hb.takesFile_iff]
    constructor
    · intro hstored
      by_contra hno
      exact (hb.not_stored hnew hno).2 hstored
    · rintro ⟨hcomplete, hplace⟩
      exact (hb.stored hnew hcomplete hplace).2

/-- **Which fields are listed** in `uploaded`. -/
theorem uploadField_lists_iff {targetDir : String} {st : UploadState} :
    (uploadField s targetDir st field).uploaded ≠ st.uploaded ↔
      field.fileName.getD "" ≠ "" ∧
      ∃ dest, uploadTarget s st.tree targetDir (field.fileName.getD "") = .ok dest ∧
        (createParents s.env st.tree dest).2 = .ok () ∧
        (storeField s (createParents s.env st.tree dest).1 dest field).2 = .ok () := by
  unfold uploadField
  by_cases hname : field.fileName.getD "" = ""
  · simp only [if_pos hname]
    exact iff_of_false (fun h => h rfl) (fun h => h.1 hname)
  simp only [if_neg hname]
  cases htarget : uploadTarget s st.tree targetDir (field.fileName.getD "") with
  | error message =>
      refine iff_of_false (fun h => h rfl) ?_
      rintro ⟨-, dest, ⟨⟩, -⟩
  | ok dest =>
      simp only [Except.ok.injEq, exists_eq_left']
      generalize createParents s.env st.tree dest = made
      obtain ⟨t₁, result⟩ := made
      cases result with
      | error e =>
          refine iff_of_false (fun h => h rfl) ?_
          rintro ⟨-, ⟨⟩, -⟩
      | ok u =>
          simp only
          generalize storeField s t₁ dest field = stored
          obtain ⟨t₂, result⟩ := stored
          cases result with
          | error message =>
              refine iff_of_false (fun h => h rfl) ?_
              rintro ⟨-, -, ⟨⟩⟩
          | ok u => exact iff_of_true (by simp) ⟨hname, by simp⟩

/-! ## Fields that change nothing -/

/-- Without new directories the parents are as they were. -/
theorem DirsMade.entry_eq {t' : Tree} {ps : List Path} (h : DirsMade s.env t t' ps []) :
    t'.entry = t.entry := by
  funext l
  by_contra hl
  obtain ⟨-, -, x, hx, -⟩ := h.named l hl
  cases hx

/-- **A field changes nothing** exactly if it needs no new directory and has no file to put, or no
place for it. -/
theorem fieldTree_unchanged_iff (h : Validated s.env t s.rootDir dest rel R loc)
    (hnew : NewUuid (createParents s.env t dest).1 field.uuid) :
    (∀ l, ¬ Changed t (fieldTree s t dest field) l) ↔
      newDirs s.env t dest.parents = [] ∧
        (field.chunks.all Chunk.isWritten = false ∨ takesFile s.env t dest = false) := by
  have hmade := h.createParents_made
  have hcases := fieldTree_cases h hnew
  generalize fieldTree s t dest field = t' at hcases
  constructor
  · intro hsame
    have hnil : newDirs s.env t dest.parents = [] := by
      by_contra hne
      obtain ⟨x, xs, hxs⟩ := List.exists_cons_of_ne_nil hne
      obtain ⟨l, m, -, hnone, hdir⟩ := hmade.made x (by rw [hxs]; exact List.mem_cons_self)
      refine hsame l (Or.inl ?_)
      -- the new directory is still there, for a file is put elsewhere
      have hl : t'.entry l = some .dir := by
        rcases hcases with ⟨hsame, -⟩ | ⟨-, d, last, hstored⟩
        · rw [hsame.entry, hdir]
        · rw [hstored.put.entry l (fun heq => hstored.not_dir (heq ▸ hdir)), hdir]
      rw [hl, hnone]
      exact Option.some_ne_none _
    refine ⟨hnil, ?_⟩
    rw [hnil] at hmade
    have hentry := DirsMade.entry_eq hmade
    by_contra hstore
    rw [not_or, Bool.not_eq_false, Bool.not_eq_false] at hstore
    obtain ⟨hcomplete, htakes⟩ := hstore
    have hok : (createParents s.env t dest).2 = .ok () := by
      unfold takesFile at htakes
      rw [Bool.and_eq_true] at htakes
      cases hl : lookup s.env t false dest dest.comps with
      | ok r => exact h.createParents_ok hl
      | error e =>
          rw [hl] at htakes
          cases htakes.2
    rcases hcases with ⟨-, hno⟩ | ⟨-, d, last, hstored⟩
    · exact hno ⟨hok, hcomplete, by rw [takesFile_congr hentry, htakes]⟩
    · refine hsame (d ++ [last]) (Or.inl ?_)
      rw [hstored.put.inode, hmade.nextInode]
      intro heq
      exact Nat.lt_irrefl _ (t.inode_lt _ _ heq.symm)
  · rintro ⟨hnil, hnot⟩ l hl
    rw [hnil] at hmade
    have hentry := DirsMade.entry_eq hmade
    rcases hcases with ⟨hsame, -⟩ | ⟨-, d, last, hstored⟩
    · refine hsame.not_changed l ?_
      rcases hl with hl | ⟨i, hi, hne⟩
      · exact Or.inl (by rwa [hentry])
      · exact Or.inr ⟨i, by rw [hentry, hi], by rwa [hmade.content]⟩
    · rcases hnot with hbroken | htakes
      · rw [hstored.complete] at hbroken
        cases hbroken
      · rw [← takesFile_congr hentry, hstored.takes] at htakes
        cases htakes

/-! ## Fields that are allowed -/

/-- No parent of a path names the file that the path names. -/
theorem parent_ne_file {t' : Tree} {q : Path} {place : Loc} {i m n : Nat}
    (hq : q ∈ dest.parents) (hfile : t'.entry place = some (.file i))
    (hdest : lookup s.env t' false dest dest.comps = .ok (.found place, m))
    (hnamed : lookup s.env t' false q q.comps = .ok (.found place, n)) : False := by
  obtain ⟨habs, -, tail, htail, hcomps⟩ := mem_parents hq
  obtain ⟨hqnul, hqempty⟩ := lookup_ok hnamed
  obtain ⟨hnul, hempty⟩ := lookup_ok hdest
  rw [lookup_eq hqnul hqempty, Path.start, habs, ← Path.start] at hnamed
  rw [lookup_eq hnul hempty, hcomps] at hdest
  have hfollow := walk_follow t' _ _ _ _ hnamed (by
    intro l k target hl hlink
    cases hl
    rw [hfile] at hlink
    cases hlink)
  obtain ⟨d, k, hw, hdir, -⟩ := walk_prefix htail hdest
  rw [hfollow] at hw
  cases hw
  rw [hfile] at hdir
  cases hdir

/-- A path that named something before needs no new directory, and only what it named is
replaced. -/
theorem keepsPolicy_existing (h : Validated s.env t s.rootDir dest rel R loc) {l₀ : Loc}
    (hcanon : canonicalize s.env t dest = .ok l₀) (hpermits : s.Permits dest)
    (hoverwrite : pathExists s.env t dest = true → s.writeConfig.allowOverwrite = true)
    (hnew : NewUuid (createParents s.env t dest).1 field.uuid) :
    KeepsPolicy s .uploadFiles t (fieldTree s t dest field) dest := by
  have hcases := fieldTree_cases h hnew
  rw [createParents_of_exists hcanon] at hcases
  intro l hl
  rcases hcases with ⟨hsame, -⟩ | ⟨-, d, last, hstored⟩
  · exact absurd hl (hsame.not_changed l)
  · obtain ⟨⟨m, hm⟩, hlink⟩ := h.lookup_nofollow hcanon
    rw [fullComps_of_noSlash hstored.slash] at hm
    have hplace : d ++ [last] = l₀ := by
      obtain ⟨k, hk⟩ := hstored.named
      rw [hm] at hk
      split_ifs at hk
      · cases hk
      · simp only [Except.ok.injEq, Prod.mk.injEq, Target.found.injEq] at hk
        exact hk.1.symm
    obtain ⟨n, hn⟩ := hstored.lookup_eq (by rw [hplace]; exact hlink)
    have hput := hstored.put
    rw [hplace] at hn hput
    have hl' : l = l₀ := (hput.changed_iff l).mp hl
    rw [hl']
    have hallowed : ChangeAllowed s .uploadFiles t (fieldTree s t dest field) dest dest l₀ :=
      Or.inl ⟨hpermits, fun _ _ => hoverwrite (pathExists_iff.mpr ⟨l₀, hcanon⟩)⟩
    refine ⟨⟨dest, .itself hcanon⟩, fun q hq => ?_⟩
    cases hq with
    | itself _ => exact hallowed
    | part hq hnamed =>
        rcases List.mem_cons.mp hq with rfl | hq
        · exact hallowed
        · exact (parent_ne_file hq hput.inode hn hnamed).elim
    | below hnamed =>
        rw [hcanon] at hnamed
        have := congrArg List.length (Except.ok.inj hnamed)
        simp at this

/-- A path that named nothing: what is made on the way to it are new parents of an allowed
file. -/
theorem keepsPolicy_missing (h : Validated s.env t s.rootDir dest rel R loc)
    (hno : ∀ l, canonicalize s.env t dest ≠ .ok l) (hpermits : s.Permits dest)
    (hnew : NewUuid (createParents s.env t dest).1 field.uuid) :
    KeepsPolicy s .uploadFiles t (fieldTree s t dest field) dest := by
  have hmade := h.createParents_made
  have hcases := fieldTree_cases h hnew
  generalize fieldTree s t dest field = t' at hcases
  -- an object that was not there: a new parent, or the destination
  have hallowed : ∀ l, t.entry l = none → (∃ q, ReachedBy s.env t t' dest q l) →
      (∀ q ∈ dest.parents, ∀ m, lookup s.env t' false q q.comps = .ok (.found l, m) →
        t'.entry l = some .dir) →
      (∃ q, ReachedBy s.env t t' dest q l) ∧
        ∀ q, ReachedBy s.env t t' dest q l → ChangeAllowed s .uploadFiles t t' dest q l := by
    intro l hnone hreached hdir
    refine ⟨hreached, fun q hq => ?_⟩
    cases hq with
    | itself hnamed => exact absurd hnamed (hno _)
    | below hnamed => exact absurd hnamed (hno _)
    | part hq hnamed =>
        rcases List.mem_cons.mp hq with rfl | hq
        · exact Or.inl ⟨hpermits, fun _ hsome => absurd hnone hsome⟩
        · exact Or.inr ⟨rfl, hq, hnone, hdir q hq _ hnamed, hpermits⟩
  have hext : Extends t (createParents s.env t dest).1 :=
    (dirsAdded_createParents s.env t dest).extends_
  intro l hl
  rcases hcases with ⟨hsame, -⟩ | ⟨hok, d, last, hstored⟩
  · have hl' : (createParents s.env t dest).1.entry l ≠ t.entry l := by
      rcases hl with hl | ⟨i, hi, hne⟩
      · rwa [hsame.entry] at hl
      · refine absurd ?_ hne
        rw [hsame.content i (by rw [hmade.nextInode]; exact t.inode_lt l i hi), hmade.content]
    obtain ⟨hnone, hdir, x, hx, m, hm⟩ := hmade.named l hl'
    refine hallowed l hnone ⟨x, .part (m := m) (List.mem_cons_of_mem _ (mem_of_mem_newDirs hx)) ?_⟩
      fun _ _ _ _ => by rw [hsame.entry, hdir]
    rw [lookup_congr hsame.entry, hm]
  · have hfree : (createParents s.env t dest).1.entry (d ++ [last]) = none := by
      obtain ⟨d', c, k, hk⟩ := h.lookup_missing hno hstored.slash hok
      obtain ⟨k', hk'⟩ := hstored.named
      rw [hk] at hk'
      by_contra hsome
      rw [if_neg hsome] at hk'
      cases hk'
    obtain ⟨n, hn⟩ := hstored.lookup_eq (by rw [hfree]; intro target he; cases he)
    by_cases hplace : l = d ++ [last]
    · rw [hplace]
      refine hallowed _ ?_ ⟨dest, .part List.mem_cons_self hn⟩ fun q hq m hm => ?_
      · by_contra hsome
        rw [hext _ hsome] at hfree
        exact hsome hfree
      · exact (parent_ne_file hq hstored.put.inode hn hm).elim
    · have hl' : (createParents s.env t dest).1.entry l ≠ t.entry l := by
        rcases hl with hl | ⟨i, hi, hne⟩
        · rwa [hstored.put.entry l hplace] at hl
        · refine absurd ?_ hne
          rw [hstored.put.content i (by rw [hmade.nextInode]; exact t.inode_lt l i hi),
            hmade.content]
      obtain ⟨hnone, hdir, x, hx, m, hm⟩ := hmade.named l hl'
      have hextends : Extends (createParents s.env t dest).1 t' := by
        intro k hk
        exact hstored.put.entry k (fun heq => hk (heq ▸ hfree))
      refine hallowed l hnone ⟨x, .part (m := m)
        (List.mem_cons_of_mem _ (mem_of_mem_newDirs hx)) ?_⟩
        fun _ _ _ _ => by rw [hstored.put.entry l hplace, hdir]
      obtain ⟨hnul, hempty⟩ := lookup_ok hm
      rw [Posix.lookup_eq hnul hempty] at hm ⊢
      exact walk_extends hextends false _ _ _ _ _ hm

/-- **A field of an upload** keeps the policy exactly under its condition. -/
theorem uploadField_keepsPolicy_iff {targetDir : String} {st : UploadState}
    (henabled : s.writeConfig.enabled = true)
    (hnew : ∀ dest, uploadTarget s st.tree targetDir (field.fileName.getD "") = .ok dest →
      NewUuid (createParents s.env st.tree dest).1 field.uuid) :
    KeepsPolicy s .uploadFiles st.tree (uploadField s targetDir st field).tree
        (requestPath s (fullRelative targetDir (field.fileName.getD ""))) ↔
      FieldMeets s targetDir st.tree field := by
  unfold FieldMeets
  by_cases hname : field.fileName.getD "" = ""
  · rw [uploadField_refused (Or.inl hname)]
    exact iff_of_true (keepsPolicy_of_not_changed (not_changed _)) (fun hne => absurd hname hne)
  cases htarget : uploadTarget s st.tree targetDir (field.fileName.getD "") with
  | error message =>
      rw [uploadField_refused (Or.inr ⟨message, htarget⟩)]
      refine iff_of_true (keepsPolicy_of_not_changed (not_changed _)) ?_
      rintro - dest ⟨⟩
  | ok dest =>
      obtain ⟨hvalid, hpattern, hoverwrite⟩ := uploadTarget_eq_ok htarget
      obtain ⟨rel, R, loc, hv⟩ := validateAndResolvePath_eq_ok hvalid
      have hnew := hnew dest htarget
      rw [uploadField_tree hname htarget, ← validated_requestPath hvalid]
      by_cases hnil : s.writeConfig.allowedPatterns = []
      · rw [keepsPolicy_nil_iff hnil, fieldTree_unchanged_iff hv hnew]
        constructor
        · rintro h - dest' ⟨⟩ -
          exact h
        · intro h
          exact h hname dest rfl hnil
      · refine iff_of_true ?_ (fun _ _ _ h => absurd h hnil)
        have hpermits : s.Permits dest := ⟨henabled, hpattern hnil⟩
        by_cases hex : ∃ l, canonicalize s.env st.tree dest = .ok l
        · obtain ⟨l, hl⟩ := hex
          exact keepsPolicy_existing hv hl hpermits hoverwrite hnew
        · exact keepsPolicy_missing hv (fun l hl => hex ⟨l, hl⟩) hpermits hnew

end Field

/-! ## The policy, request by request -/

/-- **Which requests keep the write policy.** An upload does if, for each field that is not refused,
a pattern is set, or the field needs no new directory and leaves no file. A deletion does if
everything below what it names is allowed and a pattern is set, or it is of an empty directory
that the system keeps. Making a directory does if each directory that is missing is allowed. -/
theorem web_write_policy_iff (s : AppState) (t : Tree) (req : WebRequest)
    (hnew : req.DrawsNewUuids s t) : req.KeepsPolicy s t ↔ req.Meets s t := by
  cases req with
  | upload path fields readError =>
      by_cases henabled : s.writeConfig.enabled = true
      · exact along_congr (fun st field h => uploadField_keepsPolicy_iff henabled h) _ _ hnew
      · -- no field is looked at
        have hnil : handledFields s fields = [] := by rw [handledFields, if_neg henabled]
        simp only [WebRequest.KeepsPolicy, WebRequest.Meets, hnil]
        exact Iff.rfl
  | delete path confirm => exact deleteFile_keepsPolicy_iff path confirm
  | mkdir path => exact createDirectory_keepsPolicy_iff path


/-! ## Concrete requests -/

/-- Writes to `/srv/tftp` under these patterns, nothing being overwritten. -/
def plainState (allowedPatterns : List String) : AppState where
  rootDir := ofString "/srv/tftp"
  writeConfig := ⟨true, false, allowedPatterns⟩
  glob := suffixGlob
  env := ⟨[], 40⟩
  errorText := fun _ => "I/O error"

def plainUpload : WebRequest := .upload none [⟨some "a.txt", [.written [97]], "1"⟩] none

/-- The name of a UUID is new if no listed location ends with it. -/
theorem newUuid_of_support {t : Tree} {uuid : String}
    (h : ∀ l ∈ t.support, l.getLast? ≠ some (tempName uuid))
    (hnul : (tempName uuid).toList.contains (Char.ofNat 0) = false) : NewUuid t uuid := by
  refine ⟨fun d => ?_, hnul⟩
  by_contra hsome
  exact h _ (t.mem_support _ hsome) List.getLast?_concat

theorem plainUpload_drawsNewUuids : plainUpload.DrawsNewUuids (plainState ["*.txt"]) emptyRoot := by
  refine ⟨fun dest hdest => ?_, trivial⟩
  have htarget : uploadTarget (plainState ["*.txt"]) emptyRoot "" "a.txt"
      = .ok (ofString "/srv/tftp/a.txt") := by decide +kernel
  have heq : dest = ofString "/srv/tftp/a.txt" :=
    Except.ok.inj (hdest.symm.trans htarget)
  rw [heq]
  exact newUuid_of_support (by decide +kernel) (by decide +kernel)

/-- An upload that is allowed keeps the policy. -/
theorem web_write_policy_iff_plainUpload :
    plainUpload.DrawsNewUuids (plainState ["*.txt"]) emptyRoot ∧
    (plainUpload.KeepsPolicy (plainState ["*.txt"]) emptyRoot ↔
      plainUpload.Meets (plainState ["*.txt"]) emptyRoot) ∧
    plainUpload.KeepsPolicy (plainState ["*.txt"]) emptyRoot :=
  have hiff := web_write_policy_iff (plainState ["*.txt"]) emptyRoot plainUpload
    plainUpload_drawsNewUuids
  ⟨plainUpload_drawsNewUuids, hiff,
    hiff.mpr ⟨fun _ _ _ hnil => absurd hnil (by decide), trivial⟩⟩

/-- **The three ways around the policy**: an upload where no pattern is set, a directory that no
pattern allows, and an allowed directory that is deleted with a file that is not. -/
theorem web_policy_broken :
    ¬ plainUpload.KeepsPolicy (plainState []) emptyRoot ∧
    ¬ (WebRequest.mkdir (some "d")).KeepsPolicy (plainState ["*.txt"]) emptyRoot ∧
    ¬ (WebRequest.delete (some "d.txt") (some "true")).KeepsPolicy (plainState ["*.txt"])
      ((emptyRoot.addDir ["srv", "tftp"] "d.txt").addFile ["srv", "tftp", "d.txt"] "a.bin") := by
  refine ⟨?_, ?_, ?_⟩
  · rintro ⟨h, -⟩
    refine (keepsPolicy_nil_iff rfl).mp h ["srv", "tftp", "a.txt"] (Or.inl ?_)
    decide +kernel
  · intro h
    have htarget : directoryTarget (plainState ["*.txt"]) emptyRoot (some "d")
        = .ok (ofString "/srv/tftp/d") := by decide +kernel
    have hpermits := (createDirectory_keepsPolicy_iff (some "d")).mp h _ htarget
      (ofString "/srv/tftp/d") (by decide +kernel)
    exact absurd hpermits.2 (by decide +kernel)
  · intro h
    have htarget : deleteTarget (plainState ["*.txt"])
        ((emptyRoot.addDir ["srv", "tftp"] "d.txt").addFile ["srv", "tftp", "d.txt"] "a.bin")
        (some "d.txt") (some "true") = .ok (ofString "/srv/tftp/d.txt") := by decide +kernel
    have hmeets := (deleteFile_keepsPolicy_iff (some "d.txt") (some "true")).mp h _ htarget
      ["srv", "tftp", "d.txt"] (by decide +kernel)
    have hpermits := hmeets.1 "a.bin" [] (by decide +kernel)
    exact absurd hpermits.2 (by decide +kernel)

end UsgTftp
