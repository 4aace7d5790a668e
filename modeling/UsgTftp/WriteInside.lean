import UsgTftp.Lib.Reactive
import UsgTftp.Server.Commit
import UsgTftp.TempFiles

set_option autoImplicit false

/-! # What `write_file_safely` changes

The process of `Server/Commit.lean`, run from the tree in which its path was accepted with no other
task in between. `writes_inside_iff` says when all that it creates or changes lies below the root:
its temporary file has to be put there, and then the rename stays there too.
-/

namespace UsgTftp

open Posix Posix.Path Reactive

/-- A step changes only objects below `R`, and what it opens for writing lies below `R`. -/
structure StepInside (env : Env) (c : Commit) (R : Loc) (s : Tree × CommitState) (io : IoOutcome) :
    Prop where
  confined : Confined R s.1 (c.step env io s.1 s.2).1
  opened : s.2 = .createTemp → (∃ n, io = .ok n) →
    ∀ t' loc i, create env s.1 c.tempPath = .ok (t', loc, i) → R <+: loc

/-- **`write_file_safely` stays below `R`**, whatever comes of its calls. -/
def WritesInside (env : Env) (t : Tree) (R : Loc) (p : Path) (data : Bytes) : Prop :=
  ∀ ios : List IoOutcome, Along (fun s io => (Commit.mk p data).step env io s.1 s.2)
    (StepInside env (Commit.mk p data) R) (t, .createDirs) ios

section

variable {env : Env} {t t' t'' : Tree} {rootDir p : Path} {rel : List String} {R loc l : Loc}
  {i : Nat} {filename : String}

/-! ## Opening and renaming -/

theorem prefix_dropLast (h : R <+: l) (hne : l ≠ R) : R <+: l.dropLast := by
  obtain ⟨s, rfl⟩ := h
  induction s using List.reverseRecOn with
  | nil => exact absurd (List.append_nil R) hne
  | append_singleton s c _ =>
      rw [← List.append_assoc, List.dropLast_concat]
      exact List.prefix_append _ _

/-- What an opened file leaves as it is. -/
structure Opened (t t' : Tree) (l : Loc) (i : Nat) : Prop where
  ext : Extends t t'
  dirs : ∀ k, t'.entry k = some .dir → t.entry k = some .dir
  file : t'.entry l = some (.file i)
  notDir : t.entry l ≠ some .dir
  entry : ∀ k, t'.entry k ≠ t.entry k → k = l
  content : ∀ j, t'.content j ≠ t.content j → j = i

theorem opened_of_create (h : create env t p = .ok (t', l, i)) : Opened t t' l i := by
  obtain ⟨-, ⟨m, -, he, rfl⟩ | ⟨d, n, m, hl, rfl, rfl, rfl⟩⟩ := create_eq_ok h
  · refine ⟨fun _ _ => rfl, fun _ h => h, he, ?_, fun k hk => absurd rfl hk, fun j hj => ?_⟩
    · rw [he]
      intro hd
      cases hd
    · by_contra hne
      exact hj (Function.update_of_ne hne _ _)
  · obtain ⟨hnul, hempty⟩ := lookup_ok hl
    rw [lookup_eq hnul hempty] at hl
    obtain ⟨hdir, hnone⟩ := walk_eq_absent t _ _ _ _ _ _ _ hl
    have hfile := Tree.addFile_entry hdir hnone
    refine ⟨t.extends_addFile d n, fun k hk => ?_, hfile, ?_, fun k hk => ?_, fun j hj => ?_⟩
    · by_cases hkl : k = d ++ [n]
      · rw [hkl, hfile] at hk
        cases hk
      · rwa [Tree.addFile_entry_of_ne hkl] at hk
    · rw [hnone]
      intro hd
      cases hd
    · by_contra hne
      exact hk (Tree.addFile_entry_of_ne hne)
    · by_contra hne
      exact hj (Tree.addFile_content_of_ne hne)

theorem Opened.confined (h : Opened t t' l i) (hR : R <+: l) : Confined R t t' where
  entry := by
    intro k hk
    rw [h.entry k hk]
    exact hR
  content := by
    intro j hj
    rw [h.content j hj]
    exact ⟨l, hR, h.file⟩

/-- The root of an accepted path is a directory. -/
theorem Resolved.root_dir (h : Resolved env t rootDir p rel R loc) : t.entry R = some .dir := by
  by_cases hnil : names rel = []
  · exact (h.root_lookup hnil).1
  · obtain ⟨-, n, hroot⟩ := h.walk_root
    by_contra hdir
    -- the walk to the path would stop at the root
    have hlink := h.link
    obtain ⟨c, cs, hcs⟩ := List.exists_cons_of_ne_nil hnil
    rw [rejectSymlink, symlinkMetadata, lookup_eq h.hasNul h.not_isEmpty, h.start_eq, fullComps,
      h.comps, hcs, List.append_assoc, List.cons_append, walk_append t false (List.cons_ne_nil _ _),
      hroot, andThen, walk_notDir hdir] at hlink
    cases hlink

/-- A path that names something other than a directory is in a directory of the root. -/
theorem Validated.dir_inside (h : Validated env t rootDir p rel R loc) {d : Loc} {k : Nat}
    {y : String} (hy : Normal y) (hcomps : p.comps = names p.dirSegs ++ [y])
    (hreached : walk t true env.maxSymlinks (rootDir.start env.cwd) (names p.dirSegs)
      = .ok (.found d, k)) (hdir : t.entry d = some .dir) (hslash : p.trailingSlash = false)
    {q : Loc} (hq : canonicalize env t p = .ok q) (hnot : t.entry (d ++ [y]) ≠ some .dir) :
    R <+: d := by
  have hlookup : ∀ follow, lookup env t follow p p.fullComps = walk t follow k d [y] := by
    intro follow
    rw [fullComps_of_noSlash hslash, lookup_eq h.hasNul h.not_isEmpty, h.start_eq, hcomps,
      walk_append t follow (List.cons_ne_nil _ _), hreached, andThen]
  have hin : R <+: q := h.openRead_inside hq
  obtain ⟨m, hm⟩ := canonicalize_eq_ok.mp hq
  rw [hlookup] at hm
  cases he : t.entry (d ++ [y]) with
  | none =>
      rw [walk_absent hdir hy he, if_pos rfl] at hm
      cases hm
  | some e =>
      have hplain : ∀ target, e ≠ .symlink target := by
        rintro target rfl
        have hlink := h.link
        rw [rejectSymlink, symlinkMetadata, hlookup, walk_link hdir hy he, if_pos ⟨rfl, rfl⟩]
          at hlink
        simp only [he] at hlink
        cases hlink
      rw [walk_plain hdir hy he hplain, walk_nil] at hm
      cases hm
      rcases List.prefix_concat_iff.mp (by simpa using hin) with heq | hR
      · -- the root itself is a directory
        rw [← heq, h.root_dir] at hnot
        exact absurd rfl hnot
      · exact hR

/-- No temporary file is opened for a path without a file name. -/
theorem Resolved.exists_fileName (h : Resolved env t rootDir p rel R loc)
    (hopened : ∃ r, create env (createParents env t p).1 (p.withExtension ".tftp-tmp") = .ok r) :
    ∃ x, p.fileName = some x := by
  cases hname : p.fileName with
  | some x => exact ⟨x, rfl⟩
  | none =>
      have hnil := h.names_eq_nil hname
      obtain ⟨r, hc⟩ := hopened
      rw [h.createParents_root hnil, withExtension, hname] at hc
      exact absurd hc (h.create_root hnil r)

/-- With its parents made, the file is named in a directory, which lies below the root unless
something stood at the path before. -/
theorem Validated.named_in (h : Validated env t rootDir p rel R loc) {x : String}
    (hname : p.fileName = some x) (hok : (createParents env t p).2 = .ok ()) :
    ∃ d k, walk (createParents env t p).1 true env.maxSymlinks (rootDir.start env.cwd)
        (names p.dirSegs) = .ok (.found d, k) ∧
      (createParents env t p).1.entry d = some .dir ∧
      ((∃ q, canonicalize env t p = .ok q ∧ (createParents env t p).1 = t) ∨ R <+: d) := by
  cases h.parents_cases hname with
  | there d k hreached hdir hsame hnear =>
      rw [hsame]
      refine ⟨d, k, hreached, hdir, hnear.imp ?_ ?_⟩
      · rintro ⟨q, hq⟩
        exact ⟨q, hq, rfl⟩
      · rintro rfl
        exact h.inside
  | blocked e hlost hfailed =>
      rw [hfailed] at hok
      cases hok
  | made t₁ d k hlost hcreated hreached hdir hfree hbelow _ _ =>
      rw [hcreated]
      exact ⟨d, k, hreached, hdir, Or.inr (h.inside.trans hbelow)⟩

/-- Without a slash at its end, the path has its last name in the directory. -/
theorem Resolved.destination_eq (h : Resolved env t rootDir p rel R loc)
    (hlast : lastNormal p = true) (hslash : p.trailingSlash = false) {d : Loc} {k : Nat}
    (hreached : walk t' true env.maxSymlinks (rootDir.start env.cwd) (names p.dirSegs)
      = .ok (.found d, k)) (hdir : t'.entry d = some .dir) :
    ∃ y, Normal y ∧ p.comps = names p.dirSegs ++ [y] ∧ destination env t' p = some (d ++ [y]) := by
  have hne : names rel ≠ [] := by
    intro hnil
    rcases (h.root_lookup hnil).2.1 with hs | hempty
    · rw [hs] at hslash
      cases hslash
    · rw [lastNormal, hempty] at hlast
      cases hlast
  obtain ⟨y, -, hy, hcomps⟩ := h.fileName_eq hne
  refine ⟨y, hy, hcomps, ?_⟩
  rw [destination, lookup_eq h.hasNul h.not_isEmpty, h.start_eq, hcomps,
    walk_append t' false (List.cons_ne_nil _ _), hreached, andThen, walk_single k hdir hy]
  by_cases hnone : t'.entry (d ++ [y]) = none
  · rw [if_pos hnone]
  · rw [if_neg hnone]

/-- What is renamed is no directory, and has its name in the directory of the path. -/
theorem Resolved.temp_entry (h : Resolved env t rootDir p rel R loc) {x : String}
    (hname : p.fileName = some x) (hext : Extends t' t'')
    (hdirs : ∀ k, t''.entry k = some .dir → t'.entry k = some .dir) {d : Loc} {k : Nat}
    (hreached : walk t' true env.maxSymlinks (rootDir.start env.cwd) (names p.dirSegs)
      = .ok (.found d, k)) (hdir : t'.entry d = some .dir)
    (hopened : ∃ r, create env t' (p.withExtension ".tftp-tmp") = .ok r) {old : Loc} {m : Nat}
    (hold : lookup env t'' false (p.withExtension ".tftp-tmp") (p.withExtension ".tftp-tmp").comps
      = .ok (.found old, m)) : d <+: old ∧ t''.entry old ≠ some .dir := by
  have hin := h.namesIn_withExtension hname hreached hdir
  have hdir'' := hext.entry_eq hdir
  have hreached'' := walk_extends hext true _ _ _ _ _ hreached
  obtain ⟨k'', hk''⟩ := (h.namesIn_withExtension hname hreached'' hdir'').lookup_eq
  rw [hk'', walk_single k'' hdir'' hin.normal] at hold
  split_ifs at hold
  · cases hold
  · cases hold
    refine ⟨List.prefix_append _ _, fun hd => ?_⟩
    obtain ⟨⟨t₂, l, i⟩, hc⟩ := hopened
    obtain ⟨-, r, n, hl, htakes, -⟩ := create_iff.mp ⟨t₂, i, hc⟩
    exact hin.not_takes_dir (hdirs _ hd) hl htakes

/-- **The rename stays below the root**, since what would lead out of it is a directory, and
nothing but a directory takes its place. -/
theorem Validated.rename_confined (h : Validated env t rootDir p rel R loc)
    (hok : (createParents env t p).2 = .ok ()) (hext : Extends (createParents env t p).1 t')
    (hdirs : ∀ k, t'.entry k = some .dir → (createParents env t p).1.entry k = some .dir)
    (hopened : ∃ r, create env (createParents env t p).1 (p.withExtension ".tftp-tmp") = .ok r)
    (hr : rename env t' (p.withExtension ".tftp-tmp") p = .ok t'') : Confined R t' t'' := by
  obtain ⟨hnormal, hcontent, old, new, m, hold, hnew, hentry, hkind⟩ := rename_changes hr
  obtain ⟨x, hname⟩ := h.exists_fileName hopened
  obtain ⟨d, k, hreached, hdir, hnear⟩ := h.named_in hname hok
  obtain ⟨hold', hfile⟩ := h.temp_entry hname hext hdirs hreached hdir hopened hold
  obtain ⟨hslash, hkept⟩ := hkind hfile
  obtain ⟨y, hy, hcomps, hdest⟩ := h.destination_eq hnormal hslash
    (walk_extends hext true _ _ _ _ _ hreached) (hext.entry_eq hdir)
  rw [hdest] at hnew
  cases hnew
  rcases hkept with rfl | hnot
  · exact Confined.refl R t''
  · have hR : R <+: d := by
      rcases hnear with ⟨q, hq, hsame⟩ | hR
      · rw [hsame] at hreached hdir hext
        exact h.dir_inside hy hcomps hreached hdir hslash hq fun hd => hnot (hext.entry_eq hd)
      · exact hR
    refine ⟨fun l hl => ?_, fun j hj => absurd (by rw [hcontent]) hj⟩
    rcases hentry l hl with hp | hp
    · exact hR.trans (hold'.trans hp)
    · exact hR.trans ((List.prefix_append _ _).trans hp)

/-! ## The run -/

/-- The temporary file with inode `i` is open in `t'`, in the root. -/
structure TempOpen (env : Env) (t : Tree) (R : Loc) (p : Path) (t' : Tree) (i : Nat) : Prop where
  parents : (createParents env t p).2 = .ok ()
  opened : ∃ r, create env (createParents env t p).1 (p.withExtension ".tftp-tmp") = .ok r
  ext : Extends (createParents env t p).1 t'
  dirs : ∀ k, t'.entry k = some .dir → (createParents env t p).1.entry k = some .dir
  file : ∃ l, R <+: l ∧ t'.entry l = some (.file i)

theorem TempOpen.setContent (h : TempOpen env t R p t' i) (bytes : Bytes) :
    TempOpen env t R p (t'.setContent i bytes) i :=
  ⟨h.parents, h.opened, h.ext, h.dirs, h.file⟩

/-- Writing to the temporary file changes nothing else. -/
theorem TempOpen.confined (h : TempOpen env t R p t' i) (bytes : Bytes) :
    Confined R t' (t'.setContent i bytes) := by
  obtain ⟨l, hR, hl⟩ := h.file
  refine ⟨fun k hk => absurd rfl hk, fun j hj => ⟨l, hR, ?_⟩⟩
  have hji : j = i := by
    by_contra hne
    exact hj (Function.update_of_ne hne _ _)
  rw [hji]
  exact hl

theorem tempOpen_of_create (hmade : createParents env t p = (t', .ok ()))
    (hc : create env t' (p.withExtension ".tftp-tmp") = .ok (t'', l, i)) (hR : R <+: l) :
    TempOpen env t R p t'' i := by
  have ht' : (createParents env t p).1 = t' := by rw [hmade]
  have ho := opened_of_create hc
  constructor
  · rw [hmade]
  · rw [ht']
    exact ⟨_, hc⟩
  · rw [ht']
    exact ho.ext
  · rw [ht']
    exact ho.dirs
  · exact ⟨l, hR, ho.file⟩

/-- What holds in each state of the process, without other tasks. -/
structure WriteInv (env : Env) (t : Tree) (R : Loc) (p : Path) (s : Tree × CommitState) : Prop where
  start : s.2 = .createDirs → s.1 = t
  made : s.2 = .createTemp → createParents env t p = (s.1, .ok ())
  held : ∀ i, s.2.inode = some i → TempOpen env t R p s.1 i

/-- An ended process holds nothing. -/
theorem writeInv_of_ended {st : CommitState} (h1 : st ≠ .createDirs) (h2 : st ≠ .createTemp)
    (h3 : st.inode = none) : WriteInv env t R p (t', st) := by
  refine ⟨fun h => absurd h h1, fun h => absurd h h2, fun i hi => ?_⟩
  rw [h3] at hi
  cases hi

theorem writeInv_failed (e : Errno) : WriteInv env t R p (t', .failed e) :=
  writeInv_of_ended (by simp) (by simp) rfl

theorem writeInv_of_open {st : CommitState} (hst : st.inode = some i)
    (h : TempOpen env t R p t' i) : WriteInv env t R p (t', st) := by
  refine ⟨?_, ?_, fun j hj => ?_⟩
  · rintro (rfl : st = .createDirs)
    cases hst
  · rintro (rfl : st = .createTemp)
    cases hst
  · have hji : j = i := Option.some.inj (hj.symm.trans hst)
    rw [hji]
    exact h

theorem TempInside.opened (htemp : TempInside env t R p (p.withExtension ".tftp-tmp"))
    (hmade : createParents env t p = (t', .ok ()))
    (hc : create env t' (p.withExtension ".tftp-tmp") = .ok (t'', l, i)) : R <+: l := by
  have hl := htemp (by rw [hmade]) t'' l i (by rw [hmade]; exact hc)
  exact hl.trans (List.dropLast_prefix l)

/-- **One step** keeps the invariant and changes only what lies below the root. -/
theorem Validated.step_inside (h : Validated env t rootDir p rel R loc)
    (htemp : TempInside env t R p (p.withExtension ".tftp-tmp")) (data : Bytes)
    (s : Tree × CommitState) (io : IoOutcome) (hinv : WriteInv env t R p s) :
    WriteInv env t R p ((Commit.mk p data).step env io s.1 s.2) ∧
      StepInside env (Commit.mk p data) R s io := by
  have hopened : s.2 = .createTemp → (∃ n, io = .ok n) → ∀ t' loc i,
      create env s.1 (Commit.mk p data).tempPath = .ok (t', loc, i) → R <+: loc :=
    fun hs _ _ _ _ hc => htemp.opened (hinv.made hs) hc
  suffices hstep : WriteInv env t R p ((Commit.mk p data).step env io s.1 s.2) ∧
      Confined R s.1 ((Commit.mk p data).step env io s.1 s.2).1 from
    ⟨hstep.1, hstep.2, hopened⟩
  obtain ⟨t', st⟩ := s
  have hfails : ∀ e, WriteInv env t R p (t', .failed e) ∧ Confined R t' t' :=
    fun e => ⟨writeInv_failed e, Confined.refl R t'⟩
  cases st with
  | committed place => exact ⟨hinv, Confined.refl R t'⟩
  | failed e => exact hfails e
  | createDirs =>
      obtain rfl : t' = t := hinv.start rfl
      cases io with
      | error e => exact hfails e
      | ok n =>
          have hconfined := h.writeConfined.1
          unfold Commit.step
          cases hmade : createParents env t' p with
          | mk t₁ r =>
              rw [hmade] at hconfined
              cases r with
              | error e =>
                  simp only
                  exact ⟨writeInv_failed e, hconfined⟩
              | ok u =>
                  simp only
                  refine ⟨⟨by simp, fun _ => hmade, fun i hi => ?_⟩, hconfined⟩
                  cases hi
  | createTemp =>
      have hmade := hinv.made rfl
      cases io with
      | error e => exact hfails e
      | ok n =>
          unfold Commit.step
          cases hc : create env t' (Commit.mk p data).tempPath with
          | error e =>
              simp only
              exact hfails e
          | ok r =>
              obtain ⟨t₂, l, i⟩ := r
              simp only
              have hR : R <+: l := htemp.opened hmade hc
              exact ⟨writeInv_of_open rfl (tempOpen_of_create hmade hc hR),
                (opened_of_create hc).confined hR⟩
  | writing i written =>
      have hopen := hinv.held i rfl
      cases io with
      | error e => exact hfails e
      | ok n =>
          unfold Commit.step
          by_cases hmore : written < data.length
          · simp only [hmore, if_true]
            exact ⟨writeInv_of_open rfl (hopen.setContent _), hopen.confined _⟩
          · simp only [hmore, if_false]
            exact ⟨writeInv_of_open rfl hopen, Confined.refl R t'⟩
  | flushed i =>
      have hopen := hinv.held i rfl
      cases io with
      | error e => exact hfails e
      | ok n =>
          unfold Commit.step
          cases hr : rename env t' (Commit.mk p data).tempPath p with
          | error e =>
              simp only
              exact hfails e
          | ok t₃ =>
              simp only
              exact ⟨writeInv_of_ended (by simp) (by simp) rfl,
                h.rename_confined hopen.parents hopen.ext hopen.dirs hopen.opened hr⟩

/-- **When `write_file_safely` stays below the root**, for a path that was accepted: if its
temporary file does. -/
theorem writes_inside_iff
    (h : Validated env t rootDir p (trimStartSlashes (filenameSegments filename)) R loc)
    (data : Bytes) : WritesInside env t R p data ↔
      TempMeets env t R (Commit.mk p data).tempPath (PlacedInside env t R rootDir filename) := by
  show _ ↔ TempMeets env t R (p.withExtension ".tftp-tmp") _
  rw [← temp_inside_iff h]
  constructor
  · -- the file is opened in the second step
    intro hw hok t' l i hc
    have hmade : createParents env t p = ((createParents env t p).1, .ok ()) := by rw [← hok]
    obtain ⟨-, hstep, -⟩ := hw [.ok 0, .ok 0]
    have hnext : (Commit.mk p data).step env (.ok 0) t .createDirs
        = ((createParents env t p).1, .createTemp) := by
      unfold Commit.step
      simp only
      rw [hmade]
    simp only [hnext] at hstep
    have hl : R <+: l := hstep.opened rfl ⟨0, rfl⟩ t' l i hc
    refine prefix_dropLast hl ?_
    rintro rfl
    exact (opened_of_create hc).notDir
      ((dirsAdded_createParents env t p).extends_.entry_eq h.root_dir)
  · intro htemp ios
    refine along_of_invariant (fun s io hs _ => h.step_inside htemp data s io hs) ios _ ?_
      (along_always (fun _ _ => trivial) ios _)
    exact ⟨fun _ => rfl, by simp, fun i hi => by cases hi⟩

end

end UsgTftp
