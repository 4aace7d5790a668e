import UsgTftp.Multicast.Server
import UsgTftp.WriteInside

set_option autoImplicit false

/-! # The paths of `src/main.rs`

`validate_and_resolve_path` of the second server program makes the checks of the shared one, except
that for a file which is not there it looks only at the directory that the file is named in, and
only if that directory is there. `write_file_safely`, whose text is that of the server's, then makes
all directories that are missing, also behind a link that leads out of the root.

`write_inside_iff` says exactly when what it creates and changes lies below the root.
-/

namespace UsgTftp.Main

open Posix Posix.Path Reactive

def validateAndResolvePath (env : Env) (t : Tree) (rootDir : Path) (filename : String) :
    Except TftpError Path :=
  let segs := filenameSegments filename
  if segs.any fun seg => seg = ".." || startsWithDot seg then .error (.tftp "Invalid filename")
  else
    let filePath := rootDir.join (trimStartSlashes segs)
    match rejectSymlink env t filePath with
    | .error e => .error e
    | .ok () =>
        match canonicalize env t rootDir with
        | .error _ => .error (.tftp "Root directory error")
        | .ok canonicalRoot =>
            match fileOrParent env t filePath with
            | none => .ok filePath
            | some loc =>
                if canonicalRoot <+: loc then .ok filePath else .error (.tftp "Access denied")

/-- If directories have to be made for the path, the nearest parent that exists lies below `R`. -/
def NewDirsMeet (env : Env) (t : Tree) (R : Loc) (p : Path) : Prop :=
  newDirs env t p.parents ≠ [] → ∀ loc, nearestCanonical env t p = some loc → R <+: loc

/-! ## What is checked -/

section

variable {env : Env} {t : Tree} {p : Path} {rel : List String} {R loc : Loc} {filename : String}

theorem requested_of_ok {rootDir : Path}
    (h : validateAndResolvePath env t rootDir filename = .ok p) :
    ∃ R, Requested env t rootDir p (trimStartSlashes (filenameSegments filename)) R ∧
      ∀ loc, fileOrParent env t p = some loc → R <+: loc := by
  unfold validateAndResolvePath at h
  simp only at h
  split_ifs at h with hdots
  split at h
  · cases h
  · rename_i hlink
    split at h
    · cases h
    · rename_i R hroot
      have hdots' := noDots_trimStartSlashes hdots
      split at h
      · rename_i hnone
        cases h
        refine ⟨R, ⟨rfl, hdots', trimStartSlashes_of_names_nil, hlink, hroot⟩, fun loc hloc => ?_⟩
        rw [hnone] at hloc
        cases hloc
      · rename_i loc hsome
        split_ifs at h with hin
        cases h
        refine ⟨R, ⟨rfl, hdots', trimStartSlashes_of_names_nil, hlink, hroot⟩, fun l hl => ?_⟩
        rw [hsome] at hl
        cases hl
        exact hin

/-- Some parent exists: the root, if no other does. -/
theorem exists_nearest {rootDir : String} (h : Requested env t (ofString rootDir) p rel R) :
    ∃ loc, nearestCanonical env t p = some loc := by
  by_cases hex : ∃ q, canonicalize env t p = .ok q
  · obtain ⟨q, hq⟩ := hex
    exact ⟨q, by rw [nearestCanonical, hq]⟩
  have hne := h.names_ne_nil fun q hq => hex ⟨q, hq⟩
  have hpos : 0 < (names rel).length := List.length_pos_of_ne_nil hne
  obtain ⟨Q, above, dots, hparents, hdots, hprops, -, hzero⟩ :=
    parents_join (ofString rootDir) h.dot_notMem
  rw [← h.path] at hparents hprops
  obtain ⟨hbase, habove⟩ := hzero hne
  obtain ⟨habs, hslash, hnul⟩ := hprops 0 hpos
  have hempty : ¬ (Q 0).IsEmpty := by
    intro hempty
    -- then the root has only dots as names, and begins with one
    have hlead := (habove hempty).2
    rw [hempty.2, List.nil_append] at hbase
    have hrel : (ofString rootDir).absolute = false := habs ▸ hempty.1
    have hroot : (ofString rootDir).comps ≠ [] := fun hnil => h.walk_root.1 ⟨hrel, hnil⟩
    rw [lead_ofString hrel hroot (hbase ▸ hdots)] at hlead
    cases hlead
  have hcanon := h.canonicalize_base hbase hdots habs (hnul h.hasNul) hslash hempty
  have herr : ∃ e, canonicalize env t p = .error e := by
    cases hc : canonicalize env t p with
    | ok q => exact absurd ⟨q, hc⟩ hex
    | error e => exact ⟨e, rfl⟩
  obtain ⟨e, he⟩ := herr
  rw [nearestCanonical, he]
  by_contra hno
  have hnone : (p.parents.findSome? fun dir => (canonicalize env t dir).toOption) = none := by
    cases hf : p.parents.findSome? fun dir => (canonicalize env t dir).toOption with
    | none => rfl
    | some loc => exact absurd ⟨loc, hf⟩ hno
  have hmem : Q 0 ∈ p.parents := by
    rw [hparents]
    exact List.mem_append_left _ (List.mem_map.mpr ⟨0, by simpa using hpos, rfl⟩)
  have hbad := List.findSome?_eq_none_iff.mp hnone (Q 0) hmem
  rw [hcanon] at hbad
  cases hbad

/-! ## Outside of the root -/

variable {rootDir : Path}

/-- If the directory that the file is named in were there, it would be the nearest parent. -/
theorem lost_of_outside (h : Resolved env t rootDir p rel R loc) (hin : ¬ R <+: loc)
    (hcheck : ∀ l, fileOrParent env t p = some l → R <+: l)
    (hno : ∀ q, canonicalize env t p ≠ .ok q) :
    ∀ d k, walk t true env.maxSymlinks (rootDir.start env.cwd) (names p.dirSegs)
      ≠ .ok (.found d, k) := by
  intro d k hreached
  obtain ⟨m, Q, above, hp⟩ := h.nearestParent hno
  obtain ⟨e, he⟩ : ∃ e, canonicalize env t p = .error e := by
    cases hc : canonicalize env t p with
    | ok q => exact absurd hc (hno q)
    | error e => exact ⟨e, rfl⟩
  have hlen : 0 < (names rel).length := by
    have := hp.lt
    omega
  have hparent : p.parent = some (Q ((names rel).length - 1)) := by
    obtain ⟨n, hn⟩ : ∃ n, (names rel).length = n + 1 := ⟨(names rel).length - 1, by omega⟩
    rw [parent, hp.parents, hn, List.range_succ]
    simp
  by_cases hm : m + 1 = (names rel).length
  · -- it is the nearest parent, and was checked
    apply hin
    apply hcheck
    rw [fileOrParent, he, hparent, show (names rel).length - 1 = m by omega, Option.bind_some,
      hp.canonical]
    rfl
  · have hlast : (names rel).length - 1 < (names rel).length := by omega
    obtain ⟨y, -, -, hcomps⟩ := h.fileName_eq (List.ne_nil_of_length_pos hlen)
    have hbase : names p.dirSegs
        = rootDir.comps ++ (names rel).take ((names rel).length - 1) := by
      rw [h.comps, ← List.take_append_drop ((names rel).length - 1) (names rel),
        ← List.append_assoc] at hcomps
      refine (List.append_inj' hcomps ?_).1.symm
      rw [List.length_drop, List.length_singleton]
      omega
    have hQ := hp.comps ((names rel).length - 1) (by have := hp.lt; omega) hlast
    have hempty : ¬ (Q ((names rel).length - 1)).IsEmpty := by
      rintro ⟨-, hnil⟩
      rw [hQ] at hnil
      have hzero := congrArg List.length (List.append_eq_nil_iff.mp hnil).2
      rw [List.length_take, List.length_nil] at hzero
      have := hp.lt
      omega
    refine hp.missing ((names rel).length - 1) (by have := hp.lt; omega) hlast d
      (canonicalize_eq_ok.mpr ⟨k, ?_⟩)
    rw [lookup_eq (hp.nul _ hlast) hempty, hp.start _ hlast,
      fullComps_of_noSlash (hp.slash _ hlast), hQ, ← hbase, hreached]

/-- With the parents not made, nothing is done. -/
theorem writesInside_of_failed {e : Errno} (hfailed : createParents env t p = (t, .error e))
    (data : Bytes) : WritesInside env t R p data := by
  have hstep : ∀ (s : Tree × CommitState) (io : IoOutcome),
      (s.1 = t ∧ (s.2 = .createDirs ∨ ∃ e, s.2 = .failed e)) → True →
      ((((Commit.mk p data).step env io s.1 s.2).1 = t ∧
        (((Commit.mk p data).step env io s.1 s.2).2 = .createDirs ∨
          ∃ e, ((Commit.mk p data).step env io s.1 s.2).2 = .failed e)) ∧
        StepInside env (Commit.mk p data) R s io) := by
    rintro ⟨t', st⟩ io ⟨rfl, hst⟩ -
    have hopened : st = .createTemp → (∃ n, io = .ok n) → ∀ t₁ l i,
        create env t' (Commit.mk p data).tempPath = .ok (t₁, l, i) → R <+: l := by
      rintro rfl
      rcases hst with h | ⟨e, h⟩ <;> cases h
    suffices hnext : ∃ e, (Commit.mk p data).step env io t' st = (t', .failed e) by
      obtain ⟨e, he⟩ := hnext
      refine ⟨⟨by rw [he], Or.inr ⟨e, by rw [he]⟩⟩, ⟨?_, hopened⟩⟩
      show Confined R t' ((Commit.mk p data).step env io t' st).1
      rw [he]
      exact Confined.refl R t'
    rcases hst with rfl | ⟨e', rfl⟩
    · cases io with
      | error e' => exact ⟨e', rfl⟩
      | ok n =>
          refine ⟨e, ?_⟩
          unfold Commit.step
          simp only [hfailed]
    · exact ⟨e', rfl⟩
  intro ios
  exact along_of_invariant hstep ios _ ⟨rfl, Or.inl rfl⟩ (along_always (fun _ _ => trivial) ios _)

/-- Directories that are made below a parent outside of the root are changes outside of it. -/
theorem not_writesInside_of_made (h : Resolved env t rootDir p rel R loc) (hin : ¬ R <+: loc)
    {t₁ : Tree} (hcreated : createParents env t p = (t₁, .ok ())) {d : Loc} (hbelow : loc <+: d)
    (hne : d ≠ loc) (hnew : ∀ k, loc <+: k → k ≠ loc → k <+: d → t.entry k = none)
    (hdir : t₁.entry d = some .dir) (data : Bytes) : ¬ WritesInside env t R p data := by
  intro hw
  obtain ⟨hstep, -⟩ := hw [.ok 0]
  have hconfined := hstep.confined
  unfold Commit.step at hconfined
  simp only [hcreated] at hconfined
  have hRd : R <+: d := by
    apply hconfined.entry
    rw [hdir, hnew d hbelow hne List.prefix_rfl]
    exact Option.some_ne_none _
  rcases List.prefix_or_prefix_of_prefix hRd hbelow with hR | hR
  · exact hin hR
  · -- the root itself would be new
    have hneR : R ≠ loc := fun heq => hin (heq ▸ List.prefix_rfl)
    have hroot := h.root_dir
    rw [hnew R hR hneR hRd] at hroot
    cases hroot

theorem newDirs_ne_nil {t₁ : Tree} (h : Resolved env t rootDir p rel R loc)
    (hcreated : createParents env t p = (t₁, .ok ())) {d : Loc} (hnone : t.entry d = none)
    (hdir : t₁.entry d = some .dir) : newDirs env t p.parents ≠ [] := by
  have hmade := h.createParents_made
  rw [hcreated] at hmade
  obtain ⟨-, -, q, hq, -⟩ := hmade.named d (by
    rw [hdir, hnone]
    exact Option.some_ne_none _)
  exact List.ne_nil_of_mem hq

theorem newDirs_eq_nil {e : Errno} (h : Resolved env t rootDir p rel R loc)
    (hfailed : createParents env t p = (t, .error e)) : newDirs env t p.parents = [] := by
  have hmade := h.createParents_made
  rw [hfailed] at hmade
  by_contra hne
  obtain ⟨q, hq⟩ := List.exists_mem_of_ne_nil _ hne
  obtain ⟨l, m, -, hnone, hdir⟩ := hmade.made q hq
  rw [hnone] at hdir
  cases hdir

/-- **When `write_file_safely` stays below the root**, for a path that `src/main.rs` has
accepted. -/
theorem write_inside_iff {env : Env} {t : Tree} {rootDir filename : String} {p : Path} {R : Loc}
    (hok : validateAndResolvePath env t (ofString rootDir) filename = .ok p)
    (hroot : canonicalize env t (ofString rootDir) = .ok R) (data : Bytes) :
    WritesInside env t R p data ↔ NewDirsMeet env t R p ∧
      TempMeets env t R (Commit.mk p data).tempPath
        (PlacedInside env t R (ofString rootDir) filename) := by
  obtain ⟨R', hreq, hcheck⟩ := requested_of_ok hok
  have hR := hreq.root
  rw [hroot] at hR
  cases hR
  obtain ⟨loc, hnear⟩ := exists_nearest hreq
  have hres : Resolved env t (ofString rootDir) p (trimStartSlashes (filenameSegments filename)) R
      loc := ⟨hreq, hnear⟩
  by_cases hin : R <+: loc
  · rw [writes_inside_iff ⟨hres, hin⟩ data]
    refine ⟨fun h => ⟨fun _ l hl => ?_, h⟩, And.right⟩
    rw [hnear] at hl
    cases hl
    exact hin
  have hno : ∀ q, canonicalize env t p ≠ .ok q := by
    intro q hq
    have hq' := hnear
    rw [nearestCanonical, hq] at hq'
    cases hq'
    exact hin (hcheck _ (by rw [fileOrParent, hq]))
  obtain ⟨x, hname, -, -⟩ := hres.fileName_eq (hres.names_ne_nil hno)
  have hlost := lost_of_outside hres hin hcheck hno
  cases hres.parents_cases hname with
  | there d k hreached _ _ _ => exact absurd hreached (hlost d k)
  | blocked e _ hfailed =>
      refine iff_of_true (writesInside_of_failed hfailed data) ⟨fun hne => ?_, ?_⟩
      · exact absurd (newDirs_eq_nil hres hfailed) hne
      · obtain ⟨e', he'⟩ := hres.symlinkMetadata_of_lost hname hlost
        show TempMeets env t R (p.withExtension ".tftp-tmp") _
        rw [TempMeets, he']
        exact placedInside_of_lost hres hname hlost
  | made t₁ d k _ hcreated hreached hdir _ hbelow hne hnew =>
      have hnone : t.entry d = none := hnew d hbelow hne List.prefix_rfl
      refine iff_of_false
        (not_writesInside_of_made hres hin hcreated hbelow hne hnew hdir data) (fun h => ?_)
      exact hin (h.1 (newDirs_ne_nil hres hcreated hnone hdir) loc hnear)

/-- A new file in a new directory. -/
theorem write_inside_iff_new_file :
    let env : Env := ⟨[], 40⟩
    let p := ofString "/srv/tftp/configs/a.cfg"
    validateAndResolvePath env emptyRoot (ofString "/srv/tftp") "configs/a.cfg" = .ok p ∧
    (WritesInside env emptyRoot ["srv", "tftp"] p [97] ↔
      NewDirsMeet env emptyRoot ["srv", "tftp"] p ∧
      TempMeets env emptyRoot ["srv", "tftp"] (Commit.mk p [97]).tempPath
        (PlacedInside env emptyRoot ["srv", "tftp"] (ofString "/srv/tftp") "configs/a.cfg")) := by
  intro env p
  have hok :
      validateAndResolvePath env emptyRoot (ofString "/srv/tftp") "configs/a.cfg" = .ok p := by
    decide +kernel
  exact ⟨hok, write_inside_iff hok (by decide +kernel) [97]⟩

/-- `/etc`, and the link `/srv/tftp/out` to it. -/
def leakTree : Tree := (emptyRoot.addDir [] "etc").addLink ["srv", "tftp"] "out" (ofString "/etc")

/-- **A directory is made outside of the root**: the parent of the file, which is not there, is
behind a link. The shared validator refuses the name. -/
theorem write_leaves_root :
    let env : Env := ⟨[], 40⟩
    let rootDir := ofString "/srv/tftp"
    let p := ofString "/srv/tftp/out/a/b"
    validateAndResolvePath env leakTree rootDir "out/a/b" = .ok p ∧
    canonicalize env leakTree rootDir = .ok ["srv", "tftp"] ∧
    ¬ WritesInside env leakTree ["srv", "tftp"] p [97] ∧
    UsgTftp.validateAndResolvePath env leakTree rootDir "out/a/b"
      = .error (.tftp "Access denied") := by
  intro env rootDir p
  refine ⟨by decide +kernel, by decide +kernel, fun h => ?_, by decide +kernel⟩
  obtain ⟨hstep, -⟩ := h [.ok 0]
  have hnone : leakTree.entry ["etc", "a"] = none := by decide +kernel
  have hdir : ((Commit.mk p [97]).step env (.ok 0) leakTree .createDirs).1.entry ["etc", "a"]
      = some .dir := by decide +kernel
  have hin := hstep.confined.entry ["etc", "a"] (by
    rw [hdir, hnone]
    exact Option.some_ne_none _)
  exact absurd hin (by decide)

end

end UsgTftp.Main
