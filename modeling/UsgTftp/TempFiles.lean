import UsgTftp.Lib.NamesIn
import UsgTftp.PathCreation

set_option autoImplicit false

/-! # Where temporary files are put

A file that is received is first written under a temporary name beside its own, after the parents
of its path were made. `Resolved.parents_cases` tells the ways in which that directory comes to be
there. It lies in the root exactly if what stands at the path before does (`PlacedInside`), and the
file that `with_extension` names is put there unless a link has that name (`temp_inside_iff`).
-/

namespace UsgTftp

open Posix Posix.Path

/-- What the path of a request names lies in a directory below `R`. If it is the path of the root
itself, that is the directory which the root is named in. -/
structure PlacedInside (env : Env) (t : Tree) (R : Loc) (rootDir : Path) (filename : String) :
    Prop where
  root : requestedNames filename = [] → ∀ dir d k,
    (requestedPath rootDir filename).fileName ≠ none →
    (requestedPath rootDir filename).parent = some dir →
    walk t true env.maxSymlinks (dir.start env.cwd) dir.comps = .ok (.found d, k) → R <+: d
  below : requestedNames filename ≠ [] → ∀ l k,
    lookup env t false (requestedPath rootDir filename) (requestedPath rootDir filename).comps
      = .ok (.found l, k) → R <+: l.dropLast

/-- The temporary file of `write_file_safely`, by what has its name: a link leads to a file in a
directory below `R`; a directory is no file; and otherwise it is put beside `placed`. -/
def TempMeets (env : Env) (t : Tree) (R : Loc) (tempPath : Path) (placed : Prop) : Prop :=
  match symlinkMetadata env t tempPath with
  | .ok .dir => True
  | .ok (.symlink _) => LeadsInside env t R tempPath
  | _ => placed

/-- The file that is opened at `tempPath`, once the parents of `p` are made, lies in a directory
below `R`. -/
def TempInside (env : Env) (t : Tree) (R : Loc) (p tempPath : Path) : Prop :=
  (createParents env t p).2 = .ok () →
  ∀ t' loc i, create env (createParents env t p).1 tempPath = .ok (t', loc, i) → R <+: loc.dropLast

section

variable {env : Env} {t : Tree} {rootDir p : Path} {rel : List String} {R loc : Loc} {x : String}

/-! ## The directory -/

/-- **What becomes of the directory** to which `base` leads, when the parents of `p` are made: it
was there before, at the nearest parent if `p` names nothing; it cannot be made; or it is new, and
lies below the nearest parent `loc`. -/
inductive ParentsCases (env : Env) (t : Tree) (start : Loc) (base : List String) (p : Path)
    (loc : Loc) : Prop
  | there (d : Loc) (k : Nat)
      (reached : walk t true env.maxSymlinks start base = .ok (.found d, k))
      (dir : t.entry d = some .dir) (same : createParents env t p = (t, .ok ()))
      (near : (∃ q, canonicalize env t p = .ok q) ∨ d = loc)
  | blocked (e : Errno) (lost : ∀ d k, walk t true env.maxSymlinks start base ≠ .ok (.found d, k))
      (failed : createParents env t p = (t, .error e))
  | made (t₁ : Tree) (d : Loc) (k : Nat)
      (lost : ∀ d k, walk t true env.maxSymlinks start base ≠ .ok (.found d, k))
      (created : createParents env t p = (t₁, .ok ()))
      (reached : walk t₁ true env.maxSymlinks start base = .ok (.found d, k))
      (dir : t₁.entry d = some .dir) (free : ∀ n, t₁.entry (d ++ [n]) = none) (below : loc <+: d)
      (ne : d ≠ loc) (new : ∀ k, loc <+: k → k ≠ loc → k <+: d → t.entry k = none)

/-- The names of a path that has any end with its file name. -/
theorem Resolved.fileName_eq (h : Resolved env t rootDir p rel R loc) (hne : names rel ≠ []) :
    ∃ x, p.fileName = some x ∧ Normal x ∧ p.comps = names p.dirSegs ++ [x] := by
  obtain ⟨xs, x, hrel⟩ := (List.eq_nil_or_concat' (names rel)).resolve_left hne
  have hx : Normal x := h.normal x (by rw [hrel]; simp)
  have hname : p.fileName = some x := by
    rw [h.path]
    exact fileName_join rootDir h.dot_notMem hx.2 hrel
  refine ⟨x, hname, hx, ?_⟩
  rw [h.comps, hrel, h.path, dirSegs_join h.dot_notMem hx.2 hrel, List.append_assoc]

theorem Resolved.names_eq_nil (h : Resolved env t rootDir p rel R loc)
    (hname : p.fileName = none) : names rel = [] := by
  by_contra hne
  obtain ⟨y, hy, -, -⟩ := h.fileName_eq hne
  rw [hname] at hy
  cases hy

theorem Resolved.parents_cases (h : Resolved env t rootDir p rel R loc)
    (hname : p.fileName = some x) :
    ParentsCases env t (rootDir.start env.cwd) (names p.dirSegs) p loc := by
  by_cases hex : ∃ l, canonicalize env t p = .ok l
  · obtain ⟨l, hl⟩ := hex
    obtain ⟨m, hm⟩ := canonicalize_eq_ok.mp hl
    obtain ⟨dots, -, hcomps⟩ := comps_of_fileName hname
    rw [lookup_eq h.hasNul h.not_isEmpty, h.start_eq, fullComps, hcomps, List.append_assoc] at hm
    obtain ⟨d, k, hw, hdir, -⟩ := walk_prefix (by simp) hm
    exact .there d k hw hdir (createParents_of_exists hl) (Or.inl ⟨l, hl⟩)
  · have hno : ∀ l, canonicalize env t p ≠ .ok l := fun l hl => hex ⟨l, hl⟩
    obtain ⟨K, ns, last, links, xs, post, hm⟩ := h.missingNames hno
    obtain ⟨y, hy, -, hcomps⟩ := h.fileName_eq (h.names_ne_nil hno)
    have hbase : names p.dirSegs = K ++ ns := by
      rw [hm.comps, ← List.append_assoc] at hcomps
      exact (List.append_inj' hcomps rfl).1.symm
    have htrail := hm.above
    rw [hbase]
    by_cases hfree : ∀ n ∈ ns.head?, t.entry (loc ++ [n]) = none
    · have hcreated : createParents env t p = (t.addDirs loc ns, .ok ()) := by
        rw [hm.createParents_eq]
        exact createDirAll_chain htrail.chain htrail.reached htrail.dir hfree htrail.done
      obtain ⟨hwalk, hdir⟩ := hm.walk_parents hfree
      cases ns with
      | nil =>
          rw [List.append_nil] at hwalk ⊢
          refine .there loc links htrail.reached htrail.dir hcreated (Or.inr rfl)
      | cons n ns =>
          refine .made _ (loc ++ n :: ns) links ?_ hcreated hwalk hdir (fun c => ?_)
            (List.prefix_append _ _) (by simp) ?_
          · intro d k hw
            rw [walk_append t true (List.cons_ne_nil _ _), htrail.reached, andThen,
              walk_absent htrail.dir (htrail.chain.normal n List.mem_cons_self)
                (hfree n rfl)] at hw
            split_ifs at hw
            cases hw
          · rw [Tree.addDirs_entry _ t loc htrail.dir hfree, if_neg]
            · exact Tree.entry_below_none (hfree n rfl) ⟨ns ++ [c], by simp⟩
            · rintro ⟨-, -, hp⟩
              have := hp.length_le
              simp at this
          · rintro k ⟨s, rfl⟩ hk hp
            rw [List.prefix_append_right_inj] at hp
            obtain ⟨c, cs, rfl⟩ := List.exists_cons_of_ne_nil (l := s) (by
              rintro rfl
              exact hk (List.append_nil loc))
            rw [(List.cons_prefix_cons.mp hp).1]
            exact Tree.entry_below_none (hfree n rfl) ⟨cs, by simp⟩
    · -- a link in the place of a directory stops the call
      simp only [not_forall] at hfree
      obtain ⟨n, hn, hsome⟩ := hfree
      obtain ⟨⟨target, hlink⟩, hlost⟩ := (htrail.first n hn).resolve_left hsome
      obtain ⟨e, he⟩ := createDirAll_blocked htrail.chain htrail.reached htrail.dir hn hlink hlost
        htrail.missing post
      refine .blocked e (fun d k hw => ?_) (by rw [hm.createParents_eq, he])
      obtain ⟨tail, rfl⟩ := List.head?_eq_some_iff.mp hn
      rw [walk_append t true (List.cons_ne_nil _ _), htrail.reached, andThen] at hw
      cases tail with
      | nil => exact hlost d k hw
      | cons c tail =>
          have hsplit : walk t true links loc ([n] ++ c :: tail) = .ok (.found d, k) := hw
          obtain ⟨d', k', hw', -, -⟩ := walk_prefix (List.cons_ne_nil _ _) hsplit
          exact hlost d' k' hw'

/-! ## Where it lies -/

variable {filename : String}

/-- A path of the root itself exists, so its parent is there. -/
theorem Resolved.names_ne_nil_of_lost (h : Resolved env t rootDir p rel R loc)
    (hname : p.fileName = some x)
    (hlost : ∀ d k, walk t true env.maxSymlinks (rootDir.start env.cwd) (names p.dirSegs)
      ≠ .ok (.found d, k)) : names rel ≠ [] := by
  apply h.names_ne_nil
  intro q hq
  obtain ⟨m, hm⟩ := canonicalize_eq_ok.mp hq
  obtain ⟨dots, -, hcomps⟩ := comps_of_fileName hname
  rw [lookup_eq h.hasNul h.not_isEmpty, h.start_eq, fullComps, hcomps, List.append_assoc] at hm
  obtain ⟨d, k, hw, -, -⟩ := walk_prefix (by simp) hm
  exact hlost d k hw

/-- Where the directory is not there, nothing stands at the path. -/
theorem placedInside_of_lost
    (h : Resolved env t rootDir p (trimStartSlashes (filenameSegments filename)) R loc)
    (hname : p.fileName = some x)
    (hlost : ∀ d k, walk t true env.maxSymlinks (rootDir.start env.cwd) (names p.dirSegs)
      ≠ .ok (.found d, k)) : PlacedInside env t R rootDir filename := by
  have hne := h.names_ne_nil_of_lost hname hlost
  obtain ⟨y, -, -, hcomps⟩ := h.fileName_eq hne
  have hpath : requestedPath rootDir filename = p := h.path.symm
  refine ⟨fun hnil => absurd hnil hne, fun _ l k hl => ?_⟩
  rw [hpath, lookup_eq h.hasNul h.not_isEmpty, h.start_eq, hcomps] at hl
  obtain ⟨d, m, hw, -, -⟩ := walk_prefix (List.cons_ne_nil _ _) hl
  exact absurd hw (hlost d m)

/-- The path of the root itself lies where its own name does. -/
theorem placedInside_root
    (h : Validated env t rootDir p (trimStartSlashes (filenameSegments filename)) R loc)
    (hnil : requestedNames filename = []) (hname : p.fileName = some x) {d : Loc} {k : Nat}
    (hreached : walk t true env.maxSymlinks (rootDir.start env.cwd) (names p.dirSegs)
      = .ok (.found d, k)) : PlacedInside env t R rootDir filename ↔ R <+: d := by
  have hpath : requestedPath rootDir filename = p := h.path.symm
  obtain ⟨dir, dots, hparent, hdots, hbase⟩ := parent_of_fileName hname
  obtain ⟨habs, -, -⟩ := mem_parents (List.mem_of_mem_head? hparent)
  rw [hbase] at hreached
  have hwalk : walk t true env.maxSymlinks (dir.start env.cwd) dir.comps = .ok (.found d, k) := by
    rw [Path.start, habs, ← Path.start, h.start_eq]
    exact walk_dots hdots hreached
  constructor
  · intro hall
    have hroot := hall.root hnil
    rw [hpath] at hroot
    exact hroot dir d k (by rw [hname]; exact Option.some_ne_none x) hparent hwalk
  · intro hR
    refine ⟨fun _ dir' d' k' _ hparent' hwalk' => ?_, fun hne => absurd hnil hne⟩
    rw [hpath, hparent] at hparent'
    cases hparent'
    rw [hwalk] at hwalk'
    cases hwalk'
    exact hR

theorem placedInside_below
    (h : Validated env t rootDir p (trimStartSlashes (filenameSegments filename)) R loc)
    (hne : requestedNames filename ≠ []) {d : Loc} {k : Nat}
    (hreached : walk t true env.maxSymlinks (rootDir.start env.cwd) (names p.dirSegs)
      = .ok (.found d, k)) (hdir : t.entry d = some .dir)
    (hnear : (∃ q, canonicalize env t p = .ok q) ∨ d = loc) :
    PlacedInside env t R rootDir filename ↔ R <+: d := by
  have hpath : requestedPath rootDir filename = p := h.path.symm
  obtain ⟨y, -, hy, hcomps⟩ := h.fileName_eq hne
  have hlookup : lookup env t false p p.comps = walk t false k d [y] := by
    rw [lookup_eq h.hasNul h.not_isEmpty, h.start_eq, hcomps,
      walk_append t false (List.cons_ne_nil _ _), hreached, andThen]
  constructor
  · intro hall
    have hbelow := hall.below hne
    rw [hpath, hlookup, walk_single k hdir hy] at hbelow
    rcases hnear with ⟨q, hq⟩ | rfl
    · -- the path names something, so an entry has its last name
      have hsome : t.entry (d ++ [y]) ≠ none := by
        intro hnone
        obtain ⟨m, hm⟩ := canonicalize_eq_ok.mp hq
        rw [lookup_eq h.hasNul h.not_isEmpty, h.start_eq, fullComps, hcomps, List.append_assoc,
          walk_append t true (by simp), hreached, andThen, List.singleton_append] at hm
        generalize (if p.trailingSlash = true then ["."] else []) = tail at hm
        rw [walk_absent hdir hy hnone] at hm
        split_ifs at hm
        cases hm
      rw [if_neg hsome] at hbelow
      have hin := hbelow _ _ rfl
      rwa [List.dropLast_concat] at hin
    · exact h.inside
  · intro hR
    refine ⟨fun h => absurd h hne, fun _ l k' hl => ?_⟩
    rw [hpath, hlookup, walk_single k hdir hy] at hl
    split_ifs at hl
    · cases hl
    · cases hl
      rwa [List.dropLast_concat]

theorem placedInside_there
    (h : Validated env t rootDir p (trimStartSlashes (filenameSegments filename)) R loc)
    (hname : p.fileName = some x) {d : Loc} {k : Nat}
    (hreached : walk t true env.maxSymlinks (rootDir.start env.cwd) (names p.dirSegs)
      = .ok (.found d, k)) (hdir : t.entry d = some .dir)
    (hnear : (∃ q, canonicalize env t p = .ok q) ∨ d = loc) :
    PlacedInside env t R rootDir filename ↔ R <+: d := by
  by_cases hnil : requestedNames filename = []
  · exact placedInside_root h hnil hname hreached
  · exact placedInside_below h hnil hreached hdir hnear

/-- **The directory of an accepted path** lies below the root, once the parents are made, if and
only if what stood at the path before does. -/
theorem placedInside_iff
    (h : Validated env t rootDir p (trimStartSlashes (filenameSegments filename)) R loc)
    (hname : p.fileName = some x) (hok : (createParents env t p).2 = .ok ()) :
    ∃ d k, walk (createParents env t p).1 true env.maxSymlinks (rootDir.start env.cwd)
        (names p.dirSegs) = .ok (.found d, k) ∧ (createParents env t p).1.entry d = some .dir ∧
      (PlacedInside env t R rootDir filename ↔ R <+: d) := by
  cases h.parents_cases hname with
  | there d k hreached hdir hsame hnear =>
      rw [hsame]
      exact ⟨d, k, hreached, hdir, placedInside_there h hname hreached hdir hnear⟩
  | blocked e hlost hfailed =>
      rw [hfailed] at hok
      cases hok
  | made t₁ d k hlost hcreated hreached hdir hfree hbelow _ _ =>
      rw [hcreated]
      exact ⟨d, k, hreached, hdir, iff_of_true (placedInside_of_lost h.toResolved hname hlost)
        (h.inside.trans hbelow)⟩

/-! ## Temporary files with another extension -/

theorem normal_withExtension (name extension : String) (h : extension.toList.contains '-' = true) :
    Normal (fileStem name ++ "." ++ extension) := by
  have hmem : '-' ∈ (fileStem name ++ "." ++ extension).toList := by
    rw [String.toList_append, List.mem_append]
    exact Or.inr (by simpa using h)
  constructor
  · intro he
    rw [he] at hmem
    exact absurd hmem (by decide)
  · intro he
    rw [he] at hmem
    exact absurd hmem (by decide)

/-- The path with another extension leads to a name in the same directory. -/
theorem Resolved.namesIn_withExtension (h : Resolved env t rootDir p rel R loc)
    (hname : p.fileName = some x) {t' : Tree} {d : Loc} {k : Nat}
    (hreached : walk t' true env.maxSymlinks (rootDir.start env.cwd) (names p.dirSegs)
      = .ok (.found d, k)) (hdir : t'.entry d = some .dir) :
    NamesIn env t' (p.withExtension ".tftp-tmp") d (fileStem x ++ "." ++ ".tftp-tmp") := by
  obtain ⟨habs, hslash, hnul, hcomps⟩ := withExtension_of_fileName hname ".tftp-tmp"
  refine ⟨hdir, normal_withExtension _ _ (by decide), hslash, k, fun follow => ?_⟩
  have hempty : ¬ (p.withExtension ".tftp-tmp").IsEmpty := by
    rintro ⟨-, hnil⟩
    rw [hcomps] at hnil
    simp at hnil
  rw [lookup_eq (hnul h.hasNul (by decide)) hempty, Path.start, habs, ← Path.start, h.start_eq,
    hcomps, walk_append t' follow (List.cons_ne_nil _ _), hreached, andThen]

/-- Where the directory is not there, neither is the temporary file. -/
theorem Resolved.symlinkMetadata_of_lost (h : Resolved env t rootDir p rel R loc)
    (hname : p.fileName = some x)
    (hlost : ∀ d k, walk t true env.maxSymlinks (rootDir.start env.cwd) (names p.dirSegs)
      ≠ .ok (.found d, k)) :
    ∃ e, symlinkMetadata env t (p.withExtension ".tftp-tmp") = .error e := by
  obtain ⟨habs, hslash, hnul, hcomps⟩ := withExtension_of_fileName hname ".tftp-tmp"
  have hempty : ¬ (p.withExtension ".tftp-tmp").IsEmpty := by
    rintro ⟨-, hnil⟩
    rw [hcomps] at hnil
    simp at hnil
  obtain ⟨e, he⟩ := andThen_lost false [fileStem x ++ "." ++ ".tftp-tmp"] hlost
  refine ⟨e, ?_⟩
  rw [symlinkMetadata, fullComps_of_noSlash hslash, lookup_eq (hnul h.hasNul (by decide)) hempty,
    Path.start, habs, ← Path.start, h.start_eq, hcomps,
    walk_append t false (List.cons_ne_nil _ _), he]

/-- The path of the root itself leads to a directory. -/
theorem Resolved.root_lookup (h : Resolved env t rootDir p rel R loc) (hnil : names rel = []) :
    t.entry R = some .dir ∧ (p.trailingSlash = true ∨ p.comps = []) ∧
      ∃ k, lookup env t false p p.fullComps = .ok (.found R, k) := by
  obtain ⟨-, n, hroot⟩ := h.walk_root
  have hcomps : p.comps = rootDir.comps := by rw [h.comps, hnil, List.append_nil]
  have hlookup : lookup env t false p p.fullComps
      = walk t false env.maxSymlinks (rootDir.start env.cwd) p.fullComps := by
    rw [lookup_eq h.hasNul h.not_isEmpty, h.start_eq]
  by_cases hempty : p.comps = []
  · -- only `/` has no components
    have hslash : p.trailingSlash = false := by
      rw [trailingSlash, decide_eq_false_iff_not]
      exact fun hs => hs.1 hempty
    have habs : rootDir.absolute = true := by
      by_contra habs
      exact h.walk_root.1 ⟨by simpa using habs, hcomps ▸ hempty⟩
    rw [← hcomps, hempty, walk_nil, Path.start, if_pos habs] at hroot
    cases hroot
    refine ⟨t.root_dir, Or.inr hempty, env.maxSymlinks, ?_⟩
    rw [hlookup, fullComps_of_noSlash hslash, hempty, walk_nil, Path.start, if_pos habs]
  · have hslash : p.trailingSlash = true := by
      rw [trailingSlash, decide_eq_true_iff]
      refine ⟨hempty, ?_⟩
      rw [h.path, h.single hnil, join, List.getLast?_concat]
    have hdot : lookup env t false p p.fullComps = walk t false n R ["."] := by
      rw [hlookup, fullComps, if_pos hslash, hcomps, walk_append t false (List.cons_ne_nil _ _),
        hroot, andThen]
    have hdir : t.entry R = some .dir := by
      by_contra hdir
      have hlink := h.link
      rw [rejectSymlink, symlinkMetadata, hdot, walk_notDir hdir] at hlink
      cases hlink
    exact ⟨hdir, Or.inl hslash, n, by rw [hdot, walk_dot hdir, walk_nil]⟩

/-- No file is created at the path of the root. -/
theorem Resolved.create_root (h : Resolved env t rootDir p rel R loc) (hnil : names rel = [])
    (r : Tree × Loc × Nat) : create env t p ≠ .ok r := by
  obtain ⟨hdir, hslash, k, hk⟩ := h.root_lookup hnil
  obtain ⟨t', l, i⟩ := r
  intro hc
  obtain ⟨hno, hcases⟩ := create_eq_ok hc
  rcases hslash with hslash | hempty
  · rw [hno] at hslash
    cases hslash
  · rw [fullComps_of_noSlash hno, lookup_eq h.hasNul h.not_isEmpty, hempty, walk_nil] at hk
    rw [lookup_eq h.hasNul h.not_isEmpty, hempty, walk_nil] at hcases
    generalize p.start env.cwd = start at hk hcases
    cases hk
    rcases hcases with ⟨m, hl, he, -⟩ | ⟨d, n, m, hl, -⟩
    · cases hl
      rw [hdir] at he
      cases he
    · cases hl

/-- The parents of the root are there. -/
theorem Resolved.createParents_root (h : Resolved env t rootDir p rel R loc)
    (hnil : names rel = []) : createParents env t p = (t, .ok ()) := by
  by_cases hex : ∃ q, canonicalize env t p = .ok q
  · obtain ⟨q, hq⟩ := hex
    exact createParents_of_exists hq
  · exact absurd hnil (h.names_ne_nil fun q hq => hex ⟨q, hq⟩)

/-- **Where `write_file_safely` puts its temporary file.** -/
theorem temp_inside_iff
    (h : Validated env t rootDir p (trimStartSlashes (filenameSegments filename)) R loc) :
    TempInside env t R p (p.withExtension ".tftp-tmp") ↔
      TempMeets env t R (p.withExtension ".tftp-tmp") (PlacedInside env t R rootDir filename) := by
  unfold TempInside TempMeets
  cases hname : p.fileName with
  | none =>
      -- the path of the root, which has no name of its own, is taken for the temporary file
      have hnil := h.names_eq_nil hname
      have hwith : p.withExtension ".tftp-tmp" = p := by rw [withExtension, hname]
      obtain ⟨hdir, -, k, hk⟩ := h.root_lookup hnil
      rw [hwith, h.createParents_root hnil, symlinkMetadata, hk]
      simp only [hdir]
      refine iff_of_true (fun _ t' loc' i hc => ?_) trivial
      exact absurd hc (h.create_root hnil _)
  | some x =>
      cases h.parents_cases hname with
      | there d k hreached hdir hsame hnear =>
          have hin := h.namesIn_withExtension hname hreached hdir
          have hplaced := placedInside_there h hname hreached hdir hnear
          rw [hsame, hin.symlinkMetadata_eq, ← leadsInside_iff hin.slash]
          simp only [true_implies]
          cases he : t.entry (d ++ [fileStem x ++ "." ++ ".tftp-tmp"]) with
          | none =>
              rw [hin.leadsInside_place (by rw [he]; intro e h; cases h), hplaced]
          | some e =>
              cases e with
              | dir => exact iff_of_true (hin.leadsInside_dir he) trivial
              | symlink target => exact Iff.rfl
              | file i =>
                  rw [hin.leadsInside_place (by rw [he]; rintro e ⟨⟩; exact ⟨i, rfl⟩), hplaced]
      | blocked e hlost hfailed =>
          obtain ⟨e', he'⟩ := h.symlinkMetadata_of_lost hname hlost
          rw [hfailed, he']
          dsimp only
          exact iff_of_true (by intro hok; cases hok)
            (placedInside_of_lost h.toResolved hname hlost)
      | made t₁ d k hlost hcreated hreached hdir hfree hbelow _ _ =>
          obtain ⟨e', he'⟩ := h.symlinkMetadata_of_lost hname hlost
          have hin := h.namesIn_withExtension hname hreached hdir
          have hleads : LeadsInside env t₁ R (p.withExtension ".tftp-tmp") :=
            (hin.leadsInside_place (by rw [hfree]; intro e h; cases h)).mpr
              (h.inside.trans hbelow)
          rw [leadsInside_iff hin.slash] at hleads
          rw [hcreated, he']
          dsimp only
          exact iff_of_true (fun _ => hleads) (placedInside_of_lost h.toResolved hname hlost)

end

end UsgTftp
