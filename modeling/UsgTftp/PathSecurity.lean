import UsgTftp.Lib.Confine
import UsgTftp.Wire

set_option autoImplicit false

/-! # Paths of requested files

`validate_and_resolve_path` and `is_write_allowed` of `src/path_security.rs`, over the file
trees of `Lib/FileTree.lean`. `glob::Pattern` is a third-party type and is a parameter.

`validated_path_confined` is the main result: a path that is accepted can be opened, or
created with its missing directories, only below the canonical root.
-/

namespace UsgTftp

open Posix Posix.Path

/-! ## The checks -/

structure WriteConfig where
  enabled : Bool
  allowOverwrite : Bool
  allowedPatterns : List String
  deriving DecidableEq, Repr

/-- The crate `glob`: compiling a pattern, which may fail, and matching a text. -/
structure Glob where
  Pattern : Type
  new : String → Option Pattern
  matchesStr : Pattern → String → Bool

/-- The pattern compiles and matches the text. -/
def Glob.accepts (glob : Glob) (pathStr pattern : String) : Bool :=
  match glob.new pattern with
  | some compiled => glob.matchesStr compiled pathStr
  | none => false

def isWriteAllowed (glob : Glob) (filePath rootDir : Path) (writeConfig : WriteConfig) : Bool :=
  match filePath.stripPrefix rootDir with
  | none => false
  | some pathStr => writeConfig.allowedPatterns.any (glob.accepts pathStr)

/-- The segments of a file name; backslashes count as slashes. -/
def filenameSegments (filename : String) : List String :=
  splitSlash (String.ofList (filename.toList.map fun c => if c = '\\' then '/' else c))

def startsWithDot (seg : String) : Bool := seg.toList.head? = some '.'

/-- `trim_start_matches('/')`, on the segments. -/
def trimStartSlashes (segs : List String) : List String :=
  match segs.dropWhile (· = "") with
  | [] => [""]
  | rest => rest

/-- The path that a file name asks for. -/
def requestedPath (rootDir : Path) (filename : String) : Path :=
  rootDir.join (trimStartSlashes (filenameSegments filename))

/-- The names on the way to it from the root. -/
def requestedNames (filename : String) : List String :=
  names (trimStartSlashes (filenameSegments filename))

/-- The check on the last component. -/
def rejectSymlink (env : Env) (t : Tree) (filePath : Path) : Except TftpError Unit :=
  match symlinkMetadata env t filePath with
  | .ok (.symlink _) => .error (.tftp "Symlinks are not allowed")
  | .ok _ => .ok ()
  | .error .enoent => .ok ()
  | .error _ => .error (.tftp "Access denied")

/-- The location that has to lie below the root: that of the file, or of its nearest parent
that exists. -/
def nearestCanonical (env : Env) (t : Tree) (filePath : Path) : Option Loc :=
  match canonicalize env t filePath with
  | .ok canonicalFile => some canonicalFile
  | .error _ => filePath.parents.findSome? fun dir => (canonicalize env t dir).toOption

def validateAndResolvePath (env : Env) (t : Tree) (rootDir : Path) (filename : String) :
    Except TftpError Path :=
  let segs := filenameSegments filename
  if segs.any fun seg => seg = ".." || startsWithDot seg then .error (.tftp "Invalid filename")
  else
    let filePath := rootDir.join (trimStartSlashes segs)
    match rejectSymlink env t filePath with
    | .error e => .error e
    | .ok () =>
        match canonicalize env t rootDir with
        | .error _ => .error (.tftp "Root directory error")
        | .ok canonicalRoot =>
            match nearestCanonical env t filePath with
            | none => .error (.tftp "Access denied")
            | some loc =>
                if canonicalRoot <+: loc then .ok filePath else .error (.tftp "Access denied")

/-- The first step of `write_file_safely`. -/
def createParents (env : Env) (t : Tree) (filePath : Path) : Tree × Except Errno Unit :=
  match filePath.parents with
  | [] => (t, .ok ())
  | parents => createDirAll env t parents

/-! ## What an accepted path looks like -/

theorem mem_trimStartSlashes {segs : List String} {s : String} (h : s ∈ trimStartSlashes segs) :
    s = "" ∨ s ∈ segs := by
  unfold trimStartSlashes at h
  split at h
  · exact Or.inl (List.mem_singleton.mp h)
  · exact Or.inr ((List.dropWhile_suffix _).subset h)

theorem trimStartSlashes_of_names_nil {segs : List String}
    (h : names (trimStartSlashes segs) = []) : trimStartSlashes segs = [""] := by
  unfold trimStartSlashes at h ⊢
  split at h
  · rfl
  · rename_i hne
    -- the first segment that is kept is not empty, so it is a name
    exfalso
    cases hd : segs.dropWhile (· = "") with
    | nil => exact hne hd
    | cons s rest =>
        have hs : s ≠ "" := by
          have := List.head?_dropWhile_not (p := (· = "")) segs
          rw [hd] at this
          simpa using this
        rw [hd, names_cons_of_ne hs] at h
        cases h

theorem noDots_trimStartSlashes {segs : List String}
    (h : ¬ (segs.any fun seg => seg = ".." || startsWithDot seg) = true) :
    ∀ s ∈ trimStartSlashes segs, startsWithDot s = false := by
  intro s hs
  rcases mem_trimStartSlashes hs with rfl | hs
  · decide
  · have hseg := List.any_eq_false.mp (Bool.eq_false_iff.mpr h) s hs
    simp only [Bool.or_eq_true, decide_eq_true_eq, not_or, Bool.not_eq_true] at hseg
    exact hseg.2

/-- What the code has found out about `p` before it looks where it leads. -/
structure Requested (env : Env) (t : Tree) (rootDir p : Path) (rel : List String) (R : Loc) :
    Prop where
  path : p = rootDir.join rel
  noDots : ∀ s ∈ rel, startsWithDot s = false
  single : names rel = [] → rel = [""]
  link : rejectSymlink env t p = .ok ()
  root : canonicalize env t rootDir = .ok R

/-- What has to lie below the root is at `loc`. -/
structure Resolved (env : Env) (t : Tree) (rootDir p : Path) (rel : List String) (R loc : Loc) :
    Prop extends Requested env t rootDir p rel R where
  nearest : nearestCanonical env t p = some loc

/-- What the code has checked when it accepts `p`. -/
structure Validated (env : Env) (t : Tree) (rootDir p : Path) (rel : List String) (R loc : Loc) :
    Prop extends Resolved env t rootDir p rel R loc where
  inside : R <+: loc

theorem validated_requested {env : Env} {t : Tree} {rootDir : Path} {filename : String}
    {p : Path} (h : validateAndResolvePath env t rootDir filename = .ok p) :
    ∃ R loc, Validated env t rootDir p (trimStartSlashes (filenameSegments filename)) R loc := by
  unfold validateAndResolvePath at h
  simp only at h
  split_ifs at h with hdots
  split at h
  · cases h
  · rename_i hlink
    split at h
    · cases h
    · rename_i R hroot
      split at h
      · cases h
      · rename_i loc hnear
        split_ifs at h with hin
        cases h
        exact ⟨R, loc, ⟨⟨rfl, noDots_trimStartSlashes hdots, trimStartSlashes_of_names_nil, hlink,
          hroot⟩, hnear⟩, hin⟩

theorem validateAndResolvePath_eq_ok {env : Env} {t : Tree} {rootDir : Path} {filename : String}
    {p : Path} (h : validateAndResolvePath env t rootDir filename = .ok p) :
    ∃ rel R loc, Validated env t rootDir p rel R loc :=
  ⟨_, validated_requested h⟩

theorem validated_of_root {env : Env} {t : Tree} {rootDir : Path} {filename : String} {p : Path}
    {R : Loc} (h : validateAndResolvePath env t rootDir filename = .ok p)
    (hroot : canonicalize env t rootDir = .ok R) :
    ∃ loc, Validated env t rootDir p (trimStartSlashes (filenameSegments filename)) R loc := by
  obtain ⟨R', loc, hv⟩ := validated_requested h
  have hR : Except.ok R' = Except.ok R := hv.root.symm.trans hroot
  cases hR
  exact ⟨loc, hv⟩

section Accepted

variable {env : Env} {t : Tree} {rootDir p : Path} {rel : List String} {R loc : Loc}

theorem normal_of_startsWithDot {s : String} (h : startsWithDot s = false) : Normal s := by
  constructor
  · rintro rfl
    exact absurd h (by decide)
  · rintro rfl
    exact absurd h (by decide)

theorem Requested.dot_notMem (h : Requested env t rootDir p rel R) : "." ∉ rel := by
  intro hmem
  exact absurd (h.noDots _ hmem) (by decide)

theorem Requested.normal (h : Requested env t rootDir p rel R) : ∀ c ∈ names rel, Normal c := by
  intro c hc
  exact normal_of_startsWithDot (h.noDots c (List.mem_filter.mp hc).1)

theorem Requested.comps (h : Requested env t rootDir p rel R) :
    p.comps = rootDir.comps ++ names rel := by
  rw [h.path, comps_join]

/-- An accepted path can be passed to the system. -/
theorem Requested.hasNul (h : Requested env t rootDir p rel R) : p.hasNul = false := by
  by_contra hnul
  have hlink := h.link
  rw [rejectSymlink, symlinkMetadata, lookup, if_pos (by simpa using hnul)] at hlink
  cases hlink

theorem Requested.start_eq (h : Requested env t rootDir p rel R) :
    p.start env.cwd = rootDir.start env.cwd := by
  rw [h.path]
  rfl

/-- The root is found, with or without the dots and slashes at its end. -/
theorem Requested.walk_root (h : Requested env t rootDir p rel R) :
    ¬ rootDir.IsEmpty ∧ ∃ n, walk t true env.maxSymlinks (rootDir.start env.cwd) rootDir.comps
      = .ok (.found R, n) :=
  walk_of_canonicalize h.root

theorem Requested.not_isEmpty (h : Requested env t rootDir p rel R) : ¬ p.IsEmpty := by
  rintro ⟨habs, hcomps⟩
  rw [h.path] at habs
  rw [h.comps] at hcomps
  exact h.walk_root.1 ⟨habs, (List.append_eq_nil_iff.mp hcomps).1⟩

/-! ## Paths that exist -/

/-- Both steps of a write touch only what lies below `R`. -/
def WriteConfined (env : Env) (t : Tree) (R : Loc) (p : Path) : Prop :=
  Confined R t (createParents env t p).1 ∧
  ((createParents env t p).2 = .ok () →
    ∀ t' loc i, create env (createParents env t p).1 p = .ok (t', loc, i) →
      R <+: loc ∧ Confined R t t')

/-- If the path names an object, then its directory exists and nothing is created. -/
theorem createParents_of_exists {q : Loc} (h : canonicalize env t p = .ok q) :
    createParents env t p = (t, .ok ()) := by
  unfold createParents
  split
  · rfl
  · cases hps : p.parents with
    | nil => rename_i hne; exact absurd hps hne
    | cons x xs =>
        obtain ⟨habs, hslash, hnul, tail, htail, hcomps⟩ := parents_head hps
        obtain ⟨n, hn⟩ := canonicalize_eq_ok.mp h
        obtain ⟨hpnul, hpempty⟩ := lookup_ok hn
        by_cases hempty : x.IsEmpty
        · rw [createDirAll, if_pos hempty]
        · rw [lookup_eq hpnul hpempty, fullComps, hcomps, List.append_assoc] at hn
          obtain ⟨E, m, hwalk, hdir, -⟩ :=
            walk_prefix (List.append_ne_nil_of_left_ne_nil htail _) hn
          have hstart : x.start env.cwd = p.start env.cwd := by
            rw [Path.start, Path.start, habs]
          have hlookup : lookup env t true x x.comps = .ok (.found E, m) := by
            rw [lookup_eq (hnul hpnul) hempty, hstart, hwalk]
          exact createDirAll_of_dir hslash hlookup hdir

theorem writeConfined_of_exists {q : Loc} (h : canonicalize env t p = .ok q) (hR : R <+: q) :
    WriteConfined env t R p := by
  rw [WriteConfined, createParents_of_exists h]
  refine ⟨Confined.refl R t, fun _ t' loc i hc => ?_⟩
  obtain ⟨n, hn⟩ := canonicalize_eq_ok.mp h
  obtain ⟨hslash, hcases⟩ := create_eq_ok hc
  rw [fullComps_of_noSlash hslash] at hn
  rcases hcases with ⟨m, hl, he, rfl⟩ | ⟨d, c, m, hl, -, -, -⟩
  · rw [hn] at hl
    cases hl
    refine ⟨hR, fun l hl => absurd rfl hl, fun j hj => ?_⟩
    by_cases hji : j = i
    · exact ⟨q, hR, hji ▸ he⟩
    · exact absurd (Function.update_of_ne hji _ _) hj
  · rw [hn] at hl
    cases hl

/-! ## Paths that do not exist -/

/-- An accepted path that names no object lacks a component on the way: the system answers
`ENOENT`, and no other error. -/
theorem Requested.walk_missing (h : Requested env t rootDir p rel R)
    (hno : ∀ q, canonicalize env t p ≠ .ok q) (follow : Bool) :
    (∃ d c n, walk t follow env.maxSymlinks (rootDir.start env.cwd) p.fullComps
        = .ok (.absent d c, n)) ∨
      walk t follow env.maxSymlinks (rootDir.start env.cwd) p.fullComps = .error .enoent := by
  have hlink := h.link
  rw [rejectSymlink, symlinkMetadata, lookup_eq h.hasNul h.not_isEmpty, h.start_eq] at hlink
  have hcanon : ∀ q n, walk t true env.maxSymlinks (rootDir.start env.cwd) p.fullComps
      ≠ .ok (.found q, n) := by
    intro q n hq
    refine hno q (canonicalize_eq_ok.mpr ⟨n, ?_⟩)
    rw [lookup_eq h.hasNul h.not_isEmpty, h.start_eq, hq]
  -- the walk that does not follow a last link; the other one then has the same result
  have hfalse : (∃ d c n, walk t false env.maxSymlinks (rootDir.start env.cwd) p.fullComps
        = .ok (.absent d c, n)) ∨
      walk t false env.maxSymlinks (rootDir.start env.cwd) p.fullComps = .error .enoent := by
    match hw : walk t false env.maxSymlinks (rootDir.start env.cwd) p.fullComps with
    | .ok (.absent d c, n) => exact Or.inl ⟨d, c, n, rfl⟩
    | .ok (.found q, n) =>
        exfalso
        refine hcanon q n (walk_follow t _ _ _ _ hw ?_)
        intro q' n' target hq' he
        cases hq'
        rw [hw] at hlink
        simp only [he] at hlink
        cases hlink
    | .error e =>
        rw [hw] at hlink
        cases e <;> first | exact Or.inr rfl | cases hlink
  cases follow with
  | false => exact hfalse
  | true =>
      rcases hfalse with ⟨d, c, n, hw⟩ | hw
      · exact Or.inl ⟨d, c, n, walk_follow t _ _ _ _ hw (by intro _ _ _ hr; cases hr)⟩
      · exact Or.inr (walk_follow t _ _ _ _ hw (by intro _ _ _ hr; cases hr))

/-- An accepted path that names no object has a name after the root. -/
theorem Requested.names_ne_nil (h : Requested env t rootDir p rel R)
    (hno : ∀ q, canonicalize env t p ≠ .ok q) : names rel ≠ [] := by
  intro hnil
  obtain ⟨-, n, hroot⟩ := h.walk_root
  have hcomps : p.comps = rootDir.comps := by rw [h.comps, hnil, List.append_nil]
  have hmissing := h.walk_missing hno true
  rw [fullComps, hcomps] at hmissing
  by_cases hslash : p.trailingSlash = true
  · rw [hslash, if_pos rfl, walk_append t true (List.cons_ne_nil _ _), hroot, andThen] at hmissing
    by_cases hdir : t.entry R = some .dir
    · rw [walk_dot hdir, walk_nil] at hmissing
      rcases hmissing with ⟨_, _, _, hw⟩ | hw <;> cases hw
    · rw [walk_notDir hdir] at hmissing
      rcases hmissing with ⟨_, _, _, hw⟩ | hw <;> cases hw
  · rw [if_neg hslash, List.append_nil, hroot] at hmissing
    rcases hmissing with ⟨_, _, _, hw⟩ | hw <;> cases hw

theorem findSome?_range {α : Type} (f : Path → Option α) (Q : Nat → Path) (above : List Path)
    (x : α) : ∀ k, ((List.range k).reverse.map Q ++ above).findSome? f = some x →
      (∃ m, m < k ∧ f (Q m) = some x ∧ ∀ i, m < i → i < k → f (Q i) = none) ∨
      (∀ i, i < k → f (Q i) = none) ∧ above.findSome? f = some x := by
  intro k
  induction k with
  | zero => intro h; exact Or.inr ⟨fun i hi => absurd hi (Nat.not_lt_zero i), h⟩
  | succ k ih =>
      intro h
      rw [List.range_succ, List.reverse_append, List.reverse_singleton, List.singleton_append,
        List.map_cons, List.cons_append, List.findSome?_cons] at h
      cases hk : f (Q k) with
      | some y =>
          rw [hk] at h
          cases h
          exact Or.inl ⟨k, Nat.lt_succ_self k, hk, by intro i h1 h2; omega⟩
      | none =>
          rw [hk] at h
          rcases ih h with ⟨m, hm, hx, hnone⟩ | ⟨hnone, hx⟩
          · refine Or.inl ⟨m, by omega, hx, fun i h1 h2 => ?_⟩
            by_cases hik : i = k
            · rw [hik, hk]
            · exact hnone i h1 (by omega)
          · refine Or.inr ⟨fun i hi => ?_, hx⟩
            by_cases hik : i = k
            · rw [hik, hk]
            · exact hnone i (by omega)

/-- **The nearest parent that exists** lies at the root or below it: the walk to the first
`m` names reaches the directory `loc`, and the parents below are not there. -/
structure NearestParent (env : Env) (t : Tree) (rootDir p : Path) (ns : List String) (loc : Loc)
    (m : Nat) (Q : Nat → Path) (above : List Path) : Prop where
  parents : p.parents = (List.range ns.length).reverse.map Q ++ above
  lt : m < ns.length
  slash : ∀ j, j < ns.length → (Q j).trailingSlash = false
  nul : ∀ j, j < ns.length → (Q j).hasNul = false
  start : ∀ j, j < ns.length → (Q j).start env.cwd = rootDir.start env.cwd
  comps : ∀ j, 0 < j → j < ns.length → (Q j).comps = rootDir.comps ++ ns.take j
  canonical : canonicalize env t (Q m) = .ok loc
  missing : ∀ i, m < i → i < ns.length → ∀ l, canonicalize env t (Q i) ≠ .ok l
  reached : ∃ links, walk t true env.maxSymlinks (rootDir.start env.cwd)
      (rootDir.comps ++ ns.take m)
    = .ok (.found loc, links)

/-- The root without the dots at its end. -/
theorem Requested.canonicalize_base (h : Requested env t rootDir p rel R) {base : Path}
    {dots : List String} (hbase : rootDir.comps = base.comps ++ dots) (hdots : ∀ c ∈ dots, c = ".")
    (habs : base.absolute = rootDir.absolute) (hnul : base.hasNul = false)
    (hslash : base.trailingSlash = false) (hempty : ¬ base.IsEmpty) :
    canonicalize env t base = .ok R := by
  obtain ⟨-, n, hroot⟩ := h.walk_root
  rw [hbase] at hroot
  refine canonicalize_eq_ok.mpr ⟨n, ?_⟩
  rw [lookup_eq hnul hempty, Path.start, habs, ← Path.start, fullComps_of_noSlash hslash]
  exact walk_dots hdots hroot

theorem Resolved.nearestParent (h : Resolved env t rootDir p rel R loc)
    (hno : ∀ q, canonicalize env t p ≠ .ok q) :
    ∃ m Q above, NearestParent env t rootDir p (names rel) loc m Q above := by
  have hne := h.names_ne_nil hno
  have hpos : 0 < (names rel).length := List.length_pos_of_ne_nil hne
  obtain ⟨Q, above, dots, hparents, hdots, hprops, hcomps, hzero⟩ :=
    parents_join rootDir h.dot_notMem
  rw [← h.path] at hparents hprops
  obtain ⟨hbase, habove⟩ := hzero hne
  obtain ⟨hrootEmpty, n, hroot⟩ := h.walk_root
  have hstart : ∀ j, j < (names rel).length → (Q j).start env.cwd = rootDir.start env.cwd :=
    fun j hj => by rw [Path.start, Path.start, (hprops j hj).1]
  have hnul : ∀ j, j < (names rel).length → (Q j).hasNul = false :=
    fun j hj => (hprops j hj).2.2 h.hasNul
  have hslash : ∀ j, j < (names rel).length → (Q j).trailingSlash = false :=
    fun j hj => (hprops j hj).2.1
  have hcanon0 : ¬ (Q 0).IsEmpty → canonicalize env t (Q 0) = .ok R :=
    h.canonicalize_base hbase hdots (hprops 0 hpos).1 (hnul 0 hpos) (hslash 0 hpos)
  have hnear := h.nearest
  have herr : ∃ e, canonicalize env t p = .error e := by
    cases hc : canonicalize env t p with
    | ok q => exact absurd hc (hno q)
    | error e => exact ⟨e, rfl⟩
  obtain ⟨e, he⟩ := herr
  rw [nearestCanonical, he, hparents] at hnear
  have htoOption : ∀ x l,
      (canonicalize env t x).toOption = some l ↔ canonicalize env t x = .ok l := by
    intro x l
    cases canonicalize env t x <;> simp [Except.toOption]
  rcases findSome?_range _ Q above loc _ hnear with ⟨m, hm, hfound, hmissing⟩ | ⟨hnone, hfound⟩
  · rw [htoOption] at hfound
    refine ⟨m, Q, above, hparents, hm, hslash, hnul, hstart, hcomps, hfound, ?_, ?_⟩
    · intro i h1 h2 l hl
      have := hmissing i h1 h2
      rw [(htoOption _ _).mpr hl] at this
      cases this
    · obtain ⟨links, hl⟩ := canonicalize_eq_ok.mp hfound
      obtain ⟨-, hempty⟩ := lookup_ok hl
      rcases Nat.eq_zero_or_pos m with rfl | hmpos
      · have heq : loc = R := by
          rw [hcanon0 hempty] at hfound
          exact (Except.ok.inj hfound).symm
        exact ⟨n, by rw [List.take_zero, List.append_nil, heq, hroot]⟩
      · refine ⟨links, ?_⟩
        rw [lookup_eq (hnul m hm) hempty, hstart m hm, fullComps_of_noSlash (hslash m hm),
          hcomps m hmpos hm] at hl
        exact hl
  · exfalso
    by_cases hempty : (Q 0).IsEmpty
    · rw [(habove hempty).1] at hfound
      cases hfound
    · have := hnone 0 hpos
      rw [hcanon0 hempty] at this
      cases this

theorem range_reverse_split {m k : Nat} (h : m < k) :
    (List.range k).reverse
      = (List.range' (m + 1) (k - 1 - m)).reverse ++ m :: (List.range m).reverse := by
  have hsplit : List.range k = List.range m ++ m :: List.range' (m + 1) (k - 1 - m) := by
    calc List.range k = List.range' 0 (m + (k - 1 - m + 1)) := by
          rw [List.range_eq_range', show m + (k - 1 - m + 1) = k by omega]
      _ = List.range' 0 m ++ List.range' (0 + m) (k - 1 - m + 1) := List.range'_append_1.symm
      _ = List.range m ++ m :: List.range' (m + 1) (k - 1 - m) := by
          rw [Nat.zero_add, List.range'_succ, ← List.range_eq_range']
  rw [hsplit, List.reverse_append, List.reverse_cons, List.append_assoc, List.singleton_append]

/-- **The missing name.** The walk reaches the directory `loc`; `n` is the next name, and the
parents of `p` down to `loc` lead through it. -/
structure MissingName (env : Env) (t : Tree) (rootDir p : Path) (loc : Loc) (K ys : List String)
    (n : String) (links : Nat) (pre : List Path) (q : Path) (post : List Path) : Prop where
  reached : walk t true env.maxSymlinks (rootDir.start env.cwd) K = .ok (.found loc, links)
  dir : t.entry loc = some .dir
  normal : ∀ c ∈ n :: ys, Normal c
  comps : p.comps = K ++ n :: ys
  parents : p.parents = pre ++ q :: post
  slash : q.trailingSlash = false
  found : ∃ k, lookup env t true q q.comps = .ok (.found loc, k)
  below : ∀ x ∈ pre, PathBelow env (rootDir.start env.cwd) K (n :: ys) x
  usable : ∀ x ∈ pre, x.hasNul = false ∧ x.trailingSlash = false
  missing : ∀ x ∈ pre, ∀ l, canonicalize env t x ≠ .ok l
  /-- The parents down to `loc`, the last one ending in `n` itself. -/
  last : (pre = [] ∧ ys = []) ∨ ∃ pre' x, pre = pre' ++ [x] ∧ x.comps = K ++ [n] ∧
    ∀ y ∈ pre', ∃ zs, zs ≠ [] ∧ y.comps = K ++ [n] ++ zs

theorem NearestParent.missingName {m : Nat} {Q : Nat → Path} {above : List Path}
    (h : Resolved env t rootDir p rel R loc) (hno : ∀ q, canonicalize env t p ≠ .ok q)
    (hp : NearestParent env t rootDir p (names rel) loc m Q above) :
    ∃ K ys n links pre q post, MissingName env t rootDir p loc K ys n links pre q post := by
  -- the names split after the `m` that exist: `n` is the first one that does not
  have hm := hp.lt
  obtain ⟨links, hD⟩ := hp.reached
  obtain ⟨k, hq⟩ := canonicalize_eq_ok.mp hp.canonical
  rw [fullComps_of_noSlash (hp.slash m hm)] at hq
  obtain ⟨n, ys, hys⟩ : ∃ n ys, (names rel).drop m = n :: ys :=
    List.exists_cons_of_ne_nil (by simpa using hm)
  have hcomps : p.comps = rootDir.comps ++ (names rel).take m ++ n :: ys := by
    rw [h.comps, List.append_assoc, ← hys, List.take_append_drop]
  have hlen : (names rel).length = m + (ys.length + 1) := by
    have := congrArg List.length hys
    simp only [List.length_drop, List.length_cons] at this
    omega
  have hbelow : ∀ i, m < i → i < (names rel).length →
      (Q i).comps = rootDir.comps ++ (names rel).take m ++ (n :: ys).take (i - m) := by
    intro i h1 h2
    rw [hp.comps i (by omega) h2, List.append_assoc, ← hys, ← List.take_add]
    congr 2
    omega
  refine ⟨rootDir.comps ++ (names rel).take m, ys, n, links,
    (List.range' (m + 1) ys.length).reverse.map Q, Q m, (List.range m).reverse.map Q ++ above,
    hD, ?_, ?_, hcomps, ?_, hp.slash m hm, ⟨k, hq⟩, ?_, ?_, ?_, ?_⟩
  · -- the walk to `p` goes on from `loc`, so `loc` is a directory
    by_contra hdir
    have hw := h.walk_missing hno true
    rw [fullComps, hcomps, List.append_assoc, List.cons_append,
      walk_append t true (List.cons_ne_nil _ _), hD, andThen, walk_notDir hdir] at hw
    rcases hw with ⟨_, _, _, hw⟩ | hw <;> cases hw
  · intro c hc
    rw [← hys] at hc
    exact h.normal c (List.mem_of_mem_drop hc)
  · rw [hp.parents, range_reverse_split hm, List.map_append, List.map_cons, List.append_assoc,
      List.cons_append, show (names rel).length - 1 - m = ys.length by omega]
  · intro x hx
    obtain ⟨i, hi, rfl⟩ := List.mem_map.mp hx
    rw [List.mem_reverse, List.mem_range'_1] at hi
    refine ⟨hp.start i (by omega), (n :: ys).take (i - m), List.take_prefix _ _, ?_,
      hbelow i (by omega) (by omega)⟩
    rw [ne_eq, List.take_eq_nil_iff, not_or]
    exact ⟨by omega, List.cons_ne_nil _ _⟩
  · intro x hx
    obtain ⟨i, hi, rfl⟩ := List.mem_map.mp hx
    rw [List.mem_reverse, List.mem_range'_1] at hi
    exact ⟨hp.nul i (by omega), hp.slash i (by omega)⟩
  · intro x hx
    obtain ⟨i, hi, rfl⟩ := List.mem_map.mp hx
    rw [List.mem_reverse, List.mem_range'_1] at hi
    exact hp.missing i (by omega) (by omega)
  · rcases Nat.eq_zero_or_pos ys.length with hzero | hpos
    · left
      rw [hzero]
      exact ⟨rfl, List.eq_nil_of_length_eq_zero hzero⟩
    · right
      obtain ⟨j, hj⟩ : ∃ j, ys.length = j + 1 := ⟨ys.length - 1, by omega⟩
      rw [hj, List.range'_succ, List.reverse_cons, List.map_append, List.map_singleton]
      refine ⟨_, Q (m + 1), rfl, ?_, ?_⟩
      · rw [hbelow (m + 1) (by omega) (by omega), Nat.add_sub_cancel_left]
        rfl
      · intro y hy
        obtain ⟨i, hi, rfl⟩ := List.mem_map.mp hy
        rw [List.mem_reverse, List.mem_range'_1] at hi
        obtain ⟨d, hd⟩ : ∃ d, i - m = d + 1 + 1 := ⟨i - m - 2, by omega⟩
        refine ⟨ys.take (d + 1), ?_, ?_⟩
        · rw [ne_eq, List.take_eq_nil_iff, not_or]
          exact ⟨by omega, List.ne_nil_of_length_pos hpos⟩
        · rw [hbelow i (by omega) (by omega), hd, List.take_succ_cons]
          simp

section Missing

variable {K ys : List String} {n : String} {links : Nat} {pre post : List Path} {q : Path}

theorem MissingName.createParents_eq
    (hp : MissingName env t rootDir p loc K ys n links pre q post) :
    createParents env t p = createDirAll env t (pre ++ q :: post) := by
  rw [createParents, hp.parents]
  split
  · rename_i hnil
    simp at hnil
  · rfl

/-- The resolution of a path through the missing name starts at `loc`. -/
theorem MissingName.lookup_eq (hp : MissingName env t rootDir p loc K ys n links pre q post)
    {x : Path} (hx : x ∈ pre) {zs : List String} (hzs : zs ≠ []) (hcomps : x.comps = K ++ zs)
    (follow : Bool) : lookup env t follow x x.comps = walk t follow links loc zs := by
  have hempty : ¬ x.IsEmpty := by
    rintro ⟨-, hnil⟩
    rw [hcomps] at hnil
    exact hzs (List.append_eq_nil_iff.mp hnil).2
  rw [Posix.lookup_eq (hp.usable x hx).1 hempty, (hp.below x hx).start, hcomps,
    walk_append t follow hzs, hp.reached, andThen]

/-- The name is absent: everything is created below `loc`. -/
theorem MissingName.writeConfined_absent (h : Validated env t rootDir p rel R loc)
    (hp : MissingName env t rootDir p loc K ys n links pre q post)
    (he : t.entry (loc ++ [n]) = none) : WriteConfined env t R p := by
  obtain ⟨k, hq⟩ := hp.found
  have hgrown := createDirAll_grown pre post he hp.reached hp.normal hp.below hp.slash hq hp.dir
  rw [WriteConfined, hp.createParents_eq]
  refine ⟨hgrown.confined h.inside, fun _ t' l i hc => ?_⟩
  exact create_grown h.inside hgrown he hp.reached hp.normal h.start_eq hp.comps hc

/-- The directory exists and so does the last name. Then the path has a trailing slash after
something that is no directory, and cannot be created. -/
theorem MissingName.writeConfined_last (h : Resolved env t rootDir p rel R loc)
    (hno : ∀ q, canonicalize env t p ≠ .ok q)
    (hp : MissingName env t rootDir p loc K [] n links [] q post) {e : Entry}
    (he : t.entry (loc ++ [n]) = some e) : WriteConfined env t R p := by
  obtain ⟨k, hq⟩ := hp.found
  have hn : Normal n := hp.normal n List.mem_cons_self
  rw [WriteConfined, hp.createParents_eq, List.nil_append, createDirAll_of_dir hp.slash hq hp.dir]
  refine ⟨Confined.refl R t, fun _ t' l i hc => ?_⟩
  exfalso
  obtain ⟨hslash, -⟩ := create_eq_ok hc
  have hw := h.walk_missing hno false
  rw [fullComps_of_noSlash hslash, hp.comps, walk_append t false (List.cons_ne_nil _ _),
    hp.reached, andThen] at hw
  by_cases hlink : ∃ target, e = .symlink target
  · obtain ⟨target, rfl⟩ := hlink
    rw [walk_link hp.dir hn he, if_pos ⟨rfl, rfl⟩] at hw
    rcases hw with ⟨_, _, _, hw⟩ | hw <;> cases hw
  · rw [walk_plain hp.dir hn he (fun target ht => hlink ⟨target, ht⟩), walk_nil] at hw
    rcases hw with ⟨_, _, _, hw⟩ | hw <;> cases hw

/-- Names follow the one that is there. It is a link that leads nowhere, and `create_dir_all`
stops at it. -/
theorem MissingName.writeConfined_link {pre' : List Path} {x : Path} {e : Entry}
    (hp : MissingName env t rootDir p loc K ys n links pre q post) (hpre : pre = pre' ++ [x])
    (hx : x.comps = K ++ [n]) (hpre' : ∀ y ∈ pre', ∃ zs, zs ≠ [] ∧ y.comps = K ++ [n] ++ zs)
    (he : t.entry (loc ++ [n]) = some e) : WriteConfined env t R p := by
  have hn : Normal n := hp.normal n List.mem_cons_self
  have hxmem : x ∈ pre := by rw [hpre]; simp
  have hnot : ∀ y ∈ pre' ++ [x], isDir env t y = false := by
    intro y hy
    rw [← hpre] at hy
    rw [← Bool.not_eq_true, isDir_iff]
    rintro ⟨l, hl, -⟩
    exact hp.missing y hy l hl
  have hlost : ∀ l k, walk t true links loc [n] ≠ .ok (.found l, k) := by
    intro l k hw
    refine hp.missing x hxmem l (canonicalize_eq_ok.mpr ⟨k, ?_⟩)
    rw [fullComps_of_noSlash (hp.usable x hxmem).2,
      hp.lookup_eq hxmem (List.cons_ne_nil _ _) hx, hw]
  -- what is there but cannot be canonicalized is a dangling link
  obtain ⟨target, rfl⟩ : ∃ target, e = .symlink target := by
    by_contra hlink
    refine hlost (loc ++ [n]) links ?_
    rw [walk_plain hp.dir hn he (fun target ht => hlink ⟨target, ht⟩), walk_nil]
  have hfound : lookup env t false x x.comps = .ok (.found (loc ++ [n]), links) := by
    rw [hp.lookup_eq hxmem (List.cons_ne_nil _ _) hx, walk_link hp.dir hn he, if_pos ⟨rfl, rfl⟩]
  have hmkdir : ∀ y ∈ pre', ¬ y.IsEmpty ∧ ∃ e, mkdir env t y = .error e := by
    intro y hy
    obtain ⟨zs, hzs, hcomps⟩ := hpre' y hy
    have hymem : y ∈ pre := by rw [hpre]; exact List.mem_append_left _ hy
    have hempty : ¬ y.IsEmpty := by
      rintro ⟨-, hnil⟩
      rw [hcomps] at hnil
      exact hzs (List.append_eq_nil_iff.mp hnil).2
    refine ⟨hempty, ?_⟩
    rw [List.append_assoc] at hcomps
    obtain ⟨e, he⟩ := andThen_lost false zs hlost
    rw [mkdir, hp.lookup_eq hymem (List.append_ne_nil_of_right_ne_nil _ hzs) hcomps,
      walk_append t false hzs, he]
    exact ⟨_, rfl⟩
  -- no directory is made through it
  obtain ⟨err, hfail⟩ := createDirAll_through_link (q :: post) hfound hnot hmkdir
  rw [WriteConfined, hp.createParents_eq, hpre, List.append_assoc, List.singleton_append, hfail]
  exact ⟨Confined.refl R t, by intro hr; cases hr⟩

end Missing

/-- **Writes to an accepted path are confined.** -/
theorem Validated.writeConfined (h : Validated env t rootDir p rel R loc) :
    WriteConfined env t R p := by
  by_cases hex : ∃ l, canonicalize env t p = .ok l
  · obtain ⟨l, hl⟩ := hex
    have hnear := h.nearest
    rw [nearestCanonical, hl] at hnear
    cases hnear
    exact writeConfined_of_exists hl h.inside
  · have hno : ∀ l, canonicalize env t p ≠ .ok l := fun l hl => hex ⟨l, hl⟩
    obtain ⟨m, Q, above, hnp⟩ := h.nearestParent hno
    obtain ⟨K, ys, n, links, pre, q, post, hp⟩ := hnp.missingName h.toResolved hno
    cases he : t.entry (loc ++ [n]) with
    | none => exact hp.writeConfined_absent h he
    | some e =>
        rcases hp.last with ⟨rfl, rfl⟩ | ⟨pre', x, hpre, hx, hpre'⟩
        · exact hp.writeConfined_last h.toResolved hno he
        · exact hp.writeConfined_link hpre hx hpre' he

/-- What is read through an accepted path lies below the root. -/
theorem Validated.openRead_inside (h : Validated env t rootDir p rel R loc) {l : Loc}
    (hl : openRead env t p = .ok l) : R <+: l := by
  have hnear := h.nearest
  rw [nearestCanonical, show canonicalize env t p = .ok l from hl] at hnear
  cases hnear
  exact h.inside

end Accepted

/-- **Path containment.** An accepted path is the root followed by segments of which none
begins with a dot; what it opens lies below the canonical root; and creating it, after its
missing directories, fails or creates and changes only objects below the canonical root. -/
theorem validated_path_confined (env : Env) (t : Tree) (rootDir : Path) (filename : String)
    (p : Path) (h : validateAndResolvePath env t rootDir filename = .ok p) :
    (∃ rel, p = rootDir.join rel ∧ ∀ seg ∈ rel, seg ≠ ".." ∧ startsWithDot seg = false) ∧
    ∃ R, canonicalize env t rootDir = .ok R ∧
      (∀ loc, openRead env t p = .ok loc → R <+: loc) ∧
      Confined R t (createParents env t p).1 ∧
      ((createParents env t p).2 = .ok () →
        ∀ t' loc i, create env (createParents env t p).1 p = .ok (t', loc, i) →
          R <+: loc ∧ Confined R t t') := by
  obtain ⟨rel, R, loc, hv⟩ := validateAndResolvePath_eq_ok h
  refine ⟨⟨rel, hv.path, fun seg hseg => ⟨?_, hv.noDots seg hseg⟩⟩, R, hv.root,
    fun l hl => hv.openRead_inside hl, hv.writeConfined⟩
  rintro rfl
  exact absurd (hv.noDots _ hseg) (by decide)

/-- The directory `/srv/tftp`, with nothing in it. -/
def emptyRoot : Tree := (Tree.empty.addDir [] "srv").addDir ["srv"] "tftp"

/-- A new file in a new directory below `/srv/tftp`. -/
theorem validated_path_confined_new_file :
    let env : Env := ⟨[], 40⟩
    let t := emptyRoot
    let rootDir := ofString "/srv/tftp"
    let p := ofString "/srv/tftp/configs/a.cfg"
    validateAndResolvePath env t rootDir "configs\\a.cfg" = .ok p ∧
    (createParents env t p).2 = .ok () ∧
    Confined ["srv", "tftp"] t (createParents env t p).1 := by
  intro env t rootDir p
  have hok : validateAndResolvePath env t rootDir "configs\\a.cfg" = .ok p := by decide +kernel
  obtain ⟨-, R, hR, -, hconf, -⟩ := validated_path_confined env t rootDir _ p hok
  have hroot : canonicalize env t rootDir = .ok ["srv", "tftp"] := by decide +kernel
  rw [hroot] at hR
  cases hR
  exact ⟨hok, by decide +kernel, hconf⟩

end UsgTftp
