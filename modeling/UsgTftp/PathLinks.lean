import UsgTftp.PathSecurity

set_option autoImplicit false

/-! # Links on the way to a requested file

`validate_and_resolve_path` looks for a symbolic link at the last component of the path only, and
for names that begin with a dot in the request only. So a link to a directory is followed, and what
it leads to may be hidden.

`symlinks_refused_iff` says that a link before the last component is all that can go wrong. Without
one, the object that is opened has the names of the request (`canonical_of_noLinks`).
-/

namespace UsgTftp

open Posix Posix.Path

/-- The first names `ns` of a request lead to a symbolic link. -/
def IsLink (env : Env) (t : Tree) (rootDir : Path) (ns : List String) : Prop :=
  ∃ target, symlinkMetadata env t (rootDir.join ns) = .ok (.symlink target)

/-- No component of the requested path below the root is a symbolic link. -/
def NoLinks (env : Env) (t : Tree) (rootDir : Path) (filename : String) : Prop :=
  ∀ ns, ns ≠ [] → ns <+: requestedNames filename → ¬ IsLink env t rootDir ns

/-- No component of `loc` below `R` begins with a dot. -/
def NoneHidden (R loc : Loc) : Prop := ∀ c ∈ loc.drop R.length, startsWithDot c = false

/-- No component before the last one is a symbolic link, nor is the last one if the request ends
with a slash. -/
def NoLinkPassed (env : Env) (t : Tree) (rootDir : Path) (filename : String) : Prop :=
  ∀ ns, ns ≠ [] → ns <+: requestedNames filename →
    (ns = requestedNames filename → (requestedPath rootDir filename).trailingSlash = true) →
    ¬ IsLink env t rootDir ns

section

variable {env : Env} {t : Tree} {rootDir p : Path} {rel : List String} {R loc : Loc}

/-! ## A path without empty segments -/

theorem join_names_hasNul (h : (rootDir.join rel).hasNul = false) {ns : List String}
    (hns : ns <+: names rel) : (rootDir.join ns).hasNul = false := by
  rw [hasNul, List.any_eq_false] at h ⊢
  intro s hs
  refine h s ?_
  rw [join, List.mem_append] at hs ⊢
  exact hs.imp_right fun hmem => (List.mem_filter.mp (hns.subset hmem)).1

theorem join_names_comps {ns : List String} (hns : ns <+: names rel) :
    (rootDir.join ns).comps = rootDir.comps ++ ns := by
  have hall : names ns = ns := by
    rw [names, List.filter_eq_self]
    intro s hs
    exact (List.mem_filter.mp (hns.subset hs)).2
  rw [comps_join, hall]

theorem join_names_noSlash {ns : List String} (hns : ns <+: names rel) (hne : ns ≠ []) :
    (rootDir.join ns).trailingSlash = false := by
  rw [trailingSlash, decide_eq_false_iff_not]
  rintro ⟨-, hlast⟩
  obtain ⟨xs, x, rfl⟩ := List.eq_nil_or_concat' ns |>.resolve_left hne
  rw [join, ← List.append_assoc, List.getLast?_concat] at hlast
  have hx := (List.mem_filter.mp (hns.subset (List.mem_append_right xs List.mem_cons_self))).2
  rw [Option.some.inj hlast] at hx
  simp at hx

/-- A link is one at the end of the walk that does not follow it. -/
theorem Validated.isLink_iff (h : Validated env t rootDir p rel R loc) {ns : List String}
    (hns : ns <+: names rel) (hne : ns ≠ []) :
    IsLink env t rootDir ns ↔ ∃ l k target,
      walk t false env.maxSymlinks (rootDir.start env.cwd) (rootDir.comps ++ ns)
        = .ok (.found l, k) ∧ t.entry l = some (.symlink target) := by
  have hcomps : (rootDir.join ns).comps = rootDir.comps ++ ns := join_names_comps hns
  have hnul : (rootDir.join ns).hasNul = false := join_names_hasNul (h.path ▸ h.hasNul) hns
  have hempty : ¬ (rootDir.join ns).IsEmpty := by
    rintro ⟨-, hnil⟩
    rw [hcomps] at hnil
    exact hne (List.append_eq_nil_iff.mp hnil).2
  have hlookup : lookup env t false (rootDir.join ns) (rootDir.join ns).fullComps
      = walk t false env.maxSymlinks (rootDir.start env.cwd) (rootDir.comps ++ ns) := by
    rw [lookup_eq hnul hempty, fullComps_of_noSlash (join_names_noSlash hns hne), hcomps]
    rfl
  rw [IsLink, symlinkMetadata, hlookup]
  constructor
  · rintro ⟨target, htarget⟩
    cases hw : walk t false env.maxSymlinks (rootDir.start env.cwd) (rootDir.comps ++ ns) with
    | error e =>
        rw [hw] at htarget
        cases htarget
    | ok r =>
        obtain ⟨l | ⟨d, c⟩, k⟩ := r
        · rw [hw] at htarget
          cases he : t.entry l with
          | none => simp [he] at htarget
          | some e =>
              simp only [he, Except.ok.injEq] at htarget
              exact ⟨l, k, target, rfl, by rw [he, htarget]⟩
        · rw [hw] at htarget
          cases htarget
  · rintro ⟨l, k, target, hw, he⟩
    refine ⟨target, ?_⟩
    rw [hw]
    simp only [he]

/-! ## The way without links -/

/-- **The names of the request are walked as they stand** as far as none of them leads to a
link. -/
theorem Validated.walk_names (h : Validated env t rootDir p rel R loc) {q : Loc}
    (hq : canonicalize env t p = .ok q) {n : Nat}
    (hroot : walk t true env.maxSymlinks (rootDir.start env.cwd) rootDir.comps
      = .ok (.found R, n)) :
    ∀ ns, ns <+: names rel → (∀ ms, ms ≠ [] → ms <+: ns → ¬ IsLink env t rootDir ms) →
      walk t true env.maxSymlinks (rootDir.start env.cwd) (rootDir.comps ++ ns)
        = .ok (.found (R ++ ns), n) := by
  obtain ⟨k, hk⟩ := canonicalize_eq_ok.mp hq
  rw [lookup_eq h.hasNul h.not_isEmpty, h.start_eq, fullComps, h.comps] at hk
  intro ns
  induction ns using List.reverseRecOn with
  | nil =>
      intro _ _
      rw [List.append_nil, List.append_nil, hroot]
  | append_singleton ms c ih =>
      intro hns hlink
      have hms : ms <+: ms ++ [c] := List.prefix_append _ _
      have hreached := ih (hms.trans hns) fun xs hne hxs => hlink xs hne (hxs.trans hms)
      have hc : Normal c := h.normal c (hns.subset (by simp))
      obtain ⟨rest, hrest⟩ := hns
      -- the walk to `p` goes on from here
      rw [← hrest, show rootDir.comps ++ (ms ++ [c] ++ rest) ++ _
          = rootDir.comps ++ ms ++ (c :: (rest ++ if p.trailingSlash then ["."] else [])) by simp,
        walk_append t true (List.cons_ne_nil _ _), hreached, andThen] at hk
      generalize (rest ++ if p.trailingSlash then ["."] else []) = tail at hk
      have hdir : t.entry (R ++ ms) = some .dir := by
        by_contra hdir
        rw [walk_notDir hdir] at hk
        cases hk
      have hstep : ∀ follow, walk t follow env.maxSymlinks (rootDir.start env.cwd)
          (rootDir.comps ++ (ms ++ [c])) = walk t follow n (R ++ ms) [c] := by
        intro follow
        rw [← List.append_assoc, walk_append t follow (List.cons_ne_nil _ _), hreached, andThen]
      cases he : t.entry (R ++ ms ++ [c]) with
      | none =>
          rw [walk_absent hdir hc he] at hk
          split_ifs at hk
          cases hk
      | some e =>
          have hplain : ∀ target, e ≠ .symlink target := by
            rintro target rfl
            refine hlink (ms ++ [c]) (by simp) List.prefix_rfl
              ((h.isLink_iff ⟨rest, hrest⟩ (by simp)).mpr ⟨R ++ ms ++ [c], n, target, ?_, he⟩)
            rw [hstep, walk_link hdir hc he, if_pos ⟨rfl, rfl⟩]
          rw [hstep, walk_plain hdir hc he hplain, walk_nil, List.append_assoc]

/-- The last component is not a link unless a slash follows it. -/
theorem Validated.not_isLink_last (h : Validated env t rootDir p rel R loc)
    (hslash : p.trailingSlash = false) (hne : names rel ≠ []) :
    ¬ IsLink env t rootDir (names rel) := by
  rw [h.isLink_iff List.prefix_rfl hne]
  rintro ⟨l, k, target, hw, he⟩
  have hlink := h.link
  rw [rejectSymlink, symlinkMetadata, lookup_eq h.hasNul h.not_isEmpty, h.start_eq,
    fullComps_of_noSlash hslash, h.comps, hw] at hlink
  simp only [he] at hlink
  cases hlink

end

/-- Without links on the way, the object that is opened has the names of the request. -/
theorem canonical_of_noLinks {env : Env} {t : Tree} {rootDir p : Path} {filename : String}
    {R loc : Loc} (hok : validateAndResolvePath env t rootDir filename = .ok p)
    (hroot : canonicalize env t rootDir = .ok R) (hloc : canonicalize env t p = .ok loc)
    (hlinks : NoLinks env t rootDir filename) : loc = R ++ requestedNames filename := by
  obtain ⟨loc', h⟩ := validated_of_root hok hroot
  obtain ⟨-, n, hwalk⟩ := h.walk_root
  have hall := h.walk_names hloc hwalk _ List.prefix_rfl hlinks
  obtain ⟨k, hk⟩ := canonicalize_eq_ok.mp hloc
  rw [lookup_eq h.hasNul h.not_isEmpty, h.start_eq, fullComps, h.comps] at hk
  split_ifs at hk
  · rw [walk_append t true (List.cons_ne_nil _ _), hall, andThen] at hk
    by_cases hdir : t.entry (R ++ names (trimStartSlashes (filenameSegments filename)))
        = some .dir
    · rw [walk_dot hdir, walk_nil] at hk
      cases hk
      rfl
    · rw [walk_notDir hdir] at hk
      cases hk
  · rw [List.append_nil, hall] at hk
    cases hk
    rfl

/-- **When links are refused and hidden entries out of reach**, for an accepted path that exists:
if no component that is passed on the way is a symbolic link. -/
theorem symlinks_refused_iff {env : Env} {t : Tree} {rootDir p : Path} {filename : String}
    {R loc : Loc} (hok : validateAndResolvePath env t rootDir filename = .ok p)
    (hroot : canonicalize env t rootDir = .ok R) (hloc : canonicalize env t p = .ok loc) :
    (NoLinks env t rootDir filename ∧ NoneHidden R loc) ↔
      NoLinkPassed env t rootDir filename := by
  obtain ⟨loc', h⟩ := validated_of_root hok hroot
  constructor
  · rintro ⟨hlinks, -⟩ ns hne hns -
    exact hlinks ns hne hns
  · intro hpassed
    have hlinks : NoLinks env t rootDir filename := by
      intro ns hne hns
      by_cases hall : ns = requestedNames filename
      · by_cases hslash : p.trailingSlash = true
        · refine hpassed ns hne hns fun _ => ?_
          rwa [h.path] at hslash
        · -- the last component is the one that is looked at
          rw [hall] at hne ⊢
          exact h.not_isLink_last (Bool.eq_false_iff.mpr hslash) hne
      · exact hpassed ns hne hns fun heq => absurd heq hall
    refine ⟨hlinks, fun c hc => ?_⟩
    rw [canonical_of_noLinks hok hroot hloc hlinks, List.drop_left] at hc
    exact h.noDots c (List.mem_filter.mp hc).1

/-- `/srv/tftp/.audit/log`, and the link `/srv/tftp/pub` to `.audit`. -/
def linkedTree : Tree :=
  ((emptyRoot.addDir ["srv", "tftp"] ".audit").addFile ["srv", "tftp", ".audit"] "log").addLink
    ["srv", "tftp"] "pub" (ofString ".audit")

/-- A file of a directory that is no link. -/
theorem symlinks_refused_directory :
    let env : Env := ⟨[], 40⟩
    let t := (emptyRoot.addDir ["srv", "tftp"] "configs").addFile ["srv", "tftp", "configs"] "a"
    let rootDir := ofString "/srv/tftp"
    validateAndResolvePath env t rootDir "configs/a" = .ok (ofString "/srv/tftp/configs/a") ∧
    ((NoLinks env t rootDir "configs/a" ∧
      NoneHidden ["srv", "tftp"] ["srv", "tftp", "configs", "a"]) ↔
        NoLinkPassed env t rootDir "configs/a") := by
  intro env t rootDir
  have hok : validateAndResolvePath env t rootDir "configs/a"
      = .ok (ofString "/srv/tftp/configs/a") := by decide +kernel
  exact ⟨hok, symlinks_refused_iff hok (by decide +kernel) (by decide +kernel)⟩

/-- The audit log, under a name without a dot. -/
theorem link_reaches_hidden :
    let env : Env := ⟨[], 40⟩
    let rootDir := ofString "/srv/tftp"
    let p := ofString "/srv/tftp/pub/log"
    validateAndResolvePath env linkedTree rootDir "pub/log" = .ok p ∧
    canonicalize env linkedTree rootDir = .ok ["srv", "tftp"] ∧
    canonicalize env linkedTree p = .ok ["srv", "tftp", ".audit", "log"] ∧
    ¬ NoLinks env linkedTree rootDir "pub/log" ∧
    ¬ NoneHidden ["srv", "tftp"] ["srv", "tftp", ".audit", "log"] := by
  intro env rootDir p
  refine ⟨by decide +kernel, by decide +kernel, by decide +kernel, ?_, ?_⟩
  · intro h
    have hnames : requestedNames "pub/log" = ["pub", "log"] := by decide +kernel
    refine h ["pub"] (by simp) (by rw [hnames]; exact ⟨["log"], rfl⟩) ⟨ofString ".audit", ?_⟩
    decide +kernel
  · intro h
    have := h ".audit" (by simp)
    exact absurd this (by decide)

end UsgTftp
