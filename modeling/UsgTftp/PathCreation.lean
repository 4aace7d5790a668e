import UsgTftp.Lib.NewDirs
import UsgTftp.PathSecurity

set_option autoImplicit false

/-! # Creating what an accepted path lacks

What `create_dir_all` makes when it is called with an accepted path or with its parent:
`createParents_made` and `createDirAll_made`. After the parents were made the last name of the
path is looked for in a directory that is there (`exists_parentDir`).
-/

namespace UsgTftp

open Posix Posix.Path

section Paths

variable {env : Env} {t : Tree} {rootDir p : Path} {rel : List String} {R loc : Loc}

/-- What a path names is there. -/
theorem entry_of_canonicalize {l : Loc} (h : canonicalize env t p = .ok l) :
    ∃ e, t.entry l = some e := by
  obtain ⟨n, hn⟩ := canonicalize_eq_ok.mp h
  obtain ⟨hnul, hempty⟩ := lookup_ok hn
  rw [lookup_eq hnul hempty] at hn
  refine Option.ne_none_iff_exists'.mp (walk_found_entry t true _ _ _ l n (fun hnil => ?_) hn)
  have hcomps : p.comps = [] := (List.append_eq_nil_iff.mp hnil).1
  have habs : p.absolute = true := by
    by_contra habs
    exact hempty ⟨by simpa using habs, hcomps⟩
  rw [Path.start, if_pos habs, t.root_dir]
  exact Option.some_ne_none _

theorem pathExists_iff : pathExists env t p = true ↔ ∃ l, canonicalize env t p = .ok l := by
  constructor
  · intro h
    by_contra hno
    rw [pathExists_eq_false (fun l hl => hno ⟨l, hl⟩)] at h
    cases h
  · rintro ⟨l, hl⟩
    obtain ⟨e, he⟩ := entry_of_canonicalize hl
    rw [pathExists, metadata_of_canonicalize hl he]
    rfl

/-- The parents of a path that names something name something too, or are empty. -/
theorem parent_exists {q : Path} (hq : q ∈ p.parents) {l : Loc} {m : Nat}
    (h : lookup env t true p p.fullComps = .ok (.found l, m)) :
    q.IsEmpty ∨ ∃ l m, lookup env t true q q.comps = .ok (.found l, m) ∧ t.entry l = some .dir := by
  obtain ⟨habs, hnul, tail, htail, hcomps⟩ := mem_parents hq
  obtain ⟨hpnul, hpempty⟩ := lookup_ok h
  by_cases hempty : q.IsEmpty
  · exact Or.inl hempty
  right
  rw [lookup_eq hpnul hpempty, fullComps, hcomps, List.append_assoc] at h
  obtain ⟨E, n, hwalk, hdir, -⟩ :=
    walk_prefix (List.append_ne_nil_of_left_ne_nil htail _) h
  refine ⟨E, n, ?_, hdir⟩
  rw [lookup_eq (hnul hpnul) hempty, Path.start, habs]
  exact hwalk

theorem newDirs_of_head {ps : List Path}
    (h : ∀ q ∈ ps.head?, q.IsEmpty ∨ pathExists env t q = true) : newDirs env t ps = [] := by
  have hnil : missing env t ps = [] := by
    cases ps with
    | nil => rfl
    | cons q ps =>
        rw [missing, List.takeWhile_cons_of_neg]
        rw [decide_eq_true_iff]
        rintro ⟨h1, h2⟩
        rcases h q (by simp) with hq | hq
        · exact h1 hq
        · rw [h2] at hq
          cases hq
  rw [newDirs, hnil]
  rfl

theorem head_parent_slash {q : Path} (h : q ∈ p.parents.head?) : q.trailingSlash = false := by
  obtain ⟨qs, hqs⟩ := List.head?_eq_some_iff.mp h
  exact (parents_head hqs).2.1

/-- No parent of a path that exists is missing. -/
theorem newDirs_parents_of_exists {l : Loc} (h : canonicalize env t p = .ok l) :
    newDirs env t p.parents = [] := by
  obtain ⟨m, hm⟩ := canonicalize_eq_ok.mp h
  apply newDirs_of_head
  intro q hq
  rcases parent_exists (List.mem_of_mem_head? hq) hm with hempty | ⟨l', m', hl', -⟩
  · exact Or.inl hempty
  · refine Or.inr (pathExists_iff.mpr ⟨l', canonicalize_eq_ok.mpr ⟨m', ?_⟩⟩)
    rwa [fullComps_of_noSlash (head_parent_slash hq)]

/-! ## The trail of a path that is not there -/

/-- The paths to the missing names, from that of the first one on. -/
theorem NearestParent.chain {m : Nat} {Q : Nat → Path} {above : List Path}
    (h : Resolved env t rootDir p rel R loc)
    (hp : NearestParent env t rootDir p (names rel) loc m Q above) {ms : List String}
    (hms : (names rel).drop m = ms) :
    ∀ i, i < ms.length →
      DirChain env (rootDir.start env.cwd) (rootDir.comps ++ (names rel).take m) (ms.take i)
        ((List.range' (m + 1) i).reverse.map Q) := by
  intro i
  induction i with
  | zero => intro _; exact .nil
  | succ i ih =>
      intro hi
      have hlen : (names rel).length = m + ms.length := by
        rw [← hms, List.length_drop]
        have := hp.lt
        omega
      rw [List.take_succ_eq_append_getElem (by omega), List.range'_concat, List.reverse_append,
        List.map_append]
      refine .concat (ih (by omega)) ?_ (hp.nul _ (by omega)) (hp.start _ (by omega)) ?_
      · apply h.normal
        apply List.mem_of_mem_drop (i := m)
        rw [hms]
        exact List.getElem_mem _
      · rw [hp.comps _ (by omega) (by omega), List.append_assoc,
          ← List.take_succ_eq_append_getElem (by omega), ← hms, ← List.take_add]
        congr 2
        omega

/-- The parents, cut at the nearest one that exists. -/
theorem NearestParent.parents_eq {m k : Nat} {Q : Nat → Path} {above : List Path}
    (hp : NearestParent env t rootDir p (names rel) loc m Q above)
    (hk : (names rel).length = m + (k + 1)) :
    p.parents = (List.range' (m + 1) k).reverse.map Q
      ++ (Q m :: ((List.range m).reverse.map Q ++ above)) := by
  rw [hp.parents, range_reverse_split hp.lt, List.map_append, List.map_cons, List.append_assoc,
    List.cons_append, show (names rel).length - 1 - m = k by omega]

/-- The parents from the nearest one that exists on exist or are empty. -/
theorem NearestParent.above_exist {m k : Nat} {Q : Nat → Path} {above : List Path}
    (h : Resolved env t rootDir p rel R loc)
    (hp : NearestParent env t rootDir p (names rel) loc m Q above)
    (hk : (names rel).length = m + (k + 1)) :
    ∀ y ∈ Q m :: ((List.range m).reverse.map Q ++ above),
      y.IsEmpty ∨ ∃ l k, lookup env t false y y.comps = .ok (.found l, k) := by
  intro y hy
  have hyp : y ∈ p.parents := by
    rw [hp.parents_eq hk]
    exact List.mem_append_right _ hy
  have hynul := (mem_parents hyp).2.1 h.hasNul
  by_cases hempty : y.IsEmpty
  · exact Or.inl hempty
  right
  obtain ⟨n, hq⟩ := canonicalize_eq_ok.mp hp.canonical
  obtain ⟨hqnul, hqempty⟩ := lookup_ok hq
  rw [fullComps_of_noSlash (hp.slash m hp.lt), lookup_eq hqnul hqempty] at hq
  have hfound : ∃ l k, walk t true env.maxSymlinks (y.start env.cwd) y.comps
      = .ok (.found l, k) := by
    rcases List.mem_cons.mp hy with rfl | hy
    · exact ⟨loc, n, hq⟩
    · -- the parents above have a part of the components of `Q m`
      have hpairs := p.parents_pairwise
      rw [hp.parents_eq hk] at hpairs
      obtain ⟨habs, tail, htail, hcs⟩ :=
        List.rel_of_pairwise_cons (List.pairwise_append.mp hpairs).2.1 hy
      rw [hcs] at hq
      obtain ⟨E, n', hwalk, -, -⟩ := walk_prefix htail hq
      exact ⟨E, n', by rw [Path.start, habs]; exact hwalk⟩
  obtain ⟨l, k, hl⟩ := hfound
  obtain ⟨l', k', hl'⟩ := walk_nofollow_found t _ _ _ _ _ hl
  exact ⟨l', k', by rw [lookup_eq hynul hempty, hl']⟩

/-- The last name of a path that names nothing is not found in its directory. -/
theorem Resolved.last_lost (h : Resolved env t rootDir p rel R loc)
    (hno : ∀ q, canonicalize env t p ≠ .ok q) {K : List String} {last : String} {links : Nat}
    (hcomps : p.comps = K ++ [last])
    (hD : walk t true env.maxSymlinks (rootDir.start env.cwd) K = .ok (.found loc, links))
    (l : Loc) (k : Nat) : walk t true links loc [last] ≠ .ok (.found l, k) := by
  intro hw
  have hmissing := h.walk_missing hno true
  rw [fullComps, hcomps, List.append_assoc, walk_append t true (by simp), hD, andThen] at hmissing
  split_ifs at hmissing
  · -- with a slash after it, the name has to be that of a directory
    rw [walk_append t true (by simp), hw, andThen] at hmissing
    by_cases hl : t.entry l = some .dir
    · rw [walk_dot hl, walk_nil] at hmissing
      rcases hmissing with ⟨_, _, _, h⟩ | h <;> cases h
    · rw [walk_notDir hl] at hmissing
      rcases hmissing with ⟨_, _, _, h⟩ | h <;> cases h
  · rw [List.append_nil, hw] at hmissing
    rcases hmissing with ⟨_, _, _, h⟩ | h <;> cases h

/-- **The trail of an accepted path that names nothing.** The names `ns` and `last` after the
directory `loc` are missing; the chain of paths to them ends with the path itself. -/
structure MissingNames (env : Env) (t : Tree) (rootDir p : Path) (loc : Loc) (K ns : List String)
    (last : String) (links : Nat) (xs post : List Path) : Prop where
  comps : p.comps = K ++ (ns ++ [last])
  normal : Normal last
  parents : p.parents = xs ++ post
  above : Trail env t (rootDir.start env.cwd) K ns loc links xs post
  whole : Trail env t (rootDir.start env.cwd) K (ns ++ [last]) loc links (p :: xs) post

theorem Resolved.missingNames (h : Resolved env t rootDir p rel R loc)
    (hno : ∀ q, canonicalize env t p ≠ .ok q) :
    ∃ K ns last links xs post, MissingNames env t rootDir p loc K ns last links xs post := by
  obtain ⟨m, Q, above, hp⟩ := h.nearestParent hno
  have hm := hp.lt
  obtain ⟨links, hD⟩ := hp.reached
  have hne : (names rel).drop m ≠ [] := by simpa using hm
  obtain ⟨ns, last, hns⟩ : ∃ ns last, (names rel).drop m = ns ++ [last] :=
    ⟨_, _, (List.dropLast_append_getLast hne).symm⟩
  have hlen : (names rel).length = m + (ns.length + 1) := by
    have := congrArg List.length hns
    simp only [List.length_drop, List.length_append, List.length_singleton] at this
    omega
  have hcomps : p.comps = rootDir.comps ++ (names rel).take m ++ (ns ++ [last]) := by
    rw [h.comps, List.append_assoc, ← hns, List.take_append_drop]
  have hnormal : ∀ c ∈ ns ++ [last], Normal c := by
    intro c hc
    rw [← hns] at hc
    exact h.normal c (List.mem_of_mem_drop hc)
  have hchain := hp.chain h hns ns.length (by simp)
  rw [List.take_left] at hchain
  have hmem : ∀ x ∈ (List.range' (m + 1) ns.length).reverse.map Q,
      x.trailingSlash = false ∧ ∀ l, canonicalize env t x ≠ .ok l := by
    intro x hx
    obtain ⟨i, hi, rfl⟩ := List.mem_map.mp hx
    rw [List.mem_reverse, List.mem_range'_1] at hi
    exact ⟨hp.slash i (by omega), hp.missing i (by omega) (by omega)⟩
  -- the walk to `p` goes on from `loc`, so `loc` is a directory
  have hdir : t.entry loc = some .dir := by
    by_contra hdir
    have hw := h.walk_missing hno true
    obtain ⟨c, cs, hcs⟩ := List.exists_cons_of_ne_nil (l := ns ++ [last]) (by simp)
    rw [fullComps, hcomps, hcs, List.append_assoc, List.cons_append,
      walk_append t true (List.cons_ne_nil _ _), hD, andThen, walk_notDir hdir] at hw
    rcases hw with ⟨_, _, _, hw⟩ | hw <;> cases hw
  have hlost : ∀ c ∈ (ns ++ [last]).head?, ∀ l k,
      walk t true links loc [c] ≠ .ok (.found l, k) := by
    intro c hc l k hw
    cases ns with
    | nil =>
        cases hc
        exact h.last_lost hno hcomps hD l k hw
    | cons n ns =>
        cases hc
        obtain ⟨x, hx, hl⟩ := hchain.exists_mem hD (List.cons_ne_nil c []) ⟨ns, rfl⟩ true
        obtain ⟨hslash, hx⟩ := hmem x hx
        exact hx l (canonicalize_eq_ok.mpr ⟨k, by rw [fullComps_of_noSlash hslash, hl, hw]⟩)
  have hfirst : ∀ c ∈ (ns ++ [last]).head?, t.entry (loc ++ [c]) = none ∨
      (∃ target, t.entry (loc ++ [c]) = some (.symlink target)) ∧
        ∀ l k, walk t true links loc [c] ≠ .ok (.found l, k) := by
    intro c hc
    cases he : t.entry (loc ++ [c]) with
    | none => exact Or.inl rfl
    | some e =>
        -- what is there but is not found is a link
        right
        refine ⟨?_, hlost c hc⟩
        by_contra hlink
        refine hlost c hc (loc ++ [c]) links ?_
        rw [walk_plain hdir (hnormal c (List.mem_of_mem_head? hc)) he
          (fun target ht => hlink ⟨target, by rw [ht]⟩), walk_nil]
  have hstop : ∀ y ∈ (Q m :: ((List.range m).reverse.map Q ++ above)).head?,
      y.IsEmpty ∨ pathExists env t y = true := by
    rintro y ⟨⟩
    exact Or.inr (pathExists_iff.mpr ⟨loc, hp.canonical⟩)
  have hdone :
      createDirAll env t (Q m :: ((List.range m).reverse.map Q ++ above)) = (t, .ok ()) := by
    obtain ⟨k, hq⟩ := canonicalize_eq_ok.mp hp.canonical
    rw [fullComps_of_noSlash (hp.slash m hm)] at hq
    exact createDirAll_of_dir (hp.slash m hm) hq hdir
  have hlast : Normal last := hnormal last (by simp)
  have hexist := hp.above_exist h hlen
  refine ⟨_, ns, last, links, _, _, hcomps, hlast, hp.parents_eq hlen,
    ⟨hchain, hD, hdir, fun x hx => (hmem x hx).2, fun c hc => hfirst c ?_, hexist, hstop, hdone⟩,
    ⟨.concat hchain hlast h.hasNul h.start_eq hcomps, hD, hdir, ?_, hfirst, hexist, hstop, hdone⟩⟩
  · rw [List.head?_append, hc]
    rfl
  · intro x hx
    rcases List.mem_cons.mp hx with rfl | hx
    · exact hno
    · exact (hmem x hx).2

theorem MissingNames.createParents_eq {K ns : List String} {last : String} {links : Nat}
    {xs post : List Path} (hm : MissingNames env t rootDir p loc K ns last links xs post) :
    createParents env t p = createDirAll env t (xs ++ post) := by
  rw [createParents, hm.parents]
  split
  · rename_i hnil
    have hpost : post = [] := (List.append_eq_nil_iff.mp hnil).2
    have := hm.above.done
    rw [hpost] at this
    cases this
  · rfl

/-! ## What is made -/

/-- **The parents of an accepted path**, as `write_file_safely` and the web uploads make them. -/
theorem Resolved.createParents_made (h : Resolved env t rootDir p rel R loc) :
    DirsMade env t (createParents env t p).1 p.parents (newDirs env t p.parents) := by
  by_cases hex : ∃ l, canonicalize env t p = .ok l
  · obtain ⟨l, hl⟩ := hex
    rw [createParents_of_exists hl, newDirs_parents_of_exists hl]
    exact DirsMade.none env t _
  · obtain ⟨K, ns, last, links, xs, post, hm⟩ := h.missingNames (fun l hl => hex ⟨l, hl⟩)
    rw [hm.createParents_eq, hm.parents]
    exact hm.above.dirsMade

/-- **An accepted path and its parents**, as the web UI makes a directory. -/
theorem Resolved.createDirAll_made (h : Resolved env t rootDir p rel R loc) :
    DirsMade env t (createDirAll env t (p :: p.parents)).1 (p :: p.parents)
      (newDirs env t (p :: p.parents)) := by
  by_cases hex : ∃ l, canonicalize env t p = .ok l
  · obtain ⟨l, hl⟩ := hex
    obtain ⟨m, hm⟩ := canonicalize_eq_ok.mp hl
    obtain ⟨hnul, hempty⟩ := lookup_ok hm
    have hfound : ∃ l m, lookup env t false p p.comps = .ok (.found l, m) := by
      rw [lookup_eq hnul hempty, fullComps] at hm
      have hwalk : ∃ l m, walk t true env.maxSymlinks (p.start env.cwd) p.comps
          = .ok (.found l, m) := by
        split_ifs at hm
        · obtain ⟨E, n, hw, -, -⟩ := walk_prefix (List.cons_ne_nil _ _) hm
          exact ⟨E, n, hw⟩
        · exact ⟨l, m, by rwa [List.append_nil] at hm⟩
      obtain ⟨l', m', hw⟩ := hwalk
      obtain ⟨l'', m'', hw'⟩ := walk_nofollow_found t _ _ _ _ _ hw
      exact ⟨l'', m'', by rw [lookup_eq hnul hempty, hw']⟩
    obtain ⟨l', m', hl'⟩ := hfound
    have hmkdir : mkdir env t p = .error .eexist := by rw [mkdir, hl']
    have hsame : (createDirAll env t (p :: p.parents)).1 = t := by
      rw [createDirAll, if_neg hempty, hmkdir]
      simp only
      split_ifs <;> rfl
    rw [hsame, newDirs_of_head (by rintro q ⟨⟩; exact Or.inr (pathExists_iff.mpr ⟨l, hl⟩))]
    exact DirsMade.none env t _
  · obtain ⟨K, ns, last, links, xs, post, hm⟩ := h.missingNames (fun l hl => hex ⟨l, hl⟩)
    rw [hm.parents]
    exact hm.whole.dirsMade

/-- Where the parents are made, nothing stands in their way. -/
theorem MissingNames.createParents_ok {K ns : List String} {last : String} {links : Nat}
    {xs post : List Path} (hm : MissingNames env t rootDir p loc K ns last links xs post)
    (hok : (createParents env t p).2 = .ok ()) :
    (∀ n ∈ ns.head?, t.entry (loc ++ [n]) = none) ∧
      (createParents env t p).1 = t.addDirs loc ns := by
  have htrail := hm.above
  rw [hm.createParents_eq] at hok ⊢
  by_cases hfree : ∀ n ∈ ns.head?, t.entry (loc ++ [n]) = none
  · rw [createDirAll_chain htrail.chain htrail.reached htrail.dir hfree htrail.done]
    exact ⟨hfree, rfl⟩
  · -- a link in the place of a directory stops the call
    exfalso
    simp only [not_forall] at hfree
    obtain ⟨n, hn, hsome⟩ := hfree
    obtain ⟨⟨target, hlink⟩, hlost⟩ := (htrail.first n hn).resolve_left hsome
    obtain ⟨e, he⟩ := createDirAll_blocked htrail.chain htrail.reached htrail.dir hn hlink hlost
      htrail.missing post
    rw [he] at hok
    cases hok

/-- With the parents made, the walk to the path gets to the last name. -/
theorem MissingNames.walk_parents {K ns : List String} {last : String} {links : Nat}
    {xs post : List Path} (hm : MissingNames env t rootDir p loc K ns last links xs post)
    (hfree : ∀ n ∈ ns.head?, t.entry (loc ++ [n]) = none) :
    walk (t.addDirs loc ns) true env.maxSymlinks (rootDir.start env.cwd) (K ++ ns)
        = .ok (.found (loc ++ ns), links) ∧
      (t.addDirs loc ns).entry (loc ++ ns) = some .dir := by
  have htrail := hm.above
  have hext := extends_addDirs htrail.dir hfree
  have hreached := walk_extends hext true _ _ _ _ _ htrail.reached
  refine ⟨?_, addDirs_entry_prefix htrail.dir hfree List.prefix_rfl⟩
  by_cases hnil : ns = []
  · rw [hnil, List.append_nil, List.append_nil]
    rwa [hnil] at hreached
  · have hwalk := @walk_dirs (t.addDirs loc ns) links true [] ns loc htrail.chain.normal
      (hext.entry_eq htrail.dir) (fun ms hms => addDirs_entry_prefix htrail.dir hfree hms)
    rw [walk_append _ true hnil, hreached, andThen]
    rwa [List.append_nil, walk_nil] at hwalk

/-- After the parents were made, the last name of the path is looked for in a directory. -/
theorem Resolved.exists_parentDir (h : Resolved env t rootDir p rel R loc) {cs : List String}
    {last : String} (hrel : names rel = cs ++ [last]) (hok : (createParents env t p).2 = .ok ()) :
    ∃ d k, walk (createParents env t p).1 true env.maxSymlinks (rootDir.start env.cwd)
        (rootDir.comps ++ cs) = .ok (.found d, k) ∧
      (createParents env t p).1.entry d = some .dir := by
  have hcomps : p.comps = rootDir.comps ++ cs ++ [last] := by
    rw [h.comps, hrel, List.append_assoc]
  by_cases hex : ∃ l, canonicalize env t p = .ok l
  · obtain ⟨l, hl⟩ := hex
    rw [createParents_of_exists hl]
    obtain ⟨m, hm⟩ := canonicalize_eq_ok.mp hl
    rw [lookup_eq h.hasNul h.not_isEmpty, h.start_eq, fullComps, hcomps, List.append_assoc] at hm
    obtain ⟨d, k, hw, hdir, -⟩ := walk_prefix (by simp) hm
    exact ⟨d, k, hw, hdir⟩
  · obtain ⟨K, ns, last', links, xs, post, hm⟩ := h.missingNames (fun l hl => hex ⟨l, hl⟩)
    obtain ⟨hfree, htree⟩ := hm.createParents_ok hok
    obtain ⟨hwalk, hdir⟩ := hm.walk_parents hfree
    have hpre : rootDir.comps ++ cs = K ++ ns := by
      have hsame := hm.comps
      rw [hcomps, ← List.append_assoc K] at hsame
      exact (List.append_inj' hsame rfl).1
    rw [htree, hpre]
    exact ⟨loc ++ ns, links, hwalk, hdir⟩

/-- A path that named nothing still lacks its last name. -/
theorem Resolved.lookup_missing (h : Resolved env t rootDir p rel R loc)
    (hno : ∀ l, canonicalize env t p ≠ .ok l) (hslash : p.trailingSlash = false)
    (hok : (createParents env t p).2 = .ok ()) :
    ∃ d c k, lookup env (createParents env t p).1 false p p.comps = .ok (.absent d c, k) := by
  obtain ⟨K, ns, last, links, xs, post, hm⟩ := h.missingNames hno
  obtain ⟨hfree, htree⟩ := hm.createParents_ok hok
  obtain ⟨hwalk, hdir⟩ := hm.walk_parents hfree
  have hlookup : lookup env (t.addDirs loc ns) false p p.comps
      = walk (t.addDirs loc ns) false links (loc ++ ns) [last] := by
    rw [lookup_eq h.hasNul h.not_isEmpty, h.start_eq, hm.comps, ← List.append_assoc,
      walk_append _ false (List.cons_ne_nil _ _), hwalk, andThen]
  have hnone : (t.addDirs loc ns).entry (loc ++ ns ++ [last]) = none := by
    have hbelow : (t.addDirs loc ns).entry (loc ++ ns ++ [last])
        = t.entry (loc ++ ns ++ [last]) := by
      rw [Tree.addDirs_entry ns t loc hm.above.dir hfree, if_neg]
      rintro ⟨-, -, hp⟩
      have := hp.length_le
      simp at this
    rw [hbelow]
    cases ns with
    | cons n ns => exact Tree.entry_below_none (hfree n rfl) ⟨ns ++ [last], by simp⟩
    | nil =>
        -- the name alone is missing; a link in its place is not accepted
        rcases hm.whole.first last rfl with hnone | ⟨⟨target, hlink⟩, -⟩
        · rwa [List.append_nil]
        · exfalso
          have hlink' := h.link
          rw [rejectSymlink, symlinkMetadata, fullComps_of_noSlash hslash,
            lookup_eq h.hasNul h.not_isEmpty, h.start_eq, hm.comps, List.nil_append,
            walk_append t false (List.cons_ne_nil _ _), hm.above.reached, andThen,
            walk_link hm.above.dir hm.normal hlink, if_pos ⟨rfl, rfl⟩] at hlink'
          simp only [hlink] at hlink'
          cases hlink'
  rw [htree, hlookup, walk_absent hdir hm.normal hnone, if_pos rfl]
  exact ⟨_, _, _, rfl⟩

/-- If the last name of an accepted path can be looked for, then its parents can be made. -/
theorem Resolved.createParents_ok (h : Resolved env t rootDir p rel R loc) {r : Target × Nat}
    (hl : lookup env t false p p.comps = .ok r) : (createParents env t p).2 = .ok () := by
  by_cases hex : ∃ l, canonicalize env t p = .ok l
  · obtain ⟨l, hl⟩ := hex
    rw [createParents_of_exists hl]
  · obtain ⟨K, ns, last, links, xs, post, hm⟩ := h.missingNames (fun l hl => hex ⟨l, hl⟩)
    have htrail := hm.above
    rw [hm.createParents_eq]
    by_cases hfree : ∀ n ∈ ns.head?, t.entry (loc ++ [n]) = none
    · rw [createDirAll_chain htrail.chain htrail.reached htrail.dir hfree htrail.done]
    · exfalso
      simp only [not_forall] at hfree
      obtain ⟨n, hn, hsome⟩ := hfree
      obtain ⟨-, hlost⟩ := (htrail.first n hn).resolve_left hsome
      obtain ⟨tail, rfl⟩ := List.head?_eq_some_iff.mp hn
      obtain ⟨e, he⟩ := andThen_lost false (tail ++ [last]) hlost
      rw [lookup_eq h.hasNul h.not_isEmpty, h.start_eq, hm.comps,
        walk_append t false (by simp), htrail.reached, andThen, List.cons_append,
        show n :: (tail ++ [last]) = [n] ++ (tail ++ [last]) from rfl,
        walk_append t false (by simp), he] at hl
      cases hl

end Paths

end UsgTftp
