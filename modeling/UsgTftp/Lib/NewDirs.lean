import UsgTftp.Lib.Confine

set_option autoImplicit false

/-! # The directories that `create_dir_all` makes

`Confine.lean` says where `create_dir_all` can make directories; here is what it makes. The paths
it goes through lead to a directory `D` and on through names that are not there (`DirChain`). It
makes a directory for each of these paths (`createDirAll_chain`), unless the first missing name is
a link that leads nowhere, which stops it before it makes any (`createDirAll_blocked`).

`newDirs` lists these paths, from the tree before the call.
-/

namespace Posix

/-! ## Chains of new directories -/

namespace Tree

/-- A chain of directories below `d`. -/
def addDirs (t : Tree) (d : Loc) : List String → Tree
  | [] => t
  | n :: ns => (t.addDir d n).addDirs (d ++ [n]) ns

theorem addDirs_concat (ns : List String) (n : String) :
    ∀ (t : Tree) (d : Loc), t.addDirs d (ns ++ [n]) = (t.addDirs d ns).addDir (d ++ ns) n := by
  induction ns with
  | nil =>
      intro t d
      rw [List.append_nil]
      rfl
  | cons c ns ih =>
      intro t d
      rw [List.cons_append, addDirs, ih, addDirs, List.append_assoc]
      rfl

theorem addDirs_content (ns : List String) :
    ∀ (t : Tree) (d : Loc), (t.addDirs d ns).content = t.content := by
  induction ns with
  | nil => intro t d; rfl
  | cons n ns ih => intro t d; rw [addDirs, ih, addDir_content]

theorem addDirs_nextInode (ns : List String) :
    ∀ (t : Tree) (d : Loc), (t.addDirs d ns).nextInode = t.nextInode := by
  induction ns with
  | nil => intro t d; rfl
  | cons n ns ih => intro t d; rw [addDirs, ih, addDir_nextInode]

/-- The entries of the chain: its directories, and all that was there before. -/
theorem addDirs_entry (ns : List String) :
    ∀ (t : Tree) (d : Loc), t.entry d = some .dir →
      (∀ n ∈ ns.head?, t.entry (d ++ [n]) = none) → ∀ l,
      (t.addDirs d ns).entry l = if d <+: l ∧ l ≠ d ∧ l <+: d ++ ns then some .dir
        else t.entry l := by
  induction ns with
  | nil =>
      intro t d _ _ l
      rw [List.append_nil, if_neg]
      · rfl
      · rintro ⟨h, hne, h'⟩
        exact hne (h'.eq_of_length (Nat.le_antisymm h'.length_le h.length_le))
  | cons n ns ih =>
      intro t d hdir hnone l
      have hnone' : t.entry (d ++ [n]) = none := hnone n (by simp)
      have hsub : ∀ m ∈ ns.head?, (t.addDir d n).entry (d ++ [n] ++ [m]) = none := by
        intro m _
        rw [addDir_entry_of_ne (by simp)]
        exact Tree.entry_below_none hnone' (List.prefix_append _ _)
      rw [addDirs, ih _ _ (addDir_entry hdir hnone') hsub]
      have happ : d ++ [n] ++ ns = d ++ n :: ns := by simp
      by_cases hl : l = d ++ [n]
      · -- the first directory of the chain
        rw [if_neg (fun h => h.2.1 hl), hl, addDir_entry hdir hnone', if_pos]
        exact ⟨List.prefix_append _ _, by simp, by rw [← happ]; exact List.prefix_append _ _⟩
      · rw [addDir_entry_of_ne hl, happ]
        have hiff : (d ++ [n] <+: l ∧ l ≠ d ++ [n] ∧ l <+: d ++ n :: ns) ↔
            (d <+: l ∧ l ≠ d ∧ l <+: d ++ n :: ns) := by
          constructor
          · rintro ⟨h1, -, h3⟩
            refine ⟨(List.prefix_append _ _).trans h1, ?_, h3⟩
            rintro rfl
            have := h1.length_le
            simp at this
          · rintro ⟨h1, h2, h3⟩
            refine ⟨?_, hl, h3⟩
            obtain ⟨s, rfl⟩ := h1
            rw [List.prefix_append_right_inj] at h3
            match s with
            | [] => exact absurd (List.append_nil d) h2
            | c :: s =>
                rw [(List.cons_prefix_cons.mp h3).1]
                exact ⟨s, by simp⟩
        exact if_congr hiff rfl rfl

end Tree

/-- `xs` are the paths, the longest first, that go on from the components `K` through the names
`ns`, one for each name. -/
inductive DirChain (env : Env) (start : Loc) (K : List String) : List String → List Path → Prop
  | nil : DirChain env start K [] []
  | concat {ns : List String} {xs : List Path} {n : String} {x : Path}
      (rest : DirChain env start K ns xs) (normal : Normal n) (nul : x.hasNul = false)
      (start_eq : x.start env.cwd = start) (comps : x.comps = K ++ (ns ++ [n])) :
      DirChain env start K (ns ++ [n]) (x :: xs)

section Chain

variable {env : Env} {start : Loc} {K ns : List String} {xs : List Path} {t : Tree} {D : Loc}
  {links : Nat}

theorem DirChain.normal (h : DirChain env start K ns xs) : ∀ n ∈ ns, Normal n := by
  induction h with
  | nil => intro n hn; cases hn
  | concat _ hn _ _ _ ih =>
      intro n hmem
      rcases List.mem_append.mp hmem with hmem | hmem
      · exact ih n hmem
      · rw [List.mem_singleton.mp hmem]
        exact hn

/-- What a path of the chain resolves to is looked for from `D`. -/
theorem DirChain.lookup_mem (h : DirChain env start K ns xs)
    (hD : walk t true env.maxSymlinks start K = .ok (.found D, links)) {x : Path} (hx : x ∈ xs)
    (follow : Bool) : ∃ ms, ms ≠ [] ∧ ms <+: ns ∧ x.comps = K ++ ms ∧
      lookup env t follow x x.comps = walk t follow links D ms := by
  induction h with
  | nil => cases hx
  | @concat ns xs n y rest hn hnul hstart hcomps ih =>
      rcases List.mem_cons.mp hx with rfl | hx
      · have hempty : ¬ x.IsEmpty := by
          rintro ⟨-, h⟩
          rw [hcomps] at h
          simp at h
        refine ⟨ns ++ [n], by simp, List.prefix_rfl, hcomps, ?_⟩
        rw [lookup_eq hnul hempty, hstart, hcomps, walk_append t follow (by simp), hD, andThen]
      · obtain ⟨ms, hne, hms, hx⟩ := ih hx
        exact ⟨ms, hne, hms.trans (List.prefix_append _ _), hx⟩

/-- There is a path in the chain for each part of the names. -/
theorem DirChain.exists_mem (h : DirChain env start K ns xs)
    (hD : walk t true env.maxSymlinks start K = .ok (.found D, links)) {ms : List String}
    (hne : ms ≠ []) (hms : ms <+: ns) (follow : Bool) :
    ∃ x ∈ xs, lookup env t follow x x.comps = walk t follow links D ms := by
  induction h with
  | nil => exact absurd (List.prefix_nil.mp hms) hne
  | @concat ns xs n x rest hn hnul hstart hcomps ih =>
      rcases List.prefix_concat_iff.mp (by simpa using hms) with heq | hms'
      · have hempty : ¬ x.IsEmpty := by
          rintro ⟨-, h⟩
          rw [hcomps] at h
          simp at h
        refine ⟨x, List.mem_cons_self, ?_⟩
        rw [lookup_eq hnul hempty, hstart, hcomps, walk_append t follow (by simp), hD, andThen,
          heq]
      · obtain ⟨y, hy, h⟩ := ih hms'
        exact ⟨y, List.mem_cons_of_mem _ hy, h⟩

/-- A walk through directories that are there. -/
theorem walk_dirs {follow : Bool} {rest : List String} :
    ∀ (ns : List String) (D : Loc), (∀ n ∈ ns, Normal n) → t.entry D = some .dir →
      (∀ ms, ms <+: ns → t.entry (D ++ ms) = some .dir) →
      walk t follow links D (ns ++ rest) = walk t follow links (D ++ ns) rest := by
  intro ns
  induction ns with
  | nil => intro D _ _ _; rw [List.append_nil, List.nil_append]
  | cons n ns ih =>
      intro D hnormal hdir hdirs
      have hn : t.entry (D ++ [n]) = some .dir := hdirs [n] ⟨ns, rfl⟩
      rw [List.cons_append, walk_plain hdir (hnormal n List.mem_cons_self) hn
        (by intro target h; cases h), ih (D ++ [n])
        (fun m hm => hnormal m (List.mem_cons_of_mem _ hm)) hn, List.append_assoc]
      · rfl
      · intro ms hms
        rw [List.append_assoc]
        exact hdirs (n :: ms) (List.cons_prefix_cons.mpr ⟨rfl, hms⟩)

theorem addDirs_entry_prefix (hdir : t.entry D = some .dir)
    (hnone : ∀ n ∈ ns.head?, t.entry (D ++ [n]) = none) {ms : List String} (hms : ms <+: ns) :
    (t.addDirs D ns).entry (D ++ ms) = some .dir := by
  rw [Tree.addDirs_entry ns t D hdir hnone]
  by_cases hnil : ms = []
  · rw [hnil, List.append_nil, if_neg (fun h => h.2.1 rfl), hdir]
  · rw [if_pos]
    refine ⟨List.prefix_append _ _, ?_, (List.prefix_append_right_inj D).mpr hms⟩
    simpa using hnil

theorem extends_addDirs (hdir : t.entry D = some .dir)
    (hnone : ∀ n ∈ ns.head?, t.entry (D ++ [n]) = none) : Extends t (t.addDirs D ns) := by
  intro l hl
  rw [Tree.addDirs_entry ns t D hdir hnone]
  split_ifs with h
  · -- nothing is there where the chain is put
    exfalso
    obtain ⟨⟨s, rfl⟩, hne, hp⟩ := h
    rw [List.prefix_append_right_inj] at hp
    obtain ⟨n, s', rfl⟩ := List.exists_cons_of_ne_nil (l := s) (by rintro rfl; simp at hne)
    obtain ⟨tail, rfl⟩ := hp
    exact hl (Tree.entry_below_none (hnone n (by simp)) ⟨s', by simp⟩)
  · rfl

/-- **`create_dir_all` makes the chain**, if its first name is free. The path `q` leads to a
directory, and what is above it does not matter. -/
theorem createDirAll_chain (h : DirChain env start K ns xs)
    (hD : walk t true env.maxSymlinks start K = .ok (.found D, links))
    (hdir : t.entry D = some .dir) (hnone : ∀ n ∈ ns.head?, t.entry (D ++ [n]) = none)
    {post : List Path} (hpost : createDirAll env t post = (t, .ok ())) :
    createDirAll env t (xs ++ post) = (t.addDirs D ns, .ok ()) := by
  induction h with
  | nil => exact hpost
  | @concat ns xs n x rest hn hnul hstart hcomps ih =>
      have hempty : ¬ x.IsEmpty := by
        rintro ⟨-, h⟩
        rw [hcomps] at h
        simp at h
      have hlookup : ∀ t', Extends t t' → lookup env t' false x x.comps
          = walk t' false links D (ns ++ [n]) := by
        intro t' hext
        rw [lookup_eq hnul hempty, hstart, hcomps, walk_append t' false (by simp),
          walk_extends hext true _ _ _ _ _ hD, andThen]
      rw [List.cons_append]
      by_cases hnil : ns = []
      · -- the first directory of the chain is made at once
        subst hnil
        have hfree : t.entry (D ++ [n]) = none := hnone n (by simp)
        have hmkdir : mkdir env t x = .ok (t.addDir D n) := by
          rw [mkdir, hlookup t (fun _ _ => rfl), List.nil_append, walk_absent hdir hn hfree,
            if_pos rfl]
        rw [createDirAll, if_neg hempty, hmkdir]
        rfl
      · -- the others after those before them
        have hhead : ∀ m ∈ ns.head?, t.entry (D ++ [m]) = none := by
          intro m hm
          refine hnone m ?_
          obtain ⟨c, cs, rfl⟩ := List.exists_cons_of_ne_nil hnil
          exact hm
        have hmissing : mkdir env t x = .error .enoent := by
          obtain ⟨c, cs, rfl⟩ := List.exists_cons_of_ne_nil hnil
          rw [mkdir, hlookup t (fun _ _ => rfl), List.cons_append,
            walk_absent hdir (rest.normal c List.mem_cons_self) (hhead c rfl), if_neg (by simp)]
        have hext : Extends t (t.addDirs D ns) := extends_addDirs hdir hhead
        have hfree : (t.addDirs D ns).entry (D ++ ns ++ [n]) = none := by
          rw [Tree.addDirs_entry ns t D hdir hhead, if_neg]
          · obtain ⟨c, cs, rfl⟩ := List.exists_cons_of_ne_nil hnil
            exact Tree.entry_below_none (hhead c rfl) ⟨cs ++ [n], by simp⟩
          · rintro ⟨-, -, h⟩
            have := h.length_le
            simp at this
        have hmkdir : mkdir env (t.addDirs D ns) x = .ok (t.addDirs D (ns ++ [n])) := by
          have hdirs : ∀ ms, ms <+: ns → (t.addDirs D ns).entry (D ++ ms) = some .dir :=
            fun ms hms => addDirs_entry_prefix hdir hhead hms
          rw [mkdir, hlookup _ hext, walk_dirs ns D rest.normal (hext.entry_eq hdir) hdirs,
            walk_absent (hdirs ns List.prefix_rfl) hn hfree, if_pos rfl]
          simp only [Tree.addDirs_concat]
        rw [createDirAll, if_neg hempty, hmissing]
        simp only [ih hhead, hmkdir]

/-- **A link that leads nowhere stops `create_dir_all`** before it makes a directory. -/
theorem createDirAll_blocked (h : DirChain env start K ns xs)
    (hD : walk t true env.maxSymlinks start K = .ok (.found D, links))
    (hdir : t.entry D = some .dir) {n : String} (hhead : ns.head? = some n) {target : Path}
    (hlink : t.entry (D ++ [n]) = some (.symlink target))
    (hlost : ∀ l k, walk t true links D [n] ≠ .ok (.found l, k))
    (hmissing : ∀ x ∈ xs, ∀ l, canonicalize env t x ≠ .ok l) (post : List Path) :
    ∃ e, createDirAll env t (xs ++ post) = (t, .error e) := by
  induction h with
  | nil => cases hhead
  | @concat ns xs m x rest hm hnul hstart hcomps ih =>
      have hempty : ¬ x.IsEmpty := by
        rintro ⟨-, h⟩
        rw [hcomps] at h
        simp at h
      have hisDir : isDir env t x = false := by
        rw [← Bool.not_eq_true, isDir_iff]
        rintro ⟨l, hl, -⟩
        exact hmissing x List.mem_cons_self l hl
      have hlookup : lookup env t false x x.comps = walk t false links D (ns ++ [m]) := by
        rw [lookup_eq hnul hempty, hstart, hcomps, walk_append t false (by simp), hD, andThen]
      rw [List.cons_append]
      by_cases hnil : ns = []
      · subst hnil
        cases hhead
        have hmkdir : mkdir env t x = .error .eexist := by
          rw [mkdir, hlookup, List.nil_append, walk_link hdir hm hlink, if_pos ⟨rfl, rfl⟩]
        apply createDirAll_fails hempty hisDir hmkdir
        intro he
        cases he
      · have hhead' : ns.head? = some n := by
          obtain ⟨c, cs, rfl⟩ := List.exists_cons_of_ne_nil hnil
          exact hhead
        have hrest := ih hhead' (fun y hy => hmissing y (List.mem_cons_of_mem _ hy))
        have hmkdir : ∃ e, mkdir env t x = .error e := by
          obtain ⟨c, cs, rfl⟩ := List.exists_cons_of_ne_nil hnil
          cases hhead'
          obtain ⟨e, he⟩ := andThen_lost false (cs ++ [m]) hlost
          rw [mkdir, hlookup, List.cons_append, show n :: (cs ++ [m]) = [n] ++ (cs ++ [m]) from rfl,
            walk_append t false (by simp), he]
          exact ⟨_, rfl⟩
        obtain ⟨e, hmkdir⟩ := hmkdir
        exact createDirAll_fails hempty hisDir hmkdir (fun _ => hrest)

end Chain

/-! ## The paths of the new directories -/

/-- The paths, nearest first, up to the first one that exists. -/
def missing (env : Env) (t : Tree) (ps : List Path) : List Path :=
  ps.takeWhile fun p => ¬ p.IsEmpty ∧ pathExists env t p = false

/-- The path names a link. -/
def namesLink (env : Env) (t : Tree) (p : Path) : Bool :=
  match lookup env t false p p.comps with
  | .ok (.found l, _) =>
      match t.entry l with
      | some (.symlink _) => true
      | _ => false
  | _ => false

/-- **Where `create_dir_all` makes directories**: at the paths that are missing, unless one of
them names a link, which then leads nowhere. -/
def newDirs (env : Env) (t : Tree) (ps : List Path) : List Path :=
  if (missing env t ps).any (namesLink env t) then [] else missing env t ps

/-- **What a call of `create_dir_all` on the paths `ps` did**: it made the directories at the
paths `new` and changed nothing else. -/
structure DirsMade (env : Env) (t t' : Tree) (ps new : List Path) : Prop where
  made : ∀ x ∈ new, ∃ l m, lookup env t' false x x.comps = .ok (.found l, m) ∧
    t.entry l = none ∧ t'.entry l = some .dir
  named : ∀ l, t'.entry l ≠ t.entry l → t.entry l = none ∧ t'.entry l = some .dir ∧
    ∃ x ∈ new, ∃ m, lookup env t' false x x.comps = .ok (.found l, m)
  only : ∀ x ∈ ps, ∀ l m, lookup env t' false x x.comps = .ok (.found l, m) →
    t.entry l = none → x ∈ new
  content : t'.content = t.content
  nextInode : t'.nextInode = t.nextInode

theorem DirsMade.none (env : Env) (t : Tree) (ps : List Path) : DirsMade env t t ps [] where
  made := by intro x hx; cases hx
  named := fun _ hl => absurd rfl hl
  only := fun _ _ _ _ hx hl => absurd hl (lookup_found_entry hx)
  content := rfl
  nextInode := rfl

/-- The paths that `create_dir_all` goes through, in the tree that it finds: the chain `xs` of
missing ones, and those from the first that is there. -/
structure Trail (env : Env) (t : Tree) (start : Loc) (K ns : List String) (D : Loc) (links : Nat)
    (xs post : List Path) : Prop where
  chain : DirChain env start K ns xs
  reached : walk t true env.maxSymlinks start K = .ok (.found D, links)
  dir : t.entry D = some .dir
  missing : ∀ x ∈ xs, ∀ l, canonicalize env t x ≠ .ok l
  /-- The first name is free, or a link that leads nowhere. -/
  first : ∀ n ∈ ns.head?, t.entry (D ++ [n]) = none ∨
    (∃ target, t.entry (D ++ [n]) = some (.symlink target)) ∧
      ∀ l k, walk t true links D [n] ≠ .ok (.found l, k)
  exist : ∀ y ∈ post, y.IsEmpty ∨ ∃ l m, lookup env t false y y.comps = .ok (.found l, m)
  stop : ∀ y ∈ post.head?, y.IsEmpty ∨ pathExists env t y = true
  done : createDirAll env t post = (t, .ok ())

section Trail

variable {env : Env} {t : Tree} {start : Loc} {K ns : List String} {D : Loc} {links : Nat}
  {xs post : List Path}

theorem pathExists_eq_false {x : Path} (h : ∀ l, canonicalize env t x ≠ .ok l) :
    pathExists env t x = false := by
  unfold pathExists metadata
  cases hc : canonicalize env t x with
  | ok l => exact absurd hc (h l)
  | error e => rfl

theorem Trail.missing_eq (h : Trail env t start K ns D links xs post) :
    Posix.missing env t (xs ++ post) = xs := by
  have hxs : ∀ x ∈ xs, decide (¬ x.IsEmpty ∧ pathExists env t x = false) = true := by
    intro x hx
    obtain ⟨ms, hne, -, hcomps, -⟩ := h.chain.lookup_mem h.reached hx false
    rw [decide_eq_true_iff]
    refine ⟨?_, pathExists_eq_false (h.missing x hx)⟩
    rintro ⟨-, hnil⟩
    rw [hcomps] at hnil
    exact hne (List.append_eq_nil_iff.mp hnil).2
  rw [Posix.missing, List.takeWhile_append_of_pos hxs]
  cases post with
  | nil => simp
  | cons y ys =>
      have hy := h.stop y (by simp)
      rw [List.takeWhile_cons_of_neg, List.append_nil]
      rw [decide_eq_true_iff]
      rintro ⟨h1, h2⟩
      rcases hy with hy | hy
      · exact h1 hy
      · rw [h2] at hy
        cases hy

/-- Where the first name is free no path of the chain names anything. -/
theorem Trail.lookup_free (h : Trail env t start K ns D links xs post)
    (hfree : ∀ n ∈ ns.head?, t.entry (D ++ [n]) = none) {x : Path} (hx : x ∈ xs) (l : Loc)
    (m : Nat) : lookup env t false x x.comps ≠ .ok (.found l, m) := by
  obtain ⟨ms, hne, hms, -, hl⟩ := h.chain.lookup_mem h.reached hx false
  obtain ⟨c, cs, rfl⟩ := List.exists_cons_of_ne_nil hne
  obtain ⟨tail, rfl⟩ := hms
  rw [hl, walk_absent h.dir (h.chain.normal c (by simp)) (hfree c (by simp))]
  split_ifs <;> intro hc <;> cases hc

theorem Trail.newDirs_free (h : Trail env t start K ns D links xs post)
    (hfree : ∀ n ∈ ns.head?, t.entry (D ++ [n]) = none) : newDirs env t (xs ++ post) = xs := by
  rw [newDirs, h.missing_eq, if_neg]
  rw [Bool.not_eq_true, List.any_eq_false]
  intro x hx
  unfold namesLink
  split
  · rename_i l m hl
    exact absurd hl (h.lookup_free hfree hx l m)
  · exact Bool.false_ne_true

theorem Trail.newDirs_blocked (h : Trail env t start K ns D links xs post) {n : String}
    (hn : ns.head? = some n) {target : Path}
    (hlink : t.entry (D ++ [n]) = some (.symlink target)) : newDirs env t (xs ++ post) = [] := by
  rw [newDirs, h.missing_eq, if_pos]
  have hone : [n] <+: ns := by
    obtain ⟨tail, rfl⟩ := List.head?_eq_some_iff.mp hn
    exact ⟨tail, rfl⟩
  obtain ⟨x, hx, hl⟩ := h.chain.exists_mem h.reached (List.cons_ne_nil _ _) hone false
  have hnormal : Normal n := h.chain.normal n (List.mem_of_mem_head? hn)
  rw [List.any_eq_true]
  refine ⟨x, hx, ?_⟩
  rw [namesLink, hl, walk_link h.dir hnormal hlink, if_pos ⟨rfl, rfl⟩]
  simp only [hlink]

/-- **What `create_dir_all` makes** is what `newDirs` says. -/
theorem Trail.dirsMade (h : Trail env t start K ns D links xs post) :
    DirsMade env t (createDirAll env t (xs ++ post)).1 (xs ++ post)
      (newDirs env t (xs ++ post)) := by
  by_cases hfree : ∀ n ∈ ns.head?, t.entry (D ++ [n]) = none
  · have hext := extends_addDirs h.dir hfree
    have hreached := walk_extends hext true _ _ _ _ _ h.reached
    have hfound : ∀ ms, ms <+: ns →
        walk (t.addDirs D ns) false links D ms = .ok (.found (D ++ ms), links) := by
      intro ms hms
      have hdirs : ∀ ms', ms' <+: ms → (t.addDirs D ns).entry (D ++ ms') = some .dir :=
        fun ms' hms' => addDirs_entry_prefix h.dir hfree (hms'.trans hms)
      have hwalk := @walk_dirs (t.addDirs D ns) links false [] ms D
        (fun n hn => h.chain.normal n (hms.subset hn)) (hext.entry_eq h.dir) hdirs
      rwa [List.append_nil, walk_nil] at hwalk
    have hnew : ∀ ms, ms ≠ [] → ms <+: ns → t.entry (D ++ ms) = none := by
      intro ms hne hms
      obtain ⟨c, cs, rfl⟩ := List.exists_cons_of_ne_nil hne
      obtain ⟨tail, rfl⟩ := hms
      exact Tree.entry_below_none (hfree c (by simp)) ⟨cs, by simp⟩
    rw [createDirAll_chain h.chain h.reached h.dir hfree h.done, h.newDirs_free hfree]
    refine ⟨fun x hx => ?_, fun l hl => ?_, fun x hx l m hl hnone => ?_,
      Tree.addDirs_content ns t D, Tree.addDirs_nextInode ns t D⟩
    · obtain ⟨ms, hne, hms, -, hl⟩ := h.chain.lookup_mem hreached hx false
      exact ⟨_, _, by rw [hl, hfound ms hms], hnew ms hne hms,
        addDirs_entry_prefix h.dir hfree hms⟩
    · rw [Tree.addDirs_entry ns t D h.dir hfree] at hl
      split_ifs at hl with hin
      · obtain ⟨⟨ms, rfl⟩, hne, hms⟩ := hin
        rw [List.prefix_append_right_inj] at hms
        have hne' : ms ≠ [] := by simpa using hne
        obtain ⟨x, hx, hx'⟩ := h.chain.exists_mem hreached hne' hms false
        exact ⟨hnew ms hne' hms, addDirs_entry_prefix h.dir hfree hms, x, hx, _,
          by rw [hx', hfound ms hms]⟩
      · exact absurd rfl hl
    · rcases List.mem_append.mp hx with hx | hx
      · exact hx
      · -- what is there already is no new directory
        exfalso
        rcases h.exist x hx with hempty | ⟨l', m', hl'⟩
        · exact (lookup_ok hl).2 hempty
        · obtain ⟨hnul, hempty⟩ := lookup_ok hl'
          have hentry := lookup_found_entry hl'
          rw [lookup_eq hnul hempty] at hl hl'
          rw [walk_extends hext false _ _ _ _ _ hl'] at hl
          cases hl
          exact hentry hnone
  · simp only [not_forall] at hfree
    obtain ⟨n, hn, hsome⟩ := hfree
    obtain ⟨⟨target, hlink⟩, hlost⟩ := (h.first n hn).resolve_left hsome
    obtain ⟨e, he⟩ := createDirAll_blocked h.chain h.reached h.dir hn hlink hlost h.missing post
    rw [he, h.newDirs_blocked hn hlink]
    exact DirsMade.none env t _

end Trail
end Posix
