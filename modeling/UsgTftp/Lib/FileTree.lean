import UsgTftp.Lib.Path

set_option autoImplicit false

/-! # File trees and path resolution

A tree of directories, regular files and symbolic links, with the operations of a POSIX
system on it. An object is found at a location: the list of the names on the way from the
root, through directories only. So a location is the canonical path of the object at it.

`walk` resolves a path from a directory. It follows at most a given number of links, returns
how many it has left, and says whether the path names an object (`found`), lacks only its
last component (`absent`) or fails. `walk_append` is the law the rest is built on: a path is
walked by walking a first part of it and then the rest from the directory reached.

Permissions, quotas and limits on the length of names are not modelled.
-/

namespace Posix

abbrev Loc := List String

inductive Entry where
  | dir
  | file (inode : Nat)
  | symlink (target : Path)
  deriving DecidableEq, Repr

inductive Errno where
  | enoent
  | enotdir
  | eloop
  | eexist
  | eisdir
  | einval
  | ebusy
  | enotempty
  /-- An error without a number of its own. -/
  | other
  deriving DecidableEq, Repr

/-- A tree whose entries lie in directories. Every entry is listed in `support`, and inode
numbers from `nextInode` on are not in use. -/
structure Tree where
  entry : Loc → Option Entry
  content : Nat → List UInt8
  nextInode : Nat
  support : List Loc
  root_dir : entry [] = some .dir
  parent_dir : ∀ l n, entry (l ++ [n]) ≠ none → entry l = some .dir
  inode_lt : ∀ l i, entry l = some (.file i) → i < nextInode
  mem_support : ∀ l, entry l ≠ none → l ∈ support

/-- Below what is absent, everything is. -/
theorem Tree.entry_below_none {t : Tree} {l l' : Loc} (h : t.entry l = none) (hp : l <+: l') :
    t.entry l' = none := by
  obtain ⟨s, rfl⟩ := hp
  induction s using List.reverseRecOn with
  | nil => rwa [List.append_nil]
  | append_singleton s n ih =>
      by_contra hne
      rw [← List.append_assoc] at hne
      have hdir := t.parent_dir _ n hne
      rw [ih] at hdir
      cases hdir

/-- The part of a process's state that path resolution reads. -/
structure Env where
  cwd : Loc
  /-- The number of symbolic links one resolution may follow. -/
  maxSymlinks : Nat

/-! ## Resolution -/

inductive Target where
  | found (loc : Loc)
  | absent (dir : Loc) (name : String)
  deriving DecidableEq, Repr

/-- Where the walk goes on at a symbolic link, and with which components. -/
def Path.start (p : Path) (cur : Loc) : Loc := if p.absolute then [] else cur

/-- The components with a final `.` for a trailing slash, which asks for a directory. -/
def Path.fullComps (p : Path) : List String := p.comps ++ if p.trailingSlash then ["."] else []

abbrev WalkResult := Except Errno (Target × Nat)

/-- The walk up to the next link, which is handed to `jump`. The last component is not
followed unless `follow`. -/
def walkComps (t : Tree) (follow : Bool) (links : Nat) (jump : Loc → List String → WalkResult) :
    Loc → List String → WalkResult
  | cur, [] => .ok (.found cur, links)
  | cur, c :: rest =>
      if t.entry cur ≠ some .dir then .error .enotdir
      else if c = "." then walkComps t follow links jump cur rest
      else if c = ".." then walkComps t follow links jump cur.dropLast rest
      else
        match t.entry (cur ++ [c]) with
        | none => if rest = [] then .ok (.absent cur c, links) else .error .enoent
        | some (.symlink target) =>
            if rest = [] ∧ follow = false then .ok (.found (cur ++ [c]), links)
            else if target.IsEmpty then .error .enoent
            else jump (target.start cur) (target.fullComps ++ rest)
        | some _ => walkComps t follow links jump (cur ++ [c]) rest

/-- The walk with `links` links left. -/
def walk (t : Tree) (follow : Bool) : Nat → Loc → List String → WalkResult
  | 0 => walkComps t follow 0 fun _ _ => .error .eloop
  | links + 1 => walkComps t follow (links + 1) (walk t follow links)

/-- What happens at a link: one link fewer is left. -/
def jump (t : Tree) (follow : Bool) : Nat → Loc → List String → WalkResult
  | 0 => fun _ _ => .error .eloop
  | links + 1 => walk t follow links

theorem walk_nil (t : Tree) (follow : Bool) (links : Nat) (cur : Loc) :
    walk t follow links cur [] = .ok (.found cur, links) := by
  cases links <;> rfl

theorem walk_eq (t : Tree) (follow : Bool) (links : Nat) :
    walk t follow links = walkComps t follow links (jump t follow links) := by
  cases links <;> rfl

/-- A component that names an entry of the current directory. -/
def Normal (c : String) : Prop := c ≠ "." ∧ c ≠ ".."

section Steps

variable {t : Tree} {follow : Bool} {links : Nat} {cur : Loc} {c : String} {rest : List String}

theorem walk_notDir (h : t.entry cur ≠ some .dir) :
    walk t follow links cur (c :: rest) = .error .enotdir := by
  rw [walk_eq, walkComps, if_pos h]

/-- Only a directory has further components behind it. -/
theorem rest_eq_nil_of_notDir {r : Target × Nat} (hdir : t.entry cur ≠ some .dir)
    (h : walk t follow links cur rest = .ok r) : rest = [] := by
  cases rest with
  | nil => rfl
  | cons c rest =>
      rw [walk_notDir hdir] at h
      cases h

theorem walk_dot (h : t.entry cur = some .dir) :
    walk t follow links cur ("." :: rest) = walk t follow links cur rest := by
  rw [walk_eq, walkComps, if_neg (not_not.mpr h), if_pos rfl]

theorem walk_dotdot (h : t.entry cur = some .dir) :
    walk t follow links cur (".." :: rest) = walk t follow links cur.dropLast rest := by
  rw [walk_eq, walkComps, if_neg (not_not.mpr h), if_neg (by decide), if_pos rfl]

theorem walk_absent (h : t.entry cur = some .dir) (hc : Normal c)
    (he : t.entry (cur ++ [c]) = none) :
    walk t follow links cur (c :: rest)
      = if rest = [] then .ok (.absent cur c, links) else .error .enoent := by
  rw [walk_eq, walkComps, if_neg (not_not.mpr h), if_neg hc.1, if_neg hc.2, he]

theorem walk_plain (h : t.entry cur = some .dir) (hc : Normal c) {e : Entry}
    (he : t.entry (cur ++ [c]) = some e) (hplain : ∀ target, e ≠ .symlink target) :
    walk t follow links cur (c :: rest) = walk t follow links (cur ++ [c]) rest := by
  rw [walk_eq, walkComps, if_neg (not_not.mpr h), if_neg hc.1, if_neg hc.2, he]
  cases e with
  | dir => rfl
  | file i => rfl
  | symlink target => exact absurd rfl (hplain target)

theorem walk_link (h : t.entry cur = some .dir) (hc : Normal c) {target : Path}
    (he : t.entry (cur ++ [c]) = some (.symlink target)) :
    walk t follow links cur (c :: rest) =
      if rest = [] ∧ follow = false then .ok (.found (cur ++ [c]), links)
      else if target.IsEmpty then .error .enoent
      else jump t follow links (target.start cur) (target.fullComps ++ rest) := by
  rw [walk_eq, walkComps, if_neg (not_not.mpr h), if_neg hc.1, if_neg hc.2, he]

end Steps

/-- **Induction along a walk**, one case for each kind of step. -/
@[elab_as_elim]
theorem walk_induction (t : Tree) {motive : Nat → Loc → List String → Prop}
    (nil : ∀ links cur, motive links cur [])
    (notDir : ∀ links cur c rest, t.entry cur ≠ some .dir → motive links cur (c :: rest))
    (dot : ∀ links cur rest, t.entry cur = some .dir → motive links cur rest →
      motive links cur ("." :: rest))
    (dotdot : ∀ links cur rest, t.entry cur = some .dir → motive links cur.dropLast rest →
      motive links cur (".." :: rest))
    (absent : ∀ links cur c rest, t.entry cur = some .dir → Normal c →
      t.entry (cur ++ [c]) = none → motive links cur (c :: rest))
    (plain : ∀ links cur c rest e, t.entry cur = some .dir → Normal c →
      t.entry (cur ++ [c]) = some e → (∀ target, e ≠ .symlink target) →
      motive links (cur ++ [c]) rest → motive links cur (c :: rest))
    (link : ∀ links cur c rest target, t.entry cur = some .dir → Normal c →
      t.entry (cur ++ [c]) = some (.symlink target) →
      (∀ n, links = n + 1 → motive n (target.start cur) (target.fullComps ++ rest)) →
      motive links cur (c :: rest)) :
    ∀ links cur xs, motive links cur xs := by
  intro links
  -- the links left go down at a link, the components at every other step
  induction links using Nat.strong_induction_on with
  | _ links ihl =>
      intro cur xs
      induction xs generalizing cur with
      | nil => exact nil links cur
      | cons c rest ih =>
          by_cases hdir : t.entry cur = some .dir
          · by_cases hdot : c = "."
            · subst hdot
              exact dot links cur rest hdir (ih cur)
            by_cases hdd : c = ".."
            · subst hdd
              exact dotdot links cur rest hdir (ih _)
            cases he : t.entry (cur ++ [c]) with
            | none => exact absent links cur c rest hdir ⟨hdot, hdd⟩ he
            | some e =>
                by_cases hlink : ∃ target, e = .symlink target
                · obtain ⟨target, rfl⟩ := hlink
                  refine link links cur c rest target hdir ⟨hdot, hdd⟩ he ?_
                  rintro n rfl
                  exact ihl n (Nat.lt_succ_self n) _ _
                · have hplain : ∀ target, e ≠ .symlink target :=
                    fun target h => hlink ⟨target, h⟩
                  exact plain links cur c rest e hdir ⟨hdot, hdd⟩ he hplain (ih _)
          · exact notDir links cur c rest hdir

/-- What is left of a walk when components `ys` follow. -/
def andThen (t : Tree) (follow : Bool) (ys : List String) : WalkResult → WalkResult
  | .ok (.found loc, links) => walk t follow links loc ys
  | .ok (.absent _ _, _) => .error .enoent
  | .error e => .error e

/-- A walk that finds nothing cannot go on. -/
theorem andThen_lost {t : Tree} {r : WalkResult} (follow : Bool) (ys : List String)
    (h : ∀ l k, r ≠ .ok (.found l, k)) : ∃ e, andThen t follow ys r = .error e := by
  rcases r with e | ⟨l | ⟨d, c⟩, k⟩
  · exact ⟨e, rfl⟩
  · exact absurd rfl (h l k)
  · exact ⟨.enoent, rfl⟩

/-- **Composition.** -/
theorem walk_append (t : Tree) (follow : Bool) {ys : List String} (hys : ys ≠ []) :
    ∀ (links : Nat) (cur : Loc) (xs : List String),
      walk t follow links cur (xs ++ ys) = andThen t follow ys (walk t true links cur xs) := by
  have hne : ∀ rest : List String, rest ++ ys ≠ [] := fun rest h =>
    hys (List.append_eq_nil_iff.mp h).2
  intro links cur xs
  induction links, cur, xs using walk_induction t with
  | nil links cur =>
      rw [walk_nil]
      rfl
  | notDir links cur c rest hdir =>
      rw [List.cons_append, walk_notDir hdir, walk_notDir hdir]
      rfl
  | dot links cur rest hdir ih =>
      rw [List.cons_append, walk_dot hdir, walk_dot hdir, ih]
  | dotdot links cur rest hdir ih =>
      rw [List.cons_append, walk_dotdot hdir, walk_dotdot hdir, ih]
  | absent links cur c rest hdir hc he =>
      rw [List.cons_append, walk_absent hdir hc he, walk_absent hdir hc he, if_neg (hne rest)]
      split_ifs <;> rfl
  | plain links cur c rest e hdir hc he hplain ih =>
      rw [List.cons_append, walk_plain hdir hc he hplain, walk_plain hdir hc he hplain, ih]
  | link links cur c rest target hdir hc he ih =>
      rw [List.cons_append, walk_link hdir hc he, walk_link hdir hc he,
        if_neg (fun h => hne rest h.1), if_neg (fun h : rest = [] ∧ true = false => by simp at h)]
      by_cases hempty : target.IsEmpty
      · rw [if_pos hempty, if_pos hempty]
        rfl
      · rw [if_neg hempty, if_neg hempty]
        cases links with
        | zero => rfl
        | succ n => rw [← List.append_assoc]; exact ih n rfl

/-- A walk depends on the entries alone. -/
theorem walk_congr {t t' : Tree} (hentry : t'.entry = t.entry) (follow : Bool) :
    ∀ (links : Nat) (cur : Loc) (xs : List String),
      walk t' follow links cur xs = walk t follow links cur xs := by
  intro links cur xs
  induction links, cur, xs using walk_induction t with
  | nil links cur => rw [walk_nil, walk_nil]
  | notDir links cur c rest hdir => rw [walk_notDir hdir, walk_notDir (by rwa [hentry])]
  | dot links cur rest hdir ih => rw [walk_dot hdir, walk_dot (by rwa [hentry]), ih]
  | dotdot links cur rest hdir ih => rw [walk_dotdot hdir, walk_dotdot (by rwa [hentry]), ih]
  | absent links cur c rest hdir hc he =>
      rw [walk_absent hdir hc he, walk_absent (by rwa [hentry]) hc (by rwa [hentry])]
  | plain links cur c rest e hdir hc he hplain ih =>
      rw [walk_plain hdir hc he hplain, walk_plain (by rwa [hentry]) hc (by rwa [hentry]) hplain,
        ih]
  | link links cur c rest target hdir hc he ih =>
      rw [walk_link hdir hc he, walk_link (by rwa [hentry]) hc (by rwa [hentry])]
      cases links with
      | zero => rfl
      | succ n =>
          have hjump : jump t' follow (n + 1) (target.start cur) (target.fullComps ++ rest)
              = jump t follow (n + 1) (target.start cur) (target.fullComps ++ rest) := ih n rfl
          rw [hjump]

/-- A walk that does not end at a link is the same whether or not the last link is
followed. -/
theorem walk_follow (t : Tree) :
    ∀ (links : Nat) (cur : Loc) (xs : List String) (r : WalkResult),
      walk t false links cur xs = r →
      (∀ loc n target, r = .ok (.found loc, n) → t.entry loc ≠ some (.symlink target)) →
      walk t true links cur xs = r := by
  intro links cur xs
  induction links, cur, xs using walk_induction t with
  | nil links cur =>
      intro r h _
      rwa [walk_nil] at h ⊢
  | notDir links cur c rest hdir =>
      intro r h _
      rwa [walk_notDir hdir] at h ⊢
  | dot links cur rest hdir ih =>
      intro r h hr
      rw [walk_dot hdir] at h ⊢
      exact ih r h hr
  | dotdot links cur rest hdir ih =>
      intro r h hr
      rw [walk_dotdot hdir] at h ⊢
      exact ih r h hr
  | absent links cur c rest hdir hc he =>
      intro r h _
      rwa [walk_absent hdir hc he] at h ⊢
  | plain links cur c rest e hdir hc he hplain ih =>
      intro r h hr
      rw [walk_plain hdir hc he hplain] at h ⊢
      exact ih r h hr
  | link links cur c rest target hdir hc he ih =>
      intro r h hr
      rw [walk_link hdir hc he] at h ⊢
      by_cases hlast : rest = []
      · rw [if_pos ⟨hlast, rfl⟩] at h
        exact absurd he (hr _ _ target h.symm)
      · rw [if_neg (fun h => hlast h.1)] at h
        rw [if_neg (fun h => hlast h.1)]
        by_cases hempty : target.IsEmpty
        · rwa [if_pos hempty] at h ⊢
        · rw [if_neg hempty] at h ⊢
          cases links with
          | zero => exact h
          | succ n => exact ih n rfl r h hr

/-- `t'` has all entries of `t`. -/
def Extends (t t' : Tree) : Prop := ∀ l, t.entry l ≠ none → t'.entry l = t.entry l

theorem Extends.entry_eq {t t' : Tree} (h : Extends t t') {l : Loc} {e : Entry}
    (he : t.entry l = some e) : t'.entry l = some e := by
  rw [h l (by rw [he]; exact Option.some_ne_none _), he]

/-- What is found stays found when entries are added. -/
theorem walk_extends {t t' : Tree} (hext : Extends t t') (follow : Bool) :
    ∀ (links : Nat) (cur : Loc) (xs : List String) (loc : Loc) (n : Nat),
      walk t follow links cur xs = .ok (.found loc, n) →
      walk t' follow links cur xs = .ok (.found loc, n) := by
  intro links cur xs
  induction links, cur, xs using walk_induction t with
  | nil links cur =>
      intro loc n h
      rwa [walk_nil] at h ⊢
  | notDir links cur c rest hdir =>
      intro loc n h
      rw [walk_notDir hdir] at h
      cases h
  | dot links cur rest hdir ih =>
      intro loc n h
      rw [walk_dot hdir] at h
      rw [walk_dot (hext.entry_eq hdir)]
      exact ih loc n h
  | dotdot links cur rest hdir ih =>
      intro loc n h
      rw [walk_dotdot hdir] at h
      rw [walk_dotdot (hext.entry_eq hdir)]
      exact ih loc n h
  | absent links cur c rest hdir hc he =>
      intro loc n h
      rw [walk_absent hdir hc he] at h
      split_ifs at h
      cases h
  | plain links cur c rest e hdir hc he hplain ih =>
      intro loc n h
      rw [walk_plain hdir hc he hplain] at h
      rw [walk_plain (hext.entry_eq hdir) hc (hext.entry_eq he) hplain]
      exact ih loc n h
  | link links cur c rest target hdir hc he ih =>
      intro loc n h
      rw [walk_link hdir hc he] at h
      rw [walk_link (hext.entry_eq hdir) hc (hext.entry_eq he)]
      split_ifs at h ⊢ with hlast hempty
      · exact h
      · cases links with
        | zero => cases h
        | succ m => exact ih m rfl loc n h

/-- A walk that lacks only its last component ends in a directory without it. -/
theorem walk_eq_absent (t : Tree) (follow : Bool) :
    ∀ (links : Nat) (cur : Loc) (xs : List String) (d : Loc) (n : String) (m : Nat),
      walk t follow links cur xs = .ok (.absent d n, m) →
      t.entry d = some .dir ∧ t.entry (d ++ [n]) = none := by
  intro links cur xs
  induction links, cur, xs using walk_induction t with
  | nil links cur =>
      intro d n m h
      rw [walk_nil] at h
      cases h
  | notDir links cur c rest hdir =>
      intro d n m h
      rw [walk_notDir hdir] at h
      cases h
  | dot links cur rest hdir ih =>
      intro d n m h
      rw [walk_dot hdir] at h
      exact ih d n m h
  | dotdot links cur rest hdir ih =>
      intro d n m h
      rw [walk_dotdot hdir] at h
      exact ih d n m h
  | absent links cur c rest hdir hc he =>
      intro d n m h
      rw [walk_absent hdir hc he] at h
      split_ifs at h
      cases h
      exact ⟨hdir, he⟩
  | plain links cur c rest e hdir hc he hplain ih =>
      intro d n m h
      rw [walk_plain hdir hc he hplain] at h
      exact ih d n m h
  | link links cur c rest target hdir hc he ih =>
      intro d n m h
      rw [walk_link hdir hc he] at h
      split_ifs at h
      · cases h
      · cases links with
        | zero => cases h
        | succ k => exact ih k rfl d n m h

/-- Where components follow, a part that is walked leads to a directory. -/
theorem walk_prefix {t : Tree} {follow : Bool} {links : Nat} {cur : Loc} {xs ys : List String}
    {r : Target × Nat} (hys : ys ≠ []) (h : walk t follow links cur (xs ++ ys) = .ok r) :
    ∃ loc n, walk t true links cur xs = .ok (.found loc, n) ∧ t.entry loc = some .dir ∧
      walk t follow n loc ys = .ok r := by
  rw [walk_append t follow hys] at h
  match hw : walk t true links cur xs with
  | .ok (.found loc, n) =>
      rw [hw] at h
      refine ⟨loc, n, rfl, ?_, h⟩
      by_contra hdir
      obtain ⟨c, rest, rfl⟩ := List.exists_cons_of_ne_nil hys
      rw [andThen, walk_notDir hdir] at h
      cases h
  | .ok (.absent d c, n) => rw [hw] at h; cases h
  | .error e => rw [hw] at h; cases h

end Posix
