import Mathlib.Data.List.DropRight
import Mathlib.Tactic

set_option autoImplicit false

/-! # Path names

A path name is kept as it is written: whether it starts with a slash, and the segments
between the slashes after that. Segments may be empty, as in `a//b` or `a/`, or `.`; the
operations skip both, except that a relative path may begin with the component `.`.

`join`, `parents`, `fileName`, `withExtension`, `withFileName` and `stripPrefix` are those of
Rust's `std::path::Path` on Unix; `parents` lists what repeated `parent` calls give.
-/

namespace Posix

structure Path where
  absolute : Bool
  /-- The text after the leading slash, cut at the slashes. Never empty. -/
  segs : List String
  deriving DecidableEq, Repr

namespace Path

/-- Cut a text at every slash. -/
def splitSlash (s : String) : List String := (s.toList.splitOn '/').map String.ofList

def ofString (s : String) : Path :=
  match splitSlash s with
  | "" :: seg :: rest => ⟨true, seg :: rest⟩
  | segs => ⟨false, segs⟩

/-- A segment that names nothing. -/
def Noise (seg : String) : Prop := seg = "" ∨ seg = "."

instance (seg : String) : Decidable (Noise seg) := inferInstanceAs (Decidable (_ ∨ _))

/-- The segments the system looks at: all but the empty ones. -/
def names (segs : List String) : List String := segs.filter (· ≠ "")

def comps (p : Path) : List String := names p.segs

/-- The empty path, which names no file. -/
def IsEmpty (p : Path) : Prop := p.absolute = false ∧ p.comps = []

instance (p : Path) : Decidable p.IsEmpty := inferInstanceAs (Decidable (_ ∧ _))

def trailingSlash (p : Path) : Bool := p.comps ≠ [] ∧ p.segs.getLast? = some ""

/-- A NUL cannot be passed to the system. -/
def hasNul (p : Path) : Bool := p.segs.any fun seg => seg.toList.contains (Char.ofNat 0)

/-- A relative path that is written down does not begin with a slash. -/
theorem ofString_head (s : String) : (ofString s).absolute = true ∨
    (ofString s).segs = [""] ∨ (ofString s).segs.head? ≠ some "" := by
  unfold ofString
  split
  · exact Or.inl rfl
  · rename_i segs hsegs
    right
    match hs : splitSlash s with
    | [] => right; simp
    | [seg] =>
        by_cases hseg : seg = ""
        · left; rw [hseg]
        · right; simpa using hseg
    | seg :: next :: rest =>
        right
        intro hhead
        exact hsegs next rest (by rw [hs, Option.some.inj hhead])

/-! ## Joining -/

/-- The segments to which a further one is appended: a slash is put in between unless the
text ends in one already. -/
def stem (p : Path) : List String := if p.segs.getLast? = some "" then p.segs.dropLast else p.segs

/-- `p.join(rel)` for a relative `rel`. -/
def join (p : Path) (rel : List String) : Path := ⟨p.absolute, p.stem ++ rel⟩

/-! ## Parents -/

/-- The leading `.` of a relative path, which is a component of its own. -/
def lead (p : Path) : List String :=
  if p.absolute = false ∧ p.segs.head? = some "." then ["."] else []

def body (p : Path) : List String := p.segs.drop p.lead.length

/-- The path of the given reversed segments, without noise at its end. -/
def ofRev (absolute : Bool) (lead rev : List String) : Path :=
  match lead ++ (rev.dropWhile (Noise ·)).reverse with
  | [] => ⟨absolute, [""]⟩
  | segs => ⟨absolute, segs⟩

def parentsAux (absolute : Bool) (lead : List String) : List String → List Path
  | [] => if lead = [] then [] else [⟨false, [""]⟩]
  | seg :: rev =>
      if Noise seg then parentsAux absolute lead rev
      else ofRev absolute lead rev :: parentsAux absolute lead rev

/-- All parents, the nearest first. -/
def parents (p : Path) : List Path := parentsAux p.absolute p.lead p.body.reverse

def parent (p : Path) : Option Path := p.parents.head?

/-! ## Names and extensions -/

/-- The last component, if it names an entry of a directory. -/
def fileName (p : Path) : Option String :=
  match p.body.reverse.dropWhile (Noise ·) with
  | [] => none
  | seg :: _ => if seg = ".." then none else some seg

/-- The part of a file name before its last dot. A dot at the start does not count. -/
def fileStem (name : String) : String :=
  match name.toList.reverse.dropWhile (· ≠ '.') with
  | [] => name
  | _ :: before => if before = [] then name else String.ofList before.reverse

/-- `with_extension`: the extension is put after a dot of its own. -/
def withExtension (p : Path) (extension : String) : Path :=
  match p.fileName with
  | none => p
  | some name =>
      ⟨p.absolute,
        p.lead ++ (p.body.reverse.dropWhile (Noise ·)).tail.reverse
          ++ [fileStem name ++ "." ++ extension]⟩

/-- `with_file_name`. -/
def withFileName (p : Path) (name : String) : Path :=
  match p.fileName, p.parent with
  | some _, some dir => dir.join [name]
  | _, _ => p.join [name]

/-! ## Prefixes -/

def stripSegs : List String → List String → Option (List String)
  | segs, [] => some segs
  | [], _ :: _ => none
  | seg :: segs, c :: cs =>
      if Noise seg then stripSegs segs (c :: cs)
      else if seg = c then stripSegs segs cs
      else none

/-- `strip_prefix`: the text that is left after the components of `base`, without noise at
either end. -/
def stripPrefix (p base : Path) : Option String :=
  if p.absolute ≠ base.absolute then none
  else
    let baseComps := base.body.filter fun seg => ¬ Noise seg
    let rest :=
      if p.lead = base.lead then stripSegs p.body baseComps
      else if base.lead = [] ∧ baseComps = [] then some p.segs
      else none
    rest.map fun segs => "/".intercalate ((segs.dropWhile (Noise ·)).rdropWhile (Noise ·))

/-! ## Components -/

theorem names_append (xs ys : List String) : names (xs ++ ys) = names xs ++ names ys :=
  List.filter_append ..

theorem names_reverse (xs : List String) : names xs.reverse = (names xs).reverse :=
  List.filter_reverse ..

theorem names_cons_of_ne {s : String} (h : s ≠ "") (xs : List String) :
    names (s :: xs) = s :: names xs :=
  List.filter_cons_of_pos (by simpa using h)

theorem names_cons_empty (xs : List String) : names ("" :: xs) = names xs :=
  List.filter_cons_of_neg (by simp)

theorem names_stem (p : Path) : names p.stem = p.comps := by
  unfold stem
  split_ifs with h
  · obtain ⟨xs, hxs⟩ := List.getLast?_eq_some_iff.mp h
    rw [comps, hxs, List.dropLast_concat, names_append, names_cons_empty]
    exact (List.append_nil _).symm
  · rfl

theorem comps_join (p : Path) (rel : List String) : (p.join rel).comps = p.comps ++ names rel := by
  rw [comps, join, names_append, names_stem]

theorem lead_cases (p : Path) : p.lead = [] ∨ p.lead = ["."] ∧ p.absolute = false := by
  unfold lead
  split_ifs with h
  · exact Or.inr ⟨rfl, h.1⟩
  · exact Or.inl rfl

/-- A relative path whose components are dots begins with one of them, when it is written down. -/
theorem lead_ofString {s : String} (hrel : (ofString s).absolute = false)
    (hne : (ofString s).comps ≠ []) (hdots : ∀ c ∈ (ofString s).comps, c = ".") :
    (ofString s).lead = ["."] := by
  cases hsegs : (ofString s).segs with
  | nil => exact absurd (by rw [comps, hsegs]; rfl) hne
  | cons seg rest =>
      have hseg : seg ≠ "" := by
        rintro rfl
        rcases ofString_head s with h | h | h
        · rw [hrel] at h
          cases h
        · exact hne (by rw [comps, h]; rfl)
        · exact h (by rw [hsegs]; rfl)
      rw [comps, hsegs, names_cons_of_ne hseg] at hdots
      have hdot : seg = "." := hdots seg List.mem_cons_self
      rw [lead, if_pos ⟨hrel, by rw [hsegs, hdot]; rfl⟩]

theorem lead_append_body (p : Path) : p.lead ++ p.body = p.segs := by
  unfold body
  by_cases h : p.absolute = false ∧ p.segs.head? = some "."
  · obtain ⟨xs, hxs⟩ := List.head?_eq_some_iff.mp h.2
    rw [lead, if_pos h, hxs]
    rfl
  · rw [lead, if_neg h]
    rfl

/-! ## Parents -/

section Parents

variable {absolute : Bool} {lead : List String}

@[simp] theorem ofRev_absolute (rev : List String) :
    (ofRev absolute lead rev).absolute = absolute := by
  unfold ofRev
  split <;> rfl

theorem ofRev_comps (rev : List String) :
    (ofRev absolute lead rev).comps = names (lead ++ (rev.dropWhile (Noise ·)).reverse) := by
  unfold ofRev
  split
  · rename_i h
    rw [h]
    rfl
  · rfl

/-- What the path lacks of the components is dots. -/
theorem ofRev_comps_append (absolute : Bool) (lead rev : List String) :
    ∃ dots, (∀ c ∈ dots, c = ".") ∧
    names (lead ++ rev.reverse) = (ofRev absolute lead rev).comps ++ dots := by
  refine ⟨names (rev.takeWhile (Noise ·)).reverse, ?_, ?_⟩
  · intro c hc
    rw [names, List.mem_filter, List.mem_reverse] at hc
    have hnoise : Noise c := by simpa using List.mem_takeWhile_imp hc.1
    rcases hnoise with h | h
    · exact absurd h (by simpa using hc.2)
    · exact h
  · rw [ofRev_comps, ← names_append, List.append_assoc, ← List.reverse_append,
      List.takeWhile_append_dropWhile]

theorem ofRev_trailingSlash (hlead : lead = [] ∨ lead = ["."]) (rev : List String) :
    (ofRev absolute lead rev).trailingSlash = false := by
  unfold ofRev
  split
  · simp [trailingSlash, comps, names]
  · rename_i h
    rw [trailingSlash, decide_eq_false_iff_not]
    rintro ⟨-, hlast⟩
    simp only at hlast
    cases hrev : rev.dropWhile (Noise ·) with
    | nil =>
        rw [hrev] at hlast
        rcases hlead with rfl | rfl
        · simp at hlast
        · simp at hlast
    | cons s xs =>
        have hs : ¬ Noise s := by
          have := List.head?_dropWhile_not (p := (Noise ·)) rev
          rw [hrev] at this
          simpa using this
        rw [hrev, List.reverse_cons, ← List.append_assoc, List.getLast?_concat] at hlast
        exact hs (Or.inl (Option.some.inj hlast))

theorem ofRev_hasNul {rev : List String}
    (h : ∀ s ∈ lead ++ rev, s.toList.contains (Char.ofNat 0) = false) :
    (ofRev absolute lead rev).hasNul = false := by
  have hsub : ∀ s ∈ lead ++ (rev.dropWhile (Noise ·)).reverse,
      s.toList.contains (Char.ofNat 0) = false := by
    intro s hs
    rcases List.mem_append.mp hs with hs | hs
    · exact h s (List.mem_append_left _ hs)
    · exact h s (List.mem_append_right _
        ((List.dropWhile_suffix _).subset (List.mem_reverse.mp hs)))
  unfold ofRev
  split
  · simp [hasNul]
  · rw [hasNul, List.any_eq_false]
    intro s hs
    rw [hsub s hs]
    exact Bool.false_ne_true

/-- The nearest parent has a proper part of the components. -/
theorem parentsAux_head (hlead : lead = [] ∨ lead = ["."] ∧ absolute = false) :
    ∀ (rev : List String) (q : Path) (qs : List Path), parentsAux absolute lead rev = q :: qs →
      q.absolute = absolute ∧ q.trailingSlash = false ∧
      ((∀ s ∈ lead ++ rev, s.toList.contains (Char.ofNat 0) = false) → q.hasNul = false) ∧
      ∃ tail, tail ≠ [] ∧ names (lead ++ rev.reverse) = q.comps ++ tail := by
  intro rev
  induction rev with
  | nil =>
      intro q qs h
      rcases hlead with rfl | ⟨rfl, rfl⟩
      · cases h
      · cases h
        exact ⟨rfl, by decide, fun _ => by decide, ["."], by decide, by decide⟩
  | cons s rev ih =>
      intro q qs h
      rw [parentsAux] at h
      -- empty names and dots are skipped
      split_ifs at h with hnoise
      · obtain ⟨habs, hslash, hnul, tail, htail, hnames⟩ := ih q qs h
        refine ⟨habs, hslash, fun hs => hnul fun x hx => hs x ?_, tail ++ names [s], ?_, ?_⟩
        · rcases List.mem_append.mp hx with hx | hx
          · exact List.mem_append_left _ hx
          · exact List.mem_append_right _ (List.mem_cons_of_mem _ hx)
        · exact List.append_ne_nil_of_left_ne_nil htail _
        · rw [List.reverse_cons, ← List.append_assoc, names_append, hnames, List.append_assoc]
      · obtain ⟨rfl, -⟩ := List.cons.inj h
        obtain ⟨dots, -, hdots⟩ := ofRev_comps_append absolute lead rev
        have hlead' : lead = [] ∨ lead = ["."] := hlead.imp_right And.left
        refine ⟨ofRev_absolute rev, ofRev_trailingSlash hlead' rev,
          fun hs => ofRev_hasNul fun x hx => hs x ?_, dots ++ [s], by simp, ?_⟩
        · rcases List.mem_append.mp hx with hx | hx
          · exact List.mem_append_left _ hx
          · exact List.mem_append_right _ (List.mem_cons_of_mem _ hx)
        · have hs : names [s] = [s] := names_cons_of_ne (fun h => hnoise (Or.inl h)) []
          rw [List.reverse_cons, ← List.append_assoc, names_append, hdots, hs, List.append_assoc]

/-- Every parent has a proper part of the components. -/
theorem mem_parentsAux (hlead : lead = [] ∨ lead = ["."] ∧ absolute = false) :
    ∀ (rev : List String) (q : Path), q ∈ parentsAux absolute lead rev →
      q.absolute = absolute ∧
      ((∀ s ∈ lead ++ rev, s.toList.contains (Char.ofNat 0) = false) → q.hasNul = false) ∧
      ∃ tail, tail ≠ [] ∧ (ofRev absolute lead rev).comps = q.comps ++ tail := by
  intro rev
  induction rev with
  | nil =>
      intro q h
      rcases hlead with rfl | ⟨rfl, rfl⟩
      · cases h
      · cases List.mem_singleton.mp h
        exact ⟨rfl, fun _ => by decide, ["."], by decide, by decide⟩
  | cons s rev ih =>
      intro q h
      have hsub : ∀ x ∈ lead ++ rev, x ∈ lead ++ s :: rev := by
        intro x hx
        rcases List.mem_append.mp hx with hx | hx
        · exact List.mem_append_left _ hx
        · exact List.mem_append_right _ (List.mem_cons_of_mem _ hx)
      rw [parentsAux] at h
      split_ifs at h with hnoise
      · have heq : ofRev absolute lead (s :: rev) = ofRev absolute lead rev := by
          rw [ofRev, ofRev, List.dropWhile_cons_of_pos (by simpa using hnoise)]
        rw [heq]
        obtain ⟨habs, hnul, htail⟩ := ih q h
        exact ⟨habs, fun hs => hnul fun x hx => hs x (hsub x hx), htail⟩
      · obtain ⟨dots, -, hdots⟩ := ofRev_comps_append absolute lead rev
        have hs : names [s] = [s] := names_cons_of_ne (fun h => hnoise (Or.inl h)) []
        have hcomps : (ofRev absolute lead (s :: rev)).comps
            = (ofRev absolute lead rev).comps ++ (dots ++ [s]) := by
          rw [ofRev_comps, List.dropWhile_cons_of_neg (by simpa using hnoise), List.reverse_cons,
            ← List.append_assoc, names_append, hdots, hs, List.append_assoc]
        rcases List.mem_cons.mp h with rfl | h
        · exact ⟨ofRev_absolute rev, fun hs => ofRev_hasNul fun x hx => hs x (hsub x hx), _,
            by simp, hcomps⟩
        · obtain ⟨habs, hnul, tail, -, htail⟩ := ih q h
          exact ⟨habs, fun hs => hnul fun x hx => hs x (hsub x hx), tail ++ (dots ++ [s]), by simp,
            by rw [hcomps, htail, List.append_assoc]⟩

/-- Of two parents the further one has a proper part of the components of the nearer one. -/
theorem parentsAux_pairwise (hlead : lead = [] ∨ lead = ["."] ∧ absolute = false) :
    ∀ rev : List String, (parentsAux absolute lead rev).Pairwise fun p q =>
      q.absolute = p.absolute ∧ ∃ tail, tail ≠ [] ∧ p.comps = q.comps ++ tail := by
  intro rev
  induction rev with
  | nil =>
      rw [parentsAux]
      split_ifs
      · exact .nil
      · exact List.pairwise_singleton _ _
  | cons s rev ih =>
      rw [parentsAux]
      split_ifs
      · exact ih
      · refine List.Pairwise.cons (fun q hq => ?_) ih
        obtain ⟨habs, -, htail⟩ := mem_parentsAux hlead rev q hq
        exact ⟨habs.trans (ofRev_absolute rev).symm, htail⟩

end Parents

/-- **The parent of a path** has a proper part of its components. -/
theorem parents_head {p q : Path} {qs : List Path} (h : p.parents = q :: qs) :
    q.absolute = p.absolute ∧ q.trailingSlash = false ∧ (p.hasNul = false → q.hasNul = false) ∧
      ∃ tail, tail ≠ [] ∧ p.comps = q.comps ++ tail := by
  obtain ⟨habs, hslash, hnul, tail, htail, hnames⟩ := parentsAux_head p.lead_cases _ q qs h
  rw [List.reverse_reverse, lead_append_body] at hnames
  refine ⟨habs, hslash, fun hp => hnul fun s hs => ?_, tail, htail, hnames⟩
  have hmem : s ∈ p.segs := by
    rw [← lead_append_body, List.mem_append]
    simpa using hs
  simpa using List.any_eq_false.mp hp s hmem

theorem parents_pairwise (p : Path) : p.parents.Pairwise fun p q =>
    q.absolute = p.absolute ∧ ∃ tail, tail ≠ [] ∧ p.comps = q.comps ++ tail :=
  parentsAux_pairwise p.lead_cases _

theorem mem_parents {p q : Path} (h : q ∈ p.parents) :
    q.absolute = p.absolute ∧ (p.hasNul = false → q.hasNul = false) ∧
      ∃ tail, tail ≠ [] ∧ p.comps = q.comps ++ tail := by
  obtain ⟨habs, hnul, tail, hne, htail⟩ := mem_parentsAux p.lead_cases _ q h
  obtain ⟨dots, -, hdots⟩ := ofRev_comps_append p.absolute p.lead p.body.reverse
  rw [List.reverse_reverse, lead_append_body] at hdots
  refine ⟨habs, fun hp => hnul fun s hs => ?_, tail ++ dots, by simp [hne], ?_⟩
  · have hmem : s ∈ p.segs := by
      rw [← lead_append_body, List.mem_append]
      simpa using hs
    simpa using List.any_eq_false.mp hp s hmem
  · rw [comps, hdots, htail, List.append_assoc]

/-! ## The parents of a joined path -/

section Join

variable {absolute : Bool} {lead : List String}

/-- The path of a part of `rel` appended to `base`: if the part names something, then all
components of `base` are kept. -/
theorem ofRev_append_comps {rel base : List String} (hdot : "." ∉ rel) (hne : names rel ≠ []) :
    (ofRev absolute lead (rel.reverse ++ base)).comps
      = names (lead ++ base.reverse) ++ names rel := by
  -- the noise at the end of `rel` is empty segments, which name nothing
  have hnoise : ∀ s ∈ rel.reverse, Noise s → s = "" := by
    intro s hs h
    rcases h with h | h
    · exact h
    · exact absurd (h ▸ List.mem_reverse.mp hs) hdot
  have key : ∀ xs : List String, (∀ s ∈ xs, Noise s → s = "") → names xs ≠ [] →
      ∃ ys, (xs ++ base).dropWhile (Noise ·) = ys ++ base ∧ names ys = names xs := by
    intro xs
    induction xs with
    | nil => intro _ h; exact absurd rfl h
    | cons s xs ih =>
        intro hs h
        by_cases hn : Noise s
        · have he := hs s List.mem_cons_self hn
          subst he
          rw [names_cons_empty] at h ⊢
          obtain ⟨ys, hys, hnames⟩ := ih (fun x hx => hs x (List.mem_cons_of_mem _ hx)) h
          exact ⟨ys, by rw [List.cons_append, List.dropWhile_cons_of_pos (by simpa using hn), hys],
            hnames⟩
        · exact ⟨s :: xs, List.dropWhile_cons_of_neg (by simpa using hn), rfl⟩
  obtain ⟨ys, hys, hnames⟩ := key rel.reverse hnoise (by
    rw [names_reverse]
    simpa using hne)
  rw [ofRev_comps, hys, List.reverse_append, ← List.append_assoc, names_append, names_reverse,
    hnames, names_reverse, List.reverse_reverse]

theorem ofRev_append_empty {rel base : List String} (hrel : names rel = []) :
    ofRev absolute lead (rel.reverse ++ base) = ofRev absolute lead base := by
  have hall : ∀ s ∈ rel.reverse, Noise s := by
    intro s hs
    left
    by_contra hne
    have hmem : s ∈ names rel :=
      List.mem_filter.mpr ⟨List.mem_reverse.mp hs, by simpa using hne⟩
    rw [hrel] at hmem
    cases hmem
  have hdrop : (rel.reverse ++ base).dropWhile (Noise ·) = base.dropWhile (Noise ·) :=
    List.dropWhile_append_of_pos (by simpa using hall)
  rw [ofRev, ofRev, hdrop]

/-- The parents below `base`, one for each name of `rel`; parent `j` has the first `j`
names. -/
theorem parentsAux_append (absolute : Bool) (hlead : lead = [] ∨ lead = ["."])
    (base : List String) :
    ∀ rel : List String, "." ∉ rel → ∃ Q : Nat → Path,
      parentsAux absolute lead (rel.reverse ++ base)
        = ((List.range (names rel).length).reverse.map Q) ++ parentsAux absolute lead base ∧
      ∀ j, j < (names rel).length →
        (Q j).absolute = absolute ∧ (Q j).trailingSlash = false ∧
        ((∀ s ∈ lead ++ (rel.reverse ++ base), s.toList.contains (Char.ofNat 0) = false) →
          (Q j).hasNul = false) ∧
        (Q j).comps = if j = 0 then (ofRev absolute lead base).comps
          else names (lead ++ base.reverse) ++ (names rel).take j := by
  intro rel
  induction rel using List.reverseRecOn with
  | nil => intro _; exact ⟨fun _ => ⟨absolute, [""]⟩, rfl, by intro j hj; cases hj⟩
  | append_singleton rel s ih =>
      intro hdot
      have hdot' : "." ∉ rel := fun h => hdot (List.mem_append_left _ h)
      have hs : s ≠ "." := fun h => hdot (by rw [h]; simp)
      have hmem : ∀ x, x ∈ lead ++ (rel.reverse ++ base) →
          x ∈ lead ++ ((rel ++ [s]).reverse ++ base) := by
        intro x hx
        simp only [List.mem_append, List.mem_reverse, List.mem_singleton] at hx ⊢
        tauto
      obtain ⟨Q, hQ, hprops⟩ := ih hdot'
      rw [List.reverse_append, List.reverse_singleton, List.singleton_append, List.cons_append,
        parentsAux]
      by_cases hempty : s = ""
      · subst hempty
        rw [if_pos (show Noise "" from Or.inl rfl), names_append, names_cons_empty]
        simp only [names, List.filter_nil, List.append_nil]
        refine ⟨Q, hQ, fun j hj => ?_⟩
        obtain ⟨h1, h2, h3, h4⟩ := hprops j hj
        exact ⟨h1, h2, fun h => h3 fun x hx => h x (by simpa using hmem x hx), h4⟩
      · have hnot : ¬ Noise s := by
          rintro (h | h)
          · exact hempty h
          · exact hs h
        have hnames : names (rel ++ [s]) = names rel ++ [s] := by
          rw [names_append, names_cons_of_ne hempty]
          rfl
        rw [if_neg hnot, hQ, hnames, List.length_append, List.length_singleton,
          List.range_succ, List.reverse_append, List.reverse_singleton, List.singleton_append]
        -- the new parent is the one with all names of `rel`
        refine ⟨fun j => if j < (names rel).length then Q j
          else ofRev absolute lead (rel.reverse ++ base), ?_, fun j hj => ?_⟩
        · rw [List.map_cons, List.cons_append, if_neg (Nat.lt_irrefl _)]
          congr 2
          apply List.map_congr_left
          intro j hj
          rw [List.mem_reverse, List.mem_range] at hj
          rw [if_pos hj]
        · by_cases hlt : j < (names rel).length
          · simp only [if_pos hlt]
            obtain ⟨h1, h2, h3, h4⟩ := hprops j hlt
            refine ⟨h1, h2, fun h => h3 fun x hx => h x (by simpa using hmem x hx), ?_⟩
            rw [h4, List.take_append_of_le_length (Nat.le_of_lt hlt)]
          · simp only [if_neg hlt]
            have hj' : j = (names rel).length := by omega
            refine ⟨ofRev_absolute _, ofRev_trailingSlash hlead _, fun h => ofRev_hasNul fun x hx =>
              h x (by simpa using hmem x hx), ?_⟩
            by_cases hrel : names rel = []
            · rw [hj', if_pos (by rw [hrel]; rfl), ofRev_append_empty hrel]
            · have hpos : (names rel).length ≠ 0 := by simpa using hrel
              rw [hj', if_neg hpos, ofRev_append_comps hdot' hrel, List.take_left]

/-- A path without components has no parents, and no leading dot. -/
theorem parentsAux_eq_nil (hlead : lead = [] ∨ lead = ["."]) {rev : List String}
    (h : (ofRev absolute lead rev).comps = []) : parentsAux absolute lead rev = [] ∧ lead = [] := by
  rw [ofRev_comps, names_append, List.append_eq_nil_iff] at h
  have hnil : lead = [] := by
    rcases hlead with rfl | rfl
    · rfl
    · exact absurd h.1 (by decide)
  have hrev : ∀ s ∈ rev, Noise s := by
    have hdrop : rev.dropWhile (Noise ·) = [] := by
      by_contra hne
      obtain ⟨s, xs, hs⟩ := List.exists_cons_of_ne_nil hne
      have hnot : ¬ Noise s := by
        have := List.head?_dropWhile_not (p := (Noise ·)) rev
        rw [hs] at this
        simpa using this
      have hmem : s ∈ names (rev.dropWhile (Noise ·)).reverse :=
        List.mem_filter.mpr ⟨by rw [hs]; simp, by simpa using fun he => hnot (Or.inl he)⟩
      rw [h.2] at hmem
      cases hmem
    simpa using List.dropWhile_eq_nil_iff.mp hdrop
  clear h
  subst hnil
  refine ⟨?_, rfl⟩
  induction rev with
  | nil => rfl
  | cons s rev ih =>
      rw [parentsAux, if_pos (hrev s List.mem_cons_self)]
      exact ih fun x hx => hrev x (List.mem_cons_of_mem _ hx)

end Join

theorem lead_join {p : Path} {rel : List String} (hdot : "." ∉ rel) :
    (p.join rel).lead = p.lead ∧ ∃ base, p.stem = p.lead ++ base := by
  have hrel : rel.head? ≠ some "." := by
    intro h
    exact hdot (List.mem_of_mem_head? h)
  unfold lead join
  by_cases hstem : p.stem = []
  · -- `p` is empty or the root
    have hsegs : p.segs.head? ≠ some "." := by
      unfold stem at hstem
      split_ifs at hstem with h
      · match hp : p.segs with
        | [] => simp
        | [s] =>
            rw [hp] at h
            cases h
            simp
        | _ :: _ :: _ => rw [hp] at hstem; simp at hstem
      · rw [hstem]; simp
    rw [hstem, List.nil_append, if_neg (fun h => hrel h.2), if_neg (fun h => hsegs h.2)]
    exact ⟨rfl, [], rfl⟩
  · have hhead : p.stem.head? = p.segs.head? := by
      unfold stem at hstem ⊢
      split_ifs at hstem ⊢ with h
      · match hp : p.segs with
        | [] => rfl
        | [s] => rw [hp] at hstem; simp at hstem
        | _ :: _ :: _ => rfl
      · rfl
    obtain ⟨s, xs, hs⟩ := List.exists_cons_of_ne_nil hstem
    simp only [hs, List.cons_append, List.head?_cons] at hhead ⊢
    rw [← hhead]
    refine ⟨rfl, ?_⟩
    split_ifs with h
    · exact ⟨xs, by rw [Option.some.inj h.2]; rfl⟩
    · exact ⟨s :: xs, rfl⟩

/-- **The parents of a joined path**: one for each name of `rel`, then those of the base.
Parent `0` is the base without dots at its end. -/
theorem parents_join (p : Path) {rel : List String} (hdot : "." ∉ rel) :
    ∃ (Q : Nat → Path) (above : List Path) (dots : List String),
      (p.join rel).parents = (List.range (names rel).length).reverse.map Q ++ above ∧
      (∀ c ∈ dots, c = ".") ∧
      (∀ j, j < (names rel).length →
        (Q j).absolute = p.absolute ∧ (Q j).trailingSlash = false ∧
        ((p.join rel).hasNul = false → (Q j).hasNul = false)) ∧
      (∀ j, 0 < j → j < (names rel).length → (Q j).comps = p.comps ++ (names rel).take j) ∧
      (names rel ≠ [] → p.comps = (Q 0).comps ++ dots ∧
        ((Q 0).IsEmpty → above = [] ∧ p.lead = [])) := by
  obtain ⟨hlead, base, hbase⟩ := lead_join (p := p) hdot
  have hleads : p.lead = [] ∨ p.lead = ["."] := p.lead_cases.imp_right And.left
  have hbody : (p.join rel).body.reverse = rel.reverse ++ base.reverse := by
    rw [body, hlead, join, hbase, List.append_assoc, List.drop_left, List.reverse_append]
  have hcomps : names (p.lead ++ base.reverse.reverse) = p.comps := by
    rw [List.reverse_reverse, ← hbase, names_stem]
  obtain ⟨Q, hQ, hprops⟩ := parentsAux_append p.absolute hleads base.reverse rel hdot
  obtain ⟨dots, hdots, hsplit⟩ := ofRev_comps_append p.absolute p.lead base.reverse
  refine ⟨Q, parentsAux p.absolute p.lead base.reverse, dots, ?_, hdots, fun j hj => ?_,
    fun j hpos hj => ?_, fun hne => ?_⟩
  · rw [parents, hlead, hbody]
    exact hQ
  · obtain ⟨h1, h2, h3, -⟩ := hprops j hj
    refine ⟨h1, h2, fun h => h3 fun s hs => ?_⟩
    have hmem : s ∈ (p.join rel).segs := by
      rw [join, hbase]
      simp only [List.mem_append, List.mem_reverse] at hs ⊢
      tauto
    simpa using List.any_eq_false.mp h s hmem
  · rw [(hprops j hj).2.2.2, if_neg (by omega), hcomps]
  · have hzero := (hprops 0 (List.length_pos_of_ne_nil hne)).2.2.2
    rw [if_pos rfl] at hzero
    refine ⟨by rw [hzero, ← hcomps, hsplit], fun hempty => ?_⟩
    exact parentsAux_eq_nil hleads (by rw [← hzero]; exact hempty.2)

/-- The file name of a joined path is the last name of what is joined. -/
theorem fileName_join (p : Path) {rel xs : List String} {x : String} (hdot : "." ∉ rel)
    (hx : x ≠ "..") (hrel : names rel = xs ++ [x]) : (p.join rel).fileName = some x := by
  obtain ⟨hlead, base, hbase⟩ := lead_join (p := p) hdot
  have hbody : (p.join rel).body.reverse = rel.reverse ++ base.reverse := by
    rw [body, hlead, join, hbase, List.append_assoc, List.drop_left, List.reverse_append]
  have key : ∀ rev : List String, "." ∉ rev → names rev = x :: xs.reverse →
      ∃ rest, (rev ++ base.reverse).dropWhile (Noise ·) = x :: rest := by
    intro rev
    induction rev with
    | nil => intro _ h; cases h
    | cons s rev ih =>
        intro hdot h
        by_cases hs : s = ""
        · rw [hs, names_cons_empty] at h
          obtain ⟨rest, hrest⟩ := ih (fun hm => hdot (List.mem_cons_of_mem _ hm)) h
          refine ⟨rest, ?_⟩
          rw [List.cons_append, List.dropWhile_cons_of_pos (by simp [hs, Noise]), hrest]
        · have hnoise : ¬ Noise s := by
            rintro (hn | hn)
            · exact hs hn
            · exact hdot (hn ▸ List.mem_cons_self)
          rw [names_cons_of_ne hs] at h
          rw [List.cons_append, List.dropWhile_cons_of_neg (by simpa using hnoise),
            (List.cons.inj h).1]
          exact ⟨_, rfl⟩
  obtain ⟨rest, hrest⟩ := key rel.reverse (by simpa using hdot) (by
    rw [names_reverse, hrel, List.reverse_append]
    rfl)
  rw [fileName, hbody, hrest]
  exact if_neg hx

/-! ## Names beside the file name -/

section Beside

variable {p : Path} {x : String}

/-- The segments before the file name. -/
def dirSegs (p : Path) : List String :=
  p.lead ++ (p.body.reverse.dropWhile (Noise ·)).tail.reverse

theorem dropWhile_of_fileName (h : p.fileName = some x) : x ≠ ".." ∧ ¬ Noise x ∧
    ∃ rev, p.body.reverse.dropWhile (Noise ·) = x :: rev := by
  unfold fileName at h
  split at h
  · cases h
  · rename_i seg rev hrev
    split_ifs at h with hdd
    cases h
    have hnoise := List.head?_dropWhile_not (p := (Noise ·)) p.body.reverse
    rw [hrev] at hnoise
    exact ⟨hdd, by simpa using hnoise, rev, hrev⟩

/-- After the file name there are only dots. -/
theorem comps_of_fileName (h : p.fileName = some x) :
    ∃ dots, (∀ c ∈ dots, c = ".") ∧ p.comps = names p.dirSegs ++ x :: dots := by
  obtain ⟨-, hnoise, rev, hrev⟩ := dropWhile_of_fileName h
  have hx : names [x] = [x] := names_cons_of_ne (fun hx => hnoise (Or.inl hx)) []
  refine ⟨names (p.body.reverse.takeWhile (Noise ·)).reverse, ?_, ?_⟩
  · intro c hc
    obtain ⟨hmem, hne⟩ := List.mem_filter.mp hc
    have hc := List.mem_takeWhile_imp (List.mem_reverse.mp hmem)
    simp only [decide_eq_true_eq] at hc hne
    exact hc.resolve_left hne
  · have hbody : p.body = rev.reverse ++ [x] ++ (p.body.reverse.takeWhile (Noise ·)).reverse := by
      rw [← List.reverse_cons, ← hrev, ← List.reverse_append, List.takeWhile_append_dropWhile,
        List.reverse_reverse]
    rw [comps, ← lead_append_body, dirSegs, hrev, List.tail_cons]
    conv_lhs => rw [hbody]
    rw [← List.append_assoc, ← List.append_assoc, names_append, names_append, hx,
      List.append_assoc, List.singleton_append]

theorem dirSegs_subset {s : String} (hs : s ∈ p.dirSegs) : s ∈ p.segs := by
  rw [← lead_append_body, List.mem_append]
  rcases List.mem_append.mp hs with hs | hs
  · exact Or.inl hs
  · exact Or.inr (List.mem_reverse.mp
      ((List.dropWhile_suffix _).subset (List.tail_subset _ (List.mem_reverse.mp hs))))

/-- The parent leads to what the segments before the file name lead to. -/
theorem parent_of_fileName (h : p.fileName = some x) :
    ∃ dir dots, p.parent = some dir ∧ (∀ c ∈ dots, c = ".") ∧
      names p.dirSegs = dir.comps ++ dots := by
  obtain ⟨-, -, rev, hrev⟩ := dropWhile_of_fileName h
  obtain ⟨dots, hdots, hcomps⟩ := ofRev_comps_append p.absolute p.lead rev
  refine ⟨ofRev p.absolute p.lead rev, dots, ?_, hdots, by rw [dirSegs, hrev, ← hcomps]; rfl⟩
  have key : ∀ xs : List String, xs.dropWhile (Noise ·) = x :: rev →
      (parentsAux p.absolute p.lead xs).head? = some (ofRev p.absolute p.lead rev) := by
    intro xs
    induction xs with
    | nil => intro h; cases h
    | cons s xs ih =>
        intro h
        rw [parentsAux]
        by_cases hs : Noise s
        · rw [if_pos hs]
          rw [List.dropWhile_cons_of_pos (by simpa using hs)] at h
          exact ih h
        · rw [if_neg hs]
          rw [List.dropWhile_cons_of_neg (by simpa using hs)] at h
          rw [(List.cons.inj h).2]
          rfl
  exact key _ hrev

theorem fileStem_subset {name : String} {c : Char} (hc : c ∈ (fileStem name).toList) :
    c ∈ name.toList := by
  unfold fileStem at hc
  split at hc
  · exact hc
  · rename_i y before hbefore
    split_ifs at hc
    · exact hc
    · rw [String.toList_ofList, List.mem_reverse] at hc
      have hmem : c ∈ name.toList.reverse.dropWhile (· ≠ '.') := by
        rw [hbefore]
        exact List.mem_cons_of_mem _ hc
      exact List.mem_reverse.mp ((List.dropWhile_suffix _).subset hmem)

/-- A path with another extension stands beside it. -/
theorem withExtension_of_fileName (h : p.fileName = some x) (extension : String) :
    (p.withExtension extension).absolute = p.absolute ∧
    (p.withExtension extension).trailingSlash = false ∧
    (p.hasNul = false → extension.toList.contains (Char.ofNat 0) = false →
      (p.withExtension extension).hasNul = false) ∧
    (p.withExtension extension).comps = names p.dirSegs ++ [fileStem x ++ "." ++ extension] := by
  have hwith : p.withExtension extension
      = ⟨p.absolute, p.dirSegs ++ [fileStem x ++ "." ++ extension]⟩ := by
    rw [withExtension, h]
    rfl
  have hdot : '.' ∈ (fileStem x ++ "." ++ extension).toList := by
    rw [String.toList_append, String.toList_append]
    simp
  have hne : fileStem x ++ "." ++ extension ≠ "" := by
    intro he
    rw [he] at hdot
    cases hdot
  have hone : names [fileStem x ++ "." ++ extension] = [fileStem x ++ "." ++ extension] :=
    names_cons_of_ne hne []
  rw [hwith]
  refine ⟨rfl, ?_, fun hnul hext => ?_, by rw [comps, names_append, hone]⟩
  · rw [trailingSlash, decide_eq_false_iff_not]
    rintro ⟨-, hlast⟩
    rw [List.getLast?_concat] at hlast
    exact hne (Option.some.inj hlast)
  · rw [hasNul, List.any_eq_false] at hnul ⊢
    intro s hs
    rcases List.mem_append.mp hs with hs | hs
    · exact hnul s (dirSegs_subset hs)
    · -- the stem is a part of the file name
      obtain ⟨-, -, rev, hrev⟩ := dropWhile_of_fileName h
      have hx : x ∈ p.segs := by
        rw [← lead_append_body, List.mem_append]
        right
        rw [← List.mem_reverse]
        exact (List.dropWhile_suffix _).subset (hrev ▸ List.mem_cons_self)
      rw [List.mem_singleton.mp hs]
      simp only [List.contains_eq_mem, decide_eq_true_eq, decide_eq_false_iff_not] at hnul hext ⊢
      rw [String.toList_append, String.toList_append, List.mem_append, List.mem_append]
      rintro ((hc | hc) | hc)
      · exact hnul x hx (fileStem_subset hc)
      · exact absurd hc (by decide)
      · exact hext hc

/-- A path with one more name. -/
theorem join_name (p : Path) {name : String} (hname : name ≠ "") :
    (p.join [name]).comps = p.comps ++ [name] ∧ (p.join [name]).trailingSlash = false ∧
    (p.hasNul = false → name.toList.contains (Char.ofNat 0) = false →
      (p.join [name]).hasNul = false) := by
  have hone : names [name] = [name] := names_cons_of_ne hname []
  refine ⟨by rw [comps_join, hone], ?_, fun hp hn => ?_⟩
  · rw [trailingSlash, decide_eq_false_iff_not]
    rintro ⟨-, hlast⟩
    rw [join, List.getLast?_concat] at hlast
    exact hname (Option.some.inj hlast)
  · rw [hasNul, List.any_eq_false] at hp ⊢
    intro s hs
    rw [join, List.mem_append, List.mem_singleton] at hs
    rcases hs with hs | rfl
    · refine hp s ?_
      unfold stem at hs
      split_ifs at hs
      · exact List.dropLast_subset _ hs
      · exact hs
    · rw [hn]
      exact Bool.false_ne_true

/-- A path with another file name stands beside it, without the dots before the name. -/
theorem withFileName_of_fileName (h : p.fileName = some x) {name : String} (hname : name ≠ "") :
    (p.withFileName name).absolute = p.absolute ∧
    (p.withFileName name).trailingSlash = false ∧
    (p.hasNul = false → name.toList.contains (Char.ofNat 0) = false →
      (p.withFileName name).hasNul = false) ∧
    ∃ base dots, (p.withFileName name).comps = base ++ [name] ∧
      names p.dirSegs = base ++ dots ∧ ∀ c ∈ dots, c = "." := by
  obtain ⟨dir, dots, hdir, hdots, hbase⟩ := parent_of_fileName h
  have hwith : p.withFileName name = dir.join [name] := by
    rw [withFileName, h, hdir]
  obtain ⟨habs, hnul, -⟩ := mem_parents (List.mem_of_mem_head? hdir)
  obtain ⟨hcomps, hslash, hjoin⟩ := join_name dir hname
  rw [hwith]
  exact ⟨habs, hslash, fun hp hn => hjoin (hnul hp) hn, dir.comps, dots, hcomps, hbase, hdots⟩

/-- In a joined path, all but the last name comes before the file name. -/
theorem dirSegs_join {rel xs : List String} (hdot : "." ∉ rel) (hx : x ≠ "..")
    (hrel : names rel = xs ++ [x]) : names (p.join rel).dirSegs = p.comps ++ xs := by
  obtain ⟨dots, hdots, hcomps⟩ := comps_of_fileName (fileName_join p hdot hx hrel)
  rw [comps_join, hrel, ← List.append_assoc] at hcomps
  have hlast : dots = [] := by
    by_contra hne
    obtain ⟨ds, d, rfl⟩ := (List.eq_nil_or_concat' dots).resolve_left hne
    -- a dot at the end would be the last name
    have hd : d = "." := hdots d (by simp)
    have heq := congrArg List.getLast? hcomps
    rw [List.getLast?_concat, ← List.cons_append, ← List.append_assoc, List.getLast?_concat] at heq
    have hmem : x ∈ names rel := by rw [hrel]; simp
    rw [Option.some.inj heq, hd] at hmem
    exact hdot (List.mem_filter.mp hmem).1
  rw [hlast] at hcomps
  exact (List.append_inj' hcomps rfl).1.symm

end Beside

end Path

end Posix
