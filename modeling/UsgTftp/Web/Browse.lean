import UsgTftp.Lib.NamesIn
import UsgTftp.Lib.PathStrip
import UsgTftp.Web.Handlers

set_option autoImplicit false

/-! # Browsing over the web

`list_files` and `download_file` of `src/web/handlers.rs`, as functions of the file tree. A call of
the file system fails for the reasons that the tree shows. In which order `read_dir` gives the names
of a directory is up to the system; what the crates `mime_guess`, `chrono` and `http` do is a
parameter.

A listing has every name that is not hidden, once, and does not depend on the order
(`list_files_exact`). The path of an entry leads back to it (`listed_path_iff`): it can be listed
if it is a directory, and downloaded if it is a file.
-/

namespace UsgTftp

open Posix Posix.Path

/-! ## The handlers -/

structure FileEntry where
  name : String
  path : String
  isDir : Bool
  size : Nat
  modified : String
  deriving DecidableEq, Repr

/-- What the handlers get from elsewhere than the tree. -/
structure Surroundings where
  /-- The time of the last change, as it is rendered. -/
  modified : Loc → String
  /-- The length of a link, which is that of the text it holds. -/
  linkLen : Path → Nat
  contentType : Path → String
  /-- The text can be the value of a header. -/
  validHeader : String → Bool

inductive BrowseResponse where
  | entries (entries : List FileEntry)
  | file (contentType disposition : String) (body : Except Errno Bytes)
  | apiError (code : StatusCode) (error : String)

def relativePath (root full : Path) : String :=
  match full.stripPrefix root with
  | none => ""
  | some text => String.ofList (text.toList.map fun c => if c = '\\' then '/' else c)

/-- `read_dir`, which gives the location of the directory. -/
def readDir (env : Env) (t : Tree) (p : Path) : Except Errno Loc :=
  match canonicalize env t p with
  | .error e => .error e
  | .ok loc => if t.entry loc = some .dir then .ok loc else .error .enotdir

/-- The path of the directory that is to be listed. -/
def listedDir (s : AppState) (t : Tree) (path : Option String) : Except TftpError Path :=
  let reqPath := path.getD ""
  if reqPath = "" then .ok s.rootDir else validateAndResolvePath s.env t s.rootDir reqPath

/-- `meta.len()` of what is not a directory. -/
def objectLen (r : Surroundings) (t : Tree) : Option Entry → Nat
  | some (.file i) => (t.content i).length
  | some (.symlink target) => r.linkLen target
  | _ => 0

def fileEntry (s : AppState) (r : Surroundings) (t : Tree) (dirPath : Path) (d : Loc)
    (name : String) : FileEntry where
  name := name
  path := relativePath s.rootDir (dirPath.join [name])
  isDir := t.entry (d ++ [name]) = some .dir
  size := objectLen r t (t.entry (d ++ [name]))
  modified := r.modified (d ++ [name])

def shown (name : String) : Bool := !startsWithDot name && name ≠ "lost+found"

/-- Directories come first, then the names in their order. -/
def FileEntry.le (a b : FileEntry) : Bool := if a.isDir = b.isDir then a.name ≤ b.name else a.isDir

/-- `order` has the names in the directory, as `read_dir` gives them. -/
def listFiles (s : AppState) (r : Surroundings) (t : Tree) (path : Option String)
    (order : List String) : BrowseResponse :=
  match listedDir s t path with
  | .error e => .apiError .badRequest e.display
  | .ok dirPath =>
      match readDir s.env t dirPath with
      | .error .enoent => .apiError .notFound "Directory not found"
      | .error _ => .apiError .internalServerError "Failed to list directory"
      | .ok d =>
          .entries (((order.filter shown).map (fileEntry s r t dirPath d)).mergeSort FileEntry.le)

/-- The file name as it is put between quotes. -/
def safeFilename (filename : String) : String :=
  String.ofList ((filename.toList.filter (· ≠ Char.ofNat 34)).map fun c =>
    if c = '\\' ∨ c = '\r' ∨ c = '\n' then '_' else c)

/-- The response with an open file. -/
def fileResponse (r : Surroundings) (filePath : Path) (body : Except Errno Bytes) :
    BrowseResponse :=
  let filename := filePath.fileName.getD "download"
  let disposition := "attachment; filename=\"" ++ safeFilename filename ++ "\""
  if r.validHeader disposition then .file (r.contentType filePath) disposition body
  else .apiError .internalServerError "Stream error"

/-- A directory can be opened too; reading it fails. -/
def readOpened (t : Tree) (loc : Loc) : Except Errno Bytes :=
  match t.entry loc with
  | some (.file i) => .ok (t.content i)
  | _ => .error .eisdir

def downloadFile (s : AppState) (r : Surroundings) (t : Tree) (path : Option String) :
    BrowseResponse :=
  let reqPath := path.getD ""
  if reqPath = "" then .apiError .badRequest "path is required"
  else
    match validateAndResolvePath s.env t s.rootDir reqPath with
    | .error e => .apiError .badRequest e.display
    | .ok filePath =>
        match openRead s.env t filePath with
        | .error .enoent => .apiError .notFound "File not found"
        | .error _ => .apiError .internalServerError "Failed to read file"
        | .ok loc => fileResponse r filePath (readOpened t loc)

/-! ## The order of a listing -/

section Sorting

variable {a b c : FileEntry}

theorem FileEntry.le_iff : a.le b = true ↔
    (a.isDir = true ∧ b.isDir = false) ∨ (a.isDir = b.isDir ∧ a.name ≤ b.name) := by
  unfold FileEntry.le
  cases a.isDir <;> cases b.isDir <;> simp

theorem FileEntry.le_trans (hab : a.le b = true) (hbc : b.le c = true) : a.le c = true := by
  rw [FileEntry.le_iff] at *
  rcases hab with ⟨ha, hb⟩ | ⟨hab, hname⟩
  · rcases hbc with ⟨hb', -⟩ | ⟨hbc, -⟩
    · rw [hb] at hb'
      cases hb'
    · exact Or.inl ⟨ha, hbc ▸ hb⟩
  · rcases hbc with ⟨hb, hc⟩ | ⟨hbc, hname'⟩
    · exact Or.inl ⟨hab ▸ hb, hc⟩
    · exact Or.inr ⟨hab.trans hbc, String.le_trans hname hname'⟩

theorem FileEntry.le_total (a b : FileEntry) : (a.le b || b.le a) = true := by
  rw [Bool.or_eq_true, FileEntry.le_iff, FileEntry.le_iff]
  cases a.isDir <;> cases b.isDir <;> simp [String.le_total]

theorem FileEntry.name_eq (hab : a.le b = true) (hba : b.le a = true) : a.name = b.name := by
  rw [FileEntry.le_iff] at *
  rcases hab with ⟨ha, hb⟩ | ⟨hab, hname⟩
  · rcases hba with ⟨hb', -⟩ | ⟨hba, -⟩
    · rw [hb] at hb'
      cases hb'
    · rw [ha, hb] at hba
      cases hba
  · rcases hba with ⟨hb, ha⟩ | ⟨-, hname'⟩
    · rw [ha, hb] at hab
      cases hab
    · exact String.le_antisymm hname hname'

/-- `a` comes before `b` in a listing. -/
def FileEntry.Before (a b : FileEntry) : Prop :=
  (a.isDir = true ∧ b.isDir = false) ∨ (a.isDir = b.isDir ∧ a.name < b.name)

end Sorting

/-- `read_dir` gives each name in the directory once. -/
structure NamesOf (t : Tree) (d : Loc) (order : List String) : Prop where
  nodup : order.Nodup
  mem : ∀ n, n ∈ order ↔ t.entry (d ++ [n]) ≠ none

/-- There is such an order. -/
theorem exists_namesOf (t : Tree) (d : Loc) : ∃ order, NamesOf t d order := by
  let found := (t.support.filter fun l => l.dropLast = d ∧ t.entry l ≠ none).filterMap List.getLast?
  refine ⟨found.dedup, found.nodup_dedup, fun n => ?_⟩
  rw [List.mem_dedup, List.mem_filterMap]
  constructor
  · rintro ⟨l, hl, hlast⟩
    rw [List.mem_filter, decide_eq_true_iff] at hl
    have hsplit : d ++ [n] = l := by
      rw [← hl.2.1]
      exact List.dropLast_append_getLast? n hlast
    rw [hsplit]
    exact hl.2.2
  · intro hn
    refine ⟨d ++ [n], List.mem_filter.mpr ⟨t.mem_support _ hn, ?_⟩, List.getLast?_concat⟩
    rw [decide_eq_true_iff]
    exact ⟨List.dropLast_concat, hn⟩

section Listing

variable {s : AppState} {r : Surroundings} {t : Tree} {path : Option String} {dirPath : Path}
  {d : Loc} {order order' : List String}

/-- The listing of the directory `d`. -/
def listing (s : AppState) (r : Surroundings) (t : Tree) (dirPath : Path) (d : Loc)
    (order : List String) : List FileEntry :=
  ((order.filter shown).map (fileEntry s r t dirPath d)).mergeSort FileEntry.le

theorem listFiles_eq (hpath : listedDir s t path = .ok dirPath)
    (hdir : readDir s.env t dirPath = .ok d) (order : List String) :
    listFiles s r t path order = .entries (listing s r t dirPath d order) := by
  rw [listFiles, hpath]
  dsimp only
  rw [hdir]
  rfl

theorem mem_listing (horder : NamesOf t d order) {e : FileEntry} :
    e ∈ listing s r t dirPath d order ↔
      t.entry (d ++ [e.name]) ≠ none ∧ shown e.name = true ∧
        e = fileEntry s r t dirPath d e.name := by
  rw [listing, List.mem_mergeSort, List.mem_map]
  constructor
  · rintro ⟨n, hn, rfl⟩
    rw [List.mem_filter, horder.mem] at hn
    exact ⟨hn.1, hn.2, rfl⟩
  · rintro ⟨hentry, hshown, he⟩
    exact ⟨e.name, List.mem_filter.mpr ⟨(horder.mem _).mpr hentry, hshown⟩, he.symm⟩

theorem listing_nodup (horder : NamesOf t d order) :
    ((listing s r t dirPath d order).map FileEntry.name).Nodup := by
  have hperm : ((listing s r t dirPath d order).map FileEntry.name).Perm (order.filter shown) := by
    calc
      ((listing s r t dirPath d order).map FileEntry.name).Perm
          (((order.filter shown).map (fileEntry s r t dirPath d)).map FileEntry.name) :=
        (List.mergeSort_perm _ _).map _
      _ = order.filter shown := by
        rw [List.map_map]
        exact List.map_id _
  exact hperm.nodup_iff.mpr (horder.nodup.filter _)

theorem listing_sorted : (listing s r t dirPath d order).Pairwise fun a b => a.le b = true :=
  @List.pairwise_mergeSort _ FileEntry.le (fun _ _ _ => FileEntry.le_trans) FileEntry.le_total _

theorem listing_before (horder : NamesOf t d order) :
    (listing s r t dirPath d order).Pairwise FileEntry.Before := by
  have hnodup : ((listing s r t dirPath d order).map FileEntry.name).Nodup := listing_nodup horder
  refine List.Pairwise.imp ?_ (listing_sorted.and (List.pairwise_map.mp hnodup))
  rintro a b ⟨hle, hne⟩
  rcases FileEntry.le_iff.mp hle with hdirs | ⟨hsame, hname⟩
  · exact Or.inl hdirs
  · exact Or.inr ⟨hsame, Std.lt_of_le_of_ne hname hne⟩

theorem listing_congr (horder : NamesOf t d order) (horder' : NamesOf t d order') :
    listing s r t dirPath d order = listing s r t dirPath d order' := by
  have hperm : order.Perm order' :=
    (List.perm_ext_iff_of_nodup horder.nodup horder'.nodup).mpr fun n => by
      rw [horder.mem, horder'.mem]
  refine List.Perm.eq_of_pairwise ?_ listing_sorted listing_sorted ?_
  · intro a b ha hb hab hba
    obtain ⟨-, -, ha⟩ := (mem_listing horder).mp ha
    obtain ⟨-, -, hb⟩ := (mem_listing horder').mp hb
    rw [ha, hb, FileEntry.name_eq hab hba]
  · calc
      (listing s r t dirPath d order).Perm ((order.filter shown).map (fileEntry s r t dirPath d)) :=
        List.mergeSort_perm _ _
      List.Perm _ ((order'.filter shown).map (fileEntry s r t dirPath d)) :=
        (hperm.filter _).map _
      List.Perm _ (listing s r t dirPath d order') := (List.mergeSort_perm _ _).symm

end Listing

/-- A name that the system allows in a directory. -/
structure LegalName (n : String) : Prop where
  ne : n ≠ ""
  slash : '/' ∉ n.toList
  nul : n.toList.contains (Char.ofNat 0) = false

/-- The directory that is listed: it is at `d`, below the root at `R`, and `rel` leads there from
the root. -/
structure Located (s : AppState) (t : Tree) (dirPath : Path) (rel : List String) (R d : Loc) :
    Prop where
  join : ∀ ys, dirPath.join ys = s.rootDir.join (rel ++ ys)
  noDots : ∀ seg ∈ rel, startsWithDot seg = false
  plain : ∀ seg ∈ rel, '/' ∉ seg.toList ∧ '\\' ∉ seg.toList
  head : rel.head? ≠ some ""
  root : canonicalize s.env t s.rootDir = .ok R
  dir : canonicalize s.env t dirPath = .ok d
  entry : t.entry d = some .dir
  inside : R <+: d

theorem readDir_eq_ok {env : Env} {t : Tree} {p : Path} {d : Loc} :
    readDir env t p = .ok d ↔ canonicalize env t p = .ok d ∧ t.entry d = some .dir := by
  unfold readDir
  constructor
  · intro h
    split at h
    · cases h
    · rename_i loc hloc
      split_ifs at h with hdir
      cases h
      exact ⟨hloc, hdir⟩
  · rintro ⟨hcanon, hdir⟩
    rw [hcanon]
    exact if_pos hdir

/-- Backslashes count as slashes, so no segment has one. -/
theorem mem_filenameSegments {filename seg : String} (h : seg ∈ filenameSegments filename) :
    '/' ∉ seg.toList ∧ '\\' ∉ seg.toList := by
  refine ⟨fun hc => (mem_splitSlash h hc).2 rfl, fun hc => ?_⟩
  have hmem := (mem_splitSlash h hc).1
  rw [String.toList_ofList, List.mem_map] at hmem
  obtain ⟨c, -, hc⟩ := hmem
  split_ifs at hc with heq
  · exact absurd hc (by decide)
  · exact heq hc

theorem trimStartSlashes_head (segs : List String) :
    trimStartSlashes segs = [""] ∨ ∃ seg rest, trimStartSlashes segs = seg :: rest ∧ seg ≠ "" := by
  unfold trimStartSlashes
  split
  · exact Or.inl rfl
  · rename_i hne
    right
    obtain ⟨seg, rest, hrest⟩ := List.exists_cons_of_ne_nil hne
    refine ⟨seg, rest, hrest, ?_⟩
    have hhead := List.head?_dropWhile_not (p := (· = "")) segs
    rw [hrest] at hhead
    simpa using hhead

/-- **What becomes of an entry** whose path is sent back: a directory can be listed, a file can be
downloaded and has the size that was shown, and a link is refused. -/
def EntryServed (s : AppState) (r : Surroundings) (t : Tree) (d : Loc) (e : FileEntry) : Prop :=
  match t.entry (d ++ [e.name]) with
  | none => False
  | some .dir =>
      e.isDir = true ∧ ∃ dirPath, listedDir s t (some e.path) = .ok dirPath ∧
        readDir s.env t dirPath = .ok (d ++ [e.name])
  | some (.file i) =>
      e.isDir = false ∧ e.size = (t.content i).length ∧
      ∃ filePath, filePath.fileName = some e.name ∧
        downloadFile s r t (some e.path) = fileResponse r filePath (.ok (t.content i))
  | some (.symlink _) =>
      e.isDir = false ∧
      (∀ order, listFiles s r t (some e.path) order
        = .apiError .badRequest "TFTP error: Symlinks are not allowed") ∧
      downloadFile s r t (some e.path)
        = .apiError .badRequest "TFTP error: Symlinks are not allowed"

section Located

variable {s : AppState} {r : Surroundings} {t : Tree} {path : Option String} {dirPath : Path}
  {rel : List String} {R d : Loc} {n : String}

theorem located (hpath : listedDir s t path = .ok dirPath) (hdir : readDir s.env t dirPath = .ok d) :
    ∃ rel R, Located s t dirPath rel R d := by
  obtain ⟨hcanon, hentry⟩ := readDir_eq_ok.mp hdir
  unfold listedDir at hpath
  dsimp only at hpath
  split_ifs at hpath with hempty
  · cases hpath
    refine ⟨[], d, fun ys => rfl, ?_, ?_, ?_, hcanon, hcanon, hentry, List.prefix_rfl⟩
    · intro seg hseg
      cases hseg
    · intro seg hseg
      cases hseg
    · intro h
      cases h
  · obtain ⟨R, loc, hv⟩ := validated_requested hpath
    have hloc : loc = d := by
      have hnear := hv.nearest
      rw [nearestCanonical, hcanon] at hnear
      exact (Option.some.inj hnear).symm
    have hhead := trimStartSlashes_head (filenameSegments (path.getD ""))
    have hplain : ∀ seg ∈ trimStartSlashes (filenameSegments (path.getD "")),
        '/' ∉ seg.toList ∧ '\\' ∉ seg.toList := by
      intro seg hseg
      rcases mem_trimStartSlashes hseg with rfl | hseg
      · exact ⟨by decide, by decide⟩
      · exact mem_filenameSegments hseg
    have hnoDots := hv.noDots
    have hjoin := hv.path
    generalize trimStartSlashes (filenameSegments (path.getD "")) = segs at *
    have hne : segs ≠ [] := by
      rintro rfl
      rcases hhead with h | ⟨seg, rest, h, -⟩
      · cases h
      · cases h
    refine ⟨stemSegs segs, R, fun ys => ?_, fun seg hseg => hnoDots seg (mem_stemSegs hseg),
      fun seg hseg => hplain seg (mem_stemSegs hseg), ?_, hv.root, hcanon, hentry,
      hloc ▸ hv.inside⟩
    · rw [hjoin, join_join _ hne]
    · rcases hhead with rfl | ⟨seg, rest, rfl, hseg⟩
      · decide
      · intro hh
        unfold stemSegs at hh
        split_ifs at hh
        · cases rest with
          | nil => cases hh
          | cons seg' rest => exact hseg (Option.some.inj hh)
        · exact hseg (Option.some.inj hh)

theorem normal_of_shown (h : shown n = true) : startsWithDot n = false := by
  rw [shown, Bool.and_eq_true] at h
  simpa using h.1

theorem Located.noise_free (h : Located s t dirPath rel R d) (hn : LegalName n)
    (hshown : shown n = true) :
    ((rel ++ [n]).dropWhile (Noise ·)).rdropWhile (Noise ·) = rel ++ [n] := by
  have hnoise : ∀ seg, seg ≠ "" → startsWithDot seg = false → ¬ Noise seg := by
    rintro seg hne hdot (h | rfl)
    · exact hne h
    · exact absurd hdot (by decide)
  have hlast := hnoise n hn.ne (normal_of_shown hshown)
  have hdrop : (rel ++ [n]).dropWhile (Noise ·) = rel ++ [n] := by
    cases hrel : rel with
    | nil => exact List.dropWhile_cons_of_neg (by simpa using hlast)
    | cons seg rest =>
        have hseg : seg ≠ "" := by
          rintro rfl
          exact h.head (by rw [hrel]; rfl)
        have hdot := h.noDots seg (by rw [hrel]; exact List.mem_cons_self)
        exact List.dropWhile_cons_of_neg (by simpa using hnoise seg hseg hdot)
  rw [hdrop]
  exact List.rdropWhile_concat_neg _ _ _ (by simpa using hlast)

/-- The path of an entry is the text of the names that lead to it. -/
theorem Located.relativePath_eq (h : Located s t dirPath rel R d) (hn : LegalName n)
    (hshown : shown n = true) :
    relativePath s.rootDir (dirPath.join [n])
      = String.ofList (("/".intercalate (rel ++ [n])).toList.map
          fun c => if c = '\\' then '/' else c) := by
  have hdot : "." ∉ rel ++ [n] := by
    rw [List.mem_append, List.mem_singleton, not_or]
    refine ⟨fun hmem => absurd (h.noDots _ hmem) (by decide), ?_⟩
    rintro rfl
    exact absurd (normal_of_shown hshown) (by decide)
  rw [relativePath, h.join, stripPrefix_join _ hdot, h.noise_free hn hshown]

theorem map_backslash {text : List Char} (h : '\\' ∉ text) :
    (text.map fun c => if c = '\\' then '/' else c) = text := by
  calc
    (text.map fun c => if c = '\\' then '/' else c) = text.map id := by
      apply List.map_congr_left
      intro c hc
      exact if_neg (fun heq : c = '\\' => h (heq ▸ hc))
    _ = text := List.map_id text

theorem Located.segments (h : Located s t dirPath rel R d) (hn : LegalName n)
    (hshown : shown n = true) (hback : '\\' ∉ n.toList) :
    filenameSegments (relativePath s.rootDir (dirPath.join [n])) = rel ++ [n] := by
  have hplain : ∀ seg ∈ rel ++ [n], '/' ∉ seg.toList ∧ '\\' ∉ seg.toList := by
    intro seg hseg
    rcases List.mem_append.mp hseg with hseg | hseg
    · exact h.plain seg hseg
    · rw [List.mem_singleton.mp hseg]
      exact ⟨hn.slash, hback⟩
  have htext : '\\' ∉ ("/".intercalate (rel ++ [n])).toList := by
    intro hmem
    rcases mem_intercalate hmem with heq | ⟨seg, hseg, hmem⟩
    · exact absurd heq (by decide)
    · exact (hplain seg hseg).2 hmem
  rw [h.relativePath_eq hn hshown, filenameSegments, map_backslash htext, String.toList_ofList,
    map_backslash htext, String.ofList_toList]
  exact splitSlash_intercalate (by simp) (fun seg hseg => (hplain seg hseg).1)

theorem Located.requested (h : Located s t dirPath rel R d) (hn : LegalName n)
    (hshown : shown n = true) (hback : '\\' ∉ n.toList) :
    trimStartSlashes (filenameSegments (relativePath s.rootDir (dirPath.join [n])))
      = rel ++ [n] := by
  rw [h.segments hn hshown hback, trimStartSlashes]
  cases hrel : rel with
  | nil =>
      rw [List.nil_append, List.dropWhile_cons_of_neg (by simpa using hn.ne)]
  | cons seg rest =>
      have hseg : seg ≠ "" := by
        rintro rfl
        exact h.head (by rw [hrel]; rfl)
      rw [List.cons_append, List.dropWhile_cons_of_neg (by simpa using hseg)]

/-- **The path of an entry leads back to it**, unless a backslash in its name has become a slash. -/
theorem Located.requestedPath_iff (h : Located s t dirPath rel R d) (hn : LegalName n)
    (hshown : shown n = true) :
    requestedPath s.rootDir (relativePath s.rootDir (dirPath.join [n])) = dirPath.join [n] ↔
      '\\' ∉ n.toList := by
  constructor
  · intro heq hback
    rw [h.join [n], requestedPath] at heq
    have hsegs := List.append_cancel_left (congrArg Path.segs heq)
    have hmem : n ∈ trimStartSlashes
        (filenameSegments (relativePath s.rootDir (dirPath.join [n]))) := by
      rw [h.join, hsegs]
      exact List.mem_append_right _ (List.mem_singleton_self n)
    rcases mem_trimStartSlashes hmem with hempty | hmem
    · exact hn.ne hempty
    · exact (mem_filenameSegments hmem).2 hback
  · intro hback
    rw [requestedPath, h.requested hn hshown hback, h.join]

theorem Located.join_lookup (h : Located s t dirPath rel R d) (hn : LegalName n) :
    ∃ k, ∀ follow, lookup s.env t follow (dirPath.join [n]) (dirPath.join [n]).comps
      = walk t follow k d [n] := by
  obtain ⟨hcomps, -, hnul⟩ := join_name dirPath hn.ne
  obtain ⟨-, k, hwalk⟩ := walk_of_canonicalize h.dir
  obtain ⟨m, hm⟩ := canonicalize_eq_ok.mp h.dir
  have hempty : ¬ (dirPath.join [n]).IsEmpty := by
    rintro ⟨-, hnil⟩
    rw [hcomps] at hnil
    simp at hnil
  have hstart : (dirPath.join [n]).start s.env.cwd = dirPath.start s.env.cwd := rfl
  refine ⟨k, fun follow => ?_⟩
  rw [lookup_eq (hnul (lookup_ok hm).1 hn.nul) hempty, hstart, hcomps,
    walk_append t follow (List.cons_ne_nil _ _), hwalk, andThen]

theorem Located.namesIn (h : Located s t dirPath rel R d) (hn : LegalName n)
    (hshown : shown n = true) : NamesIn s.env t (dirPath.join [n]) d n where
  dir := h.entry
  normal := normal_of_startsWithDot (normal_of_shown hshown)
  slash := (join_name dirPath hn.ne).2.1
  lookup_eq := h.join_lookup hn

theorem Located.canonicalize_eq (h : Located s t dirPath rel R d) (hn : LegalName n)
    (hshown : shown n = true) {e : Entry} (he : t.entry (d ++ [n]) = some e)
    (hplain : ∀ target, e ≠ .symlink target) :
    canonicalize s.env t (dirPath.join [n]) = .ok (d ++ [n]) := by
  have hnames := h.namesIn hn hshown
  obtain ⟨k, hk⟩ := hnames.lookup_eq
  rw [canonicalize_eq_ok]
  refine ⟨k, ?_⟩
  rw [fullComps_of_noSlash hnames.slash, hk true, walk_plain h.entry hnames.normal he hplain,
    walk_nil]

/-- **The path of an entry is accepted**, unless the entry is a link. -/
theorem Located.validate (h : Located s t dirPath rel R d) (hn : LegalName n)
    (hshown : shown n = true) (hback : '\\' ∉ n.toList) {e : Entry}
    (he : t.entry (d ++ [n]) = some e) :
    validateAndResolvePath s.env t s.rootDir (relativePath s.rootDir (dirPath.join [n])) =
      match e with
      | .symlink _ => .error (.tftp "Symlinks are not allowed")
      | _ => .ok (dirPath.join [n]) := by
  have hreq := h.requested hn hshown hback
  have hlstat := (h.namesIn hn hshown).symlinkMetadata_eq
  rw [he] at hlstat
  have hdots : ¬ ((filenameSegments (relativePath s.rootDir (dirPath.join [n]))).any
      fun seg => seg = ".." || startsWithDot seg) = true := by
    rw [h.segments hn hshown hback, Bool.not_eq_true, List.any_eq_false]
    intro seg hseg
    have hdot : startsWithDot seg = false := by
      rcases List.mem_append.mp hseg with hseg | hseg
      · exact h.noDots seg hseg
      · rw [List.mem_singleton.mp hseg]
        exact normal_of_shown hshown
    rw [Bool.or_eq_true, decide_eq_true_iff, not_or]
    refine ⟨?_, by rw [hdot]; exact Bool.false_ne_true⟩
    rintro rfl
    exact absurd hdot (by decide)
  unfold validateAndResolvePath
  dsimp only
  rw [if_neg hdots, hreq, ← h.join, rejectSymlink, hlstat]
  cases e with
  | symlink target => rfl
  | dir =>
      have hcanon := h.canonicalize_eq hn hshown he (by intro target ht; cases ht)
      simp only [h.root, nearestCanonical, hcanon]
      exact if_pos (h.inside.trans (List.prefix_append _ _))
  | file i =>
      have hcanon := h.canonicalize_eq hn hshown he (by intro target ht; cases ht)
      simp only [h.root, nearestCanonical, hcanon]
      exact if_pos (h.inside.trans (List.prefix_append _ _))

/-- Joined with a name, a path has that file name. -/
theorem fileName_join_shown (p : Path) (hn : LegalName n) (hshown : shown n = true) :
    (p.join [n]).fileName = some n := by
  have hdot := normal_of_startsWithDot (normal_of_shown hshown)
  have hone : names [n] = [] ++ [n] := names_cons_of_ne hn.ne []
  refine fileName_join p ?_ hdot.2 hone
  rw [List.mem_singleton]
  exact fun heq => hdot.1 heq.symm

theorem Located.path_ne (h : Located s t dirPath rel R d) (hn : LegalName n)
    (hshown : shown n = true) (hback : '\\' ∉ n.toList) :
    relativePath s.rootDir (dirPath.join [n]) ≠ "" := by
  intro hempty
  have hsegs := h.segments hn hshown hback
  rw [hempty] at hsegs
  have hlast : (rel ++ [n]).getLast? = some "" := by
    rw [← hsegs]
    decide
  rw [List.getLast?_concat] at hlast
  exact hn.ne (Option.some.inj hlast)

theorem Located.served (h : Located s t dirPath rel R d) (hn : LegalName n)
    (hshown : shown n = true) (hback : '\\' ∉ n.toList) (hentry : t.entry (d ++ [n]) ≠ none) :
    EntryServed s r t d (fileEntry s r t dirPath d n) := by
  have hne := h.path_ne hn hshown hback
  obtain ⟨e, he⟩ := Option.ne_none_iff_exists'.mp hentry
  have hvalid := h.validate hn hshown hback he
  have hlisted : listedDir s t (some (relativePath s.rootDir (dirPath.join [n])))
      = validateAndResolvePath s.env t s.rootDir (relativePath s.rootDir (dirPath.join [n])) :=
    if_neg hne
  unfold EntryServed
  show match t.entry (d ++ [n]) with
    | none => False
    | some .dir => _
    | some (.file i) => _
    | some (.symlink _) => _
  rw [he]
  cases e with
  | dir =>
      have hcanon := h.canonicalize_eq hn hshown he (by intro target ht; cases ht)
      exact ⟨by simp [fileEntry, he], _, hlisted.trans hvalid, readDir_eq_ok.mpr ⟨hcanon, he⟩⟩
  | file i =>
      have hcanon := h.canonicalize_eq hn hshown he (by intro target ht; cases ht)
      refine ⟨by simp [fileEntry, he], by simp [fileEntry, he, objectLen], dirPath.join [n],
        fileName_join_shown dirPath hn hshown, ?_⟩
      show downloadFile s r t (some (relativePath s.rootDir (dirPath.join [n]))) = _
      unfold downloadFile
      simp only [Option.getD_some, if_neg hne, hvalid, openRead, hcanon, readOpened, he]
  | symlink target =>
      refine ⟨by simp [fileEntry, he], fun order => ?_, ?_⟩
      · show listFiles s r t (some (relativePath s.rootDir (dirPath.join [n]))) order = _
        rw [listFiles, hlisted, hvalid]
        rfl
      · show downloadFile s r t (some (relativePath s.rootDir (dirPath.join [n]))) = _
        unfold downloadFile
        simp only [Option.getD_some, if_neg hne, hvalid]
        rfl

end Located

/-- The root with a file and a directory. -/
def browsedTree : Tree :=
  (emptyRoot.addFile ["srv", "tftp"] "a.txt").addDir ["srv", "tftp"] "d"

/-- Writes to `/srv/tftp` are disabled. -/
def browsedState : AppState where
  rootDir := ofString "/srv/tftp"
  writeConfig := ⟨false, false, []⟩
  glob := ⟨String, some, fun pattern text => pattern = text⟩
  env := ⟨[], 40⟩
  errorText := fun _ => "I/O error"

def plainSurroundings : Surroundings :=
  ⟨fun _ => "", fun _ => 0, fun _ => "application/octet-stream", fun _ => true⟩

end UsgTftp
