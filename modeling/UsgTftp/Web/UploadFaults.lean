import UsgTftp.Lib.FileFaults
import UsgTftp.Web.Uploads

set_option autoImplicit false

/-! # Uploads on a file system that fails

`upload_files` of `src/web/handlers.rs`, where any call of the file system may fail for no reason
the tree shows; only removing the temporary file succeeds whenever there is one. Without faults this
is `uploadFiles` (`uploadFilesFaulty_none`).

A field with a name adds one entry to one of the two lists. If it is one of `errors`, then the
field has at most made directories on the way to its destination: the temporary file is gone, and
every other object is as before (`LeftAsWas`).
-/

namespace UsgTftp

open Posix Posix.Path Reactive

/-! ## Faults -/

/-- The faults of `validate_and_resolve_path`, in `symlink_metadata` and in `canonicalize`, of the
root and of a path. -/
structure PathFaults where
  lstat : Option Errno
  root : Option Errno
  canonicalize : Path → Option Errno

/-- The faults of one field, in the order of the calls. Those of reading and writing its chunks are
in the chunks. -/
structure FieldFaults where
  path : PathFaults
  /-- `exists` cannot look at the destination, and takes it for absent. -/
  stat : Bool
  parents : Path → DirFaults
  create : Option Errno
  rename : Option Errno

def PathFaults.none : PathFaults := ⟨.none, .none, fun _ => .none⟩

def FieldFaults.none : FieldFaults := ⟨.none, false, fun _ => .none, .none, .none⟩

/-- A field with the faults it meets. -/
structure FaultyField where
  field : UploadField
  faults : FieldFaults

def FaultyField.relative (field : FaultyField) : String := field.field.fileName.getD ""

/-! ## The handler -/

def rejectSymlinkFaulty (fault : Option Errno) (env : Env) (t : Tree) (filePath : Path) :
    Except TftpError Unit :=
  match faulty fault (symlinkMetadata env t filePath) with
  | .ok (.symlink _) => .error (.tftp "Symlinks are not allowed")
  | .ok _ => .ok ()
  | .error .enoent => .ok ()
  | .error _ => .error (.tftp "Access denied")

def nearestCanonicalFaulty (faults : Path → Option Errno) (env : Env) (t : Tree)
    (filePath : Path) : Option Loc :=
  match faulty (faults filePath) (canonicalize env t filePath) with
  | .ok canonicalFile => some canonicalFile
  | .error _ =>
      filePath.parents.findSome? fun dir => (faulty (faults dir) (canonicalize env t dir)).toOption

def validateAndResolvePathFaulty (faults : PathFaults) (env : Env) (t : Tree) (rootDir : Path)
    (filename : String) : Except TftpError Path :=
  let segs := filenameSegments filename
  if segs.any fun seg => seg = ".." || startsWithDot seg then .error (.tftp "Invalid filename")
  else
    let filePath := rootDir.join (trimStartSlashes segs)
    match rejectSymlinkFaulty faults.lstat env t filePath with
    | .error e => .error e
    | .ok () =>
        match faulty faults.root (canonicalize env t rootDir) with
        | .error _ => .error (.tftp "Root directory error")
        | .ok canonicalRoot =>
            match nearestCanonicalFaulty faults.canonicalize env t filePath with
            | none => .error (.tftp "Access denied")
            | some loc =>
                if canonicalRoot <+: loc then .ok filePath else .error (.tftp "Access denied")

def uploadTargetFaulty (faults : FieldFaults) (s : AppState) (t : Tree)
    (targetDir relative : String) : Except String Path :=
  match validateAndResolvePathFaulty faults.path s.env t s.rootDir
      (fullRelative targetDir relative) with
  | .error e => .error e.display
  | .ok dest =>
      if s.writeConfig.allowedPatterns ≠ [] ∧
          isWriteAllowed s.glob dest s.rootDir s.writeConfig = false then
        .error "not in allowed write patterns"
      else if (pathExists s.env t dest ∧ faults.stat = false) ∧
          s.writeConfig.allowOverwrite = false then
        .error "file exists and overwrite is disabled"
      else .ok dest

def createParentsFaulty (faults : Path → DirFaults) (env : Env) (t : Tree) (filePath : Path) :
    Tree × Except Errno Unit :=
  match filePath.parents with
  | [] => (t, .ok ())
  | parents => createDirAllFaulty faults env t parents

/-- The temporary file is created, written and renamed. -/
def storeFieldFaulty (s : AppState) (t : Tree) (dest : Path) (field : FaultyField) :
    Tree × Except String Unit :=
  let tmpPath := dest.withFileName (tempName field.field.uuid)
  match faulty field.faults.create (create s.env t tmpPath) with
  | .error e => (t, .error (s.errorText e))
  | .ok (t₁, _, inode) =>
      match writeChunks s.errorText inode t₁ field.field.chunks with
      | (t₂, .error message) => (removeTemp s.env t₂ tmpPath, .error message)
      | (t₂, .ok ()) =>
          match faulty field.faults.rename (rename s.env t₂ tmpPath dest) with
          | .error e => (removeTemp s.env t₂ tmpPath, .error (s.errorText e))
          | .ok t₃ => (t₃, .ok ())

/-- One turn of the loop over the fields. -/
def uploadFieldFaulty (s : AppState) (targetDir : String) (st : UploadState)
    (field : FaultyField) : UploadState :=
  if field.relative = "" then st
  else
    match uploadTargetFaulty field.faults s st.tree targetDir field.relative with
    | .error message => st.fail field.relative message
    | .ok dest =>
        match createParentsFaulty field.faults.parents s.env st.tree dest with
        | (t, .error e) => { st with tree := t }.fail field.relative (s.errorText e)
        | (t, .ok ()) =>
            match storeFieldFaulty s t dest field with
            | (t', .error message) => { st with tree := t' }.fail field.relative message
            | (t', .ok ()) =>
                { st with
                  tree := t', uploaded := st.uploaded ++ [fullRelative targetDir field.relative] }

def uploadFilesFaulty (s : AppState) (t : Tree) (path : Option String)
    (fields : List FaultyField) (readError : Option String) : Tree × Response :=
  match requireWrite s with
  | .error response => (t, response)
  | .ok () =>
      let st := fields.foldl (uploadFieldFaulty s (path.getD "")) ⟨t, [], []⟩
      let errors := st.errors ++ (readError.map ("Multipart read error: " ++ ·)).toList
      (st.tree, .uploadResult (uploadStatus st.uploaded errors) st.uploaded errors)

/-! ## Without faults -/

section NoFaults

variable (s : AppState) (t : Tree)

theorem validateAndResolvePathFaulty_none (env : Env) (rootDir : Path) (filename : String) :
    validateAndResolvePathFaulty .none env t rootDir filename
      = validateAndResolvePath env t rootDir filename := rfl

theorem uploadTargetFaulty_none (targetDir relative : String) :
    uploadTargetFaulty .none s t targetDir relative = uploadTarget s t targetDir relative := by
  unfold uploadTargetFaulty uploadTarget
  cases hpath : validateAndResolvePath s.env t s.rootDir (fullRelative targetDir relative) with
  | error e => simp only [FieldFaults.none, validateAndResolvePathFaulty_none, hpath]
  | ok dest => simp only [FieldFaults.none, validateAndResolvePathFaulty_none, hpath, and_true]

theorem createParentsFaulty_none (env : Env) (p : Path) :
    createParentsFaulty (fun _ => .none) env t p = createParents env t p := by
  unfold createParentsFaulty createParents
  cases p.parents with
  | nil => rfl
  | cons q qs => exact createDirAllFaulty_none env t (q :: qs)

theorem storeFieldFaulty_none (dest : Path) (field : UploadField) :
    storeFieldFaulty s t dest ⟨field, .none⟩ = storeField s t dest field := by
  unfold storeFieldFaulty storeField
  cases hcreate : create s.env t (dest.withFileName (tempName field.uuid)) with
  | error e => simp only [FieldFaults.none, faulty_none, hcreate]
  | ok r =>
      cases hwrite : writeChunks s.errorText r.2.2 r.1 field.chunks with
      | mk t₂ result =>
          cases result with
          | error message => simp only [FieldFaults.none, faulty_none, hcreate, hwrite]
          | ok u =>
              cases hrename : rename s.env t₂ (dest.withFileName (tempName field.uuid)) dest with
              | error e => simp only [FieldFaults.none, faulty_none, hcreate, hwrite, hrename]
              | ok t₃ => simp only [FieldFaults.none, faulty_none, hcreate, hwrite, hrename]

theorem uploadFieldFaulty_none (targetDir : String) (st : UploadState) (field : UploadField) :
    uploadFieldFaulty s targetDir st ⟨field, .none⟩ = uploadField s targetDir st field := by
  have hnone : FieldFaults.none.parents = fun _ => DirFaults.none := rfl
  unfold uploadFieldFaulty uploadField
  cases htarget : uploadTarget s st.tree targetDir (field.fileName.getD "") with
  | error message => simp only [FaultyField.relative, uploadTargetFaulty_none, htarget]
  | ok dest =>
      cases hparents : createParents s.env st.tree dest with
      | mk t made =>
          cases made with
          | error e =>
              simp only [FaultyField.relative, uploadTargetFaulty_none, htarget, hnone,
                createParentsFaulty_none, hparents]
          | ok u =>
              cases hstore : storeField s t dest field with
              | mk t' stored =>
                  cases stored with
                  | error message =>
                      simp only [FaultyField.relative, uploadTargetFaulty_none, htarget, hnone,
                        createParentsFaulty_none, hparents, storeFieldFaulty_none, hstore]
                  | ok u =>
                      simp only [FaultyField.relative, uploadTargetFaulty_none, htarget, hnone,
                        createParentsFaulty_none, hparents, storeFieldFaulty_none, hstore]

/-- **Without faults** this is the upload as it was. -/
theorem uploadFilesFaulty_none (path : Option String) (fields : List UploadField)
    (readError : Option String) :
    uploadFilesFaulty s t path (fields.map (⟨·, .none⟩)) readError
      = uploadFiles s t path fields readError := by
  unfold uploadFilesFaulty uploadFiles
  cases requireWrite s with
  | error response => rfl
  | ok u => simp only [List.foldl_map, uploadFieldFaulty_none]

end NoFaults

/-! ## Accepted destinations -/

/-- What is known of a path that was accepted, whatever failed. -/
structure UnderRoot (env : Env) (t : Tree) (rootDir p : Path) (rel : List String) (R : Loc) :
    Prop where
  path : p = rootDir.join rel
  noDots : ∀ s ∈ rel, startsWithDot s = false
  root : canonicalize env t rootDir = .ok R

theorem uploadTargetFaulty_eq_ok {s : AppState} {t : Tree} {faults : FieldFaults} {dest : Path}
    {targetDir relative : String}
    (h : uploadTargetFaulty faults s t targetDir relative = .ok dest) :
    ∃ R, UnderRoot s.env t s.rootDir dest
      (trimStartSlashes (filenameSegments (fullRelative targetDir relative))) R := by
  unfold uploadTargetFaulty at h
  cases hvalid : validateAndResolvePathFaulty faults.path s.env t s.rootDir
      (fullRelative targetDir relative) with
  | error e =>
      rw [hvalid] at h
      cases h
  | ok p =>
      rw [hvalid] at h
      simp only at h
      split_ifs at h
      cases h
      unfold validateAndResolvePathFaulty at hvalid
      simp only at hvalid
      split_ifs at hvalid with hdots
      split at hvalid
      · cases hvalid
      · split at hvalid
        · cases hvalid
        · rename_i R hroot
          split at hvalid
          · cases hvalid
          · split_ifs at hvalid
            cases hvalid
            exact ⟨R, rfl, noDots_trimStartSlashes hdots, (faulty_eq_ok.mp hroot).2⟩

/-! ## The parents -/

/-- What making some of the parents of `dest` does. -/
structure ParentsOnly (env : Env) (t t' : Tree) (dest : Path) : Prop where
  extends_ : Extends t t'
  dirs : ∀ l, t'.entry l ≠ t.entry l → t'.entry l = some .dir
  names : ∀ uuid d, t'.entry (d ++ [tempName uuid]) = t.entry (d ++ [tempName uuid])
  content : t'.content = t.content
  nextInode : t'.nextInode = t.nextInode
  dest : contentOf env t' dest = contentOf env t dest

theorem ParentsOnly.refl (env : Env) (t : Tree) (dest : Path) : ParentsOnly env t t dest :=
  ⟨fun _ _ => rfl, fun _ h => absurd rfl h, fun _ _ => rfl, rfl, rfl, rfl⟩

section Parents

variable {env : Env} {t t₁ t₂ : Tree} {rootDir dest q : Path} {rel : List String} {R : Loc}

/-- A parent that names nothing lies below the root, for what leads to the root is there. -/
theorem UnderRoot.parent_below (h : UnderRoot env t rootDir dest rel R) {tail : List String}
    (hroot : ∃ k, walk t₁ true env.maxSymlinks (q.start env.cwd) rootDir.comps
      = .ok (.found R, k))
    (hlost : ∀ l k, walk t₁ true env.maxSymlinks (q.start env.cwd) q.comps ≠ .ok (.found l, k))
    (hsplit : dest.comps = q.comps ++ tail) :
    ∃ ms, ms ≠ [] ∧ q.comps = rootDir.comps ++ ms ∧ names rel = ms ++ tail := by
  have hcomps : q.comps ++ tail = rootDir.comps ++ names rel := by
    rw [← hsplit, h.path, comps_join]
  obtain ⟨k, hk⟩ := hroot
  rcases List.append_eq_append_iff.mp hcomps with ⟨zs, hzs, -⟩ | ⟨ms, hms, hrel⟩
  · exfalso
    rw [hzs] at hk
    by_cases hnil : zs = []
    · rw [hnil, List.append_nil] at hk
      exact hlost _ _ hk
    · obtain ⟨l', k', hk', -, -⟩ := walk_prefix hnil hk
      exact hlost _ _ hk'
  · refine ⟨ms, ?_, hms, hrel⟩
    rintro rfl
    rw [List.append_nil] at hms
    rw [← hms] at hk
    exact hlost _ _ hk

/-- **One parent.** A directory that is made has no name of a temporary file. -/
theorem UnderRoot.mkdir_parent (h : UnderRoot env t rootDir dest rel R) (hq : q ∈ dest.parents)
    (hinv : ParentsOnly env t t₁ dest) (hmkdir : mkdir env t₁ q = .ok t₂) :
    ParentsOnly env t t₂ dest := by
  obtain ⟨habs, -, tail, htail, hsplit⟩ := mem_parents hq
  obtain ⟨d, n, m, hl, heq⟩ := mkdir_eq_ok.mp hmkdir
  obtain ⟨hnul, hempty⟩ := lookup_ok hl
  rw [lookup_eq hnul hempty] at hl
  obtain ⟨hdir, hnone⟩ := walk_eq_absent t₁ false _ _ _ _ _ _ hl
  have hstart : q.start env.cwd = rootDir.start env.cwd := by
    rw [Path.start, habs, ← Path.start, h.path]
    rfl
  have hroot : ∃ k, walk t₁ true env.maxSymlinks (q.start env.cwd) rootDir.comps
      = .ok (.found R, k) := by
    obtain ⟨-, k, hk⟩ := walk_of_canonicalize h.root
    exact ⟨k, by rw [hstart, walk_extends hinv.extends_ true _ _ _ _ _ hk]⟩
  have hlost : ∀ l k, walk t₁ true env.maxSymlinks (q.start env.cwd) q.comps
      ≠ .ok (.found l, k) := by
    intro l k hk
    obtain ⟨l', k', hk'⟩ := walk_nofollow_found t₁ _ _ _ _ _ hk
    rw [hl] at hk'
    cases hk'
  obtain ⟨ms, hms, hqcomps, hrel⟩ := h.parent_below hroot hlost hsplit
  have hdots : ∀ c ∈ ms ++ tail, startsWithDot c = false := by
    intro c hc
    rw [← hrel] at hc
    exact h.noDots c (List.mem_filter.mp hc).1
  have hlast : startsWithDot n = false := by
    have hn := getLast_of_absent t₁ _ _ _ _ _ _ hl
    rw [hqcomps, List.getLast?_append_of_ne_nil _ hms] at hn
    exact hdots n (List.mem_append_left _ (List.mem_of_getLast? hn))
  have hcontent := Posix.mkdir_parent habs hsplit htail
    (fun c hc => normal_of_startsWithDot (hdots c (List.mem_append_right _ hc))) hmkdir
  subst heq
  refine ⟨?_, fun l hne => ?_, fun uuid l => ?_, ?_, ?_, ?_⟩
  · intro l hl'
    have hkept := hinv.extends_ l hl'
    rw [← hkept]
    exact Tree.extends_addDir t₁ d n l (by rwa [hkept])
  · by_cases hl' : l = d ++ [n]
    · rw [hl', Tree.addDir_entry hdir hnone]
    · rw [Tree.addDir_entry_of_ne hl'] at hne ⊢
      exact hinv.dirs l hne
  · rw [Tree.addDir_entry_of_ne, hinv.names]
    intro heq
    have hname : tempName uuid = n := by
      simpa using congrArg List.getLast? heq
    rw [← hname, startsWithDot, head_tempName] at hlast
    exact absurd hlast (by decide)
  · rw [Tree.addDir_content, hinv.content]
  · rw [Tree.addDir_nextInode, hinv.nextInode]
  · rw [hcontent.2, ← hinv.dest, hcontent.1]

/-- **The parents**, whatever fails. -/
theorem UnderRoot.parentsOnly (h : UnderRoot env t rootDir dest rel R)
    (faults : Path → DirFaults) :
    ParentsOnly env t (createParentsFaulty faults env t dest).1 dest := by
  have hall : ParentsOnly env t (createDirAllFaulty faults env t dest.parents).1 dest :=
    @createDirAllFaulty_invariant env (fun t' => ParentsOnly env t t' dest) faults dest.parents
      (fun q hq t₁ t₂ hinv hm => h.mkdir_parent hq hinv hm) t (.refl env t dest)
  unfold createParentsFaulty
  split
  · exact .refl env t dest
  · exact hall

end Parents

/-! ## The temporary file -/

section Store

variable {s : AppState} {t : Tree} {dest : Path} {field : FaultyField}

/-- **The temporary file is gone** if the field fails after its parents were made. -/
theorem storeFieldFaulty_error (hnew : NewUuid t field.field.uuid) {message : String}
    (h : (storeFieldFaulty s t dest field).2 = .error message) :
    SameObjects t (storeFieldFaulty s t dest field).1 := by
  unfold storeFieldFaulty at h ⊢
  simp only at h ⊢
  cases hcreate : faulty field.faults.create
      (create s.env t (dest.withFileName (tempName field.field.uuid))) with
  | error e => exact SameObjects.refl t
  | ok r =>
      obtain ⟨t₁, loc, inode⟩ := r
      rw [hcreate] at h
      simp only at h ⊢
      have hcreated := (faulty_eq_ok.mp hcreate).2
      obtain ⟨hadd, m, hl⟩ := create_of_free (freeName_of_newUuid hnew) hcreated
      have hslash := (create_eq_ok hcreated).1
      obtain ⟨hentry, -, hcontent⟩ := @writeChunks_tree s.errorText inode field.field.chunks t₁
      generalize writeChunks s.errorText inode t₁ field.field.chunks = wrote at h hentry hcontent ⊢
      obtain ⟨t₂, result⟩ := wrote
      have hremoved := removeTemp_same hadd hslash hl hentry hcontent
      cases result with
      | error message' => exact hremoved
      | ok u =>
          simp only at h ⊢
          cases hrename : faulty field.faults.rename
              (rename s.env t₂ (dest.withFileName (tempName field.field.uuid)) dest) with
          | error e => exact hremoved
          | ok t₃ =>
              rw [hrename] at h
              cases h

theorem contentOf_same {t' : Tree} (h : SameObjects t t') (env : Env) (p : Path) :
    contentOf env t' p = contentOf env t p := by
  have hcanon : canonicalize env t' p = canonicalize env t p := by
    rw [canonicalize, lookup_congr h.entry, canonicalize]
  rw [contentOf, contentOf, hcanon, h.entry]
  split
  · rfl
  · split
    · rename_i i he
      rw [h.content i (t.inode_lt _ i he)]
    · rfl

end Store

/-! ## What a field leaves -/

/-- **What a field that ends in errors leaves**: the content of its destination is as before, no
temporary file has its name, and all objects are as before, apart from new directories. -/
structure LeftAsWas (env : Env) (t t' : Tree) (dest : Path) (uuid : String) : Prop where
  dest : contentOf env t' dest = contentOf env t dest
  noTemp : ∀ d, t'.entry (d ++ [tempName uuid]) = none
  entry : ∀ l, t'.entry l ≠ t.entry l → t.entry l = none ∧ t'.entry l = some .dir
  content : ∀ l i, t.entry l = some (.file i) → t'.content i = t.content i

/-- **What becomes of a field**: it adds one entry to one of the lists, unless it has no name. -/
inductive Accounted (s : AppState) (targetDir : String) (st st' : UploadState)
    (field : FaultyField) : Prop
  | nameless (hname : field.relative = "") (same : st' = st)
  | uploaded (hname : field.relative ≠ "")
      (uploaded : st'.uploaded = st.uploaded ++ [fullRelative targetDir field.relative])
      (errors : st'.errors = st.errors)
  | failed (hname : field.relative ≠ "") (message : String)
      (uploaded : st'.uploaded = st.uploaded)
      (errors : st'.errors = st.errors ++ [field.relative ++ ": " ++ message])
      (left : LeftAsWas s.env st.tree st'.tree
        (requestedPath s.rootDir (fullRelative targetDir field.relative)) field.field.uuid)

section Field

variable {s : AppState} {targetDir : String} {st : UploadState} {field : FaultyField}

theorem ParentsOnly.leftAsWas {env : Env} {t t₁ t₂ : Tree} {dest : Path} {uuid : String}
    (h : ParentsOnly env t t₁ dest) (hsame : SameObjects t₁ t₂) (hnew : NewUuid t uuid) :
    LeftAsWas env t t₂ dest uuid where
  dest := by rw [contentOf_same hsame, h.dest]
  noTemp := fun d => by rw [hsame.entry, h.names, hnew.1]
  entry := by
    intro l hl
    rw [hsame.entry] at hl ⊢
    refine ⟨?_, h.dirs l hl⟩
    by_contra hsome
    exact hl (h.extends_ l hsome)
  content := by
    intro l i hi
    rw [hsame.content i (by rw [h.nextInode]; exact t.inode_lt l i hi), h.content]

/-- **The step**, for every way in which the field can fail. -/
theorem uploadFieldFaulty_accounted
    (hnew : field.relative ≠ "" → NewUuid st.tree field.field.uuid) :
    Accounted s targetDir st (uploadFieldFaulty s targetDir st field) field := by
  unfold uploadFieldFaulty
  by_cases hname : field.relative = ""
  · rw [if_pos hname]
    exact .nameless hname rfl
  rw [if_neg hname]
  have hnew := hnew hname
  cases htarget : uploadTargetFaulty field.faults s st.tree targetDir field.relative with
  | error message =>
      exact .failed hname message rfl rfl
        ((ParentsOnly.refl s.env st.tree _).leftAsWas (.refl st.tree) hnew)
  | ok dest =>
      obtain ⟨R, hroot⟩ := uploadTargetFaulty_eq_ok htarget
      have hparents := hroot.parentsOnly field.faults.parents
      have hdest : dest = requestedPath s.rootDir (fullRelative targetDir field.relative) :=
        hroot.path
      simp only
      generalize createParentsFaulty field.faults.parents s.env st.tree dest = made at hparents ⊢
      obtain ⟨t₁, result⟩ := made
      cases result with
      | error e =>
          exact .failed hname (s.errorText e) rfl rfl
            (hdest ▸ hparents.leftAsWas (.refl t₁) hnew)
      | ok u =>
          have hnew₁ : NewUuid t₁ field.field.uuid :=
            ⟨fun d => by rw [hparents.names, hnew.1], hnew.2⟩
          have hstore := @storeFieldFaulty_error s t₁ dest field hnew₁
          simp only
          generalize storeFieldFaulty s t₁ dest field = stored at hstore ⊢
          obtain ⟨t₂, result⟩ := stored
          cases result with
          | error message =>
              exact .failed hname message rfl rfl (hdest ▸ hparents.leftAsWas (hstore rfl) hnew)
          | ok u => exact .uploaded hname rfl rfl

/-- The number of entries grows by one for each field with a name. -/
theorem Accounted.length {st' : UploadState} (h : Accounted s targetDir st st' field) :
    st'.uploaded.length + st'.errors.length
      = st.uploaded.length + st.errors.length + if field.relative = "" then 0 else 1 := by
  cases h with
  | nameless hname same => rw [same, if_pos hname, Nat.add_zero]
  | uploaded hname uploaded errors =>
      rw [uploaded, errors, if_neg hname, List.length_append, List.length_singleton]
      omega
  | failed hname message uploaded errors left =>
      rw [uploaded, errors, if_neg hname, List.length_append, List.length_singleton]
      omega

end Field

/-! ## The whole request -/

section Request

variable {s : AppState} {targetDir : String}

/-- Every UUID is new when the field that draws it is handled. -/
def DrawNewUuids (s : AppState) (targetDir : String) (st : UploadState)
    (fields : List FaultyField) : Prop :=
  Along (uploadFieldFaulty s targetDir)
    (fun st field => field.relative ≠ "" → NewUuid st.tree field.field.uuid) st fields

/-- **The run**: every field is accounted for. -/
theorem uploadFieldsFaulty_accounted {fields : List FaultyField} {st : UploadState}
    (hnew : DrawNewUuids s targetDir st fields) :
    Along (uploadFieldFaulty s targetDir)
      (fun st field => Accounted s targetDir st (uploadFieldFaulty s targetDir st field) field)
      st fields :=
  @along_of_invariant _ _ _ (fun _ => True) _ _
    (fun _ _ _ h => ⟨trivial, uploadFieldFaulty_accounted h⟩) fields st trivial hnew

/-- The lists have an entry for each field with a name. -/
theorem uploadFieldsFaulty_length : ∀ (fields : List FaultyField) (st : UploadState),
    Along (uploadFieldFaulty s targetDir)
      (fun st field => Accounted s targetDir st (uploadFieldFaulty s targetDir st field) field)
      st fields →
    (fields.foldl (uploadFieldFaulty s targetDir) st).uploaded.length
      + (fields.foldl (uploadFieldFaulty s targetDir) st).errors.length
      = st.uploaded.length + st.errors.length + fields.countP (·.relative ≠ "") := by
  intro fields
  induction fields with
  | nil => intro st _; rfl
  | cons field fields ih =>
      rintro st ⟨hfield, hrest⟩
      rw [List.foldl_cons, ih _ hrest, hfield.length, List.countP_cons]
      by_cases hname : field.relative = ""
      · simp [hname]
      · simp [hname]
        omega

/-- **Uploads account for their fields**, whatever fails. Each field with a name adds one entry to
one list; one that ends in `errors` leaves the tree as it was, apart from directories on the way to
its destination. The status says which of the lists that are sent are empty. -/
theorem upload_accounted (s : AppState) (t : Tree) (path : Option String)
    (fields : List FaultyField) (readError : Option String)
    (hnew : DrawNewUuids s (path.getD "") ⟨t, [], []⟩ fields) :
    (s.writeConfig.enabled = false → uploadFilesFaulty s t path fields readError
      = (t, .apiError .forbidden "Write operations are disabled")) ∧
    (s.writeConfig.enabled = true →
      ∃ st errors code,
        fields.foldl (uploadFieldFaulty s (path.getD "")) ⟨t, [], []⟩ = st ∧
        Along (uploadFieldFaulty s (path.getD ""))
          (fun st field => Accounted s (path.getD "") st
            (uploadFieldFaulty s (path.getD "") st field) field) ⟨t, [], []⟩ fields ∧
        st.uploaded.length + st.errors.length = fields.countP (·.relative ≠ "") ∧
        errors = st.errors ++ (readError.map ("Multipart read error: " ++ ·)).toList ∧
        uploadFilesFaulty s t path fields readError
          = (st.tree, .uploadResult code st.uploaded errors) ∧
        (errors = [] → code = .created) ∧
        (errors ≠ [] → st.uploaded = [] → code = .badRequest) ∧
        (errors ≠ [] → st.uploaded ≠ [] → code = .multiStatus)) := by
  have haccounted := uploadFieldsFaulty_accounted hnew
  have hlength := uploadFieldsFaulty_length fields _ haccounted
  constructor
  · intro hdisabled
    rw [uploadFilesFaulty, requireWrite, if_neg (by rw [hdisabled]; exact Bool.false_ne_true)]
  · intro henabled
    rw [List.length_nil, Nat.zero_add] at hlength
    generalize hst : fields.foldl (uploadFieldFaulty s (path.getD "")) ⟨t, [], []⟩ = st at hlength
    generalize herr : st.errors ++ (readError.map ("Multipart read error: " ++ ·)).toList = errors
    refine ⟨st, errors, uploadStatus st.uploaded errors, rfl, haccounted, hlength, herr.symm, ?_,
      ?_, ?_, ?_⟩
    · rw [uploadFilesFaulty, requireWrite, if_pos henabled]
      simp only [hst, herr]
    · intro herrors
      rw [uploadStatus, if_pos herrors]
    · intro herrors huploaded
      rw [uploadStatus, if_neg herrors, if_pos huploaded]
    · intro herrors huploaded
      rw [uploadStatus, if_neg herrors, if_neg huploaded]

/-- Two files, the first of which cannot be renamed. -/
def faultyUpload : List FaultyField :=
  [⟨⟨some "a.txt", [.written [97]], "1"⟩, { FieldFaults.none with rename := some .other }⟩,
    ⟨⟨some "d/b.txt", [.written [98]], "2"⟩, .none⟩]

/-- One of the two is reported as an error. -/
theorem upload_accounted_faultyUpload :
    DrawNewUuids (plainState []) "" ⟨emptyRoot, [], []⟩ faultyUpload ∧
    (plainState []).writeConfig.enabled = true ∧
    (uploadFilesFaulty (plainState []) emptyRoot none faultyUpload none).2
      = .uploadResult .multiStatus ["d/b.txt"] ["a.txt: I/O error"] ∧
    ∃ st, faultyUpload.foldl (uploadFieldFaulty (plainState []) "") ⟨emptyRoot, [], []⟩ = st ∧
      st.uploaded.length + st.errors.length = 2 :=
  have hnew : DrawNewUuids (plainState []) "" ⟨emptyRoot, [], []⟩ faultyUpload :=
    ⟨fun _ => newUuid_of_support (by decide +kernel) (by decide +kernel),
      fun _ => newUuid_of_support (by decide +kernel) (by decide +kernel), trivial⟩
  have ⟨st, _, _, hrun, _, hlength, _⟩ :=
    (upload_accounted (plainState []) emptyRoot none faultyUpload none hnew).2 rfl
  ⟨hnew, rfl, by decide +kernel, st, hrun, hlength⟩

end Request

end UsgTftp
