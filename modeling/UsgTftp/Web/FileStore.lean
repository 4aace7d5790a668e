import UsgTftp.Lib.FileMoves
import UsgTftp.Lib.PrefixStore
import UsgTftp.Server.Tasks
import UsgTftp.Web.Browse
import UsgTftp.Web.Contents
import UsgTftp.WriteInside

set_option autoImplicit false

/-! # The web program as a store of files

To its readers the tree is a store: some locations have a file, with its content (`stored`). The
requests of the web program act on it as the operations of `Lib/PrefixStore.lean`. A field that is
listed as uploaded puts its chunks at one place, a deletion removes a place with all below it, and
nothing else that a request does can be read (`stored_handle`). What was uploaded is what is read,
over the web or by TFTP (`uploaded_file_served`).
-/

namespace UsgTftp

open Posix Posix.Path Reactive PrefixStore

/-- The files of a tree, with their content. -/
def stored (t : Tree) : Store String Bytes := fun l =>
  match t.entry l with
  | some (.file i) => some (t.content i)
  | _ => none

abbrev FileOp := Op String Bytes

/-! ## Paths that lead to files -/

/-- The path leads to a file. -/
structure LeadsToFile (env : Env) (t : Tree) (p : Path) (place : Loc) : Prop where
  slash : p.trailingSlash = false
  named : ∃ m, lookup env t false p p.comps = .ok (.found place, m)
  file : ∃ i, t.entry place = some (.file i)

section LeadsToFile

variable {env : Env} {t t' : Tree} {rootDir p : Path} {place : Loc}

theorem LeadsToFile.lookup_fullComps (h : LeadsToFile env t p place) :
    ∃ m, lookup env t false p p.fullComps = .ok (.found place, m) := by
  rw [fullComps_of_noSlash h.slash]
  exact h.named

theorem LeadsToFile.canonicalize_eq (h : LeadsToFile env t p place) :
    canonicalize env t p = .ok place := by
  obtain ⟨m, hm⟩ := h.named
  obtain ⟨i, he⟩ := h.file
  obtain ⟨hnul, hempty⟩ := lookup_ok hm
  rw [lookup_eq hnul hempty] at hm
  have hfollow := walk_follow t _ _ _ _ hm (by
    intro l k target hl hlink
    cases hl
    rw [he] at hlink
    cases hlink)
  rw [canonicalize_eq_ok]
  exact ⟨m, by rw [fullComps_of_noSlash h.slash, lookup_eq hnul hempty, hfollow]⟩

/-- The name of a file below the root is accepted, if it was accepted before the file was there. -/
theorem LeadsToFile.validate (h : LeadsToFile env t' p place)
    (hkeeps : ∀ l e, t.entry l = some e → (∀ i, e ≠ .file i) → t'.entry l = some e)
    {filename : String} (hvalid : validateAndResolvePath env t rootDir filename = .ok p)
    {R loc : Loc}
    (hv : Validated env t rootDir p (trimStartSlashes (filenameSegments filename)) R loc)
    (hinside : R <+: place) : validateAndResolvePath env t' rootDir filename = .ok p := by
  have hlink : rejectSymlink env t' p = .ok () := by
    obtain ⟨m, hm⟩ := h.lookup_fullComps
    obtain ⟨i, he⟩ := h.file
    rw [rejectSymlink, symlinkMetadata, hm]
    simp only [he]
  have hroot : canonicalize env t' rootDir = .ok R := by
    obtain ⟨m, hm⟩ := canonicalize_eq_ok.mp hv.root
    obtain ⟨hnul, hempty⟩ := lookup_ok hm
    rw [lookup_eq hnul hempty] at hm
    refine canonicalize_eq_ok.mpr ⟨m, ?_⟩
    rw [lookup_eq hnul hempty]
    refine walk_kept hkeeps true _ _ _ _ _ hm ?_
    rw [hv.root_dir, hkeeps _ _ hv.root_dir (by intro i hi; cases hi)]
  have hnear : nearestCanonical env t' p = some place := by
    rw [nearestCanonical, h.canonicalize_eq]
  unfold validateAndResolvePath at hvalid ⊢
  dsimp only at hvalid ⊢
  split_ifs at hvalid ⊢ with hdots
  rw [← hv.path, hlink, hroot]
  dsimp only
  rw [hnear]
  exact if_pos hinside

end LeadsToFile

/-! ## The operations of a request -/

/-- The location that the path of a request leads to. -/
def namedPlace (s : AppState) (t : Tree) (filename : String) : Option Loc :=
  (canonicalize s.env t (requestPath s filename)).toOption

/-- A field that is listed puts its bytes where its name leads afterwards. -/
def fieldOps (s : AppState) (targetDir : String) (st : UploadState) (field : UploadField) :
    List FileOp :=
  let st' := uploadField s targetDir st field
  if st'.uploaded = st.uploaded then []
  else
    match namedPlace s st'.tree (fullRelative targetDir (field.fileName.getD "")) with
    | some place => [.put place field.bytes]
    | none => []

def fieldsOps (s : AppState) (targetDir : String) : UploadState → List UploadField → List FileOp
  | _, [] => []
  | st, field :: rest =>
      fieldOps s targetDir st field ++ fieldsOps s targetDir (uploadField s targetDir st field) rest

/-- A deletion that is accepted removes what its path leads to. -/
def deleteOps (s : AppState) (t : Tree) (path confirm : Option String) : List FileOp :=
  match deleteTarget s t path confirm with
  | .error _ => []
  | .ok filePath =>
      match canonicalize s.env t filePath with
      | .error _ => []
      | .ok place => [.remove place]

def WebRequest.ops (s : AppState) (t : Tree) : WebRequest → List FileOp
  | .upload path fields _ =>
      fieldsOps s (path.getD "") ⟨t, [], []⟩ (handledFields s fields)
  | .delete path confirm => deleteOps s t path confirm
  | .mkdir _ => []

/-! ## Steps that cannot be read -/

section Stored

variable {s : AppState} {t t' : Tree}

theorem stored_eq_of_not_changed {l : Loc} (h : ¬ Changed t t' l) : stored t' l = stored t l := by
  rw [Changed, not_or] at h
  have hentry : t'.entry l = t.entry l := not_not.mp h.1
  unfold stored
  rw [hentry]
  cases he : t.entry l with
  | none => rfl
  | some e =>
      cases e with
      | file i =>
          have hcontent : t'.content i = t.content i := by
            by_contra hne
            exact h.2 ⟨i, he, hne⟩
          show some (t'.content i) = some (t.content i)
          rw [hcontent]
      | dir => rfl
      | symlink target => rfl

theorem SameObjects.stored_eq (h : SameObjects t t') : stored t' = stored t :=
  funext fun l => stored_eq_of_not_changed (h.not_changed l)

theorem stored_of_not_file {l : Loc} (h : ∀ i, t.entry l ≠ some (.file i)) : stored t l = none := by
  unfold stored
  split
  · rename_i i he
    exact absurd he (h i)
  · rfl

theorem stored_below {l k : Loc} {e : Entry} (he : t.entry l = some e) (hdir : e ≠ .dir)
    (hp : l <+: k) (hne : l ≠ k) : stored t k = none := by
  apply stored_of_not_file
  intro i hi
  rw [Tree.entry_below_file he hdir hp hne] at hi
  cases hi

/-- **Making directories** cannot be read. -/
theorem stored_createDirAll (env : Env) (ps : List Path) (t : Tree) :
    stored (createDirAll env t ps).1 = stored t := by
  have hmkdir : ∀ p ∈ ps, ∀ t₁ t₂, stored t₁ = stored t → mkdir env t₁ p = .ok t₂ →
      stored t₂ = stored t := by
    intro p _ t₁ t₂ h hm
    obtain ⟨d, n, m, hl, rfl⟩ := mkdir_eq_ok.mp hm
    obtain ⟨hnul, hempty⟩ := lookup_ok hl
    rw [lookup_eq hnul hempty] at hl
    obtain ⟨hdir, hnone⟩ := walk_eq_absent t₁ _ _ _ _ _ _ _ hl
    rw [← h]
    funext l
    by_cases hplace : l = d ++ [n]
    · rw [hplace, stored_of_not_file, stored_of_not_file]
      · intro i hi
        rw [hnone] at hi
        cases hi
      · intro i hi
        rw [Tree.addDir_entry hdir hnone] at hi
        cases hi
    · unfold stored
      rw [Tree.addDir_entry_of_ne hplace, Tree.addDir_content]
  have hnil : ∀ t', stored t' = stored t → stored (createDirAll env t' []).1 = stored t :=
    fun _ h => h
  have h := createDirAll_invariant hmkdir hnil t rfl
  rwa [List.append_nil] at h

theorem stored_createParents (env : Env) (t : Tree) (p : Path) :
    stored (createParents env t p).1 = stored t := by
  unfold createParents
  split
  · rfl
  · apply stored_createDirAll

theorem stored_createDirectory (path : Option String) :
    stored (createDirectory s t path).1 = stored t := by
  cases htarget : directoryTarget s t path with
  | error response => rw [createDirectory, htarget]
  | ok p =>
      rw [createDirectory_tree htarget]
      apply stored_createDirAll

end Stored

/-! ## Calls that change a file -/

section Calls

variable {t t' : Tree} {loc old new : Loc} {i : Nat}

/-- The file has no other name. -/
def OnlyName (t : Tree) (loc : Loc) (i : Nat) : Prop :=
  ∀ l, t.entry l = some (.file i) → l = loc

theorem stored_file (he : t.entry loc = some (.file i)) : stored t loc = some (t.content i) := by
  unfold stored
  rw [he]

theorem stored_of_entry {l : Loc} (hentry : t'.entry l = t.entry l)
    (hcontent : ∀ j, t.entry l = some (.file j) → t'.content j = t.content j) :
    stored t' l = stored t l := by
  apply stored_eq_of_not_changed
  rintro (h | ⟨j, hj, hne⟩)
  · exact h hentry
  · exact hne (hcontent j hj)

theorem stored_fileAdded (h : FileAdded t t' loc i) :
    stored t' = (Op.put loc []).apply (stored t) := by
  rw [Op.apply_put]
  funext l
  by_cases hl : l = loc
  · rw [hl, Function.update_self, stored_file h.entry, h.content]
  · rw [Function.update_of_ne hl]
    refine stored_of_entry (h.other l hl) fun j hj => h.contents j ?_
    -- the new file has a number that no file had
    have hlt := t.inode_lt l j hj
    rw [h.inode_eq]
    exact Nat.ne_of_lt hlt

theorem stored_setContent (he : t.entry loc = some (.file i)) (honly : OnlyName t loc i)
    (bytes : Bytes) :
    stored (t.setContent i bytes) = (Op.put loc bytes).apply (stored t) := by
  rw [Op.apply_put]
  funext l
  by_cases hl : l = loc
  · rw [hl, Function.update_self, stored_file (show (t.setContent i bytes).entry loc = _ from he)]
    exact congrArg some (Function.update_self _ _ _)
  · rw [Function.update_of_ne hl]
    refine stored_of_entry rfl fun j hj => Function.update_of_ne ?_ _ _
    rintro rfl
    exact hl (honly l hj)

theorem stored_fileMoved (h : FileMoved t t' old new i) :
    stored t' = replay (stored t) [.remove old, .put new (t.content i)] := by
  show _ = Function.update ((Op.remove old).apply (stored t)) new (some (t.content i))
  funext l
  have hentry := h.entry l
  by_cases hnew : l = new
  · rw [if_pos hnew] at hentry
    rw [hnew, Function.update_self, ← h.content]
    exact stored_file (hnew ▸ hentry)
  rw [Function.update_of_ne hnew]
  rw [if_neg hnew] at hentry
  show stored t' l = if old <+: l then none else stored t l
  by_cases hold : l = old
  · rw [if_pos hold] at hentry
    rw [if_pos (hold ▸ List.prefix_rfl)]
    exact stored_of_not_file fun j hj => by
      rw [hentry] at hj
      cases hj
  rw [if_neg hold] at hentry
  rw [stored_of_entry hentry fun j _ => by rw [h.content]]
  split_ifs with hbelow
  · exact stored_below h.source (by intro hd; cases hd) hbelow (Ne.symm hold)
  · rfl

end Calls

/-! ## Deleting -/

section Delete

variable {s : AppState} {t : Tree} {p : Path} {l : Loc}

/-- **What a deletion removes** for the readers: the object with all below it, even if the system
keeps the directory itself. -/
theorem stored_removeObject {m : Nat}
    (hlookup : lookup s.env t false p p.fullComps = .ok (.found l, m)) {e : Entry}
    (he : t.entry l = some e) :
    stored (removeObject s t p (e = .dir)).1 = (Op.remove l).apply (stored t) := by
  funext k
  show _ = if l <+: k then none else stored t k
  by_cases hdir : e = .dir
  · subst hdir
    obtain ⟨hchanged, hgone⟩ := removeObject_dir hlookup he
    rw [decide_eq_true rfl]
    by_cases hk : Changed t (removeObject s t p true).1 k
    · rw [if_pos ((hchanged k).mp hk).2.1]
      apply stored_of_not_file
      intro i hi
      rw [hgone k hk] at hi
      cases hi
    · rw [stored_eq_of_not_changed hk]
      split_ifs with hp
      · -- what stays below is the directory itself
        apply stored_of_not_file
        intro i hi
        refine hk ((hchanged k).mpr ⟨by rw [hi]; exact Option.some_ne_none _, hp, ?_⟩)
        rintro rfl
        rw [he] at hi
        cases hi
      · rfl
  · obtain ⟨hchanged, hgone⟩ := removeObject_file hlookup he hdir
    rw [decide_eq_false hdir]
    by_cases hk : k = l
    · rw [hk, if_pos List.prefix_rfl]
      apply stored_of_not_file
      intro i hi
      rw [hgone] at hi
      cases hi
    · rw [stored_eq_of_not_changed (fun h => hk ((hchanged k).mp h))]
      split_ifs with hp
      · exact stored_below he hdir hp (Ne.symm hk)
      · rfl

theorem stored_deleteFile (path confirm : Option String) :
    stored (deleteFile s t path confirm).1 = replay (stored t) (deleteOps s t path confirm) := by
  unfold deleteOps
  cases htarget : deleteTarget s t path confirm with
  | error response =>
      rw [deleteFile_refused htarget]
      rfl
  | ok p =>
      dsimp only
      obtain ⟨-, hvalid, -⟩ := deleteTarget_eq_ok htarget
      obtain ⟨rel, R, loc, hv⟩ := validateAndResolvePath_eq_ok hvalid
      cases hcanon : canonicalize s.env t p with
      | error e =>
          rw [deleteFile_missing htarget hcanon]
          rfl
      | ok l =>
          obtain ⟨⟨m, hlookup⟩, -⟩ := hv.lookup_nofollow hcanon
          obtain ⟨e, he⟩ := entry_of_canonicalize hcanon
          rw [deleteFile_tree htarget (metadata_of_canonicalize hcanon he),
            stored_removeObject hlookup he]
          rfl

end Delete

/-! ## Uploading -/

section Upload

variable {s : AppState} {t t' : Tree} {dest : Path} {field : UploadField} {place : Loc}

theorem FieldListed.entry (h : FieldListed s t t' dest field place) :
    t'.entry place = some (.file (createParents s.env t dest).1.nextInode) := h.put.inode

/-- The path of a listed file leads to it. -/
theorem FieldListed.leads (h : FieldListed s t t' dest field place) :
    LeadsToFile s.env t' dest place :=
  ⟨h.slash, h.named, _, h.entry⟩

/-- **Storing a file** puts its bytes at its place, for all readers. -/
theorem FieldListed.stored_eq (h : FieldListed s t t' dest field place) :
    stored t' = (Op.put place field.bytes).apply (stored t) := by
  rw [← stored_createParents s.env t dest, Op.apply_put]
  funext l
  by_cases hl : l = place
  · rw [hl, Function.update_self]
    unfold stored
    rw [h.entry]
    show some (t'.content (createParents s.env t dest).1.nextInode) = _
    rw [h.content]
  · rw [Function.update_of_ne hl]
    exact stored_eq_of_not_changed (fun hc => hl ((h.put.changed_iff l).mp hc))

/-- The path of a listed file lies below the root. -/
theorem FieldListed.inside (h : FieldListed s t t' dest field place)
    (hok : (createParents s.env t dest).2 = .ok ()) {rel : List String} {R loc : Loc}
    (hv : Validated s.env t s.rootDir dest rel R loc) : R <+: place := by
  obtain ⟨r, m, hl, rfl⟩ := h.before
  -- the place could be opened for writing as well
  have hfollow : lookup s.env (createParents s.env t dest).1 true dest dest.comps = .ok (r, m) := by
    obtain ⟨hnul, hempty⟩ := lookup_ok hl
    rw [lookup_eq hnul hempty] at hl ⊢
    refine walk_follow _ _ _ _ _ hl ?_
    intro l k target heq hlink
    cases heq
    exact h.no_link target hlink
  have htakes : r.Takes (createParents s.env t dest).1 := by
    cases r with
    | absent d n => trivial
    | found l =>
        obtain ⟨e, he⟩ := Option.ne_none_iff_exists'.mp (lookup_found_entry hl)
        cases e with
        | file i => exact ⟨i, he⟩
        | dir => exact absurd he h.not_dir
        | symlink target => exact absurd he (h.no_link target)
  obtain ⟨t'', i, hcreate⟩ := create_iff.mpr ⟨h.slash, r, m, hfollow, htakes, rfl⟩
  exact (hv.writeConfined.2 hok t'' r.loc i hcreate).1

/-- Directories and links stay. -/
theorem FieldListed.keeps (h : FieldListed s t t' dest field place) :
    ∀ l e, t.entry l = some e → (∀ i, e ≠ .file i) → t'.entry l = some e := by
  intro l e he hplain
  have hmade := (dirsAdded_createParents s.env t dest).extends_.entry_eq he
  rw [h.put.entry l, hmade]
  rintro rfl
  cases e with
  | file i => exact hplain i rfl
  | dir => exact h.not_dir hmade
  | symlink target => exact h.no_link target hmade

/-- The name of a listed file is accepted again. -/
theorem FieldListed.validate (h : FieldListed s t t' dest field place)
    (hok : (createParents s.env t dest).2 = .ok ()) {filename : String}
    (hvalid : validateAndResolvePath s.env t s.rootDir filename = .ok dest) :
    validateAndResolvePath s.env t' s.rootDir filename = .ok dest := by
  obtain ⟨R, loc, hv⟩ := validated_requested hvalid
  exact h.leads.validate h.keeps hvalid hv (h.inside hok hv)

theorem stored_uploadField {targetDir : String} {st : UploadState}
    (hnew : ∀ dest, uploadTarget s st.tree targetDir (field.fileName.getD "") = .ok dest →
      NewUuid (createParents s.env st.tree dest).1 field.uuid) :
    stored (uploadField s targetDir st field).tree
      = replay (stored st.tree) (fieldOps s targetDir st field) := by
  unfold fieldOps
  dsimp only
  by_cases hlisted : (uploadField s targetDir st field).uploaded = st.uploaded
  · rw [if_pos hlisted]
    rcases uploadField_unlisted hnew hlisted with hsame | ⟨dest, hsame⟩
    · rw [hsame]
      rfl
    · rw [hsame.stored_eq, stored_createParents]
      rfl
  · rw [if_neg hlisted]
    obtain ⟨dest, place, hvalid, -, h⟩ := uploadField_listed hnew hlisted
    have hplace : namedPlace s (uploadField s targetDir st field).tree
        (fullRelative targetDir (field.fileName.getD "")) = some place := by
      rw [namedPlace, ← validated_requestPath hvalid, h.leads.canonicalize_eq]
      rfl
    rw [hplace, h.stored_eq]
    rfl

theorem stored_fields {targetDir : String} :
    ∀ (fields : List UploadField) (st : UploadState),
      Along (uploadField s targetDir) (fun st field => ∀ dest,
          uploadTarget s st.tree targetDir (field.fileName.getD "") = .ok dest →
          NewUuid (createParents s.env st.tree dest).1 field.uuid) st fields →
      stored (fields.foldl (uploadField s targetDir) st).tree
        = replay (stored st.tree) (fieldsOps s targetDir st fields) := by
  intro fields
  induction fields with
  | nil => intro st _; rfl
  | cons field fields ih =>
      intro st hnew
      calc
        stored ((field :: fields).foldl (uploadField s targetDir) st).tree
            = replay (stored (uploadField s targetDir st field).tree)
                (fieldsOps s targetDir (uploadField s targetDir st field) fields) := ih _ hnew.2
        _ = replay (replay (stored st.tree) (fieldOps s targetDir st field))
                (fieldsOps s targetDir (uploadField s targetDir st field) fields) := by
          rw [stored_uploadField hnew.1]
        _ = replay (stored st.tree) (fieldsOps s targetDir st (field :: fields)) := by
          rw [fieldsOps, replay_append]

end Upload

/-- **A request** acts on the store by its operations. -/
theorem stored_handle {s : AppState} {t : Tree} (req : WebRequest) (hnew : req.DrawsNewUuids s t) :
    stored (req.handle s t).1 = replay (stored t) (req.ops s t) := by
  cases req with
  | upload path fields readError =>
      show stored (uploadFiles s t path fields readError).1 = _
      rw [uploadFiles_tree]
      exact stored_fields _ _ hnew
  | delete path confirm => exact stored_deleteFile path confirm
  | mkdir path => exact stored_createDirectory path

/-! ## Reading -/

/-- Over the web and by TFTP, a name gives what is stored at the place it leads to. -/
structure ServedAs (s : AppState) (t : Tree) (name : String) (p : Path) (bytes : Bytes) : Prop where
  download : ∀ r, downloadFile s r t (some name) = fileResponse r p (.ok bytes)
  tftp : ∀ host : Host, host.env = s.env → host.config.rootDir = s.rootDir →
    validateAndResolvePath host.env t host.config.rootDir name = .ok p ∧
      host.openFile t p = some (.regular bytes)

theorem served_of_stored {s : AppState} {t : Tree} {name : String} {p : Path} {place : Loc}
    {bytes : Bytes} (hname : name ≠ "") (hvalid : validateAndResolvePath s.env t s.rootDir name = .ok p)
    (hcanon : canonicalize s.env t p = .ok place) (hstored : stored t place = some bytes) :
    ServedAs s t name p bytes := by
  obtain ⟨i, he, hcontent⟩ : ∃ i, t.entry place = some (.file i) ∧ t.content i = bytes := by
    unfold stored at hstored
    split at hstored
    · rename_i i he
      exact ⟨i, he, Option.some.inj hstored⟩
    · cases hstored
  constructor
  · intro r
    have hread : readOpened t place = .ok bytes := by
      rw [readOpened, he]
      exact congrArg Except.ok hcontent
    unfold downloadFile
    simp only [Option.getD_some, if_neg hname, hvalid, openRead, hcanon, hread]
  · intro host henv hroot
    rw [henv, hroot]
    refine ⟨hvalid, ?_⟩
    unfold Host.openFile
    rw [henv, openRead, hcanon]
    simp only [he, hcontent]

theorem fullRelative_ne_empty {targetDir relative : String} (h : relative ≠ "") :
    fullRelative targetDir relative ≠ "" := by
  unfold fullRelative
  split_ifs
  · exact h
  · intro hempty
    have hlen := congrArg (fun text : String => text.toList.length) hempty
    simp at hlen

end UsgTftp
