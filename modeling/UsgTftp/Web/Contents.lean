import UsgTftp.Web.Uploads

set_option autoImplicit false

/-! # What an uploaded file holds

A field that is listed as uploaded leaves a file with all its chunks, at the place its path then
names (`uploadField_listed`). The file that was there before, or a free place, is all that it takes.
-/

namespace UsgTftp

open Posix Posix.Path Reactive

/-- The bytes that a chunk adds to the file. -/
def Chunk.bytes : Chunk → Bytes
  | .written chunk => chunk
  | _ => []

def UploadField.bytes (field : UploadField) : Bytes := field.chunks.flatMap Chunk.bytes

section Contents

variable {s : AppState} {t : Tree} {dest : Path} {field : UploadField} {rel : List String}
  {R loc : Loc}

theorem writeChunks_content {errorText : Errno → String} {inode : Nat} :
    ∀ (chunks : List Chunk) (t : Tree), (writeChunks errorText inode t chunks).2 = .ok () →
      (writeChunks errorText inode t chunks).1.content inode
        = t.content inode ++ chunks.flatMap Chunk.bytes := by
  intro chunks
  induction chunks with
  | nil => intro t _; exact (List.append_nil _).symm
  | cons c chunks ih =>
      intro t h
      cases c with
      | written chunk =>
          calc
            (writeChunks errorText inode t (.written chunk :: chunks)).1.content inode
                = (t.setContent inode (t.content inode ++ chunk)).content inode
                    ++ chunks.flatMap Chunk.bytes := ih _ h
            _ = t.content inode ++ chunk ++ chunks.flatMap Chunk.bytes := by
              congr 1
              exact Function.update_self _ _ _
            _ = t.content inode ++ (Chunk.written chunk :: chunks).flatMap Chunk.bytes := by
              rw [List.flatMap_cons, List.append_assoc]
              rfl
      | writeError e => cases h
      | streamError message => cases h

/-- The file that a successful upload leaves has all the chunks. -/
theorem storeField_content (hnew : NewUuid t field.uuid)
    (hok : (storeField s t dest field).2 = .ok ()) :
    (storeField s t dest field).1.content t.nextInode = field.bytes := by
  unfold storeField at hok ⊢
  simp only at hok ⊢
  cases hcreate : create s.env t (dest.withFileName (tempName field.uuid)) with
  | error e =>
      rw [hcreate] at hok
      cases hok
  | ok made =>
      obtain ⟨t₁, l, inode⟩ := made
      obtain ⟨hadd, -, -⟩ := create_of_free (freeName_of_newUuid hnew) hcreate
      rw [hcreate] at hok
      simp only at hok ⊢
      have hcontent := @writeChunks_content s.errorText inode field.chunks t₁
      generalize writeChunks s.errorText inode t₁ field.chunks = wrote at hok hcontent ⊢
      obtain ⟨t₂, result⟩ := wrote
      cases result with
      | error message => cases hok
      | ok u =>
          simp only at hok ⊢
          cases hr : rename s.env t₂ (dest.withFileName (tempName field.uuid)) dest with
          | error e =>
              rw [hr] at hok
              cases hok
          | ok t₃ =>
              obtain ⟨-, hsame, -⟩ := rename_changes hr
              calc
                t₃.content t.nextInode = t₂.content inode := by rw [hsame, hadd.inode_eq]
                _ = t₁.content inode ++ field.chunks.flatMap Chunk.bytes := hcontent rfl
                _ = field.bytes := by rw [hadd.content]; rfl

/-- The place of an accepted file is no link, for nothing that is made on the way to it is one. -/
theorem FileStored.no_link (h : Validated s.env t s.rootDir dest rel R loc) {t' : Tree} {d : Loc}
    {last : String} (hok : (createParents s.env t dest).2 = .ok ())
    (hstored : FileStored s (createParents s.env t dest).1 t' dest field d last) (target : Path) :
    (createParents s.env t dest).1.entry (d ++ [last]) ≠ some (.symlink target) := by
  obtain ⟨k, hk⟩ := hstored.named
  by_cases hex : ∃ l, canonicalize s.env t dest = .ok l
  · obtain ⟨l, hcanon⟩ := hex
    rw [createParents_of_exists hcanon] at hk ⊢
    obtain ⟨⟨m, hm⟩, hlink⟩ := h.lookup_nofollow hcanon
    rw [fullComps_of_noSlash hstored.slash, hk] at hm
    split_ifs at hm with hnone
    · rw [hnone]
      exact (Option.some_ne_none _).symm
    · cases hm
      exact hlink target
  · obtain ⟨d', c, k', hk'⟩ := h.lookup_missing (fun l hl => hex ⟨l, hl⟩) hstored.slash hok
    rw [hk'] at hk
    split_ifs at hk with hnone
    · rw [hnone]
      exact (Option.some_ne_none _).symm
    · cases hk

/-- What is left after a field is listed: its parents were made, and then a new file with its bytes
was put at the place that the path names. -/
structure FieldListed (s : AppState) (t t' : Tree) (dest : Path) (field : UploadField)
    (place : Loc) : Prop where
  put : FilePut (createParents s.env t dest).1 t' place
  content : t'.content (createParents s.env t dest).1.nextInode = field.bytes
  slash : dest.trailingSlash = false
  before : ∃ r m, lookup s.env (createParents s.env t dest).1 false dest dest.comps = .ok (r, m) ∧
    r.loc = place
  named : ∃ m, lookup s.env t' false dest dest.comps = .ok (.found place, m)
  no_link : ∀ target, (createParents s.env t dest).1.entry place ≠ some (.symlink target)
  not_dir : (createParents s.env t dest).1.entry place ≠ some .dir

/-- **A field that is listed** has left its file. -/
theorem uploadField_listed {targetDir : String} {st : UploadState}
    (hnew : ∀ dest, uploadTarget s st.tree targetDir (field.fileName.getD "") = .ok dest →
      NewUuid (createParents s.env st.tree dest).1 field.uuid)
    (hlisted : (uploadField s targetDir st field).uploaded ≠ st.uploaded) :
    ∃ dest place, validateAndResolvePath s.env st.tree s.rootDir
        (fullRelative targetDir (field.fileName.getD "")) = .ok dest ∧
      (createParents s.env st.tree dest).2 = .ok () ∧
      FieldListed s st.tree (uploadField s targetDir st field).tree dest field place := by
  obtain ⟨hname, dest, htarget, hok, hstore⟩ := uploadField_lists_iff.mp hlisted
  obtain ⟨hvalid, -, -⟩ := uploadTarget_eq_ok htarget
  obtain ⟨rel, R, loc, hv⟩ := validateAndResolvePath_eq_ok hvalid
  have hnew := hnew dest htarget
  have htree : fieldTree s st.tree dest field
      = (storeField s (createParents s.env st.tree dest).1 dest field).1 := by
    unfold fieldTree
    cases hc : createParents s.env st.tree dest with
    | mk t₁ result =>
        rw [hc] at hok
        cases hok
        rfl
  rw [uploadField_tree hname htarget]
  rcases fieldTree_cases hv hnew with ⟨-, hno⟩ | ⟨-, d, last, hstored⟩
  · have hdone := (hv.storeField_isOk_iff hok hnew).mp hstore
    exact absurd ⟨hok, hdone⟩ hno
  · have hlink := FileStored.no_link hv hok hstored
    refine ⟨dest, d ++ [last], hvalid, hok, hstored.put, ?_, hstored.slash, ?_,
      hstored.lookup_eq hlink, hlink, hstored.not_dir⟩
    · rw [htree]
      exact storeField_content hnew hstore
    · obtain ⟨k, hk⟩ := hstored.named
      split_ifs at hk
      · exact ⟨_, k, hk, rfl⟩
      · exact ⟨_, k, hk, rfl⟩

/-- A field that is not listed leaves at most new directories. -/
theorem uploadField_unlisted {targetDir : String} {st : UploadState}
    (hnew : ∀ dest, uploadTarget s st.tree targetDir (field.fileName.getD "") = .ok dest →
      NewUuid (createParents s.env st.tree dest).1 field.uuid)
    (hlisted : (uploadField s targetDir st field).uploaded = st.uploaded) :
    (uploadField s targetDir st field).tree = st.tree ∨
      ∃ dest, SameObjects (createParents s.env st.tree dest).1
        (uploadField s targetDir st field).tree := by
  by_cases hname : field.fileName.getD "" = ""
  · exact Or.inl (uploadField_refused (Or.inl hname))
  cases htarget : uploadTarget s st.tree targetDir (field.fileName.getD "") with
  | error message => exact Or.inl (uploadField_refused (Or.inr ⟨message, htarget⟩))
  | ok dest =>
      right
      refine ⟨dest, ?_⟩
      obtain ⟨hvalid, -, -⟩ := uploadTarget_eq_ok htarget
      obtain ⟨rel, R, loc, hv⟩ := validateAndResolvePath_eq_ok hvalid
      rw [uploadField_tree hname htarget]
      rcases fieldTree_cases hv (hnew dest htarget) with ⟨hsame, -⟩ | ⟨hok, d, last, hstored⟩
      · exact hsame
      · -- a file that was stored is listed
        refine absurd hlisted (uploadField_lists_iff.mpr ⟨hname, dest, htarget, hok, ?_⟩)
        exact (hv.storeField_isOk_iff hok (hnew dest htarget)).mpr
          ⟨hstored.complete, hstored.takes⟩

end Contents

end UsgTftp
