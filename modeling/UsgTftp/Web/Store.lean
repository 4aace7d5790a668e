import UsgTftp.Lib.NamesIn
import UsgTftp.PathCreation
import UsgTftp.Server.Commit
import UsgTftp.Web.Handlers

set_option autoImplicit false

/-! # What an upload leaves in the tree

An upload writes a temporary file next to its destination and renames it. Nothing is left of the
temporary file: either it has taken the place of the destination (`FilePut`), or every object is
as before (`SameObjects`). `Beside.stored` and `Beside.not_stored` say which.
-/

namespace UsgTftp

open Posix Posix.Path

/-! ## Outcomes -/

/-- The objects of `t` are as before. -/
structure SameObjects (t t' : Tree) : Prop where
  entry : t'.entry = t.entry
  content : ∀ i, i < t.nextInode → t'.content i = t.content i

/-- A new file was put at `place`, and the other objects of `t` are as before. -/
structure FilePut (t t' : Tree) (place : Loc) : Prop where
  inode : t'.entry place = some (.file t.nextInode)
  entry : ∀ l, l ≠ place → t'.entry l = t.entry l
  content : ∀ i, i < t.nextInode → t'.content i = t.content i

theorem SameObjects.refl (t : Tree) : SameObjects t t := ⟨rfl, fun _ _ => rfl⟩

theorem SameObjects.not_changed {t t' : Tree} (h : SameObjects t t') (l : Loc) :
    ¬ Changed t t' l := by
  rintro (hl | ⟨i, hi, hne⟩)
  · exact hl (by rw [h.entry])
  · exact hne (h.content i (t.inode_lt l i hi))

/-- Exactly one place is changed. -/
theorem FilePut.changed_iff {t t' : Tree} {place : Loc} (h : FilePut t t' place) (l : Loc) :
    Changed t t' l ↔ l = place := by
  constructor
  · rintro (hl | ⟨i, hi, hne⟩)
    · by_contra hne
      exact hl (h.entry l hne)
    · exact absurd (h.content i (t.inode_lt l i hi)) hne
  · rintro rfl
    left
    intro hsame
    rw [h.inode] at hsame
    exact Nat.lt_irrefl _ (t.inode_lt l _ hsame.symm)

/-! ## The temporary file -/

/-- What the version 4 UUIDs promise, as far as it matters here: the name made from a new one is
not in use, and it is a text without NUL. -/
def NewUuid (t : Tree) (uuid : String) : Prop :=
  (∀ d, t.entry (d ++ [tempName uuid]) = none) ∧
  (tempName uuid).toList.contains (Char.ofNat 0) = false

theorem head_tempName (uuid : String) : (tempName uuid).toList.head? = some '.' := by
  rw [tempName, String.toList_append]
  rfl

theorem tempName_ne_empty (uuid : String) : tempName uuid ≠ "" := by
  intro h
  have := head_tempName uuid
  rw [h] at this
  cases this

theorem normal_tempName (uuid : String) : Normal (tempName uuid) := by
  have hlen : 2 < (tempName uuid).toList.length := by
    rw [tempName, String.toList_append, List.length_append]
    have : (".tftp-tmp-" : String).toList.length = 10 := rfl
    omega
  constructor
  · intro h
    rw [h] at hlen
    exact absurd hlen (by decide)
  · intro h
    rw [h] at hlen
    exact absurd hlen (by decide)

theorem withFileName_comps (p : Path) {name : String} (hname : name ≠ "") :
    ∃ base, (p.withFileName name).comps = base ++ [name] := by
  have hone : names [name] = [name] := names_cons_of_ne hname []
  unfold withFileName
  split
  · exact ⟨_, by rw [comps_join, hone]⟩
  · exact ⟨_, by rw [comps_join, hone]⟩

section Chunks

variable {errorText : Errno → String} {inode : Nat}

/-- Writing changes one file and no entry. -/
theorem writeChunks_tree : ∀ (chunks : List Chunk) (t : Tree),
    (writeChunks errorText inode t chunks).1.entry = t.entry ∧
    (writeChunks errorText inode t chunks).1.nextInode = t.nextInode ∧
    ∀ i, i ≠ inode → (writeChunks errorText inode t chunks).1.content i = t.content i := by
  intro chunks
  induction chunks with
  | nil => intro t; exact ⟨rfl, rfl, fun _ _ => rfl⟩
  | cons c chunks ih =>
      intro t
      cases c with
      | written chunk =>
          obtain ⟨hentry, hnext, hcontent⟩ := ih (t.setContent inode (t.content inode ++ chunk))
          refine ⟨hentry, hnext, fun i hi => ?_⟩
          exact (hcontent i hi).trans (Function.update_of_ne hi _ _)
      | writeError e => exact ⟨rfl, rfl, fun _ _ => rfl⟩
      | streamError message => exact ⟨rfl, rfl, fun _ _ => rfl⟩

/-- The chunks are all written, or the upload fails. -/
theorem writeChunks_eq_ok_iff : ∀ (chunks : List Chunk) (t : Tree),
    (writeChunks errorText inode t chunks).2 = .ok () ↔ chunks.all Chunk.isWritten = true := by
  intro chunks
  induction chunks with
  | nil => intro t; exact iff_of_true rfl rfl
  | cons c chunks ih =>
      intro t
      cases c with
      | written chunk => exact ih _
      | writeError e => exact iff_of_false (by intro h; cases h) (by simp [Chunk.isWritten])
      | streamError message => exact iff_of_false (by intro h; cases h) (by simp [Chunk.isWritten])

end Chunks

section Store

variable {s : AppState} {t t' : Tree} {dest : Path} {field : UploadField}

/-- A name that is not in use is free. -/
theorem freeName_of_newUuid (hnew : NewUuid t field.uuid) :
    FreeName s.env t (dest.withFileName (tempName field.uuid)) := by
  intro l m hl
  exfalso
  obtain ⟨hnul, hempty⟩ := lookup_ok hl
  obtain ⟨base, hbase⟩ := withFileName_comps dest (tempName_ne_empty field.uuid)
  rw [lookup_eq hnul hempty, hbase] at hl
  obtain ⟨d, k, -, hdir, hw⟩ := walk_prefix (List.cons_ne_nil _ _) hl
  rw [walk_absent hdir (normal_tempName _) (hnew.1 d), if_pos rfl] at hw
  cases hw

/-- Removing the temporary file leaves every other object as it was before. -/
theorem removeTemp_same {t₂ : Tree} {tmpPath : Path} {loc : Loc} {inode m : Nat}
    (hadd : FileAdded t t' loc inode) (hslash : tmpPath.trailingSlash = false)
    (hl : lookup s.env t' false tmpPath tmpPath.comps = .ok (.found loc, m))
    (hentry : t₂.entry = t'.entry) (hcontent : ∀ i, i ≠ inode → t₂.content i = t'.content i) :
    SameObjects t (removeTemp s.env t₂ tmpPath) := by
  have hfile : t₂.entry loc = some (.file inode) := by rw [hentry, hadd.entry]
  have hne : t₂.entry loc ≠ some .dir := by
    rw [hfile]
    intro h
    cases h
  have hremove : removeFile s.env t₂ tmpPath = .ok (t₂.remove loc) := by
    rw [removeFile_eq_ok]
    exact ⟨hslash, loc, m, by rw [lookup_congr hentry, hl], hne, rfl⟩
  rw [removeTemp, hremove]
  constructor
  · funext l
    rw [Tree.remove_entry_of_not_dir hfile (by intro h; cases h)]
    split_ifs with heq
    · rw [heq, hadd.absent]
    · rw [hentry, hadd.other l heq]
  · intro i hi
    have hne : i ≠ inode := by
      rw [hadd.inode_eq]
      omega
    simp only [Tree.remove_content]
    rw [hcontent i hne, hadd.contents i hne]

/-- The temporary file at `loc` was created in `t` and has all chunks. -/
structure TempWritten (s : AppState) (t : Tree) (dest : Path) (field : UploadField) (t₂ : Tree)
    (loc : Loc) : Prop where
  complete : field.chunks.all Chunk.isWritten = true
  absent : t.entry loc = none
  self : t₂.entry loc = some (.file t.nextInode)
  other : ∀ l, l ≠ loc → t₂.entry l = t.entry l
  content : ∀ i, i < t.nextInode → t₂.content i = t.content i
  named : ∃ m, lookup s.env t₂ false (dest.withFileName (tempName field.uuid))
    (dest.withFileName (tempName field.uuid)).comps = .ok (.found loc, m)

/-- If all chunks are written, the rename decides. -/
theorem storeField_complete (hnew : NewUuid t field.uuid) {t₁ : Tree} {loc : Loc} {inode : Nat}
    (hcreate : create s.env t (dest.withFileName (tempName field.uuid)) = .ok (t₁, loc, inode))
    (hcomplete : field.chunks.all Chunk.isWritten = true) :
    ∃ t₂, TempWritten s t dest field t₂ loc ∧
      ((∃ t₃, rename s.env t₂ (dest.withFileName (tempName field.uuid)) dest = .ok t₃ ∧
          storeField s t dest field = (t₃, .ok ())) ∨
        (∃ e, rename s.env t₂ (dest.withFileName (tempName field.uuid)) dest = .error e) ∧
          SameObjects t (storeField s t dest field).1 ∧
            (storeField s t dest field).2 ≠ .ok ()) := by
  obtain ⟨hadd, m, hl⟩ := create_of_free (freeName_of_newUuid hnew) hcreate
  have hslash := (create_eq_ok hcreate).1
  obtain ⟨hentry, -, hcontent⟩ := @writeChunks_tree s.errorText inode field.chunks t₁
  have hok := (@writeChunks_eq_ok_iff s.errorText inode field.chunks t₁).mpr hcomplete
  have hwrite : writeChunks s.errorText inode t₁ field.chunks
      = ((writeChunks s.errorText inode t₁ field.chunks).1, .ok ()) := by rw [← hok]
  generalize (writeChunks s.errorText inode t₁ field.chunks).1 = t₂ at *
  refine ⟨t₂, ⟨hcomplete, hadd.absent, ?_, fun l hne => ?_, fun i hi => ?_, m, ?_⟩, ?_⟩
  · rw [hentry, hadd.entry, hadd.inode_eq]
  · rw [hentry, hadd.other l hne]
  · have hne : i ≠ inode := by
      rw [hadd.inode_eq]
      omega
    rw [hcontent i hne, hadd.contents i hne]
  · rw [lookup_congr hentry, hl]
  · unfold storeField
    simp only [hcreate, hwrite]
    cases hr : rename s.env t₂ (dest.withFileName (tempName field.uuid)) dest with
    | ok t₃ => exact Or.inl ⟨t₃, rfl, rfl⟩
    | error e =>
        exact Or.inr ⟨⟨e, rfl⟩, removeTemp_same hadd hslash hl hentry hcontent,
          by intro h; cases h⟩

/-- An upload that is not complete fails and leaves nothing. -/
theorem storeField_incomplete (hnew : NewUuid t field.uuid)
    (hbroken : field.chunks.all Chunk.isWritten = false) :
    SameObjects t (storeField s t dest field).1 ∧ (storeField s t dest field).2 ≠ .ok () := by
  unfold storeField
  simp only
  cases hcreate : create s.env t (dest.withFileName (tempName field.uuid)) with
  | error e => exact ⟨SameObjects.refl t, by intro h; cases h⟩
  | ok r =>
      obtain ⟨t₁, loc, inode⟩ := r
      obtain ⟨hadd, m, hl⟩ := create_of_free (freeName_of_newUuid hnew) hcreate
      have hslash := (create_eq_ok hcreate).1
      obtain ⟨hentry, -, hcontent⟩ := @writeChunks_tree s.errorText inode field.chunks t₁
      have hnot := (@writeChunks_eq_ok_iff s.errorText inode field.chunks t₁).not.mpr
        (by rw [hbroken]; exact Bool.false_ne_true)
      cases hwrite : writeChunks s.errorText inode t₁ field.chunks with
      | mk t₂ result =>
          rw [hwrite] at hentry hcontent hnot
          cases result with
          | ok u => exact absurd rfl hnot
          | error message =>
              simp only [hwrite]
              exact ⟨removeTemp_same hadd hslash hl hentry hcontent, by intro h; cases h⟩

/-- **The temporary file never stays**: if it cannot be renamed, every object is as before. -/
theorem storeField_not_renamed (hnew : NewUuid t field.uuid)
    (hno : ∀ t₂ loc, TempWritten s t dest field t₂ loc →
      ∃ e, rename s.env t₂ (dest.withFileName (tempName field.uuid)) dest = .error e) :
    SameObjects t (storeField s t dest field).1 ∧ (storeField s t dest field).2 ≠ .ok () := by
  by_cases hcomplete : field.chunks.all Chunk.isWritten = true
  · cases hcreate : create s.env t (dest.withFileName (tempName field.uuid)) with
    | error e =>
        unfold storeField
        simp only [hcreate]
        exact ⟨SameObjects.refl t, by intro h; cases h⟩
    | ok r =>
        obtain ⟨t₁, loc, inode⟩ := r
        obtain ⟨t₂, htemp, ⟨t₃, hr, -⟩ | ⟨-, hsame⟩⟩ := storeField_complete hnew hcreate hcomplete
        · obtain ⟨e, he⟩ := hno t₂ loc htemp
          rw [hr] at he
          cases he
        · exact hsame
  · exact storeField_incomplete hnew (by simpa using hcomplete)

/-! ## The directory of the destination -/

/-- The destination and its temporary file are looked for in the directory `d`. -/
structure Beside (s : AppState) (t : Tree) (dest : Path) (uuid : String) (d : Loc)
    (last : String) : Prop where
  dir : t.entry d = some .dir
  normal : Normal last
  ne : last ≠ tempName uuid
  dest_last : dest.comps.getLast? = some last
  dest_lookup : ∀ t', Extends t t' → ∀ follow, ∃ k,
    lookup s.env t' follow dest dest.comps = walk t' follow k d [last]
  temp_last : (dest.withFileName (tempName uuid)).comps.getLast? = some (tempName uuid)
  temp_slash : (dest.withFileName (tempName uuid)).trailingSlash = false
  temp_lookup : ∀ t', Extends t t' → ∀ follow, ∃ k,
    lookup s.env t' follow (dest.withFileName (tempName uuid))
      (dest.withFileName (tempName uuid)).comps = walk t' follow k d [tempName uuid]

theorem lastNormal_of_getLast {p : Path} {c : String} (h : p.comps.getLast? = some c)
    (hc : Normal c) : lastNormal p = true := by
  rw [lastNormal, h]
  simp only [ne_eq, decide_eq_true_eq]
  exact hc

section Beside

variable {d : Loc} {last : String} {t₂ : Tree} {loc : Loc}

theorem TempWritten.extends_ (h : TempWritten s t dest field t₂ loc) : Extends t t₂ := by
  intro l hl
  exact h.other l (fun he => hl (he ▸ h.absent))

theorem Beside.loc_eq (hb : Beside s t dest field.uuid d last) (hnew : NewUuid t field.uuid)
    (h : TempWritten s t dest field t₂ loc) : loc = d ++ [tempName field.uuid] := by
  by_contra hne
  obtain ⟨m, hl⟩ := h.named
  obtain ⟨k, hk⟩ := hb.temp_lookup t₂ h.extends_ false
  rw [hk, walk_single k (h.extends_.entry_eq hb.dir) (normal_tempName _),
    if_pos (by rw [h.other _ (Ne.symm hne), hnew.1])] at hl
  cases hl

/-- What the destination names once the temporary file is written. -/
theorem Beside.dest_found (hb : Beside s t dest field.uuid d last) (hnew : NewUuid t field.uuid)
    (h : TempWritten s t dest field t₂ loc) :
    t₂.entry (d ++ [last]) = t.entry (d ++ [last]) ∧
    ∃ k, lookup s.env t₂ false dest dest.comps = if t₂.entry (d ++ [last]) = none then
      .ok (.absent d last, k) else .ok (.found (d ++ [last]), k) := by
  constructor
  · apply h.other
    rw [hb.loc_eq hnew h]
    intro heq
    exact hb.ne (List.cons.inj (List.append_cancel_left heq)).1
  · obtain ⟨k, hk⟩ := hb.dest_lookup t₂ h.extends_ false
    exact ⟨k, by rw [hk, walk_single k (h.extends_.entry_eq hb.dir) hb.normal]⟩

/-- **The rename of a complete upload** puts the file in its place. -/
theorem Beside.renamed (hb : Beside s t dest field.uuid d last) (hnew : NewUuid t field.uuid)
    (h : TempWritten s t dest field t₂ loc) (hslash : dest.trailingSlash = false)
    (hnot : t.entry (d ++ [last]) ≠ some .dir) :
    ∃ t₃, rename s.env t₂ (dest.withFileName (tempName field.uuid)) dest = .ok t₃ ∧
      FilePut t t₃ (d ++ [last]) := by
  obtain ⟨hsame, k, hk⟩ := hb.dest_found hnew h
  obtain ⟨m, hold⟩ := h.named
  have hself := h.self
  rw [hb.loc_eq hnew h] at hold hself
  have hother : t₂.entry (d ++ [last]) ≠ some (.file t.nextInode) := by
    rw [hsame]
    intro he
    exact Nat.lt_irrefl _ (t.inode_lt _ _ he)
  obtain ⟨t₃, hr, hmoved⟩ := rename_sibling (lastNormal_of_getLast hb.temp_last (normal_tempName _))
    (lastNormal_of_getLast hb.dest_last hb.normal) hb.temp_slash hslash
    (h.extends_.entry_eq hb.dir) hb.ne.symm hold hself hk hother (by rw [hsame]; exact hnot)
  refine ⟨t₃, hr, by rw [hmoved.entry, if_pos rfl], fun l hl => ?_, fun i hi => ?_⟩
  · rw [hmoved.entry, if_neg hl, ← hb.loc_eq hnew h]
    split_ifs with ho
    · rw [ho, h.absent]
    · exact h.other l ho
  · rw [hmoved.content]
    exact h.content i hi

/-- No file is put where a directory is, or where a slash asks for one. -/
theorem Beside.not_renamed (hb : Beside s t dest field.uuid d last) (hnew : NewUuid t field.uuid)
    (h : TempWritten s t dest field t₂ loc)
    (hno : ¬ (dest.trailingSlash = false ∧ t.entry (d ++ [last]) ≠ some .dir)) :
    ∃ e, rename s.env t₂ (dest.withFileName (tempName field.uuid)) dest = .error e := by
  obtain ⟨hsame, k, hk⟩ := hb.dest_found hnew h
  obtain ⟨m, hold⟩ := h.named
  have hself := h.self
  rw [hb.loc_eq hnew h] at hold hself
  apply rename_file_refused hold hself
  cases hslash : dest.trailingSlash with
  | true => exact Or.inl rfl
  | false =>
      have hdest : t₂.entry (d ++ [last]) = some .dir := by
        rw [hsame]
        by_contra hnot
        exact hno ⟨hslash, hnot⟩
      exact Or.inr ⟨k, by rw [hk, hdest, if_neg (Option.some_ne_none _)], hdest⟩

/-- A complete upload to a place for a file puts it there. -/
theorem Beside.stored (hb : Beside s t dest field.uuid d last) (hnew : NewUuid t field.uuid)
    (hcomplete : field.chunks.all Chunk.isWritten = true)
    (hplace : dest.trailingSlash = false ∧ t.entry (d ++ [last]) ≠ some .dir) :
    FilePut t (storeField s t dest field).1 (d ++ [last]) ∧
      (storeField s t dest field).2 = .ok () := by
  obtain ⟨k, hk⟩ := hb.temp_lookup t (fun _ _ => rfl) true
  rw [walk_absent hb.dir (normal_tempName _) (hnew.1 d), if_pos rfl] at hk
  have hcreate : create s.env t (dest.withFileName (tempName field.uuid))
      = .ok (t.addFile d (tempName field.uuid), d ++ [tempName field.uuid], t.nextInode) := by
    rw [create, hk]
    simp only [hb.temp_slash, Bool.false_eq_true, if_false]
  obtain ⟨t₂, htemp, hres⟩ := storeField_complete hnew hcreate hcomplete
  obtain ⟨t₃, hr, hput⟩ := hb.renamed hnew htemp hplace.1 hplace.2
  rcases hres with ⟨t₃', hr', heq⟩ | ⟨⟨e, he⟩, -⟩
  · rw [hr] at hr'
    cases hr'
    rw [heq]
    exact ⟨hput, rfl⟩
  · rw [hr] at he
    cases he

/-- Anything else leaves nothing. -/
theorem Beside.not_stored (hb : Beside s t dest field.uuid d last) (hnew : NewUuid t field.uuid)
    (hno : ¬ (field.chunks.all Chunk.isWritten = true ∧
      dest.trailingSlash = false ∧ t.entry (d ++ [last]) ≠ some .dir)) :
    SameObjects t (storeField s t dest field).1 ∧ (storeField s t dest field).2 ≠ .ok () := by
  apply storeField_not_renamed hnew
  intro t₂ loc htemp
  exact hb.not_renamed hnew htemp (fun hplace => hno ⟨htemp.complete, hplace⟩)

end Beside

/-- An accepted path of which no name is left is that of the root, with a slash at its end. No
file is put there. -/
theorem Validated.not_stored_root {t₀ : Tree} {rel : List String} {R loc : Loc}
    (h : Validated s.env t₀ s.rootDir dest rel R loc) (hrel : names rel = [])
    (hnew : NewUuid t field.uuid) :
    SameObjects t (storeField s t dest field).1 ∧ (storeField s t dest field).2 ≠ .ok () := by
  apply storeField_not_renamed hnew
  intro t₂ loc htemp
  have hsegs : dest.segs.getLast? = some "" := by
    rw [h.path, h.single hrel, join, List.getLast?_concat]
  obtain ⟨m, hl⟩ := htemp.named
  unfold rename
  by_cases hcomps : dest.comps = []
  · rw [if_pos (Or.inr (by rw [lastNormal, hcomps]; rfl))]
    exact ⟨_, rfl⟩
  · have hslash : dest.trailingSlash = true := by
      rw [trailingSlash, decide_eq_true_iff]
      exact ⟨hcomps, hsegs⟩
    have hnot : t₂.entry loc ≠ some .dir := by
      rw [htemp.self]
      intro he
      cases he
    split_ifs with hnormal
    · exact ⟨_, rfl⟩
    · rw [hl]
      simp only
      rw [if_pos ⟨Or.inr hslash, hnot⟩]
      exact ⟨_, rfl⟩

/-- Once its parents are made, an accepted path has a directory for its file. -/
theorem Validated.beside {rel : List String} {R loc : Loc}
    (h : Validated s.env t s.rootDir dest rel R loc) {cs : List String} {last : String}
    (hrel : names rel = cs ++ [last]) (hok : (createParents s.env t dest).2 = .ok ())
    (hnul : (tempName field.uuid).toList.contains (Char.ofNat 0) = false) :
    ∃ d, Beside s (createParents s.env t dest).1 dest field.uuid d last := by
  obtain ⟨d, k, hD, hdir⟩ := h.exists_parentDir hrel hok
  have hcomps : dest.comps = s.rootDir.comps ++ cs ++ [last] := by
    rw [h.comps, hrel, List.append_assoc]
  have hlast : last ∈ names rel := by
    rw [hrel]
    simp
  have hnodot : startsWithDot last = false := h.noDots last (List.mem_filter.mp hlast).1
  have hne : last ≠ tempName field.uuid := by
    rintro rfl
    rw [startsWithDot, head_tempName] at hnodot
    exact absurd hnodot (by decide)
  have hname : dest.fileName = some last := by
    rw [h.path]
    exact fileName_join s.rootDir h.dot_notMem (h.normal last hlast).2 hrel
  obtain ⟨habs, hslash, hwith, base, dots, hbase, hsplit, hdots⟩ :=
    withFileName_of_fileName hname (tempName_ne_empty field.uuid)
  rw [h.path, dirSegs_join h.dot_notMem (h.normal last hlast).2 hrel] at hsplit
  refine ⟨d, hdir, h.normal last hlast, hne, by rw [hcomps, List.getLast?_concat],
    fun t' hext follow => ⟨k, ?_⟩, by rw [hbase, List.getLast?_concat], hslash,
    fun t' hext follow => ⟨k, ?_⟩⟩
  · rw [lookup_eq h.hasNul h.not_isEmpty, h.start_eq, hcomps,
      walk_append t' follow (List.cons_ne_nil _ _), walk_extends hext true _ _ _ _ _ hD, andThen]
  · have hempty : ¬ (dest.withFileName (tempName field.uuid)).IsEmpty := by
      rintro ⟨-, hnil⟩
      rw [hbase] at hnil
      simp at hnil
    rw [hsplit] at hD
    have hD' := walk_dots hdots hD
    rw [lookup_eq (hwith h.hasNul hnul) hempty, Path.start, habs, ← Path.start, h.start_eq, hbase,
      walk_append t' follow (List.cons_ne_nil _ _),
      walk_extends hext true _ _ _ _ _ hD', andThen]

end Store

end UsgTftp
