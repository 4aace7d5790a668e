import UsgTftp.PathLinks
import UsgTftp.TempFiles
import UsgTftp.Web.Uploads

set_option autoImplicit false

/-! # Changes strictly inside the root

A name of slashes only is accepted, and is the path of the root itself. So `delete_file` removes
the root, or a directory with the hidden entries in it, and the temporary files beside the root lie
outside of it.

`stays_inside_iff` says exactly which calls of `delete_file`, `upload_files` and
`write_file_safely` remove neither the root nor a hidden entry, and put no temporary file outside.
-/

namespace UsgTftp

open Posix Posix.Path Reactive

/-! ## The calls -/

inductive FileCall where
  | delete (path confirm : Option String)
  | upload (path : Option String) (fields : List UploadField) (readError : Option String)
  | writeFileSafely (filename : String) (data : Bytes)
  deriving DecidableEq, Repr

/-- What `delete_file` removes is not the root, and no entry under a hidden name. -/
def DeletionInside (s : AppState) (t : Tree) (path confirm : Option String) : Prop :=
  ∀ R, canonicalize s.env t s.rootDir = .ok R →
    ∀ l, t.entry l ≠ none → (deleteFile s t path confirm).1.entry l = none →
      l ≠ R ∧ NoneHidden R l

/-- The temporary file of an upload is put into the root. -/
def FieldInside (s : AppState) (targetDir : String) (t : Tree) (field : UploadField) : Prop :=
  field.fileName.getD "" ≠ "" →
  ∀ dest, uploadTarget s t targetDir (field.fileName.getD "") = .ok dest →
    ∀ R, canonicalize s.env t s.rootDir = .ok R →
      TempInside s.env t R dest (dest.withFileName (tempName field.uuid))

/-- **Nothing but what is strictly inside the root** is removed, or put there for a while. An upload
is looked at field by field, in the tree that each field finds. -/
def FileCall.StaysInside (s : AppState) (t : Tree) : FileCall → Prop
  | .delete path confirm => DeletionInside s t path confirm
  | .upload path fields _ =>
      Along (uploadField s (path.getD ""))
        (fun st field => FieldInside s (path.getD "") st.tree field) ⟨t, [], []⟩
        (handledFields s fields)
  | .writeFileSafely filename data =>
      ∀ p, validateAndResolvePath s.env t s.rootDir filename = .ok p →
        ∀ R, canonicalize s.env t s.rootDir = .ok R →
          TempInside s.env t R p (Commit.mk p data).tempPath

/-- The UUIDs of an upload are new when they are drawn. -/
def FileCall.DrawsNewUuids (s : AppState) (t : Tree) : FileCall → Prop
  | .upload path fields readError => (WebRequest.upload path fields readError).DrawsNewUuids s t
  | _ => True

/-! ## When they stay inside -/

/-- The system removes the object at `l`, which `p` names: it is no directory, or one that `p`
leads to by a name, and not by way of what lies in it. -/
def Removable (env : Env) (t : Tree) (p : Path) (l : Loc) : Prop :=
  t.entry l = some .dir → l ≠ [] ∧ lastNormal p = true ∧
    ∃ k, lookup env (t.clear l) false p p.comps = .ok (.found l, k)

/-- Nothing hidden lies below the object that is named, and if it is removed itself, it is not
hidden either, and not the root. -/
def DeletionSpares (s : AppState) (t : Tree) (path confirm : Option String) : Prop :=
  ∀ p, deleteTarget s t path confirm = .ok p →
    ∀ R l, canonicalize s.env t s.rootDir = .ok R → canonicalize s.env t p = .ok l →
      (∀ n cs, t.entry (l ++ n :: cs) ≠ none → NoneHidden R (l ++ n :: cs)) ∧
      (Removable s.env t p l → l ≠ R ∧ NoneHidden R l)

/-- The place of a field that is not refused lies in a directory of the root. -/
def FieldPlaced (s : AppState) (targetDir : String) (t : Tree) (field : UploadField) : Prop :=
  field.fileName.getD "" ≠ "" →
  ∀ dest, uploadTarget s t targetDir (field.fileName.getD "") = .ok dest →
    ∀ R, canonicalize s.env t s.rootDir = .ok R →
      PlacedInside s.env t R s.rootDir (fullRelative targetDir (field.fileName.getD ""))

/-- The condition for a call to stay inside. -/
def FileCall.Spares (s : AppState) (t : Tree) : FileCall → Prop
  | .delete path confirm => DeletionSpares s t path confirm
  | .upload path fields _ =>
      Along (uploadField s (path.getD ""))
        (fun st field => FieldPlaced s (path.getD "") st.tree field) ⟨t, [], []⟩
        (handledFields s fields)
  | .writeFileSafely filename data =>
      ∀ p, validateAndResolvePath s.env t s.rootDir filename = .ok p →
        ∀ R, canonicalize s.env t s.rootDir = .ok R →
          TempMeets s.env t R (Commit.mk p data).tempPath
            (PlacedInside s.env t R s.rootDir filename)

/-! ## Deleting -/

section

variable {s : AppState} {t : Tree} {p : Path} {l R : Loc}

/-- `rmdir` removes the directory that was emptied, if its path still leads there by a name. -/
theorem rmdir_clear_isOk {env : Env} {m : Nat}
    (hl : lookup env t false p p.fullComps = .ok (.found l, m)) (hdir : t.entry l = some .dir) :
    (rmdir env (t.clear l) p).isOk = true ↔ Removable env t p l := by
  have hself : (t.clear l).entry l = some .dir := by
    rw [Tree.clear_entry, if_neg (fun h => h.2 rfl), hdir]
  have hempty : emptyDir (t.clear l) l = true := by
    rw [emptyDir_iff]
    intro k hp hne
    rw [Tree.clear_entry, if_pos ⟨hp, hne⟩]
  obtain ⟨hnul, hnonempty⟩ := lookup_ok hl
  have hlast : l ≠ [] → (∃ k, lookup env (t.clear l) false p p.comps = .ok (.found l, k)) →
      (lastNormal p = true ↔ p.comps.getLast? ≠ some "." ∧ p.comps.getLast? ≠ some "..") := by
    rintro hne ⟨k, hk⟩
    unfold lastNormal
    cases hc : p.comps.getLast? with
    | some c => simp
    | none =>
        -- only the path of `/` has no components
        exfalso
        have hcomps : p.comps = [] := List.getLast?_eq_none_iff.mp hc
        have habs : p.absolute = true := by
          by_contra habs
          exact hnonempty ⟨by simpa using habs, hcomps⟩
        rw [lookup_eq hnul hnonempty, hcomps, walk_nil, Path.start, if_pos habs] at hk
        cases hk
        exact hne rfl
  constructor
  · intro hok _
    unfold rmdir at hok
    cases hk : lookup env (t.clear l) false p p.comps with
    | error e => simp [hk, Except.isOk, Except.toBool] at hok
    | ok r =>
        obtain ⟨k | ⟨d, c⟩, n⟩ := r
        · simp only [hk] at hok
          split_ifs at hok with h1 h2 h3 h4
          · cases hok
          · cases hok
          · cases hok
          · cases hok
          · have hkl : k = l := lookup_clear hl hk (not_not.mp h1)
            subst hkl
            refine ⟨h2, (hlast h2 ⟨n, hk⟩).mpr ⟨h3, fun hdd => h4 (Or.inr hdd)⟩, n, rfl⟩
        · simp [hk, Except.isOk, Except.toBool] at hok
  · intro h
    obtain ⟨hne, hnormal, k, hk⟩ := h hdir
    obtain ⟨hdot, hdd⟩ := (hlast hne ⟨k, hk⟩).mp hnormal
    unfold rmdir
    rw [hk]
    simp only
    rw [if_neg (not_not.mpr hself), if_neg hne, if_neg hdot, if_neg]
    · rfl
    · rintro (h | h)
      · rw [hempty] at h
        cases h
      · exact hdd h

/-- What is removed is what is changed, where all that is changed is gone. -/
theorem removed_iff {t' : Tree} (hgone : ∀ k, Changed t t' k → t'.entry k = none)
    (hthere : ∀ k, Changed t t' k → t.entry k ≠ none) (k : Loc) :
    (t.entry k ≠ none ∧ t'.entry k = none) ↔ Changed t t' k := by
  constructor
  · rintro ⟨hsome, hnone⟩
    left
    rw [hnone]
    exact Ne.symm hsome
  · intro h
    exact ⟨hthere k h, hgone k h⟩

/-- **What a deletion removes**: all below the object, and the object if the system removes it. -/
theorem removeObject_removed {m : Nat}
    (hlookup : lookup s.env t false p p.fullComps = .ok (.found l, m)) {e : Entry}
    (he : t.entry l = some e) (k : Loc) :
    (t.entry k ≠ none ∧ (removeObject s t p (e = .dir)).1.entry k = none) ↔
      t.entry k ≠ none ∧ l <+: k ∧ (k = l → Removable s.env t p l) := by
  by_cases hdir : e = .dir
  · subst hdir
    obtain ⟨hchanged, hgone⟩ := removeObject_dir hlookup he
    rw [decide_eq_true rfl, removed_iff hgone (fun k hk => ((hchanged k).mp hk).1), hchanged,
      rmdir_clear_isOk hlookup he]
  · obtain ⟨hchanged, hgone⟩ := removeObject_file hlookup he hdir
    have hremovable : Removable s.env t p l := by
      intro hd
      rw [he] at hd
      exact absurd (Option.some.inj hd) hdir
    have hall : ∀ k, Changed t (removeObject s t p false).1 k → k = l := fun k => (hchanged k).mp
    rw [decide_eq_false hdir, removed_iff (fun k hk => by rw [hall k hk, hgone])
      (fun k hk => by rw [hall k hk, he]; exact Option.some_ne_none e), hchanged]
    constructor
    · rintro rfl
      exact ⟨by rw [he]; exact Option.some_ne_none e, List.prefix_rfl, fun _ => hremovable⟩
    · rintro ⟨hsome, hp, -⟩
      by_contra hne
      exact hsome (Tree.entry_below_file he hdir hp (Ne.symm hne))

theorem removal_inside_iff {m : Nat} (hR : R <+: l)
    (hlookup : lookup s.env t false p p.fullComps = .ok (.found l, m)) {e : Entry}
    (he : t.entry l = some e) :
    (∀ k, t.entry k ≠ none → (removeObject s t p (e = .dir)).1.entry k = none →
      k ≠ R ∧ NoneHidden R k) ↔
    (∀ n cs, t.entry (l ++ n :: cs) ≠ none → NoneHidden R (l ++ n :: cs)) ∧
      (Removable s.env t p l → l ≠ R ∧ NoneHidden R l) := by
  have hremoved := removeObject_removed hlookup he
  constructor
  · intro h
    refine ⟨fun n cs hsome => ?_, fun hremovable => ?_⟩
    · obtain ⟨-, hnone⟩ := (hremoved (l ++ n :: cs)).mpr
        ⟨hsome, List.prefix_append _ _, fun heq => by simp at heq⟩
      exact (h _ hsome hnone).2
    · have hsome : t.entry l ≠ none := by
        rw [he]
        exact Option.some_ne_none e
      obtain ⟨-, hnone⟩ := (hremoved l).mpr ⟨hsome, List.prefix_rfl, fun _ => hremovable⟩
      exact h l hsome hnone
  · rintro ⟨hbelow, hself⟩ k hsome hnone
    obtain ⟨-, ⟨cs, rfl⟩, hremovable⟩ := (hremoved k).mp ⟨hsome, hnone⟩
    cases cs with
    | nil =>
        rw [List.append_nil] at hremovable ⊢
        exact hself (hremovable rfl)
    | cons n cs =>
        refine ⟨?_, hbelow n cs hsome⟩
        -- the root lies above the object
        rintro rfl
        have := hR.length_le
        simp at this

/-- **`delete_file`** stays inside exactly under its condition. -/
theorem deletion_inside_iff (path confirm : Option String) :
    DeletionInside s t path confirm ↔ DeletionSpares s t path confirm := by
  unfold DeletionInside DeletionSpares
  cases htarget : deleteTarget s t path confirm with
  | error response =>
      rw [deleteFile_refused htarget]
      refine iff_of_true (fun R _ l hsome hnone => absurd hnone hsome) ?_
      rintro p ⟨⟩
  | ok p =>
      obtain ⟨-, hvalid, -⟩ := deleteTarget_eq_ok htarget
      obtain ⟨rel, R, loc, hv⟩ := validateAndResolvePath_eq_ok hvalid
      cases hcanon : canonicalize s.env t p with
      | error e =>
          rw [deleteFile_missing htarget hcanon]
          refine iff_of_true (fun R _ l hsome hnone => absurd hnone hsome) ?_
          rintro p' ⟨⟩ R' l _ hl
          rw [hcanon] at hl
          cases hl
      | ok l =>
          obtain ⟨⟨m, hlookup⟩, -⟩ := hv.lookup_nofollow hcanon
          obtain ⟨e, he⟩ := entry_of_canonicalize hcanon
          have hmeta := metadata_of_canonicalize hcanon he
          have hR : R <+: l := hv.openRead_inside hcanon
          rw [deleteFile_tree htarget hmeta]
          constructor
          · rintro h p' ⟨⟩ R' l' hroot hl
            rw [hcanon] at hl
            cases hl
            rw [hv.root] at hroot
            cases hroot
            exact (removal_inside_iff hR hlookup he).mp (h R hv.root)
          · intro h R' hroot
            rw [hv.root] at hroot
            cases hroot
            exact (removal_inside_iff hR hlookup he).mpr (h p rfl R l hv.root hcanon)

end

/-! ## Uploading -/

section

variable {s : AppState} {t : Tree} {dest : Path} {field : UploadField} {R loc : Loc}
  {filename : String}

/-- The temporary file of an upload has a name beside that of the destination. -/
theorem Resolved.namesIn_withFileName {rel : List String} {x : String}
    (h : Resolved s.env t s.rootDir dest rel R loc) (hname : dest.fileName = some x) {t' : Tree}
    (hnew : NewUuid t' field.uuid) {d : Loc} {k : Nat}
    (hreached : walk t' true s.env.maxSymlinks (s.rootDir.start s.env.cwd) (names dest.dirSegs)
      = .ok (.found d, k)) (hdir : t'.entry d = some .dir) :
    NamesIn s.env t' (dest.withFileName (tempName field.uuid)) d (tempName field.uuid) := by
  obtain ⟨habs, hslash, hnul, base, dots, hcomps, hbase, hdots⟩ :=
    withFileName_of_fileName hname (tempName_ne_empty field.uuid)
  have hempty : ¬ (dest.withFileName (tempName field.uuid)).IsEmpty := by
    rintro ⟨-, hnil⟩
    rw [hcomps] at hnil
    simp at hnil
  rw [hbase] at hreached
  refine ⟨hdir, normal_tempName _, hslash, k, fun follow => ?_⟩
  rw [lookup_eq (hnul h.hasNul hnew.2) hempty, Path.start, habs, ← Path.start, h.start_eq, hcomps,
    walk_append t' follow (List.cons_ne_nil _ _), walk_dots hdots hreached, andThen]

/-- For a root without a name of its own, the temporary file is put into the root. -/
theorem Resolved.namesIn_root {rel : List String}
    (h : Resolved s.env t s.rootDir dest rel R loc) (hnil : names rel = [])
    (hname : dest.fileName = none) (hnew : NewUuid t field.uuid) :
    NamesIn s.env t (dest.withFileName (tempName field.uuid)) R (tempName field.uuid) := by
  obtain ⟨hdir, -, -⟩ := h.root_lookup hnil
  obtain ⟨-, n, hroot⟩ := h.walk_root
  have hwith : dest.withFileName (tempName field.uuid) = dest.join [tempName field.uuid] := by
    rw [withFileName, hname]
  obtain ⟨hcomps, hslash, hnul⟩ := join_name dest (tempName_ne_empty field.uuid)
  rw [h.comps, hnil, List.append_nil] at hcomps
  have hempty : ¬ (dest.join [tempName field.uuid]).IsEmpty := by
    rintro ⟨-, hnil⟩
    rw [hcomps] at hnil
    simp at hnil
  rw [hwith]
  refine ⟨hdir, normal_tempName _, hslash, n, fun follow => ?_⟩
  rw [lookup_eq (hnul h.hasNul hnew.2) hempty,
    show (dest.join [tempName field.uuid]).start s.env.cwd = dest.start s.env.cwd from rfl,
    h.start_eq, hcomps,
    walk_append t follow (List.cons_ne_nil _ _), hroot, andThen]

/-- **Where an upload puts its temporary file.** -/
theorem upload_inside_iff
    (h : Validated s.env t s.rootDir dest (trimStartSlashes (filenameSegments filename)) R loc)
    (hnew : NewUuid (createParents s.env t dest).1 field.uuid) :
    TempInside s.env t R dest (dest.withFileName (tempName field.uuid)) ↔
      PlacedInside s.env t R s.rootDir filename := by
  have hfree : ∀ {t' : Tree} (d : Loc), NewUuid t' field.uuid →
      ∀ e, t'.entry (d ++ [tempName field.uuid]) = some e → ∃ i, e = .file i := by
    intro t' d hnew e he
    rw [hnew.1 d] at he
    cases he
  have hpath : requestedPath s.rootDir filename = dest := h.path.symm
  unfold TempInside
  cases hname : dest.fileName with
  | none =>
      have hnil := h.names_eq_nil hname
      rw [h.createParents_root hnil] at hnew ⊢
      have hin := h.namesIn_root hnil hname hnew
      have hleads := (hin.leadsInside_place (hfree R hnew)).mpr (List.prefix_refl R)
      refine iff_of_true (fun _ => (leadsInside_iff hin.slash).mp hleads) ⟨?_, ?_⟩
      · intro _ dir d k hsome
        rw [hpath, hname] at hsome
        exact absurd rfl hsome
      · exact fun hne => absurd hnil hne
  | some x =>
      by_cases hok : (createParents s.env t dest).2 = .ok ()
      · obtain ⟨d, k, hreached, hdir, hplaced⟩ := placedInside_iff h hname hok
        have hin := h.namesIn_withFileName hname hnew hreached hdir
        rw [hplaced, ← hin.leadsInside_place (hfree d hnew), leadsInside_iff hin.slash]
        exact ⟨fun h => h hok, fun h _ => h⟩
      · refine iff_of_true (fun h => absurd h hok) ?_
        -- then the directory is not there
        cases h.parents_cases hname with
        | there d k _ _ hsame _ => exact absurd (by rw [hsame]) hok
        | made t₁ d k _ hcreated _ _ _ _ _ _ => exact absurd (by rw [hcreated]) hok
        | blocked e hlost _ => exact placedInside_of_lost h.toResolved hname hlost

/-- A field of an upload stays inside exactly under its condition. -/
theorem field_inside_iff {targetDir : String} {st : UploadState}
    (hnew : ∀ dest, uploadTarget s st.tree targetDir (field.fileName.getD "") = .ok dest →
      NewUuid (createParents s.env st.tree dest).1 field.uuid) :
    FieldInside s targetDir st.tree field ↔ FieldPlaced s targetDir st.tree field := by
  unfold FieldInside FieldPlaced
  refine forall_congr' fun _ => forall_congr' fun dest => forall_congr' fun hdest =>
    forall_congr' fun R => forall_congr' fun hroot => ?_
  obtain ⟨hvalid, -, -⟩ := uploadTarget_eq_ok hdest
  obtain ⟨loc, h⟩ := validated_of_root hvalid hroot
  exact upload_inside_iff h (hnew dest hdest)

end

/-! ## All calls -/

/-- **Which calls stay strictly inside the root.** A deletion does if nothing hidden lies below what
it names, and what it names is neither hidden nor the root, or is kept by the system. An upload
does if the place of each field lies in a directory of the root, as that of the root itself does
not; and so does `write_file_safely`, if no link has the name of its temporary file. -/
theorem stays_inside_iff (s : AppState) (t : Tree) (call : FileCall)
    (hnew : call.DrawsNewUuids s t) : call.StaysInside s t ↔ call.Spares s t := by
  cases call with
  | delete path confirm => exact deletion_inside_iff path confirm
  | upload path fields readError =>
      exact along_congr (fun st field h => field_inside_iff h) _ _ hnew
  | writeFileSafely filename data =>
      refine forall_congr' fun p => forall_congr' fun hp => forall_congr' fun R =>
        forall_congr' fun hroot => ?_
      obtain ⟨loc, h⟩ := validated_of_root hp hroot
      exact temp_inside_iff h

/-- An upload of one file into the root. -/
theorem stays_inside_iff_plainUpload :
    let call : FileCall := .upload none [⟨some "a.txt", [.written [97]], "1"⟩] none
    call.DrawsNewUuids (plainState ["*.txt"]) emptyRoot ∧
    (call.StaysInside (plainState ["*.txt"]) emptyRoot ↔
      call.Spares (plainState ["*.txt"]) emptyRoot) := by
  intro call
  exact ⟨plainUpload_drawsNewUuids,
    stays_inside_iff (plainState ["*.txt"]) emptyRoot call plainUpload_drawsNewUuids⟩

/-- `/srv/tftp/d/.audit`. -/
def hiddenTree : Tree := (emptyRoot.addDir ["srv", "tftp"] "d").addDir ["srv", "tftp", "d"] ".audit"

/-- Writes to `/srv/tftp` without patterns, in which files are overwritten. -/
def overwriteState : AppState := { plainState [] with writeConfig := ⟨true, true, []⟩ }

/-- **Calls that leave the inside of the root**: the root is deleted, a hidden directory is deleted
with the one it is in, and an upload and `write_file_safely` put a file beside the root. -/
theorem root_and_hidden_removed :
    ¬ (FileCall.delete (some "/") (some "true")).StaysInside (plainState []) emptyRoot ∧
    ¬ (FileCall.delete (some "d") (some "true")).StaysInside (plainState []) hiddenTree ∧
    ¬ (FileCall.upload none [⟨some "/", [.written [97]], "1"⟩] none).StaysInside overwriteState
      emptyRoot ∧
    ¬ (FileCall.writeFileSafely "" [97]).StaysInside (plainState []) emptyRoot := by
  have hroot : ∀ s : AppState, s.env = ⟨[], 40⟩ → s.rootDir = ofString "/srv/tftp" →
      canonicalize s.env emptyRoot s.rootDir = .ok ["srv", "tftp"] := by
    intro s henv hdir
    rw [henv, hdir]
    decide +kernel
  refine ⟨?_, ?_, ?_, ?_⟩
  · intro h
    exact (h _ (hroot _ rfl rfl) ["srv", "tftp"] (by decide +kernel) (by decide +kernel)).1 rfl
  · intro h
    have hR : canonicalize (plainState []).env hiddenTree (plainState []).rootDir
        = .ok ["srv", "tftp"] := by decide +kernel
    have hhidden := (h _ hR ["srv", "tftp", "d", ".audit"] (by decide +kernel)
      (by decide +kernel)).2 ".audit" (by simp)
    exact absurd hhidden (by decide)
  · rintro ⟨h, -⟩
    have htarget : uploadTarget overwriteState emptyRoot "" "/" = .ok (ofString "/srv/tftp/") := by
      decide +kernel
    have hparents : (createParents overwriteState.env emptyRoot (ofString "/srv/tftp/")).2
        = .ok () := by decide +kernel
    have htemp : ∃ t' i, create overwriteState.env
        (createParents overwriteState.env emptyRoot (ofString "/srv/tftp/")).1
        ((ofString "/srv/tftp/").withFileName (tempName "1"))
          = .ok (t', ["srv", ".tftp-tmp-1"], i) := by
      rw [create_iff]
      exact ⟨by decide +kernel, .absent ["srv"] ".tftp-tmp-1", 40, by decide +kernel, trivial,
        rfl⟩
    obtain ⟨t', i, hcreate⟩ := htemp
    have hin := h (by decide) _ htarget _ (hroot _ rfl rfl) hparents t' _ i hcreate
    exact absurd hin (by decide)
  · intro h
    have hp : validateAndResolvePath (plainState []).env emptyRoot (plainState []).rootDir ""
        = .ok (ofString "/srv/tftp/") := by decide +kernel
    have hparents : (createParents (plainState []).env emptyRoot (ofString "/srv/tftp/")).2
        = .ok () := by decide +kernel
    have htemp : ∃ t' i, create (plainState []).env
        (createParents (plainState []).env emptyRoot (ofString "/srv/tftp/")).1
        (Commit.mk (ofString "/srv/tftp/") [97]).tempPath
          = .ok (t', ["srv", "tftp..tftp-tmp"], i) := by
      rw [create_iff]
      exact ⟨by decide +kernel, .absent ["srv"] "tftp..tftp-tmp", 40, by decide +kernel, trivial,
        rfl⟩
    obtain ⟨t', i, hcreate⟩ := htemp
    have hin := h _ hp _ (hroot _ rfl rfl) hparents t' _ i hcreate
    exact absurd hin (by decide)

end UsgTftp
