import UsgTftp.Lib.Reactive
import UsgTftp.Web.Store

set_option autoImplicit false

/-! # The write policy of the web UI

What a request changes in the tree is to be allowed by `write_config`: an object is created,
replaced or deleted only under a path that matches one of `allowed_patterns`, of which an empty
list allows nothing, and an upload replaces one only if `allow_overwrite` is set.

The three handlers do not keep to this. `upload_files` and `delete_file` skip the pattern check
if the list is empty, `delete_file` checks only the top of the directory that it removes, and
`create_directory` checks nothing. `web_write_policy_iff` says exactly which requests keep the
policy.
-/

namespace UsgTftp

open Posix Posix.Path Reactive

/-! ## The policy -/

inductive Handler where
  | uploadFiles
  | deleteFile
  | createDirectory
  deriving DecidableEq, Repr

/-- The policy lets the object at `q` be changed. -/
def AppState.Permits (s : AppState) (q : Path) : Prop :=
  s.writeConfig.enabled = true ∧ isWriteAllowed s.glob q s.rootDir s.writeConfig = true

/-- The path by which a request for `p` gets to the object at a location: a part of `p` that names
it after the request; `p`, if that named it before; or `p` and the names that led to it from the
directory `p` named before. -/
inductive ReachedBy (env : Env) (t t' : Tree) (p : Path) : Path → Loc → Prop
  | part {q : Path} {l : Loc} {m : Nat} (mem : q ∈ p :: p.parents)
      (named : lookup env t' false q q.comps = .ok (.found l, m)) : ReachedBy env t t' p q l
  | itself {l : Loc} (named : canonicalize env t p = .ok l) : ReachedBy env t t' p p l
  | below {d : Loc} {n : String} {cs : List String} (named : canonicalize env t p = .ok d) :
      ReachedBy env t t' p (p.join (n :: cs)) (d ++ n :: cs)

/-- The policy allows the change at `l`, reached by `q`. New parent directories of an allowed file
need no pattern of their own. -/
def ChangeAllowed (s : AppState) (handler : Handler) (t t' : Tree) (p q : Path) (l : Loc) : Prop :=
  s.Permits q ∧ (handler = .uploadFiles → t.entry l ≠ none → s.writeConfig.allowOverwrite = true) ∨
  handler = .uploadFiles ∧ q ∈ p.parents ∧ t.entry l = none ∧ t'.entry l = some .dir ∧ s.Permits p

/-- A call of a handler for the path `p`, which found the tree `t` and left `t'`, kept the policy:
all that it changed it got to by a path, and every such path is allowed. -/
def KeepsPolicy (s : AppState) (handler : Handler) (t t' : Tree) (p : Path) : Prop :=
  ∀ l, Changed t t' l → (∃ q, ReachedBy s.env t t' p q l) ∧
    ∀ q, ReachedBy s.env t t' p q l → ChangeAllowed s handler t t' p q l

/-- The path that a request asks for, whether or not it is accepted. -/
def requestPath (s : AppState) (filename : String) : Path :=
  s.rootDir.join (trimStartSlashes (filenameSegments filename))

inductive WebRequest where
  | upload (path : Option String) (fields : List UploadField) (readError : Option String)
  | delete (path confirm : Option String)
  | mkdir (path : Option String)
  deriving DecidableEq, Repr

/-- The tree and the response. -/
def WebRequest.handle (s : AppState) (t : Tree) : WebRequest → Tree × Response
  | .upload path fields readError => uploadFiles s t path fields readError
  | .delete path confirm => deleteFile s t path confirm
  | .mkdir path => createDirectory s t path

/-- The fields that `upload_files` gets to. -/
def handledFields (s : AppState) (fields : List UploadField) : List UploadField :=
  if s.writeConfig.enabled then fields else []

theorem uploadFiles_tree (s : AppState) (t : Tree) (path : Option String)
    (fields : List UploadField) (readError : Option String) :
    (uploadFiles s t path fields readError).1
      = ((handledFields s fields).foldl (uploadField s (path.getD "")) ⟨t, [], []⟩).tree := by
  unfold uploadFiles requireWrite handledFields
  split_ifs <;> rfl

/-- With writes disabled no request changes anything. -/
theorem handle_of_disabled {s : AppState} (h : s.writeConfig.enabled = false) (t : Tree)
    (req : WebRequest) : (req.handle s t).1 = t := by
  have hrequire : requireWrite s
      = .error (.apiError .forbidden "Write operations are disabled") := by
    rw [requireWrite, h, if_neg Bool.false_ne_true]
  cases req with
  | upload path fields readError =>
      show (uploadFiles s t path fields readError).1 = t
      rw [uploadFiles, hrequire]
  | delete path confirm =>
      show (deleteFile s t path confirm).1 = t
      rw [deleteFile, deleteTarget, hrequire]
  | mkdir path =>
      show (createDirectory s t path).1 = t
      rw [createDirectory, directoryTarget, hrequire]

/-- **A request keeps the policy**, an upload with each of its fields. -/
def WebRequest.KeepsPolicy (s : AppState) (t : Tree) : WebRequest → Prop
  | .upload path fields _ =>
      Along (uploadField s (path.getD ""))
        (fun st field => UsgTftp.KeepsPolicy s .uploadFiles st.tree
          (uploadField s (path.getD "") st field).tree
          (requestPath s (fullRelative (path.getD "") (field.fileName.getD ""))))
        ⟨t, [], []⟩ (handledFields s fields)
  | .delete path confirm =>
      UsgTftp.KeepsPolicy s .deleteFile t (deleteFile s t path confirm).1
        (requestPath s (path.getD ""))
  | .mkdir path =>
      UsgTftp.KeepsPolicy s .createDirectory t (createDirectory s t path).1
        (requestPath s (path.getD ""))

/-- Every UUID that is drawn for a request is new at that time, after the parents of the file were
made. -/
def WebRequest.DrawsNewUuids (s : AppState) (t : Tree) : WebRequest → Prop
  | .upload path fields _ =>
      Along (uploadField s (path.getD ""))
        (fun st field => ∀ dest,
          uploadTarget s st.tree (path.getD "") (field.fileName.getD "") = .ok dest →
          NewUuid (createParents s.env st.tree dest).1 field.uuid)
        ⟨t, [], []⟩ (handledFields s fields)
  | _ => True

/-! ## When a request keeps the policy -/

/-- The path names a place for a file: a file or nothing, in a directory that is there. -/
def takesFile (env : Env) (t : Tree) (p : Path) : Bool :=
  !p.trailingSlash &&
    match lookup env t false p p.comps with
    | .ok (.found l, _) => t.entry l ≠ some .dir
    | .ok (.absent _ _, _) => true
    | .error _ => false

/-- If no pattern is set, a field that is not refused needs no new directory, and breaks off or has
no place. -/
def FieldMeets (s : AppState) (targetDir : String) (t : Tree) (field : UploadField) : Prop :=
  field.fileName.getD "" ≠ "" →
  ∀ dest, uploadTarget s t targetDir (field.fileName.getD "") = .ok dest →
    s.writeConfig.allowedPatterns = [] → newDirs s.env t dest.parents = [] ∧
      (field.chunks.all Chunk.isWritten = false ∨ takesFile s.env t dest = false)

/-- Everything below the object at `l`, which `p` names, is allowed, and if no pattern is set, the
object is a directory that the system does not remove. -/
def RemovalMeets (s : AppState) (t : Tree) (p : Path) (l : Loc) : Prop :=
  (∀ n cs, t.entry (l ++ n :: cs) ≠ none → s.Permits (p.join (n :: cs))) ∧
  (s.writeConfig.allowedPatterns = [] → t.entry l = some .dir ∧ (rmdir s.env t p).isOk = false)

/-- The condition on a deletion that is not refused. -/
def DeletionMeets (s : AppState) (t : Tree) (path confirm : Option String) : Prop :=
  ∀ p, deleteTarget s t path confirm = .ok p → ∀ l, canonicalize s.env t p = .ok l →
    RemovalMeets s t p l

/-- Every directory that is missing on a path that is not refused is allowed, unless a link that
leads nowhere is among them. -/
def DirectoryMeets (s : AppState) (t : Tree) (path : Option String) : Prop :=
  ∀ p, directoryTarget s t path = .ok p → ∀ q ∈ newDirs s.env t (p :: p.parents), s.Permits q

/-- The condition for a request to keep the policy. -/
def WebRequest.Meets (s : AppState) (t : Tree) : WebRequest → Prop
  | .upload path fields _ =>
      Along (uploadField s (path.getD ""))
        (fun st field => FieldMeets s (path.getD "") st.tree field) ⟨t, [], []⟩
        (handledFields s fields)
  | .delete path confirm => DeletionMeets s t path confirm
  | .mkdir path => DirectoryMeets s t path

/-! ## Generalities -/

section

variable {s : AppState} {t t' : Tree} {p q : Path}

theorem validated_requestPath {filename : String}
    (h : validateAndResolvePath s.env t s.rootDir filename = .ok p) :
    p = requestPath s filename := by
  obtain ⟨R, loc, hv⟩ := validated_requested h
  exact hv.path

/-- An empty list allows nothing. -/
theorem not_permits_of_nil (h : s.writeConfig.allowedPatterns = []) : ¬ s.Permits q := by
  rintro ⟨-, hallowed⟩
  unfold isWriteAllowed at hallowed
  split at hallowed
  · cases hallowed
  · rw [h] at hallowed
    cases hallowed

/-- What is not changed is in keeping with the policy. -/
theorem keepsPolicy_of_not_changed {handler : Handler} (h : ∀ l, ¬ Changed t t' l) :
    KeepsPolicy s handler t t' p :=
  fun l hl => absurd hl (h l)

/-- If no pattern is set, only a call that changes nothing keeps the policy. -/
theorem keepsPolicy_nil_iff {handler : Handler} (hnil : s.writeConfig.allowedPatterns = []) :
    KeepsPolicy s handler t t' p ↔ ∀ l, ¬ Changed t t' l := by
  constructor
  · intro h l hl
    obtain ⟨⟨q, hq⟩, hall⟩ := h l hl
    rcases hall q hq with ⟨hpermits, -⟩ | ⟨-, -, -, -, hpermits⟩
    · exact not_permits_of_nil hnil hpermits
    · exact not_permits_of_nil hnil hpermits
  · exact keepsPolicy_of_not_changed

/-- What a path before the call named, the paths below it and the path itself are told apart. -/
theorem ReachedBy.of_canonicalize {d : Loc} (hd : canonicalize s.env t p = .ok d) {l : Loc}
    (hgone : t'.entry l = none) (h : ReachedBy s.env t t' p q l) :
    (l = d ∧ q = p) ∨ ∃ n cs, l = d ++ n :: cs ∧ q = p.join (n :: cs) := by
  cases h with
  | part hq hnamed => exact absurd hgone (lookup_found_entry hnamed)
  | itself hnamed =>
      rw [hd] at hnamed
      exact Or.inl ⟨(Except.ok.inj hnamed).symm, rfl⟩
  | @below d' n cs hnamed =>
      rw [hd] at hnamed
      cases hnamed
      exact Or.inr ⟨n, cs, rfl, rfl⟩

/-! ## Making directories -/

theorem mem_of_mem_newDirs {ps : List Path} (h : q ∈ newDirs s.env t ps) : q ∈ ps := by
  unfold newDirs at h
  split_ifs at h
  · cases h
  · exact (List.takeWhile_sublist _).subset h

theorem not_exists_of_newDirs {ps : List Path} (h : newDirs s.env t (p :: ps) ≠ []) (l : Loc) :
    canonicalize s.env t p ≠ .ok l := by
  intro hl
  refine h (newDirs_of_head ?_)
  rintro x ⟨⟩
  exact Or.inr (pathExists_iff.mpr ⟨l, hl⟩)

/-- Adding directories changes the entries that are added. -/
theorem changed_iff_of_dirsMade {ps new : List Path} (h : DirsMade s.env t t' ps new) (l : Loc) :
    Changed t t' l ↔ t'.entry l ≠ t.entry l := by
  constructor
  · rintro (hl | ⟨i, -, hne⟩)
    · exact hl
    · exact absurd (by rw [h.content]) hne
  · exact Or.inl

/-- **`create_directory`** keeps the policy exactly if each directory that it makes is allowed. -/
theorem createDirectory_keepsPolicy_iff (path : Option String) :
    KeepsPolicy s .createDirectory t (createDirectory s t path).1 (requestPath s (path.getD "")) ↔
      DirectoryMeets s t path := by
  unfold DirectoryMeets
  cases htarget : directoryTarget s t path with
  | error response =>
      have hsame : (createDirectory s t path).1 = t := by rw [createDirectory, htarget]
      rw [hsame]
      refine iff_of_true (keepsPolicy_of_not_changed (not_changed t)) ?_
      rintro p ⟨⟩
  | ok dest =>
      obtain ⟨-, hvalid⟩ := directoryTarget_eq_ok htarget
      obtain ⟨rel, R, loc, hv⟩ := validateAndResolvePath_eq_ok hvalid
      have hmade := hv.createDirAll_made
      rw [← validated_requestPath hvalid]
      rw [createDirectory_tree htarget]
      generalize (createDirAll s.env t (dest :: dest.parents)).1 = t' at hmade
      constructor
      · rintro h p ⟨⟩ q hq
        obtain ⟨l, m, hl, hnone, hdir⟩ := hmade.made q hq
        have hchanged : Changed t t' l := Or.inl (by rw [hnone, hdir]; exact Option.some_ne_none _)
        rcases (h l hchanged).2 q (.part (mem_of_mem_newDirs hq) hl) with ⟨hpermits, -⟩ | ⟨hh, -⟩
        · exact hpermits
        · cases hh
      · intro h l hl
        rw [changed_iff_of_dirsMade hmade] at hl
        obtain ⟨hnone, hdir, x, hx, m, hm⟩ := hmade.named l hl
        have hno := not_exists_of_newDirs (List.ne_nil_of_mem hx)
        refine ⟨⟨x, .part (mem_of_mem_newDirs hx) hm⟩, fun q hq => ?_⟩
        cases hq with
        | part hq hnamed =>
            exact Or.inl ⟨h dest rfl q (hmade.only q hq l _ hnamed hnone), by intro hh; cases hh⟩
        | itself hnamed => exact absurd hnamed (hno _)
        | below hnamed => exact absurd hnamed (hno _)

end

/-! ## Deleting -/

section

variable {s : AppState} {t t' : Tree} {p q : Path} {rel : List String} {R loc l : Loc}

/-- An accepted path names the object itself, not a link to it. -/
theorem Validated.lookup_nofollow (h : Validated s.env t s.rootDir p rel R loc)
    (hl : canonicalize s.env t p = .ok l) :
    (∃ m, lookup s.env t false p p.fullComps = .ok (.found l, m)) ∧
      ∀ target, t.entry l ≠ some (.symlink target) := by
  obtain ⟨n, hn⟩ := canonicalize_eq_ok.mp hl
  rw [lookup_eq h.hasNul h.not_isEmpty] at hn
  obtain ⟨l', m, hl'⟩ := walk_nofollow_found t _ _ _ _ _ hn
  have hlink := h.link
  rw [rejectSymlink, symlinkMetadata, lookup_eq h.hasNul h.not_isEmpty, hl'] at hlink
  have hplain : ∀ target, t.entry l' ≠ some (.symlink target) := by
    intro target he
    simp only [he] at hlink
    cases hlink
  have hfollow := walk_follow t _ _ _ _ hl' (by
    intro k i target hk
    cases hk
    exact hplain target)
  rw [hn] at hfollow
  cases hfollow
  exact ⟨⟨n, by rw [lookup_eq h.hasNul h.not_isEmpty, hl']⟩, hplain⟩

/-- An accepted path that names no directory has no slash at its end. -/
theorem lookup_comps_of_not_dir {m : Nat}
    (hl : lookup s.env t false p p.fullComps = .ok (.found l, m)) (hdir : t.entry l ≠ some .dir) :
    p.trailingSlash = false ∧ lookup s.env t false p p.comps = .ok (.found l, m) := by
  by_cases hslash : p.trailingSlash = true
  · exfalso
    obtain ⟨hnul, hempty⟩ := lookup_ok hl
    rw [lookup_eq hnul hempty, fullComps, if_pos hslash] at hl
    obtain ⟨d, k, -, hd, hw⟩ := walk_prefix (List.cons_ne_nil _ _) hl
    rw [walk_dot hd, walk_nil] at hw
    cases hw
    exact hdir hd
  · rw [Bool.not_eq_true] at hslash
    exact ⟨hslash, by rwa [fullComps_of_noSlash hslash] at hl⟩

/-- Deleting what is no directory changes that object, and it is gone. -/
theorem removeObject_file {m : Nat} (hl : lookup s.env t false p p.fullComps = .ok (.found l, m))
    {e : Entry} (he : t.entry l = some e) (hdir : e ≠ .dir) :
    (∀ k, Changed t (removeObject s t p false).1 k ↔ k = l) ∧
    (removeObject s t p false).1.entry l = none := by
  have hne : t.entry l ≠ some .dir := by
    rw [he]
    exact fun h => hdir (Option.some.inj h)
  obtain ⟨hslash, hl'⟩ := lookup_comps_of_not_dir hl hne
  have hremove : removeFile s.env t p = .ok (t.remove l) :=
    removeFile_eq_ok.mpr ⟨hslash, l, m, hl', hne, rfl⟩
  have hobj : (removeObject s t p false).1 = t.remove l := by
    rw [removeObject, if_neg Bool.false_ne_true, hremove]
  have hentry := Tree.remove_entry_of_not_dir he hdir
  rw [hobj]
  refine ⟨fun k => ⟨?_, ?_⟩, by rw [hentry, if_pos rfl]⟩
  · rintro (hk | ⟨i, -, hk⟩)
    · by_contra hne
      rw [hentry, if_neg hne] at hk
      exact hk rfl
    · exact absurd (by rw [Tree.remove_content]) hk
  · rintro rfl
    left
    rw [hentry, if_pos rfl, he]
    exact (Option.some_ne_none e).symm

/-- Deleting a directory changes what is below it, and itself if the system removes it; what is
changed is gone. -/
theorem removeObject_dir {m : Nat} (hl : lookup s.env t false p p.fullComps = .ok (.found l, m))
    (he : t.entry l = some .dir) :
    (∀ k, Changed t (removeObject s t p true).1 k ↔
      t.entry k ≠ none ∧ l <+: k ∧ (k = l → (rmdir s.env (t.clear l) p).isOk = true)) ∧
    ∀ k, Changed t (removeObject s t p true).1 k →
      (removeObject s t p true).1.entry k = none := by
  obtain ⟨hcontent, hentry⟩ := removeDirAll_dir hl he
  have hobj : removeObject s t p true = removeDirAll s.env t p := by
    rw [removeObject, if_pos rfl]
  rw [hobj]
  have hchanged : ∀ k, Changed t (removeDirAll s.env t p).1 k ↔
      (removeDirAll s.env t p).1.entry k ≠ t.entry k := by
    intro k
    constructor
    · rintro (hk | ⟨i, -, hk⟩)
      · exact hk
      · exact absurd (by rw [hcontent]) hk
    · exact Or.inl
  refine ⟨fun k => ?_, fun k hk => ?_⟩
  · rw [hchanged, hentry]
    split_ifs with hgone
    · exact ⟨fun h => ⟨Ne.symm h, hgone⟩, fun h => Ne.symm h.1⟩
    · exact iff_of_false (fun h => h rfl) (fun h => hgone h.2)
  · rw [hchanged, hentry] at hk
    rw [hentry]
    split_ifs at hk ⊢ with hgone
    · rfl
    · exact absurd rfl hk

/-- The changes of a deletion are allowed if the paths to what is gone are. -/
theorem keepsPolicy_delete_iff (hl : canonicalize s.env t p = .ok l)
    (hbelow : ∀ k, Changed t t' k → l <+: k) (hgone : ∀ k, Changed t t' k → t'.entry k = none) :
    KeepsPolicy s .deleteFile t t' p ↔
      (Changed t t' l → s.Permits p) ∧
      ∀ n cs, Changed t t' (l ++ n :: cs) → s.Permits (p.join (n :: cs)) := by
  have hallowed : ∀ q k, ChangeAllowed s .deleteFile t t' p q k ↔ s.Permits q := by
    intro q k
    constructor
    · rintro (⟨hq, -⟩ | ⟨hh, -⟩)
      · exact hq
      · cases hh
    · exact fun hq => Or.inl ⟨hq, by intro hh; cases hh⟩
  constructor
  · intro h
    refine ⟨fun hc => ?_, fun n cs hc => ?_⟩
    · exact (hallowed p l).mp ((h l hc).2 p (.itself hl))
    · exact (hallowed _ _).mp ((h _ hc).2 _ (.below hl))
  · rintro ⟨hself, hrest⟩ k hk
    obtain ⟨cs, rfl⟩ := hbelow k hk
    refine ⟨?_, fun q hq => (hallowed q _).mpr ?_⟩
    · cases cs with
      | nil =>
          rw [List.append_nil]
          exact ⟨p, .itself hl⟩
      | cons n cs => exact ⟨_, .below hl⟩
    · rcases hq.of_canonicalize hl (hgone _ hk) with ⟨heq, rfl⟩ | ⟨n, cs', heq, rfl⟩
      · rw [heq] at hk
        exact hself hk
      · rw [heq] at hk
        exact hrest n cs' hk

theorem removeDir_keepsPolicy_iff {m : Nat} (hcanon : canonicalize s.env t p = .ok l)
    (hlookup : lookup s.env t false p p.fullComps = .ok (.found l, m)) (he : t.entry l = some .dir)
    (hself : s.Permits p ↔ s.writeConfig.allowedPatterns ≠ []) :
    KeepsPolicy s .deleteFile t (removeObject s t p true).1 p ↔ RemovalMeets s t p l := by
  obtain ⟨hchanged, hgone⟩ := removeObject_dir hlookup he
  rw [keepsPolicy_delete_iff hcanon (fun k hk => ((hchanged k).mp hk).2.1) hgone]
  have hbelow : ∀ n cs, Changed t (removeObject s t p true).1 (l ++ n :: cs) ↔
      t.entry (l ++ n :: cs) ≠ none := by
    intro n cs
    rw [hchanged]
    exact ⟨And.left, fun h => ⟨h, List.prefix_append _ _, fun heq => by simp at heq⟩⟩
  have htop : Changed t (removeObject s t p true).1 l ↔
      (rmdir s.env (t.clear l) p).isOk = true := by
    rw [hchanged, he]
    exact ⟨fun h => h.2.2 rfl, fun h => ⟨Option.some_ne_none _, List.prefix_rfl, fun _ => h⟩⟩
  simp only [hbelow, htop, RemovalMeets]
  -- without a pattern nothing may be below, and then clearing changes nothing
  have hclear : s.writeConfig.allowedPatterns = [] →
      (∀ n cs, t.entry (l ++ n :: cs) ≠ none → s.Permits (p.join (n :: cs))) →
      (rmdir s.env (t.clear l) p).isOk = (rmdir s.env t p).isOk := by
    intro hnil h
    apply rmdir_isOk_congr
    funext k
    rw [Tree.clear_entry]
    split_ifs with hk
    · obtain ⟨⟨cs, rfl⟩, hne⟩ := hk
      obtain ⟨n, cs, rfl⟩ := List.exists_cons_of_ne_nil (l := cs)
        (by rintro rfl; exact hne (List.append_nil l))
      by_contra hsome
      exact not_permits_of_nil hnil (h n cs (Ne.symm hsome))
    · rfl
  constructor
  · rintro ⟨htop, h⟩
    refine ⟨h, fun hnil => ⟨he, ?_⟩⟩
    rw [← hclear hnil h, ← Bool.not_eq_true]
    exact fun hok => not_permits_of_nil hnil (htop hok)
  · rintro ⟨h, hkept⟩
    refine ⟨fun hok => hself.mpr fun hnil => ?_, h⟩
    rw [hclear hnil h, (hkept hnil).2] at hok
    cases hok

theorem removeFile_keepsPolicy_iff {m : Nat} (hcanon : canonicalize s.env t p = .ok l)
    (hlookup : lookup s.env t false p p.fullComps = .ok (.found l, m)) {e : Entry}
    (he : t.entry l = some e) (hdir : e ≠ .dir)
    (hself : s.Permits p ↔ s.writeConfig.allowedPatterns ≠ []) :
    KeepsPolicy s .deleteFile t (removeObject s t p false).1 p ↔ RemovalMeets s t p l := by
  obtain ⟨hchanged, hgone⟩ := removeObject_file hlookup he hdir
  rw [keepsPolicy_delete_iff hcanon (fun k hk => ((hchanged k).mp hk) ▸ List.prefix_rfl)
    (fun k hk => ((hchanged k).mp hk) ▸ hgone), hself]
  have hne : ∀ n cs, l ++ n :: cs ≠ l := by
    intro n cs h
    simp at h
  have hnone : ∀ n cs, t.entry (l ++ n :: cs) = none := by
    intro n cs
    exact Tree.entry_below_file he hdir (List.prefix_append _ _) (Ne.symm (hne n cs))
  constructor
  · rintro ⟨h, -⟩
    refine ⟨fun n cs hsome => absurd (hnone n cs) hsome, fun hnil => ?_⟩
    exact absurd hnil (h ((hchanged l).mpr rfl))
  · rintro ⟨-, h⟩
    refine ⟨fun _ hnil => ?_, fun n cs hc => absurd ((hchanged _).mp hc) (hne n cs)⟩
    rw [(h hnil).1] at he
    exact hdir (Option.some.inj he).symm

/-- **`delete_file`** keeps the policy exactly if all that it removes is allowed. -/
theorem deleteFile_keepsPolicy_iff (path confirm : Option String) :
    KeepsPolicy s .deleteFile t (deleteFile s t path confirm).1 (requestPath s (path.getD "")) ↔
      DeletionMeets s t path confirm := by
  unfold DeletionMeets
  cases htarget : deleteTarget s t path confirm with
  | error response =>
      rw [deleteFile_refused htarget]
      refine iff_of_true (keepsPolicy_of_not_changed (not_changed t)) ?_
      rintro p ⟨⟩
  | ok p =>
      obtain ⟨henabled, hvalid, hpattern⟩ := deleteTarget_eq_ok htarget
      obtain ⟨rel, R, loc, hv⟩ := validateAndResolvePath_eq_ok hvalid
      rw [← validated_requestPath hvalid]
      cases hcanon : canonicalize s.env t p with
      | error e =>
          rw [deleteFile_missing htarget hcanon]
          refine iff_of_true (keepsPolicy_of_not_changed (not_changed t)) ?_
          rintro p' ⟨⟩ l hl
          rw [hcanon] at hl
          cases hl
      | ok l =>
          obtain ⟨⟨m, hlookup⟩, -⟩ := hv.lookup_nofollow hcanon
          obtain ⟨e, he⟩ := entry_of_canonicalize hcanon
          have hmeta := metadata_of_canonicalize hcanon he
          have hself : s.Permits p ↔ s.writeConfig.allowedPatterns ≠ [] :=
            ⟨fun h hnil => not_permits_of_nil hnil h, fun h => ⟨henabled, hpattern h⟩⟩
          have hremoval : KeepsPolicy s .deleteFile t (deleteFile s t path confirm).1 p ↔
              RemovalMeets s t p l := by
            rw [deleteFile_tree htarget hmeta]
            by_cases hdir : e = .dir
            · rw [decide_eq_true hdir]
              exact removeDir_keepsPolicy_iff hcanon hlookup (hdir ▸ he) hself
            · rw [decide_eq_false hdir]
              exact removeFile_keepsPolicy_iff hcanon hlookup he hdir hself
          rw [hremoval]
          constructor
          · rintro h p' ⟨⟩ l' hl'
            rw [hcanon] at hl'
            cases hl'
            exact h
          · intro h
            exact h p rfl l hcanon

end

end UsgTftp
