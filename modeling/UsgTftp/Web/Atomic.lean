import UsgTftp.Web.FileStore
import UsgTftp.Web.Parallel

set_option autoImplicit false

/-! # Requests in parallel take effect at one point

The calls of any number of uploads interleave, with deletions and new directories in between, and
readers come in at any time. No name that starts with a dot can be asked for, so readers see the
tree without such names (`visible`). `parallel_requests_atomic`: in every state they find what a
sequence of whole operations leaves. An upload of a field has one such operation, at the call that
lists it, and all the bytes of the field are there from then on; before it, none is. A deletion is
one call here.
-/

namespace UsgTftp

open Posix Posix.Path Reactive PrefixStore

/-! ## What can be read -/

/-- The last name starts with a dot. -/
def dotted (l : Loc) : Bool :=
  match l.getLast? with
  | some x => startsWithDot x
  | none => false

@[simp] theorem dotted_append (d : Loc) (x : String) : dotted (d ++ [x]) = startsWithDot x := by
  simp [dotted]

/-- The files that a request can name. -/
def visible (t : Tree) : Store String Bytes := mask dotted (stored t)

section Visible

variable {t t' : Tree} {loc : Loc} {i : Nat}

theorem visible_congr (h : ∀ l, dotted l = false → stored t' l = stored t l) :
    visible t' = visible t := by
  funext l
  show (if dotted l then none else stored t' l) = if dotted l then none else stored t l
  split_ifs with hl
  · rfl
  · exact h l (by simpa using hl)

theorem visible_fileAdded (h : FileAdded t t' loc i) (hloc : dotted loc = true) :
    visible t' = visible t := by
  refine visible_congr fun l hl => ?_
  rw [stored_fileAdded h, Op.apply_put, Function.update_of_ne]
  rintro rfl
  rw [hloc] at hl
  cases hl

theorem visible_setContent (h : ∀ l, t.entry l = some (.file i) → dotted l = true)
    (bytes : Bytes) : visible (t.setContent i bytes) = visible t := by
  refine visible_congr fun l hl => stored_of_entry rfl fun j hj => Function.update_of_ne ?_ _ _
  rintro rfl
  rw [h l hj] at hl
  cases hl

theorem visible_fileMoved {old new : Loc} (h : FileMoved t t' old new i) (hold : dotted old = true)
    (hnew : dotted new = false) :
    visible t' = (Op.put new (t.content i)).apply (visible t) := by
  have hremove : mask dotted ((Op.remove old).apply (stored t)) = mask dotted (stored t) := by
    funext l
    show (if dotted l then none else if old <+: l then none else stored t l)
      = if dotted l then none else stored t l
    split_ifs with hl hbelow
    · rfl
    · refine (stored_below h.source (by intro hd; cases hd) hbelow ?_).symm
      rintro rfl
      exact hl hold
    · rfl
  calc
    visible t' = mask dotted ((Op.put new (t.content i)).apply ((Op.remove old).apply (stored t))) := by
      rw [visible, stored_fileMoved h]
      rfl
    _ = (Op.put new (t.content i)).apply (mask dotted ((Op.remove old).apply (stored t))) :=
      mask_apply (by
        rintro key value ⟨⟩
        exact hnew) _
    _ = (Op.put new (t.content i)).apply (visible t) := by rw [hremove]; rfl

end Visible

/-! ## Removing -/

/-- What is removed is there, and of the kind that was seen before. -/
def removeOps (s : AppState) (t : Tree) (filePath : Path) (isDir : Bool) : List FileOp :=
  match lookup s.env t false filePath filePath.fullComps with
  | .ok (.found l, _) => if decide (t.entry l = some .dir) = isDir then [.remove l] else []
  | _ => []

section Remove

variable {s : AppState} {t : Tree} {p : Path}

theorem stored_remove_link {l : Loc} {target : Path} (he : t.entry l = some (.symlink target)) :
    stored (t.remove l) = stored t := by
  funext k
  have hentry := Tree.remove_entry_of_not_dir he (by intro hd; cases hd) k
  by_cases hk : k = l
  · rw [if_pos hk] at hentry
    rw [hk] at hentry ⊢
    rw [stored_of_not_file, stored_of_not_file]
    · intro i hi
      rw [he] at hi
      cases hi
    · intro i hi
      rw [hentry] at hi
      cases hi
  · rw [if_neg hk] at hentry
    exact stored_of_entry hentry fun j _ => by rw [Tree.remove_content]

theorem removeOps_found {l : Loc} {m : Nat} {isDir : Bool}
    (hl : lookup s.env t false p p.fullComps = .ok (.found l, m))
    (hkind : decide (t.entry l = some .dir) = isDir) : removeOps s t p isDir = [.remove l] := by
  simp only [removeOps, hl, hkind, if_true]

theorem removeOps_eq_nil {isDir : Bool}
    (h : ∀ l m, lookup s.env t false p p.fullComps = .ok (.found l, m) →
      decide (t.entry l = some .dir) ≠ isDir) : removeOps s t p isDir = [] := by
  unfold removeOps
  split
  · rename_i l m hl
    exact if_neg (h l m hl)
  · rfl

theorem stored_removeFile :
    stored (removeObject s t p false).1 = replay (stored t) (removeOps s t p false) := by
  cases hr : removeFile s.env t p with
  | ok t' =>
      obtain ⟨hslash, l, m, hl, hne, rfl⟩ := removeFile_eq_ok.mp hr
      obtain ⟨e, he⟩ := Option.ne_none_iff_exists'.mp (lookup_found_entry hl)
      have hdir : e ≠ .dir := fun h => hne (by rw [he, h])
      rw [← fullComps_of_noSlash hslash] at hl
      have hstored := stored_removeObject hl he
      rw [decide_eq_false hdir] at hstored
      rw [hstored, removeOps_found hl (decide_eq_false hne)]
      rfl
  | error e =>
      have hsame : removeObject s t p false = (t, .error e) := by
        rw [removeObject, if_neg Bool.false_ne_true, hr]
      rw [hsame, removeOps_eq_nil]
      · rfl
      · intro l m hl hkind
        have hne : t.entry l ≠ some .dir := of_decide_eq_false hkind
        obtain ⟨hslash, hl'⟩ := lookup_comps_of_not_dir hl hne
        rw [removeFile_eq_ok.mpr ⟨hslash, l, m, hl', hne, rfl⟩] at hr
        cases hr

theorem stored_removeDirAll :
    stored (removeObject s t p true).1 = replay (stored t) (removeOps s t p true) := by
  by_cases hfound : ∃ l m, lookup s.env t false p p.fullComps = .ok (.found l, m) ∧
      t.entry l = some .dir
  · obtain ⟨l, m, hl, he⟩ := hfound
    have hstored := stored_removeObject hl he
    rw [decide_eq_true rfl] at hstored
    rw [hstored, removeOps_found hl (decide_eq_true he)]
    rfl
  · rw [removeOps_eq_nil fun l m hl hkind => hfound ⟨l, m, hl, of_decide_eq_true hkind⟩]
    show stored (removeObject s t p true).1 = stored t
    rw [removeObject, if_pos rfl, removeDirAll]
    split
    · rfl
    · rfl
    · rename_i l m hl
      split
      · rename_i he
        exact absurd ⟨l, m, hl, he⟩ hfound
      · -- a link goes, and what it names stays
        rename_i target he
        have hne : t.entry l ≠ some .dir := by
          rw [he]
          intro hd
          cases hd
        obtain ⟨hslash, hl'⟩ := lookup_comps_of_not_dir hl hne
        rw [removeFile_eq_ok.mpr ⟨hslash, l, m, hl', hne, rfl⟩]
        exact stored_remove_link he
      · rfl

/-- **Removing** whatever the path leads to by now. -/
theorem stored_removeOps (isDir : Bool) :
    stored (removeObject s t p isDir).1 = replay (stored t) (removeOps s t p isDir) := by
  cases isDir with
  | false => exact stored_removeFile
  | true => exact stored_removeDirAll

theorem visible_removeOps (isDir : Bool) :
    visible (removeObject s t p isDir).1 = replay (visible t) (removeOps s t p isDir) := by
  rw [visible, stored_removeOps]
  apply mask_replay
  intro key value hmem
  unfold removeOps at hmem
  split at hmem
  · split_ifs at hmem
    · cases List.mem_singleton.mp hmem
    · cases hmem
  · cases hmem

end Remove

/-! ## Calls of uploads -/

section Calls

variable {s : AppState} {t t' : Tree} {o : OpenField} {c : Option OpenField} {listed : Bool}

/-- A temporary file is hidden from readers, whatever happens to it. -/
theorem visible_removeTemp (s : AppState) (t : Tree) (o : OpenField) :
    visible (removeTemp s.env t o.tmpPath) = visible t := by
  unfold removeTemp
  split
  · rename_i t' hr
    obtain ⟨-, l, m, hl, hnot, rfl⟩ := removeFile_eq_ok.mp hr
    obtain ⟨d, rfl⟩ : ∃ d, l = d ++ [tempName o.field.uuid] :=
      lookup_last (last_tmpPath o) (normal_tempName _) hl
    obtain ⟨e, he⟩ := Option.ne_none_iff_exists'.mp (lookup_found_entry hl)
    refine visible_congr fun k hk => ?_
    have hentry := Tree.remove_entry_of_not_dir he (fun hd => hnot (by rw [he, hd])) k
    rw [if_neg] at hentry
    · exact stored_of_entry hentry fun j _ => by rw [Tree.remove_content]
    · rintro rfl
      rw [dotted_append, startsWithDot_tempName] at hk
      cases hk
  · rfl

/-- What a call of an upload puts for readers. -/
def fieldPut (s : AppState) (t : Tree) (o : OpenField) (listed : Bool) : List FileOp :=
  if listed then
    match destination s.env t o.dest with
    | some place => [.put place o.field.bytes]
    | none => []
  else []

/-- **A call shows nothing of a file** until it lists the whole. -/
theorem FieldMove.visible_eq (hmove : FieldMove s t o t' c listed) (h : o.Inv s t) :
    visible t' = replay (visible t) (fieldPut s t o listed) := by
  cases hmove with
  | makesParents hst hc =>
      show mask dotted (stored _) = mask dotted (stored t)
      rw [stored_createParents]
  | refused => rfl
  | creates hst hcreate =>
      obtain ⟨hadd, d, rfl⟩ := h.created hst hcreate
      exact visible_fileAdded hadd (by rw [dotted_append, startsWithDot_tempName])
  | writes hst =>
      refine visible_setContent (fun l hl => ?_) _
      obtain ⟨d, rfl⟩ := (h.held _ _ hst).only l hl
      rw [dotted_append, startsWithDot_tempName]
  | breaks message => rfl
  | @stores t' inode hst hr =>
      have hheld := h.held _ _ hst
      obtain ⟨d, d', y, hmoved, hdest, hdot⟩ := hheld.renamed h.accepted hr
      obtain ⟨done, hsplit, hall, hcontent⟩ := hheld.written
      rw [List.append_nil] at hsplit
      have hbytes : t.content inode = o.field.bytes := by rw [hcontent, UploadField.bytes, hsplit]
      have hput : fieldPut s t o true = [.put (d' ++ [y]) o.field.bytes] := by
        simp only [fieldPut, hdest, if_true]
      rw [hput, ← hbytes]
      exact visible_fileMoved hmoved (by rw [dotted_append, startsWithDot_tempName])
        (by rw [dotted_append, hdot])
  | removes => exact visible_removeTemp s t o

end Calls

/-! ## Runs -/

/-- The next call of an upload, or a request that makes or deletes at a path that was accepted at
some time before. -/
inductive WebCall (ι : Type) where
  | upload (k : ι)
  | createDirectory (dirPath : Path)
  | deleteFile (filePath : Path) (isDir : Bool)
  deriving DecidableEq, Repr

namespace WebServer

variable {ι : Type} [DecidableEq ι]

def call (s : AppState) (targetDir : ι → String) (σ : WebServer ι) : WebCall ι → WebServer ι
  | .upload k => σ.upload s targetDir k
  | .createDirectory dirPath =>
      { σ with tree := (createDirAll s.env σ.tree (dirPath :: dirPath.parents)).1 }
  | .deleteFile filePath isDir =>
      { σ with tree := (removeObject s σ.tree filePath isDir).1 }

/-- The call of request `k` lists a file. -/
def lists (s : AppState) (targetDir : ι → String) (σ : WebServer ι) (k : ι) : Bool :=
  decide (((σ.upload s targetDir k).uploads k).uploaded ≠ (σ.uploads k).uploaded)

/-- What a call does for readers. -/
def ops (s : AppState) (targetDir : ι → String) (σ : WebServer ι) : WebCall ι → List FileOp
  | .upload k =>
      match (σ.uploads k).current with
      | some o => fieldPut s σ.tree o (σ.lists s targetDir k)
      | none => []
  | .createDirectory _ => []
  | .deleteFile filePath isDir => removeOps s σ.tree filePath isDir

def calls (s : AppState) (targetDir : ι → String) (σ : WebServer ι) (cs : List (WebCall ι)) :
    WebServer ι :=
  cs.foldl (call s targetDir) σ

def log (s : AppState) (targetDir : ι → String) : WebServer ι → List (WebCall ι) → List FileOp
  | _, [] => []
  | σ, c :: cs => σ.ops s targetDir c ++ log s targetDir (σ.call s targetDir c) cs

end WebServer

/-- A directory is made only at a path that was accepted. -/
def WebCall.Accepted {ι : Type} (s : AppState) : WebCall ι → Prop
  | .createDirectory dirPath => AcceptedPath s dirPath
  | _ => True

section Runs

variable {ι : Type} [DecidableEq ι] {s : AppState} {targetDir : ι → String} {t₀ : Tree}
  {fields : ι → List UploadField} {σ : WebServer ι}

theorem webStep_call {c : WebCall ι} (hc : c.Accepted s) :
    WebStep s targetDir σ (σ.call s targetDir c) := by
  cases c with
  | upload k => exact .upload k
  | createDirectory dirPath => exact .createDirectory dirPath hc
  | deleteFile filePath isDir => exact .deleteFile filePath isDir

/-- **A call acts on what can be read** as its log says. -/
theorem WebServer.Inv.visible_call (h : σ.Inv s fields) (c : WebCall ι) :
    visible (σ.call s targetDir c).tree = replay (visible σ.tree) (σ.ops s targetDir c) := by
  cases c with
  | createDirectory dirPath =>
      exact congrArg (mask dotted)
        (stored_createDirAll s.env (dirPath :: dirPath.parents) σ.tree)
  | deleteFile filePath isDir => exact visible_removeOps isDir
  | upload k =>
      show visible (σ.upload s targetDir k).tree = _
      rw [WebServer.ops]
      cases ho : (σ.uploads k).current with
      | none =>
          rw [(WebServer.upload_none ho).1]
          rfl
      | some o =>
          obtain ⟨listed, hmove, hiff⟩ := WebServer.upload_open s targetDir ho
          have hlisted : σ.lists s targetDir k = listed := by
            rw [Bool.eq_iff_iff, ← hiff]
            exact decide_eq_true_iff
          rw [hlisted]
          exact hmove.visible_eq ((h.run k).current o ho)

/-- Whatever is put is all of a field that a request has. -/
theorem WebServer.Inv.put_whole (h : σ.Inv s fields) {c : WebCall ι} {place : Loc} {bytes : Bytes}
    (hput : .put place bytes ∈ σ.ops s targetDir c) :
    ∃ k, ∃ f ∈ fields k, f.chunks.all Chunk.isWritten = true ∧ f.bytes = bytes := by
  cases c with
  | createDirectory dirPath => cases hput
  | deleteFile filePath isDir =>
      rw [WebServer.ops, removeOps] at hput
      split at hput
      · split_ifs at hput
        · cases List.mem_singleton.mp hput
        · cases hput
      · cases hput
  | upload k =>
      rw [WebServer.ops] at hput
      cases ho : (σ.uploads k).current with
      | none =>
          rw [ho] at hput
          cases hput
      | some o =>
          rw [ho] at hput
          have hown : o.field ∈ fields k := by
            apply (h.run k).suffix.subset
            rw [UploadRun.unfinished, ho]
            exact List.mem_append_left _ (List.mem_singleton_self _)
          have hlists : σ.Lists (σ.upload s targetDir k) k := by
            by_contra hno
            have hlisted : σ.lists s targetDir k = false := decide_eq_false hno
            simp [hlisted, fieldPut] at hput
          have hstores : σ.StoresOwn s targetDir k := h.storesOwn k
          obtain ⟨o', loc, i, ho', hdest, -, hall, -⟩ := hstores hlists
          rw [ho] at ho'
          cases ho'
          have hlisted : σ.lists s targetDir k = true := decide_eq_true hlists
          simp only [fieldPut, hlisted, if_true, hdest, List.mem_singleton] at hput
          cases hput
          exact ⟨k, o.field, hown, hall, rfl⟩

theorem visible_calls (targetDir : ι → String) (hfresh : FreshUuids s t₀ fields) :
    ∀ (cs : List (WebCall ι)) (σ : WebServer ι),
    (∀ c ∈ cs, c.Accepted s) → σ.Inv s fields →
    (visible (σ.calls s targetDir cs).tree = replay (visible σ.tree) (σ.log s targetDir cs) ∧
      ∀ place bytes, Op.put place bytes ∈ σ.log s targetDir cs →
        ∃ k, ∃ f ∈ fields k, f.chunks.all Chunk.isWritten = true ∧ f.bytes = bytes) := by
  intro cs
  induction cs with
  | nil =>
      intro σ _ _
      exact ⟨rfl, by
        intro place bytes hmem
        cases hmem⟩
  | cons c cs ih =>
      intro σ hacc h
      have hstep : WebStep s targetDir σ (σ.call s targetDir c) :=
        webStep_call (hacc c List.mem_cons_self)
      obtain ⟨hvisible, hwhole⟩ := ih (σ.call s targetDir c)
        (fun c' hc' => hacc c' (List.mem_cons_of_mem _ hc')) (h.step hfresh hstep)
      constructor
      · calc
          visible (σ.calls s targetDir (c :: cs)).tree
              = replay (visible (σ.call s targetDir c).tree)
                  ((σ.call s targetDir c).log s targetDir cs) := hvisible
          _ = replay (replay (visible σ.tree) (σ.ops s targetDir c))
                  ((σ.call s targetDir c).log s targetDir cs) := by rw [h.visible_call]
          _ = replay (visible σ.tree) (σ.log s targetDir (c :: cs)) := by
            rw [WebServer.log, replay_append]
      · intro place bytes hmem
        rcases List.mem_append.mp hmem with hmem | hmem
        · exact h.put_whole hmem
        · exact hwhole place bytes hmem

end Runs

/-- Two uploads of one name, the second one before its rename, and a directory of another name. -/
def overlappingCalls : List (WebCall Bool) :=
  [.upload true, .upload false, .upload true, .upload false, .upload true, .upload false,
    .upload true, .upload false, .createDirectory (ofString "/srv/tftp/d"), .upload true]

end UsgTftp
