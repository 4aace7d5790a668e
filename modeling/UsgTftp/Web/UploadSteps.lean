import Mathlib.Logic.Relation
import UsgTftp.Web.Contents

set_option autoImplicit false

/-! # Uploads, call by call

Every request of the web program runs in a task of its own, so the calls of the file system that
they make interleave in every order. Here `upload_files` of `src/web/handlers.rs` is cut at these
calls (`UploadRun.step`), and any number of uploads run beside `create_directory` and `delete_file`
(`WebStep`). A request that nothing interrupts is handled as `uploadFiles` says
(`uploadRun_alone`).
-/

namespace UsgTftp

open Posix Posix.Path

/-! ## The handler, call by call -/

/-- What the handler does next for a field whose path it has accepted. -/
inductive FieldStage where
  | createParents
  | createTemp
  | writing (inode : Nat) (rest : List Chunk)
  | removeTemp (message : String)
  deriving DecidableEq, Repr

structure OpenField where
  field : UploadField
  dest : Path
  stage : FieldStage
  deriving DecidableEq, Repr

def OpenField.relative (o : OpenField) : String := o.field.fileName.getD ""

def OpenField.tmpPath (o : OpenField) : Path := o.dest.withFileName (tempName o.field.uuid)

/-- A request between two calls. `fields` are those it has not read yet. -/
structure UploadRun where
  fields : List UploadField
  current : Option OpenField
  uploaded : List String
  errors : List String
  deriving DecidableEq, Repr

namespace UploadRun

def start (fields : List UploadField) : UploadRun := ⟨fields, none, [], []⟩

def fail (r : UploadRun) (relative message : String) : UploadRun :=
  { r with current := none, errors := r.errors ++ [relative ++ ": " ++ message] }

/-- The next field is read and checked. -/
def begin (s : AppState) (targetDir : String) (t : Tree) (r : UploadRun) (field : UploadField)
    (rest : List UploadField) : UploadRun :=
  let relative := field.fileName.getD ""
  let r := { r with fields := rest }
  if relative = "" then r
  else
    match uploadTarget s t targetDir relative with
    | .error message => r.fail relative message
    | .ok dest => { r with current := some ⟨field, dest, .createParents⟩ }

/-- The next call for the field that is open. -/
def advance (s : AppState) (targetDir : String) (t : Tree) (r : UploadRun) (o : OpenField) :
    Tree × UploadRun :=
  let goOn := fun stage => { r with current := some { o with stage := stage } }
  match o.stage with
  | .createParents =>
      match createParents s.env t o.dest with
      | (t', .error e) => (t', r.fail o.relative (s.errorText e))
      | (t', .ok ()) => (t', goOn .createTemp)
  | .createTemp =>
      match create s.env t o.tmpPath with
      | .error e => (t, r.fail o.relative (s.errorText e))
      | .ok (t', _, inode) => (t', goOn (.writing inode o.field.chunks))
  | .writing inode (.written chunk :: rest) =>
      (t.setContent inode (t.content inode ++ chunk), goOn (.writing inode rest))
  | .writing _ (.writeError e :: _) => (t, goOn (.removeTemp (s.errorText e)))
  | .writing _ (.streamError message :: _) => (t, goOn (.removeTemp ("Stream error: " ++ message)))
  | .writing _ [] =>
      match rename s.env t o.tmpPath o.dest with
      | .error e => (t, goOn (.removeTemp (s.errorText e)))
      | .ok t' =>
          (t', { r with current := none, uploaded := r.uploaded ++ [fullRelative targetDir o.relative] })
  | .removeTemp message => (removeTemp s.env t o.tmpPath, r.fail o.relative message)

def step (s : AppState) (targetDir : String) (t : Tree) (r : UploadRun) : Tree × UploadRun :=
  match r.current, r.fields with
  | some o, _ => r.advance s targetDir t o
  | none, field :: rest => (t, r.begin s targetDir t field rest)
  | none, [] => (t, r)

end UploadRun

/-! ## A request alone -/

section Alone

variable {s : AppState} {targetDir : String}

/-- The calls of one request that nothing interrupts. -/
def UploadRun.Steps (s : AppState) (targetDir : String) :
    Tree × UploadRun → Tree × UploadRun → Prop :=
  Relation.ReflTransGen fun x y => y = x.2.step s targetDir x.1

theorem UploadRun.steps_head {x y : Tree × UploadRun}
    (h : UploadRun.Steps s targetDir (x.2.step s targetDir x.1) y) :
    UploadRun.Steps s targetDir x y := .head rfl h

/-- The loop over the chunks, with the end that it finds. -/
theorem steps_chunks (r : UploadRun) (o : OpenField) (inode : Nat) :
    ∀ (chunks : List Chunk) (t : Tree),
      UploadRun.Steps s targetDir
        (t, { r with current := some { o with stage := .writing inode chunks } })
        ((writeChunks s.errorText inode t chunks).1, { r with current := some { o with
          stage := match (writeChunks s.errorText inode t chunks).2 with
            | .ok () => .writing inode []
            | .error message => .removeTemp message } }) := by
  intro chunks
  induction chunks with
  | nil => intro t; exact .refl
  | cons c chunks ih =>
      intro t
      cases c with
      | written chunk => exact UploadRun.steps_head (ih _)
      | writeError e => exact UploadRun.steps_head .refl
      | streamError message => exact UploadRun.steps_head .refl

/-- **A field alone** is handled as `uploadField` says. -/
theorem steps_field (st : UploadState) (field : UploadField) (rest : List UploadField) :
    UploadRun.Steps s targetDir (st.tree, ⟨field :: rest, none, st.uploaded, st.errors⟩)
      ((uploadField s targetDir st field).tree, ⟨rest, none,
        (uploadField s targetDir st field).uploaded, (uploadField s targetDir st field).errors⟩) := by
  obtain ⟨t, uploaded, errors⟩ := st
  refine UploadRun.steps_head ?_
  show UploadRun.Steps s targetDir (t, UploadRun.begin s targetDir t _ field rest) _
  unfold UploadRun.begin uploadField
  dsimp only
  split_ifs with hname
  · exact .refl
  cases htarget : uploadTarget s t targetDir (field.fileName.getD "") with
  | error message => exact .refl
  | ok dest =>
      let o : OpenField := ⟨field, dest, .createParents⟩
      let r : UploadRun := ⟨rest, none, uploaded, errors⟩
      refine UploadRun.steps_head ?_
      show UploadRun.Steps s targetDir (r.advance s targetDir t o) _
      unfold UploadRun.advance
      dsimp only [o]
      cases hparents : createParents s.env t dest with
      | mk t₁ made =>
          cases made with
          | error e => exact .refl
          | ok u =>
              refine UploadRun.steps_head ?_
              show UploadRun.Steps s targetDir
                (r.advance s targetDir t₁ { o with stage := .createTemp }) _
              unfold UploadRun.advance storeField
              dsimp only [OpenField.tmpPath, o]
              cases hcreate : create s.env t₁ (dest.withFileName (tempName field.uuid)) with
              | error e => exact .refl
              | ok made =>
                  obtain ⟨t₂, loc, inode⟩ := made
                  refine (steps_chunks r o inode field.chunks t₂).trans ?_
                  refine UploadRun.steps_head ?_
                  dsimp only [o]
                  generalize writeChunks s.errorText inode t₂ field.chunks = wrote
                  obtain ⟨t₃, result⟩ := wrote
                  cases result with
                  | error message => exact .refl
                  | ok u =>
                      show UploadRun.Steps s targetDir
                        (r.advance s targetDir t₃ { o with stage := .writing inode [] }) _
                      unfold UploadRun.advance
                      dsimp only [OpenField.tmpPath, o]
                      cases rename s.env t₃ (dest.withFileName (tempName field.uuid)) dest with
                      | error e => exact UploadRun.steps_head .refl
                      | ok t₄ => exact .refl

/-- **A request alone** is handled as `upload_files` says. -/
theorem uploadRun_alone : ∀ (fields : List UploadField) (st : UploadState),
    UploadRun.Steps s targetDir (st.tree, ⟨fields, none, st.uploaded, st.errors⟩)
      ((fields.foldl (uploadField s targetDir) st).tree, ⟨[], none,
        (fields.foldl (uploadField s targetDir) st).uploaded,
        (fields.foldl (uploadField s targetDir) st).errors⟩) := by
  intro fields
  induction fields with
  | nil => intro st; exact .refl
  | cons field fields ih => intro st; exact (steps_field st field fields).trans (ih _)

end Alone

/-! ## The system -/

/-- The requests that upload files, on one tree. -/
structure WebServer (ι : Type) where
  tree : Tree
  uploads : ι → UploadRun

/-- Some request was accepted for the path, in a tree that may have changed since. -/
def AcceptedPath (s : AppState) (p : Path) : Prop :=
  ∃ t request, validateAndResolvePath s.env t s.rootDir request = .ok p

section System

variable {ι : Type} [DecidableEq ι]

def WebServer.start (t : Tree) (fields : ι → List UploadField) : WebServer ι :=
  ⟨t, fun k => .start (fields k)⟩

/-- Request `k` makes its next call. -/
def WebServer.upload (s : AppState) (targetDir : ι → String) (σ : WebServer ι) (k : ι) :
    WebServer ι :=
  let r := (σ.uploads k).step s (targetDir k) σ.tree
  ⟨r.1, Function.update σ.uploads k r.2⟩

/-- The next call of any request. A path to make or to delete was checked at some time before. -/
inductive WebStep (s : AppState) (targetDir : ι → String) (σ : WebServer ι) : WebServer ι → Prop
  | upload (k : ι) : WebStep s targetDir σ (σ.upload s targetDir k)
  | createDirectory (dirPath : Path) (h : AcceptedPath s dirPath) :
      WebStep s targetDir σ
        { σ with tree := (createDirAll s.env σ.tree (dirPath :: dirPath.parents)).1 }
  | deleteFile (filePath : Path) (isDir : Bool) :
      WebStep s targetDir σ { σ with tree := (removeObject s σ.tree filePath isDir).1 }

/-- What version 4 UUIDs promise of those that the requests draw: no two are the same, and none is
in use in a name of the tree or in the path of the root. -/
structure FreshUuids (s : AppState) (t : Tree) (fields : ι → List UploadField) : Prop where
  unused : ∀ k, ∀ f ∈ fields k, ∀ d, t.entry (d ++ [tempName f.uuid]) = none
  root : ∀ k, ∀ f ∈ fields k, tempName f.uuid ∉ s.rootDir.comps
  nodup : ∀ k, ((fields k).map fun f => tempName f.uuid).Nodup
  apart : ∀ j k, j ≠ k → ∀ f ∈ fields j, ∀ g ∈ fields k, tempName f.uuid ≠ tempName g.uuid

/-- Request `k` has listed one more file as uploaded. -/
def WebServer.Lists (σ σ' : WebServer ι) (k : ι) : Prop :=
  (σ'.uploads k).uploaded ≠ (σ.uploads k).uploaded

/-- If the next call of request `k` lists a file as uploaded, then all its chunks are at its
destination, and nothing is left under the temporary name. -/
def WebServer.StoresOwn (s : AppState) (targetDir : ι → String) (σ : WebServer ι) (k : ι) : Prop :=
  σ.Lists (σ.upload s targetDir k) k →
  ∃ o loc i, (σ.uploads k).current = some o ∧ destination s.env σ.tree o.dest = some loc ∧
    (σ.upload s targetDir k).tree.entry loc = some (.file i) ∧
    o.field.chunks.all Chunk.isWritten = true ∧
    (σ.upload s targetDir k).tree.content i = o.field.bytes ∧
    ∀ d, (σ.upload s targetDir k).tree.entry (d ++ [tempName o.field.uuid]) = none

/-- The next call of request `k` keeps every file with its content, but for its temporary file and
the destination that it lists as uploaded. -/
def WebServer.KeepsOthers (s : AppState) (targetDir : ι → String) (σ : WebServer ι) (k : ι) :
    Prop :=
  ∀ l i, σ.tree.entry l = some (.file i) →
    ((σ.upload s targetDir k).tree.entry l = some (.file i) ∧
      (σ.upload s targetDir k).tree.content i = σ.tree.content i) ∨
    ∃ o, (σ.uploads k).current = some o ∧
      ((∃ d, l = d ++ [tempName o.field.uuid]) ∨
        σ.Lists (σ.upload s targetDir k) k ∧ destination s.env σ.tree o.dest = some l)

end System

end UsgTftp
