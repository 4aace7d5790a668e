import UsgTftp.Lib.FileRemove
import UsgTftp.PathSecurity

set_option autoImplicit false

/-! # Changing files over the web

`upload_files`, `delete_file` and `create_directory` of `src/web/handlers.rs`, as functions of
the file tree. The configuration is used as it is read: this program does not call
`validate_config`. What a request carries is an input, with the chunks of an upload and what
reading and writing each of them gives; a call of the file system fails for the reasons that the
tree shows.

The handlers' log lines and audit records, and the client address that only these use, are left
out.
-/

namespace UsgTftp

open Posix Posix.Path

/-! ## State and responses -/

/-- The fields of `state.config` that the handlers read, and what they run on. -/
structure AppState where
  rootDir : Path
  writeConfig : WriteConfig
  glob : Glob
  env : Env
  /-- The text that `Display` gives for an I/O error. -/
  errorText : Errno → String

inductive StatusCode where
  | created
  | noContent
  | multiStatus
  | badRequest
  | forbidden
  | notFound
  | internalServerError
  deriving DecidableEq, Repr

inductive Response where
  | status (code : StatusCode)
  | apiError (code : StatusCode) (error : String)
  | uploadResult (code : StatusCode) (uploaded errors : List String)
  deriving DecidableEq, Repr

def requireWrite (s : AppState) : Except Response Unit :=
  if s.writeConfig.enabled then .ok ()
  else .error (.apiError .forbidden "Write operations are disabled")

/-! ## Uploads -/

/-- What `field.chunk` gives, and what comes of writing the chunk. -/
inductive Chunk where
  | written (chunk : Bytes)
  | writeError (e : Errno)
  | streamError (message : String)
  deriving DecidableEq, Repr

def Chunk.isWritten : Chunk → Bool
  | .written _ => true
  | _ => false

/-- A field of the multipart body. `uuid` is what `Uuid::new_v4` gives for its temporary file. -/
structure UploadField where
  fileName : Option String
  chunks : List Chunk
  uuid : String
  deriving DecidableEq, Repr

def tempName (uuid : String) : String := ".tftp-tmp-" ++ uuid

/-- The loop over the chunks. -/
def writeChunks (errorText : Errno → String) (inode : Nat) :
    Tree → List Chunk → Tree × Except String Unit
  | t, [] => (t, .ok ())
  | t, .written chunk :: rest =>
      writeChunks errorText inode (t.setContent inode (t.content inode ++ chunk)) rest
  | t, .writeError e :: _ => (t, .error (errorText e))
  | t, .streamError message :: _ => (t, .error ("Stream error: " ++ message))

/-- `remove_file` on the temporary file, whatever comes of it. -/
def removeTemp (env : Env) (t : Tree) (tmpPath : Path) : Tree :=
  match removeFile env t tmpPath with
  | .ok t' => t'
  | .error _ => t

/-- The temporary file is created, written and renamed. -/
def storeField (s : AppState) (t : Tree) (dest : Path) (field : UploadField) :
    Tree × Except String Unit :=
  let tmpPath := dest.withFileName (tempName field.uuid)
  match create s.env t tmpPath with
  | .error e => (t, .error (s.errorText e))
  | .ok (t₁, _, inode) =>
      match writeChunks s.errorText inode t₁ field.chunks with
      | (t₂, .error message) => (removeTemp s.env t₂ tmpPath, .error message)
      | (t₂, .ok ()) =>
          match rename s.env t₂ tmpPath dest with
          | .error e => (removeTemp s.env t₂ tmpPath, .error (s.errorText e))
          | .ok t₃ => (t₃, .ok ())

def trimEndSlashes (text : String) : String :=
  String.ofList (text.toList.rdropWhile (· = '/'))

def fullRelative (targetDir relative : String) : String :=
  if targetDir = "" then relative else trimEndSlashes targetDir ++ "/" ++ relative

/-- The checks of an upload: the path it is written to, or what is wrong with it. -/
def uploadTarget (s : AppState) (t : Tree) (targetDir relative : String) : Except String Path :=
  match validateAndResolvePath s.env t s.rootDir (fullRelative targetDir relative) with
  | .error e => .error e.display
  | .ok dest =>
      if s.writeConfig.allowedPatterns ≠ [] ∧
          isWriteAllowed s.glob dest s.rootDir s.writeConfig = false then
        .error "not in allowed write patterns"
      else if pathExists s.env t dest ∧ s.writeConfig.allowOverwrite = false then
        .error "file exists and overwrite is disabled"
      else .ok dest

structure UploadState where
  tree : Tree
  uploaded : List String
  errors : List String

def UploadState.fail (st : UploadState) (relative message : String) : UploadState :=
  { st with errors := st.errors ++ [relative ++ ": " ++ message] }

/-- One turn of the loop over the fields. -/
def uploadField (s : AppState) (targetDir : String) (st : UploadState) (field : UploadField) :
    UploadState :=
  let relative := field.fileName.getD ""
  if relative = "" then st
  else
    match uploadTarget s st.tree targetDir relative with
    | .error message => st.fail relative message
    | .ok dest =>
        match createParents s.env st.tree dest with
        | (t, .error e) => { st with tree := t }.fail relative (s.errorText e)
        | (t, .ok ()) =>
            match storeField s t dest field with
            | (t', .error message) => { st with tree := t' }.fail relative message
            | (t', .ok ()) =>
                { st with tree := t', uploaded := st.uploaded ++ [fullRelative targetDir relative] }

/-- The status of an upload as a whole. -/
def uploadStatus (uploaded errors : List String) : StatusCode :=
  if errors = [] then .created
  else if uploaded = [] then .badRequest
  else .multiStatus

/-- The fields are those that are read before the body ends, or before it cannot be read on. -/
def uploadFiles (s : AppState) (t : Tree) (path : Option String) (fields : List UploadField)
    (readError : Option String) : Tree × Response :=
  match requireWrite s with
  | .error response => (t, response)
  | .ok () =>
      let st := fields.foldl (uploadField s (path.getD "")) ⟨t, [], []⟩
      let errors := st.errors ++ (readError.map ("Multipart read error: " ++ ·)).toList
      (st.tree, .uploadResult (uploadStatus st.uploaded errors) st.uploaded errors)

/-! ## Deleting -/

/-- The checks of `delete_file`. -/
def deleteTarget (s : AppState) (t : Tree) (path confirm : Option String) :
    Except Response Path :=
  match requireWrite s with
  | .error response => .error response
  | .ok () =>
      let reqPath := path.getD ""
      if reqPath = "" then .error (.apiError .badRequest "path is required")
      else if confirm.getD "" ≠ "true" then
        .error (.apiError .badRequest "X-Confirm: true header required")
      else
        match validateAndResolvePath s.env t s.rootDir reqPath with
        | .error e => .error (.apiError .badRequest e.display)
        | .ok filePath =>
            if s.writeConfig.allowedPatterns ≠ [] ∧
                isWriteAllowed s.glob filePath s.rootDir s.writeConfig = false then
              .error (.apiError .forbidden "Path not in allowed write patterns")
            else .ok filePath

/-- What is removed: a directory with all that it holds, or a file. -/
def removeObject (s : AppState) (t : Tree) (filePath : Path) (isDir : Bool) :
    Tree × Except Errno Unit :=
  if isDir then removeDirAll s.env t filePath
  else
    match removeFile s.env t filePath with
    | .ok t' => (t', .ok ())
    | .error e => (t, .error e)

/-- `confirm` is the value of the header `X-Confirm`, if it is a text. -/
def deleteFile (s : AppState) (t : Tree) (path confirm : Option String) : Tree × Response :=
  match deleteTarget s t path confirm with
  | .error response => (t, response)
  | .ok filePath =>
      match metadata s.env t filePath with
      | .error .enoent => (t, .apiError .notFound "Not found")
      | .error _ => (t, .apiError .internalServerError "Failed to access path")
      | .ok entry =>
          match removeObject s t filePath (entry = .dir) with
          | (t', .ok ()) => (t', .status .noContent)
          | (t', .error _) => (t', .apiError .internalServerError "Delete failed")

/-! ## Making directories -/

/-- The checks of `create_directory`. -/
def directoryTarget (s : AppState) (t : Tree) (path : Option String) : Except Response Path :=
  match requireWrite s with
  | .error response => .error response
  | .ok () =>
      let reqPath := path.getD ""
      if reqPath = "" then .error (.apiError .badRequest "path is required")
      else
        match validateAndResolvePath s.env t s.rootDir reqPath with
        | .error e => .error (.apiError .badRequest e.display)
        | .ok dirPath => .ok dirPath

def createDirectory (s : AppState) (t : Tree) (path : Option String) : Tree × Response :=
  match directoryTarget s t path with
  | .error response => (t, response)
  | .ok dirPath =>
      match createDirAll s.env t (dirPath :: dirPath.parents) with
      | (t', .ok ()) => (t', .status .created)
      | (t', .error _) => (t', .apiError .internalServerError "Failed to create directory")

/-! ## Accepted requests -/

section Accepted

variable {s : AppState} {t : Tree} {p : Path}

theorem requireWrite_eq_ok (h : requireWrite s = .ok ()) : s.writeConfig.enabled = true := by
  unfold requireWrite at h
  split_ifs at h with henabled
  exact henabled

/-- What all three handlers have checked before they change anything: writes are enabled, and the
path was accepted; for an upload or a deletion, the path is allowed or no pattern is set. -/
theorem uploadTarget_eq_ok {targetDir relative : String}
    (h : uploadTarget s t targetDir relative = .ok p) :
    validateAndResolvePath s.env t s.rootDir (fullRelative targetDir relative) = .ok p ∧
    (s.writeConfig.allowedPatterns ≠ [] →
      isWriteAllowed s.glob p s.rootDir s.writeConfig = true) ∧
    (pathExists s.env t p = true → s.writeConfig.allowOverwrite = true) := by
  unfold uploadTarget at h
  split at h
  · cases h
  · rename_i dest hdest
    split_ifs at h with hpattern hexists
    cases h
    refine ⟨hdest, fun hne => ?_, fun hex => ?_⟩
    · by_contra hno
      exact hpattern ⟨hne, by simpa using hno⟩
    · by_contra hno
      exact hexists ⟨hex, by simpa using hno⟩

theorem deleteTarget_eq_ok {path confirm : Option String}
    (h : deleteTarget s t path confirm = .ok p) :
    s.writeConfig.enabled = true ∧
    validateAndResolvePath s.env t s.rootDir (path.getD "") = .ok p ∧
    (s.writeConfig.allowedPatterns ≠ [] →
      isWriteAllowed s.glob p s.rootDir s.writeConfig = true) := by
  unfold deleteTarget at h
  split at h
  · cases h
  · rename_i henabled
    simp only at h
    split_ifs at h
    split at h
    · cases h
    · rename_i dest hdest
      split_ifs at h with hpattern
      cases h
      refine ⟨requireWrite_eq_ok henabled, hdest, fun hne => ?_⟩
      by_contra hno
      exact hpattern ⟨hne, by simpa using hno⟩

theorem directoryTarget_eq_ok {path : Option String} (h : directoryTarget s t path = .ok p) :
    s.writeConfig.enabled = true ∧
    validateAndResolvePath s.env t s.rootDir (path.getD "") = .ok p := by
  unfold directoryTarget at h
  split at h
  · cases h
  · rename_i henabled
    simp only at h
    split_ifs at h
    split at h
    · cases h
    · rename_i dest hdest
      cases h
      exact ⟨requireWrite_eq_ok henabled, hdest⟩

/-- What an accepted `create_directory` does to the tree. -/
theorem createDirectory_tree {path : Option String} (h : directoryTarget s t path = .ok p) :
    (createDirectory s t path).1 = (createDirAll s.env t (p :: p.parents)).1 := by
  unfold createDirectory
  rw [h]
  simp only
  split
  · rename_i h
    rw [h]
  · rename_i h
    rw [h]

theorem deleteFile_refused {path confirm : Option String} {response : Response}
    (h : deleteTarget s t path confirm = .error response) :
    (deleteFile s t path confirm).1 = t := by
  rw [deleteFile, h]

theorem deleteFile_missing {path confirm : Option String}
    (h : deleteTarget s t path confirm = .ok p) {e : Errno}
    (hcanon : canonicalize s.env t p = .error e) :
    (deleteFile s t path confirm).1 = t := by
  have hmeta : metadata s.env t p = .error e := by rw [metadata, hcanon, Except.bind]
  rw [deleteFile, h]
  simp only [hmeta]
  cases e <;> rfl

/-- What an accepted `delete_file` does to the tree. -/
theorem deleteFile_tree {path confirm : Option String} (h : deleteTarget s t path confirm = .ok p)
    {entry : Entry} (hmeta : metadata s.env t p = .ok entry) :
    (deleteFile s t path confirm).1 = (removeObject s t p (entry = .dir)).1 := by
  unfold deleteFile
  rw [h]
  simp only [hmeta]
  split
  · rename_i h
    rw [h]
  · rename_i h
    rw [h]

end Accepted

end UsgTftp
