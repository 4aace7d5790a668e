import UsgTftp.Client.GetFile
import UsgTftp.Web.Uploads

set_option autoImplicit false

/-! # Success and the bytes on the disk

Three functions write a file part by part (`Lib/AsyncFile.lean`): `upload_files` of
`src/web/handlers.rs`, `TftpClient::get` of `src/bin/client.rs` and `write_file_safely` of
`src/bin/server.rs`. The last one flushes the file before it reports success, so that what it
reports is true (`writeFlushed_onDisk`). The other two drop the file, and report success as well if
the last part could not be written, and only then (`success_means_written_iff`).
-/

namespace UsgTftp

open Posix Posix.Path Reactive AsyncFile

/-! ## The server's writer -/

section Server

variable {cut : Parts UInt8} {disk : Nat → Option Errno}

/-- What `write_file_safely` does with its open file. -/
def writeFlushed (cut : Parts UInt8) (disk : Nat → Option Errno) (data : Bytes) :
    Handle Errno UInt8 × Except Errno Unit :=
  match Handle.writeAll cut disk {} data with
  | (file, .error e) => (file, .error e)
  | (file, .ok ()) => file.flush

/-- **The server's writer** reports success only if the data are on the disk. -/
theorem writeFlushed_onDisk {data : Bytes} {file : Handle Errno UInt8}
    (h : writeFlushed cut disk data = (file, .ok ())) : file.onDisk disk = data := by
  unfold writeFlushed at h
  cases hw : Handle.writeAll cut disk {} data with
  | mk written result =>
      rw [hw] at h
      cases result with
      | error e => cases (Prod.mk.inj h).2
      | ok u =>
          obtain ⟨htracks, hqueued⟩ := Handle.tracks_new.queueAll hw
          obtain ⟨hcomplete, hsame⟩ := htracks.complete_of_flush h
          have hparts : file.queued = cut.parts data := by rw [hsame, hqueued]; rfl
          have hne : ∀ part ∈ file.queued, part ≠ [] := by
            rw [hparts]
            exact cut.ne_nil data
          rw [(Handle.onDisk_eq_iff hne).mpr hcomplete, hparts, cut.flatten]

end Server

/-! ## Uploads -/

/-- What `field.chunk` gives. -/
inductive DataChunk where
  | data (chunk : Bytes)
  | streamError (message : String)
  deriving DecidableEq, Repr

/-- A field with the disk that its temporary file is on. -/
structure DiskField where
  fileName : Option String
  chunks : List DataChunk
  uuid : String
  disk : Nat → Option Errno

/-- What ends the loop over the chunks early. -/
inductive WriteErr where
  | disk (e : Errno)
  | stream (message : String)

def WriteErr.text (errorText : Errno → String) : WriteErr → String
  | .disk e => errorText e
  | .stream message => "Stream error: " ++ message

/-- The loop over the chunks. -/
def writeChunksTo (cut : Parts UInt8) (disk : Nat → Option Errno) :
    Handle Errno UInt8 → List DataChunk → Handle Errno UInt8 × Option WriteErr
  | file, [] => (file, none)
  | file, .data chunk :: rest =>
      match file.writeAll cut disk chunk with
      | (file, .error e) => (file, some (.disk e))
      | (file, .ok ()) => writeChunksTo cut disk file rest
  | file, .streamError message :: _ => (file, some (.stream message))

/-- The temporary file is created, written, dropped and renamed. -/
def storeFieldTo (cut : Parts UInt8) (s : AppState) (t : Tree) (dest : Path) (field : DiskField) :
    Tree × Except String Unit :=
  let tmpPath := dest.withFileName (tempName field.uuid)
  match create s.env t tmpPath with
  | .error e => (t, .error (s.errorText e))
  | .ok (t₁, _, inode) =>
      let (file, writeErr) := writeChunksTo cut field.disk {} field.chunks
      let t₂ := t₁.setContent inode (t₁.content inode ++ file.onDisk field.disk)
      match writeErr with
      | some err => (removeTemp s.env t₂ tmpPath, .error (err.text s.errorText))
      | none =>
          match rename s.env t₂ tmpPath dest with
          | .error e => (removeTemp s.env t₂ tmpPath, .error (s.errorText e))
          | .ok t₃ => (t₃, .ok ())

/-- One turn of the loop over the fields. -/
def uploadFieldTo (cut : Parts UInt8) (s : AppState) (targetDir : String) (st : UploadState)
    (field : DiskField) : UploadState :=
  let relative := field.fileName.getD ""
  if relative = "" then st
  else
    match uploadTarget s st.tree targetDir relative with
    | .error message => st.fail relative message
    | .ok dest =>
        match createParents s.env st.tree dest with
        | (t, .error e) => { st with tree := t }.fail relative (s.errorText e)
        | (t, .ok ()) =>
            match storeFieldTo cut s t dest field with
            | (t', .error message) => { st with tree := t' }.fail relative message
            | (t', .ok ()) =>
                { st with tree := t', uploaded := st.uploaded ++ [fullRelative targetDir relative] }

/-! ## The field that the handler sees -/

/-- The last thing that the loop sees. -/
def WriteErr.chunk : WriteErr → Chunk
  | .disk e => .writeError e
  | .stream message => .streamError message

/-- What `uploadField` is to see of a field: the bytes that reach the disk, and what ends the loop
early. -/
def DiskField.seen (cut : Parts UInt8) (field : DiskField) : UploadField :=
  let (file, writeErr) := writeChunksTo cut field.disk {} field.chunks
  ⟨field.fileName, .written (file.onDisk field.disk) :: (writeErr.map WriteErr.chunk).toList,
    field.uuid⟩

section Seen

variable {cut : Parts UInt8} {s : AppState} {field : DiskField}

theorem storeFieldTo_eq (t : Tree) (dest : Path) :
    storeFieldTo cut s t dest field = storeField s t dest (field.seen cut) := by
  unfold storeFieldTo storeField DiskField.seen
  generalize writeChunksTo cut field.disk {} field.chunks = wrote
  obtain ⟨file, writeErr⟩ := wrote
  simp only
  cases create s.env t (dest.withFileName (tempName field.uuid)) with
  | error e => rfl
  | ok r =>
      obtain ⟨t₁, loc, inode⟩ := r
      cases writeErr with
      | none => rfl
      | some err => cases err <;> rfl

/-- **A turn of the loop** is that for the field that is seen. -/
theorem uploadFieldTo_eq (targetDir : String) (st : UploadState) :
    uploadFieldTo cut s targetDir st field = uploadField s targetDir st (field.seen cut) := by
  have hname : (field.seen cut).fileName = field.fileName := rfl
  unfold uploadFieldTo uploadField
  cases htarget : uploadTarget s st.tree targetDir (field.fileName.getD "") with
  | error message => simp only [hname, htarget]
  | ok dest =>
      cases hparents : createParents s.env st.tree dest with
      | mk t made =>
          cases made with
          | error e => simp only [hname, htarget, hparents]
          | ok u =>
              cases hstore : storeField s t dest (field.seen cut) with
              | mk t' stored =>
                  cases stored with
                  | error message => simp only [hname, htarget, hparents, storeFieldTo_eq, hstore]
                  | ok u => simp only [hname, htarget, hparents, storeFieldTo_eq, hstore]

end Seen

/-! ## What a field has on the disk -/

def DataChunk.isData : DataChunk → Bool
  | .data _ => true
  | .streamError _ => false

def DataChunk.bytes : DataChunk → Bytes
  | .data chunk => chunk
  | .streamError _ => []

/-- All chunks are on the disk. -/
def DiskField.Written (cut : Parts UInt8) (field : DiskField) : Prop :=
  (writeChunksTo cut field.disk {} field.chunks).1.onDisk field.disk
    = field.chunks.flatMap DataChunk.bytes

/-- The parts that the field's chunks are written in. -/
def DiskField.parts (cut : Parts UInt8) (field : DiskField) : List Bytes :=
  field.chunks.flatMap fun chunk => cut.parts chunk.bytes

/-- If the field is accepted, has a place and can be read to its end, and the disk takes all its
parts but the last, then it takes the last one too. -/
def FieldTakesLast (cut : Parts UInt8) (s : AppState) (targetDir : String) (st : UploadState)
    (field : DiskField) : Prop :=
  field.fileName.getD "" ≠ "" →
  ∀ dest, uploadTarget s st.tree targetDir (field.fileName.getD "") = .ok dest →
    (createParents s.env st.tree dest).2 = .ok () →
    takesFile s.env (createParents s.env st.tree dest).1 dest = true →
    field.chunks.all DataChunk.isData = true →
    TakesLast field.disk (field.parts cut).length

section Disk

variable {cut : Parts UInt8} {disk : Nat → Option Errno} {s : AppState} {targetDir : String}
  {st : UploadState} {field : DiskField}

/-- The loop ends without an error if all chunks are read and all their parts are queued. -/
theorem writeChunksTo_eq_none {file' : Handle Errno UInt8} :
    ∀ {chunks : List DataChunk} {file : Handle Errno UInt8},
      writeChunksTo cut disk file chunks = (file', none) ↔
        chunks.all DataChunk.isData = true ∧
          file.queueAll disk (chunks.flatMap fun chunk => cut.parts chunk.bytes)
            = (file', .ok ()) := by
  intro chunks
  induction chunks with
  | nil =>
      intro file
      rw [writeChunksTo, List.flatMap_nil, Handle.queueAll]
      simp
  | cons chunk rest ih =>
      intro file
      cases chunk with
      | streamError message =>
          refine iff_of_false (fun h => by cases (Prod.mk.inj h).2) ?_
          rintro ⟨⟨⟩, -⟩
      | data chunk =>
          rw [writeChunksTo, List.flatMap_cons, Handle.queueAll_append, Handle.writeAll]
          simp only [DataChunk.bytes, List.all_cons, DataChunk.isData, Bool.true_and]
          cases file.queueAll disk (cut.parts chunk) with
          | mk next result =>
              cases result with
              | error e =>
                  refine iff_of_false (fun h => by cases (Prod.mk.inj h).2) ?_
                  rintro ⟨-, h⟩
                  cases (Prod.mk.inj h).2
              | ok u => exact ih

theorem seen_isWritten_iff :
    (field.seen cut).chunks.all Chunk.isWritten = true ↔
      ∃ file, writeChunksTo cut field.disk {} field.chunks = (file, none) := by
  unfold DiskField.seen
  generalize writeChunksTo cut field.disk {} field.chunks = wrote
  obtain ⟨file, writeErr⟩ := wrote
  cases writeErr with
  | none => exact iff_of_true rfl ⟨file, rfl⟩
  | some err =>
      refine iff_of_false ?_ ?_
      · cases err <;> simp [WriteErr.chunk, Chunk.isWritten]
      · rintro ⟨file', h⟩
        cases (Prod.mk.inj h).2

/-- **If the loop sees no error**, then all chunks are on the disk just if the last part is. -/
theorem written_iff_takesLast {file : Handle Errno UInt8}
    (h : writeChunksTo cut field.disk {} field.chunks = (file, none)) :
    field.Written cut ↔ TakesLast field.disk (field.parts cut).length := by
  obtain ⟨hdata, hq⟩ := writeChunksTo_eq_none.mp h
  obtain ⟨htracks, hqueued⟩ := Handle.tracks_new.queueAll hq
  have hparts : file.queued = field.parts cut := hqueued
  have hne : ∀ part ∈ file.queued, part ≠ [] := by
    intro part hpart
    rw [hparts] at hpart
    obtain ⟨chunk, -, hpart⟩ := List.mem_flatMap.mp hpart
    exact cut.ne_nil _ part hpart
  have hflatten : file.queued.flatten = field.chunks.flatMap DataChunk.bytes := by
    rw [hparts, DiskField.parts, List.flatMap_def, List.flatMap_def, List.flatten_flatten,
      List.map_map]
    congr 1
    exact List.map_congr_left fun chunk _ => cut.flatten chunk.bytes
  unfold DiskField.Written
  rw [h, ← hflatten, Handle.onDisk_eq_iff hne, htracks.complete_iff_takesLast, hparts]

/-- If the loop sees the disk fail, then another part failed before the last. -/
theorem takesLast_of_writeErr (hdata : field.chunks.all DataChunk.isData = true)
    (h : ∀ file, writeChunksTo cut field.disk {} field.chunks ≠ (file, none)) :
    TakesLast field.disk (field.parts cut).length := by
  cases hq : Handle.queueAll field.disk {} (field.parts cut) with
  | mk file result =>
      cases result with
      | ok u => exact absurd (writeChunksTo_eq_none.mpr ⟨hdata, hq⟩) (h file)
      | error e =>
          have := Handle.tracks_new.takesLast_of_error hq
          rwa [show ({} : Handle Errno UInt8).queued = [] from rfl, List.length_nil,
            Nat.zero_add] at this

/-- **A field**: it is listed only if all its chunks are on the disk, if and only if its last part
is not the first that fails. -/
theorem uploadFieldTo_written_iff
    (hnew : ∀ dest, uploadTarget s st.tree targetDir (field.fileName.getD "") = .ok dest →
      NewUuid (createParents s.env st.tree dest).1 field.uuid) :
    ((uploadFieldTo cut s targetDir st field).uploaded ≠ st.uploaded → field.Written cut) ↔
      FieldTakesLast cut s targetDir st field := by
  rw [uploadFieldTo_eq, uploadField_lists_iff]
  have hname : (field.seen cut).fileName = field.fileName := rfl
  rw [hname]
  -- when an accepted field is stored
  have hstored : ∀ dest, uploadTarget s st.tree targetDir (field.fileName.getD "") = .ok dest →
      (createParents s.env st.tree dest).2 = .ok () →
      ((storeField s (createParents s.env st.tree dest).1 dest (field.seen cut)).2 = .ok () ↔
        (∃ file, writeChunksTo cut field.disk {} field.chunks = (file, none)) ∧
          takesFile s.env (createParents s.env st.tree dest).1 dest = true) := by
    intro dest htarget hparents
    obtain ⟨rel, R, loc, hv⟩ := validateAndResolvePath_eq_ok (uploadTarget_eq_ok htarget).1
    rw [hv.storeField_isOk_iff hparents (hnew dest htarget), seen_isWritten_iff]
  constructor
  · intro hall hne dest htarget hparents htakes hdata
    by_cases hfile : ∃ file, writeChunksTo cut field.disk {} field.chunks = (file, none)
    · have hlisted := (hstored dest htarget hparents).mpr ⟨hfile, htakes⟩
      obtain ⟨file, hfile⟩ := hfile
      exact (written_iff_takesLast hfile).mp (hall ⟨hne, dest, htarget, hparents, hlisted⟩)
    · exact takesLast_of_writeErr hdata fun file h => hfile ⟨file, h⟩
  · rintro htakesLast ⟨hne, dest, htarget, hparents, hlisted⟩
    obtain ⟨⟨file, hfile⟩, htakes⟩ := (hstored dest htarget hparents).mp hlisted
    exact (written_iff_takesLast hfile).mpr (htakesLast hne dest htarget hparents htakes
      (writeChunksTo_eq_none.mp hfile).1)

end Disk

/-! ## Success -/

/-- **When success means that the bytes were written**, for an upload and for a download: unless
the disk takes all parts but the last. -/
theorem success_means_written_iff (cut : Parts UInt8) (s : AppState) (t : Tree)
    (targetDir : String) (fields : List DiskField)
    (hnew : Along (uploadFieldTo cut s targetDir)
      (fun st field => ∀ dest,
        uploadTarget s st.tree targetDir (field.fileName.getD "") = .ok dest →
        NewUuid (createParents s.env st.tree dest).1 field.uuid) ⟨t, [], []⟩ fields)
    (c : TftpClient) (disk : Nat → Option String) (inputs : List RecvFrom) :
    (Along (uploadFieldTo cut s targetDir)
        (fun st field => (uploadFieldTo cut s targetDir st field).uploaded ≠ st.uploaded →
          field.Written cut) ⟨t, [], []⟩ fields ↔
      Along (uploadFieldTo cut s targetDir) (FieldTakesLast cut s targetDir) ⟨t, [], []⟩
        fields) ∧
    (Saved disk (c.getFile cut disk inputs) ↔
      Along (fun st i => (c.getStepTo cut disk st i).1) (TurnTakesLast c cut disk)
        ⟨.receiving {}, {}⟩ inputs) :=
  ⟨along_congr (fun _ _ h => uploadFieldTo_written_iff h) fields _ hnew,
    getFile_written_iff c cut disk inputs⟩

/-- A file of one byte, on a disk that takes nothing. -/
def lostField : DiskField := ⟨some "a.txt", [.data [97]], "1", fun _ => some .other⟩

def smallClient : TftpClient := ⟨⟨.v4 0#32, 69⟩, .octet, 512, 1⟩

/-- The only block of a file of one byte. -/
def lostBlock : RecvFrom := .datagram (dataPacket 1 [97]) ⟨.v4 0#32, 4000⟩

/-- **The last part is lost**: both the upload and the download succeed, and neither file has its
byte. -/
theorem last_part_lost :
    (uploadFieldTo Parts.whole (plainState []) "" ⟨emptyRoot, [], []⟩ lostField).uploaded
      = ["a.txt"] ∧
    contentOf (plainState []).env
      (uploadFieldTo Parts.whole (plainState []) "" ⟨emptyRoot, [], []⟩ lostField).tree
      (ofString "/srv/tftp/a.txt") = some [] ∧
    ¬ lostField.Written Parts.whole ∧
    ¬ Saved (fun _ => some "disk full")
      (smallClient.getFile Parts.whole (fun _ => some "disk full") [lostBlock]) := by
  refine ⟨by decide +kernel, by decide +kernel, ?_, ?_⟩
  · unfold DiskField.Written
    decide +kernel
  · intro h
    exact absurd (h _ rfl) (by decide +kernel)

/-- On a disk that takes everything the same upload and the same download are written. -/
theorem success_means_written_iff_kept :
    (Along (uploadFieldTo Parts.whole (plainState []) "")
      (fun st field =>
        (uploadFieldTo Parts.whole (plainState []) "" st field).uploaded ≠ st.uploaded →
          field.Written Parts.whole)
      ⟨emptyRoot, [], []⟩ [{ lostField with disk := fun _ => none }]) ∧
    Saved (fun _ => none) (smallClient.getFile Parts.whole (fun _ => none) [lostBlock]) :=
  have hnew : ∀ dest, uploadTarget (plainState []) emptyRoot "" "a.txt" = .ok dest →
      NewUuid (createParents (plainState []).env emptyRoot dest).1 "1" := by
    intro dest hdest
    have htarget : uploadTarget (plainState []) emptyRoot "" "a.txt"
        = .ok (ofString "/srv/tftp/a.txt") := by decide +kernel
    have heq : dest = ofString "/srv/tftp/a.txt" := Except.ok.inj (hdest.symm.trans htarget)
    rw [heq]
    exact newUuid_of_support (by decide +kernel) (by decide +kernel)
  have hiff := success_means_written_iff Parts.whole (plainState []) emptyRoot ""
    [{ lostField with disk := fun _ => none }] ⟨hnew, trivial⟩ smallClient (fun _ => none)
    [lostBlock]
  ⟨hiff.1.mpr ⟨fun _ _ _ _ _ _ _ _ _ => rfl, trivial⟩,
    hiff.2.mpr ⟨fun _ _ _ _ _ _ => rfl, trivial⟩⟩

end UsgTftp
