import UsgTftp.Download.Lossless

set_option autoImplicit false

/-! # Downloads in NETASCII mode

A file of up to `1 MiB` is read and encoded before it is sent, and then served like an octet
file with the encoded data. `TftpClient::get` does not decode, so what it writes is the encoded
file (`lossless_download_netascii`).
-/

namespace UsgTftp

open Reactive Segment Posix

section

variable {c : TftpClient} {remoteFile : String} {host : Host} {t : Tree} {file : Bytes}

/-- Every run of a lossless download ends, and ends with `get` having returned `Ok` and written
these data. -/
def DownloadWrites (c : TftpClient) (remoteFile : String) (host : Host) (t : Tree)
    (data : Bytes) : Prop :=
  EndsIn (LosslessStep c host) (losslessStart c remoteFile t)
    (fun s => ∃ g, s.left = .returned (.ok ()) g ∧ g.written = data)

/-- Small files are converted in memory. -/
theorem startReadRequest_netascii {mode : TransferMode} {max : Nat} {order : IterOrder}
    (hmode : mode = .netascii) (hsize : max = 0 ∨ file.length ≤ max)
    (hsmall : file.length ≤ netasciiBufferLimit) (options : TftpOptions)
    (negotiatedOptions : OptionMap) :
    startReadRequest (some (.regular file)) mode options negotiatedOptions max order
      = sendOack mode options negotiatedOptions order (.buffered (convertToNetascii file))
          (convertToNetascii file).length := by
  have hwithin : ¬ (max > 0 ∧ (OpenFile.regular file).len > max) := by
    show ¬ (_ ∧ file.length > _)
    omega
  rw [startReadRequest]
  dsimp only
  rw [if_neg hwithin, if_pos ⟨hmode, hsmall⟩]
  rfl

/-- The download ends with the encoded file at the client. -/
theorem lossless_download_netascii {p : Path} (hmode : c.mode = .netascii)
    (hb : 8 ≤ c.blockSize ∧ c.blockSize ≤ 65464) (hW : 1 ≤ c.windowsize ∧ c.windowsize ≤ 65535)
    (hlisten : c.serverAddr = host.listenAddr) (htid : host.tids 0 ≠ host.listenAddr)
    (hdefault : c.windowsize > 1 ∨ host.config.defaultWindowsize = 1)
    (hnul : 0 ∉ asBytes remoteFile) (hlen : (asBytes remoteFile).length ≤ 254)
    (hpath : validateAndResolvePath host.env t host.config.rootDir remoteFile = .ok p)
    (hopen : host.openFile t p = some (.regular file))
    (hsize : host.config.maxFileSizeBytes = 0 ∨ file.length ≤ host.config.maxFileSizeBytes)
    (hsmall : file.length ≤ netasciiBufferLimit) :
    DownloadWrites c remoteFile host t (convertToNetascii file) := by
  have hsource : ServedFrom (convertToNetascii file) c.mode
      (.buffered (convertToNetascii file)) := by
    rw [hmode]
    exact .netascii
  obtain ⟨options, oack, pre, hblock, hwindow, haccept⟩ :=
    accepted_rrqPacket (by rw [hmode]; decide) hb hW hdefault hnul hlen hpath hopen
      (startReadRequest_netascii hmode hsize hsmall)
  obtain ⟨hacc, hend⟩ :=
    run_of_accepted hsource hb hW hlisten htid hlen hblock hwindow haccept
  refine ⟨hacc, ?_⟩
  intro s hs hstuck
  obtain ⟨g, -, hleft, hwritten, -⟩ := hend s hs hstuck
  exact ⟨g, hleft, hwritten⟩

/-- The client has one file at the end, so it has the file itself only if encoding changes
nothing in it. -/
theorem downloadWrites_iff {data encoded : Bytes}
    (h : DownloadWrites c remoteFile host t encoded) :
    DownloadWrites c remoteFile host t data ↔ encoded = data := by
  apply EndsIn.iff_of_outcome h
  rintro s ⟨g, hleft, rfl⟩
  constructor
  · rintro ⟨g', hleft', rfl⟩
    rw [hleft] at hleft'
    cases hleft'
    rfl
  · rintro rfl
    exact ⟨g, hleft, rfl⟩

end

end UsgTftp
