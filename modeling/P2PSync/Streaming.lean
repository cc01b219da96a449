import P2PSync.Daemon
import P2PSync.Library.Transition

/-! A transfer over the wire: the uploading daemon, the two coordinators that copy from
one socket to the next, and the downloading daemon. Each of the four loops moves what it
gets in pieces of any size and may stop at any point. -/
namespace P2PSync

open Transition

structure UploadLoop where
  expectedSize : Nat
  position : Nat
  totalSent : Nat
  buffer : Content
  written : Nat
  running : Bool

structure CopyLoop where
  expectedSize : Nat
  copied : Nat
  buffer : Content
  running : Bool

structure DownloadLoop where
  expectedSize : Nat
  totalReceived : Nat
  outfile : Content
  running : Bool

structure StreamedTransfer where
  file : Content
  upload : UploadLoop
  uploadSocket : Content
  sender : CopyLoop
  netConn : Content
  receiver : CopyLoop
  downloadSocket : Content
  download : DownloadLoop
  dest : String
  expectedHash : String
  mode : Nat
  inPlace : Option Content

inductive CopyStep where
  | read (n : Nat)
  | write (n : Nat)
  | stop
  deriving DecidableEq, Repr

/-- At most the expected size is read, and a buffer is written before the next one is
read. -/
def ioCopy (c : CopyLoop) (src dst : Content) : CopyStep → Option (CopyLoop × Content × Content)
  | .read n =>
    if c.running ∧ c.buffer = [] ∧ 0 < n ∧ n ≤ c.expectedSize - c.copied ∧ n ≤ src.length then
      some ({ c with buffer := src.take n, copied := c.copied + n }, src.drop n, dst)
    else none
  | .write n =>
    if c.running ∧ n ≤ c.buffer.length then
      some ({ c with buffer := c.buffer.drop n }, src, dst ++ c.buffer.take n)
    else none
  | .stop => some ({ c with running := false }, src, dst)

inductive StreamEvent where
  | uploadRead (n : Nat)
  | uploadWrite (n : Nat)
  | uploadStop
  | streamUpload (step : CopyStep)
  | streamDownload (step : CopyStep)
  | downloadRead (n : Nat)
  /-- The loop ends, at the expected size or before, and the file is checked. -/
  | downloadEnd (env : DaemonEnv)

namespace StreamedTransfer

def chunk : Nat := 4096

def next (rt : Runtime) (t : StreamedTransfer) : StreamEvent → Option StreamedTransfer
  | .uploadRead n =>
    let u := t.upload
    if u.running ∧ u.written = u.buffer.length ∧ u.totalSent < u.expectedSize ∧
        n ≤ min chunk (u.expectedSize - u.totalSent) ∧ n ≤ t.file.length - u.position then
      some { t with upload :=
        if n = 0 then { u with running := false }
        else { u with
          position := u.position + n, buffer := (t.file.drop u.position).take n, written := 0 } }
    else none
  | .uploadWrite n =>
    let u := t.upload
    if u.running ∧ u.written < u.buffer.length ∧ n ≤ u.buffer.length - u.written then
      some { t with
        upload := { u with
          written := u.written + n
          totalSent := if u.written + n = u.buffer.length then u.totalSent + (u.written + n)
            else u.totalSent }
        uploadSocket := t.uploadSocket ++ (u.buffer.drop u.written).take n }
    else none
  | .uploadStop => some { t with upload := { t.upload with running := false } }
  | .streamUpload step =>
    (ioCopy t.sender t.uploadSocket t.netConn step).map fun (sender, uploadSocket, netConn) =>
      { t with sender := sender, uploadSocket := uploadSocket, netConn := netConn }
  | .streamDownload step =>
    (ioCopy t.receiver t.netConn t.downloadSocket step).map
      fun (receiver, netConn, downloadSocket) =>
        { t with receiver := receiver, netConn := netConn, downloadSocket := downloadSocket }
  | .downloadRead n =>
    let d := t.download
    if d.running ∧ d.totalReceived < d.expectedSize ∧ 0 < n ∧
        n ≤ min chunk (d.expectedSize - d.totalReceived) ∧ n ≤ t.downloadSocket.length then
      some { t with
        download := { d with
          totalReceived := d.totalReceived + n, outfile := d.outfile ++ t.downloadSocket.take n }
        downloadSocket := t.downloadSocket.drop n }
    else none
  | .downloadEnd env =>
    let d := t.download
    if d.running then
      some { t with
        download := { d with running := false }
        inPlace := (receiveFile rt { env with stream := d.outfile } t.dest d.expectedSize
          t.expectedHash t.mode).2 }
    else none

structure Initial (t : StreamedTransfer) : Prop where
  upload : t.upload = ⟨t.upload.expectedSize, 0, 0, [], 0, true⟩
  sender : t.sender = ⟨t.sender.expectedSize, 0, [], true⟩
  receiver : t.receiver = ⟨t.receiver.expectedSize, 0, [], true⟩
  download : t.download = ⟨t.download.expectedSize, 0, [], true⟩
  sockets : t.uploadSocket = [] ∧ t.netConn = [] ∧ t.downloadSocket = []
  inPlace : t.inPlace = none

def onTheWay (t : StreamedTransfer) : Content :=
  t.downloadSocket ++ t.receiver.buffer ++ t.netConn ++ t.sender.buffer ++ t.uploadSocket ++
    t.upload.buffer.drop t.upload.written

structure Flowing (t : StreamedTransfer) : Prop where
  whole : t.download.outfile ++ t.onTheWay = t.file.take t.upload.position
  counted : t.download.totalReceived = t.download.outfile.length
  placed : ∀ data, t.inPlace = some data → data = t.file.take t.download.expectedSize ∧
    t.download.expectedSize ≤ t.file.length

variable {rt : Runtime} {t t' : StreamedTransfer}

theorem copy_keeps {c c' : CopyLoop} {src dst src' dst' : Content} {step : CopyStep}
    (moved : ioCopy c src dst step = some (c', src', dst')) :
    dst' ++ c'.buffer ++ src' = dst ++ c.buffer ++ src := by
  cases step with
  | read n =>
    simp only [ioCopy] at moved
    split at moved
    · rename_i able
      cases moved
      simp [able.2.1]
    · cases moved
  | write n =>
    simp only [ioCopy] at moved
    split at moved
    · cases moved
      simp
    · cases moved
  | stop =>
    cases moved
    rfl

section

variable (flowing : t.Flowing) {step : CopyStep} {c : CopyLoop} {src dst : Content}

include flowing

theorem Flowing.moves (file : t'.file = t.file)
    (size : t'.download.expectedSize = t.download.expectedSize) (inPlace : t'.inPlace = t.inPlace)
    (whole : t'.download.outfile ++ t'.onTheWay = t'.file.take t'.upload.position)
    (counted : t'.download.totalReceived = t'.download.outfile.length) : t'.Flowing := by
  refine ⟨whole, counted, ?_⟩
  rw [file, size, inPlace]
  exact flowing.placed

theorem Flowing.uploadRead (passed : t.upload.written = t.upload.buffer.length) (n : Nat) :
    ({ t with upload := { t.upload with
      position := t.upload.position + n
      buffer := (t.file.drop t.upload.position).take n
      written := 0 } } : StreamedTransfer).Flowing := by
  refine flowing.moves rfl rfl rfl ?_ flowing.counted
  have whole := flowing.whole
  simp only [onTheWay, passed, List.drop_length, List.append_nil] at whole
  simp only [onTheWay, List.drop_zero, ← List.append_assoc] at whole ⊢
  rw [whole, ← List.take_add]

theorem Flowing.uploadWrite (n totalSent : Nat) : ({ t with
      upload := { t.upload with written := t.upload.written + n, totalSent := totalSent }
      uploadSocket := t.uploadSocket ++ (t.upload.buffer.drop t.upload.written).take n } :
        StreamedTransfer).Flowing := by
  refine flowing.moves rfl rfl rfl ?_ flowing.counted
  have whole := flowing.whole
  simp only [onTheWay, List.append_assoc] at whole ⊢
  rw [← List.drop_drop, List.take_append_drop]
  exact whole

theorem Flowing.streamUpload
    (moved : ioCopy t.sender t.uploadSocket t.netConn step = some (c, src, dst)) :
    ({ t with sender := c, uploadSocket := src, netConn := dst } : StreamedTransfer).Flowing := by
  refine flowing.moves rfl rfl rfl ?_ flowing.counted
  have kept := congrArg (· ++ t.upload.buffer.drop t.upload.written) (copy_keeps moved)
  have whole := flowing.whole
  simp only [onTheWay, List.append_assoc] at kept whole ⊢
  rw [kept]
  exact whole

theorem Flowing.streamDownload
    (moved : ioCopy t.receiver t.netConn t.downloadSocket step = some (c, src, dst)) :
    ({ t with receiver := c, netConn := src, downloadSocket := dst } :
      StreamedTransfer).Flowing := by
  refine flowing.moves rfl rfl rfl ?_ flowing.counted
  have kept := congrArg (· ++ (t.sender.buffer ++ (t.uploadSocket ++
    t.upload.buffer.drop t.upload.written))) (copy_keeps moved)
  have whole := flowing.whole
  simp only [onTheWay, List.append_assoc] at kept whole ⊢
  rw [kept]
  exact whole

theorem Flowing.downloadRead {n : Nat} (able : n ≤ t.downloadSocket.length) : ({ t with
      download := { t.download with
        totalReceived := t.download.totalReceived + n
        outfile := t.download.outfile ++ t.downloadSocket.take n }
      downloadSocket := t.downloadSocket.drop n } : StreamedTransfer).Flowing := by
  refine flowing.moves rfl rfl rfl ?_ ?_
  · have whole := flowing.whole
    simp only [onTheWay, List.append_assoc] at whole ⊢
    rw [← List.append_assoc (t.downloadSocket.take n), List.take_append_drop]
    exact whole
  · simp only [List.length_append, List.length_take, flowing.counted]
    omega

theorem Flowing.downloadEnd (rt : Runtime) (env : DaemonEnv) : ({ t with
      download := { t.download with running := false }
      inPlace := (receiveFile rt { env with stream := t.download.outfile } t.dest
        t.download.expectedSize t.expectedHash t.mode).2 } : StreamedTransfer).Flowing := by
  refine ⟨flowing.whole, flowing.counted, fun data placed => ?_⟩
  obtain ⟨front, size⟩ := receiveFile_content placed
  have length : data.length = t.download.expectedSize := Int.ofNat.inj size
  have before : data <+: t.file :=
    calc data <+: t.download.outfile := by rw [front]; exact List.take_prefix _ _
      _ <+: t.file.take t.upload.position := ⟨_, flowing.whole⟩
      _ <+: t.file := List.take_prefix _ _
  refine ⟨?_, length ▸ before.length_le⟩
  rw [← length]
  exact List.prefix_iff_eq_take.mp before

end

theorem flowing_next {event : StreamEvent} (flowing : t.Flowing)
    (moved : t.next rt event = some t') : t'.Flowing := by
  cases event with
  | uploadRead n =>
    simp only [next] at moved
    split at moved
    · rename_i able
      cases moved
      split
      · exact ⟨flowing.whole, flowing.counted, flowing.placed⟩
      · exact flowing.uploadRead able.2.1 n
    · cases moved
  | uploadWrite n =>
    simp only [next] at moved
    split at moved
    · cases moved
      exact flowing.uploadWrite n _
    · cases moved
  | uploadStop =>
    cases moved
    exact ⟨flowing.whole, flowing.counted, flowing.placed⟩
  | streamUpload step =>
    obtain ⟨⟨c, src, dst⟩, copied, rfl⟩ := Option.map_eq_some_iff.mp moved
    exact flowing.streamUpload copied
  | streamDownload step =>
    obtain ⟨⟨c, src, dst⟩, copied, rfl⟩ := Option.map_eq_some_iff.mp moved
    exact flowing.streamDownload copied
  | downloadRead n =>
    simp only [next] at moved
    split at moved
    · rename_i able
      cases moved
      exact flowing.downloadRead able.2.2.2.2
    · cases moved
  | downloadEnd env =>
    simp only [next] at moved
    split at moved
    · cases moved
      exact flowing.downloadEnd rt env
    · cases moved

theorem flowing_reach (reached : Reach Initial (Runs (next rt)) t) : t.Flowing := by
  apply reach_invariant Flowing _ _ reached
  · intro t initial
    refine ⟨?_, ?_, ?_⟩
    · simp only [onTheWay, initial.sockets]
      rw [initial.upload, initial.sender, initial.receiver, initial.download]
      simp
    · rw [initial.download]
      rfl
    · rw [initial.inPlace]
      nofun
  · intro t event t' flowing moved
    exact flowing_next flowing moved

end StreamedTransfer

/-- However the data is split and wherever a loop stops, a file that is renamed into
place is the front of the uploader's file, of the expected size; a file that is too
short is not put in place. -/
theorem streamed_bytes_exact {rt : Runtime} {t : StreamedTransfer}
    (reached : Reach StreamedTransfer.Initial
      (Runs (StreamedTransfer.next rt)) t) :
    (∀ data, t.inPlace = some data → data = t.file.take t.download.expectedSize) ∧
    (t.file.length < t.download.expectedSize → t.inPlace = none) := by
  have flowing := StreamedTransfer.flowing_reach reached
  refine ⟨fun data placed => (flowing.placed data placed).1, fun short => ?_⟩
  cases placed : t.inPlace with
  | none => rfl
  | some data => exact absurd (flowing.placed data placed).2 (not_le.mpr short)

def brokenUpTransfer : StreamedTransfer where
  file := [1, 2, 3, 4]
  upload := ⟨3, 0, 0, [], 0, true⟩
  uploadSocket := []
  sender := ⟨3, 0, [], true⟩
  netConn := []
  receiver := ⟨3, 0, [], true⟩
  downloadSocket := []
  download := ⟨3, 0, [], true⟩
  dest := "/r/f"
  expectedHash := ""
  mode := 0
  inPlace := none

theorem brokenUpTransfer_initial : brokenUpTransfer.Initial :=
  ⟨rfl, rfl, rfl, rfl, ⟨rfl, rfl, rfl⟩, rfl⟩

def brokenUpEvents : List StreamEvent :=
  [.uploadRead 3, .uploadWrite 1, .streamUpload (.read 1), .streamUpload (.write 1),
    .streamDownload (.read 1), .streamDownload (.write 1), .downloadRead 1, .uploadWrite 2,
    .streamUpload (.read 2), .streamUpload (.write 1), .streamUpload (.write 1),
    .streamDownload (.read 2), .streamDownload (.write 2), .downloadRead 1, .uploadStop,
    .downloadRead 1, .downloadEnd ⟨true, true, true, true, true, [], true, true, false⟩]

theorem streamed_bytes_exact_brokenUp : ∃ t : StreamedTransfer, t.inPlace = some [1, 2, 3] ∧
    t.file = [1, 2, 3, 4] ∧ t.download.expectedSize = 3 ∧
    ∀ data, t.inPlace = some data → data = t.file.take t.download.expectedSize := by
  obtain ⟨t, reached, placed, file, size⟩ := reach_of_replay
    (StreamedTransfer.next .plain) (fun _ _ => True) (.start brokenUpTransfer_initial)
    brokenUpEvents (fun t => t.inPlace = some [1, 2, 3] ∧ t.file = [1, 2, 3, 4] ∧
      t.download.expectedSize = 3) (by decide +kernel)
  have run : Reach StreamedTransfer.Initial
      (Runs (StreamedTransfer.next .plain)) t :=
    reach_mono (fun _ _ _ step => step.1) reached
  exact ⟨t, placed, file, size, (streamed_bytes_exact run).1⟩

end P2PSync
