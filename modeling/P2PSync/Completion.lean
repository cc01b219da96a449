import P2PSync.Streaming

/-! What file_transfer_complete tells. The coordinator that copies a download to its daemon
reports the end of its own loop; whether the daemon kept the file is not asked. -/
namespace P2PSync

open Transition

structure TransferComplete where
  transferID : String
  path : String
  success : Bool
  error : String
  deriving DecidableEq, Repr

def finishSession (transferID path : String) (err : Option String) : TransferComplete :=
  ⟨transferID, path, err.isNone, err.getD ""⟩

namespace CopyLoop

def total (c : CopyLoop) : Nat := c.copied - c.buffer.length

def verdict (c : CopyLoop) (err : Option String) : Option String :=
  match err with
  | some e => some e
  | none =>
    if c.total ≠ c.expectedSize then
      some ("size mismatch: got " ++ toString c.total ++ ", expected " ++ toString c.expectedSize)
    else none

/-- The errors that io.Copy can return where it has stopped: one where it could not write
what it had read, none where the limit of its reader is reached and all is written. -/
def Returns (c : CopyLoop) (err : Option String) : Prop :=
  c.running = false ∧ (c.buffer ≠ [] → err ≠ none) ∧
    (c.buffer = [] → c.copied = c.expectedSize → err = none)

instance (c : CopyLoop) (err : Option String) : Decidable (c.Returns err) :=
  inferInstanceAs (Decidable (_ ∧ _ ∧ _))

end CopyLoop

namespace StreamedTransfer

structure Counted (t : StreamedTransfer) : Prop where
  receiver : t.receiver.copied =
    t.download.outfile.length + t.downloadSocket.length + t.receiver.buffer.length
  sender : t.sender.copied = t.receiver.copied + t.netConn.length + t.sender.buffer.length
  limits : t.receiver.copied ≤ t.receiver.expectedSize ∧ t.sender.copied ≤ t.sender.expectedSize

variable {rt : Runtime} {t t' : StreamedTransfer}

theorem copy_counted {c c' : CopyLoop} {src dst src' dst' : Content} {step : CopyStep}
    (moved : ioCopy c src dst step = some (c', src', dst')) : c'.expectedSize = c.expectedSize ∧
    c'.copied + (dst.length + c.buffer.length) = c.copied + (dst'.length + c'.buffer.length) ∧
    c'.copied + src'.length = c.copied + src.length ∧
    (c.copied ≤ c.expectedSize → c'.copied ≤ c.expectedSize) := by
  cases step with
  | read n =>
    simp only [ioCopy] at moved
    split at moved
    · rename_i able
      cases moved
      simp only [able.2.1, List.length_nil, List.length_take, List.length_drop]
      refine ⟨trivial, by omega, by omega, fun _ => by omega⟩
    · cases moved
  | write n =>
    simp only [ioCopy] at moved
    split at moved
    · cases moved
      simp only [List.length_append, List.length_take, List.length_drop]
      exact ⟨trivial, by omega, trivial, id⟩
    · cases moved
  | stop =>
    cases moved
    exact ⟨rfl, rfl, rfl, id⟩

theorem counted_next {event : StreamEvent} (counted : t.Counted)
    (moved : t.next rt event = some t') : t'.Counted := by
  obtain ⟨receiver, sender, limits⟩ := counted
  cases event with
  | uploadRead n =>
    simp only [next] at moved
    split at moved
    · cases moved
      exact ⟨receiver, sender, limits⟩
    · cases moved
  | uploadWrite n =>
    simp only [next] at moved
    split at moved
    · cases moved
      exact ⟨receiver, sender, limits⟩
    · cases moved
  | uploadStop =>
    cases moved
    exact ⟨receiver, sender, limits⟩
  | streamUpload step =>
    obtain ⟨⟨c, src, dst⟩, copied, rfl⟩ := Option.map_eq_some_iff.mp moved
    obtain ⟨size, written, -, bound⟩ := copy_counted copied
    refine ⟨receiver, ?_, limits.1, ?_⟩
    · simp only
      omega
    · rw [size]
      exact bound limits.2
  | streamDownload step =>
    obtain ⟨⟨c, src, dst⟩, copied, rfl⟩ := Option.map_eq_some_iff.mp moved
    obtain ⟨size, written, read, bound⟩ := copy_counted copied
    refine ⟨?_, ?_, ?_, limits.2⟩
    · simp only
      omega
    · simp only
      omega
    · rw [size]
      exact bound limits.1
  | downloadRead n =>
    simp only [next] at moved
    split at moved
    · rename_i able
      cases moved
      refine ⟨?_, sender, limits⟩
      simp only [List.length_append, List.length_take, List.length_drop]
      omega
    · cases moved
  | downloadEnd env =>
    simp only [next] at moved
    split at moved
    · cases moved
      exact ⟨receiver, sender, limits⟩
    · cases moved

theorem counted_reach (reached : Reach Initial (Runs (next rt)) t) : t.Counted := by
  refine reach_invariant Counted ?_ ?_ reached
  · intro t initial
    obtain ⟨-, net, local_⟩ := initial.sockets
    refine ⟨?_, ?_, ?_⟩
    · rw [initial.receiver, initial.download, local_]
      rfl
    · rw [initial.sender, initial.receiver, net]
      rfl
    · rw [initial.receiver, initial.sender]
      exact ⟨Nat.zero_le _, Nat.zero_le _⟩
  · intro t event t' counted moved
    exact counted_next counted moved

def Filled (t : StreamedTransfer) : Prop :=
  t.inPlace ≠ none → t.download.expectedSize ≤ t.download.outfile.length

theorem receiveFile_length {env : DaemonEnv} {dest : String} {expectedSize : Nat}
    {expectedHash : String} {mode : Nat}
    (placed : (receiveFile rt env dest expectedSize expectedHash mode).2 ≠ none) :
    expectedSize ≤ env.stream.length := by
  by_contra short
  have length : (env.stream.take expectedSize).length ≠ expectedSize := by
    rw [List.length_take]
    omega
  apply placed
  unfold receiveFile
  simp only [Int.toNat_natCast, ne_eq, Nat.cast_inj, length, not_false_eq_true, if_true]
  split_ifs <;> rfl

theorem filled_next {event : StreamEvent} (filled : t.Filled)
    (moved : t.next rt event = some t') : t'.Filled := by
  cases event with
  | uploadRead n | uploadWrite n =>
    simp only [next] at moved
    split at moved
    · cases moved
      exact filled
    · cases moved
  | uploadStop =>
    cases moved
    exact filled
  | streamUpload step | streamDownload step =>
    obtain ⟨⟨c, src, dst⟩, -, rfl⟩ := Option.map_eq_some_iff.mp moved
    exact filled
  | downloadRead n =>
    simp only [next] at moved
    split at moved
    · cases moved
      intro placed
      rw [List.length_append]
      exact (filled placed).trans (Nat.le_add_right _ _)
    · cases moved
  | downloadEnd env =>
    simp only [next] at moved
    split at moved
    · cases moved
      exact fun placed => receiveFile_length placed
    · cases moved

theorem filled_reach (reached : Reach Initial (Runs (next rt)) t) : t.Filled := by
  refine reach_invariant Filled ?_ ?_ reached
  · intro t initial placed
    exact absurd initial.inPlace placed
  · intro t event t' filled moved
    exact filled_next filled moved

end StreamedTransfer

theorem CopyLoop.success_iff {c : CopyLoop} {err : Option String} (returns : c.Returns err)
    (held : c.buffer.length ≤ c.copied) (limit : c.copied ≤ c.expectedSize)
    (transferID path : String) : (finishSession transferID path (c.verdict err)).success = true ↔
      c.copied - c.buffer.length = c.expectedSize := by
  obtain ⟨-, unwritten, complete⟩ := returns
  rw [finishSession, Option.isNone_iff_eq_none]
  cases err with
  | some e =>
    simp only [verdict, reduceCtorEq, false_iff]
    intro all
    have empty : c.buffer = [] := List.length_eq_zero_iff.mp (by omega)
    have none := complete empty (by omega)
    cases none
  | none =>
    rw [verdict]
    split_ifs with short
    · simp only [false_iff]
      exact short
    · simp only [true_iff]
      exact not_not.mp short

/-- The message about a download says success exactly where the expected number of bytes,
the first ones of the uploader's file, has been handed to the daemon. Whenever the daemon
puts the file in place, the message says so. -/
theorem transfer_complete_delivered {rt : Runtime} {t : StreamedTransfer}
    (reached : Reach StreamedTransfer.Initial
      (Runs (StreamedTransfer.next rt)) t) {err : Option String}
    (returns : t.receiver.Returns err) (transferID path : String) :
    ((finishSession transferID path (t.receiver.verdict err)).success = true ↔
      t.download.outfile ++ t.downloadSocket = t.file.take t.receiver.expectedSize ∧
        t.receiver.expectedSize ≤ t.file.length) ∧
    (t.receiver.expectedSize = t.download.expectedSize → t.inPlace ≠ none →
      (finishSession transferID path (t.receiver.verdict err)).success = true) := by
  have counted := StreamedTransfer.counted_reach reached
  have flowing := StreamedTransfer.flowing_reach reached
  have filled := StreamedTransfer.filled_reach reached
  have handed : t.receiver.copied - t.receiver.buffer.length =
      (t.download.outfile ++ t.downloadSocket).length := by
    rw [counted.receiver, List.length_append]
    omega
  have success := CopyLoop.success_iff returns (by rw [counted.receiver]; omega) counted.limits.1
    transferID path
  rw [handed] at success
  have front : t.download.outfile ++ t.downloadSocket <+: t.file := by
    have whole := flowing.whole
    simp only [StreamedTransfer.onTheWay, List.append_assoc] at whole
    rw [← List.append_assoc] at whole
    exact (List.prefix_append _ _).trans (whole ▸ List.take_prefix _ _)
  refine ⟨success.trans ⟨?_, ?_⟩, ?_⟩
  · intro length
    rw [← length]
    exact ⟨List.prefix_iff_eq_take.mp front, front.length_le⟩
  · rintro ⟨same, long⟩
    rw [same, List.length_take, Nat.min_eq_left long]
  · intro sizes placed
    apply success.mpr
    have received := filled placed
    have limit := counted.limits.1
    rw [counted.receiver] at limit
    rw [List.length_append]
    omega

def cutOffEvents : List StreamEvent :=
  [.uploadRead 3, .uploadWrite 3, .streamUpload (.read 3), .streamUpload (.write 2),
    .streamDownload (.read 2), .streamDownload (.write 2), .downloadRead 2, .streamDownload .stop]

theorem transfer_complete_delivered_cutOff : ∃ t : StreamedTransfer,
    t.download.outfile = [1, 2] ∧
      (finishSession "dl_1" "f" (t.receiver.verdict none)).success = false ∧
      (finishSession "dl_1" "f" (t.receiver.verdict none)).error =
        "size mismatch: got 2, expected 3" := by
  obtain ⟨t, reached, file, socket, returns, text⟩ := reach_of_replay
    (StreamedTransfer.next .plain) (fun _ _ => True) (.start brokenUpTransfer_initial)
    cutOffEvents (fun t => t.download.outfile = [1, 2] ∧ t.downloadSocket = [] ∧
      t.receiver.Returns none ∧ (finishSession "dl_1" "f" (t.receiver.verdict none)).error =
        "size mismatch: got 2, expected 3" ∧ t.file.take t.receiver.expectedSize = [1, 2, 3])
    (by decide +kernel)
  refine ⟨t, file, ?_, text.1⟩
  have delivered := (transfer_complete_delivered
    (reach_mono (fun _ _ _ step => step.1) reached) returns "dl_1" "f").1
  rw [file, socket, text.2] at delivered
  exact Bool.eq_false_iff.mpr (fun success => absurd (delivered.mp success).1 (by decide))

end P2PSync
