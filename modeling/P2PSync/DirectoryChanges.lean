import P2PSync.Library.Records
import P2PSync.Library.Utf16
import P2PSync.WatchEvents

/-! The watcher for Windows. The system fills a buffer with a chain of records, one for
each change and two for a renaming. A read whose buffer was too small completes with no
bytes. -/
namespace P2PSync

structure FileNotify where
  action : Nat
  fileName : List UInt16

def readNotify (buf : List UInt8) : Option (FileNotify × Nat) :=
  (Records.read 4 0 buf).bind fun nextEntryOffset =>
  (Records.read 4 4 buf).bind fun action =>
  (Records.read 4 8 buf).bind fun fileNameLength =>
  (Records.readWords (fileNameLength / 2) (buf.drop 12)).map fun fileName =>
    (⟨action, fileName⟩, nextEntryOffset)

def wideToUtf8 (wstr : List UInt16) : String := String.ofList (Utf16.decode wstr)

/-- The actions in the order of their numbers: added, removed, modified, and the old and
the new name of a renaming. -/
def notifyType : Nat → Option WatchEventType
  | 1 => some .created
  | 2 => some .deleted
  | 3 => some .modified
  | 4 => some .deleted
  | 5 => some .created
  | _ => none

def FileNotify.event (n : FileNotify) : Option WatchEvent :=
  (notifyType n.action).map fun type =>
    ⟨type, Bytes.normalizePath (Utf8.encode (wideToUtf8 n.fileName))⟩

inductive Completion where
  | timeout
  /-- No bytes: more changed than the buffer holds. -/
  | overflow
  | filled (buffer : List UInt8)

def Completion.events : Completion → Option (List WatchEvent)
  | .timeout => some []
  | .overflow => some []
  | .filled buffer =>
    (Records.walk readNotify buffer.length buffer).map (·.filterMap FileNotify.event)

def watchDirectory : List Completion → Option (List WatchEvent)
  | [] => some []
  | c :: rest => c.events.bind fun events => (watchDirectory rest).map (events ++ ·)

/-! What the system puts into the buffer. -/

inductive DirectoryChange where
  | added (name : String)
  | removed (name : String)
  | modified (name : String)
  | renamed (old new : String)

def notifyOf (action : Nat) (name : String) : FileNotify := ⟨action, Utf16.encode name.toList⟩

def DirectoryChange.records : DirectoryChange → List FileNotify
  | .added name => [notifyOf 1 name]
  | .removed name => [notifyOf 2 name]
  | .modified name => [notifyOf 3 name]
  | .renamed old new => [notifyOf 4 old, notifyOf 5 new]

def WatchEvent.ofName (type : WatchEventType) (name : String) : WatchEvent :=
  ⟨type, Utf8.encode (normalizePath name)⟩

def DirectoryChange.events : DirectoryChange → List WatchEvent
  | .added name => [.ofName .created name]
  | .removed name => [.ofName .deleted name]
  | .modified name => [.ofName .modified name]
  | .renamed old new => [.ofName .deleted old, .ofName .created new]

def recordBytes (next : Nat) (n : FileNotify) : List UInt8 :=
  Records.bytes 4 next ++ (Records.bytes 4 n.action ++
    (Records.bytes 4 (2 * n.fileName.length) ++ Records.wordBytes n.fileName))

def FileNotify.Fits (n : FileNotify) : Prop := n.action < 2 ^ 32 ∧ 2 * n.fileName.length < 2 ^ 32

instance (n : FileNotify) : Decidable n.Fits := inferInstanceAs (Decidable (_ ∧ _))

/-- A buffer as the system fills it: records with any padding between them, and after the
last one whatever was there before. -/
inductive Laid : List FileNotify → List UInt8 → Prop where
  | last {n : FileNotify} (stale : List UInt8) : n.Fits → Laid [n] (recordBytes 0 n ++ stale)
  | link {n : FileNotify} {ns : List FileNotify} {buf : List UInt8} (padding : List UInt8) :
      n.Fits → 12 + 2 * n.fileName.length + padding.length < 2 ^ 32 → Laid ns buf →
      Laid (n :: ns)
        (recordBytes (12 + 2 * n.fileName.length + padding.length) n ++ (padding ++ buf))

theorem length_recordBytes (next : Nat) (n : FileNotify) :
    (recordBytes next n).length = 12 + 2 * n.fileName.length := by
  simp only [recordBytes, List.length_append, Records.length_bytes, Records.length_wordBytes]
  omega

theorem readNotify_recordBytes {next : Nat} {n : FileNotify} (small : next < 2 ^ 32) (fits : n.Fits)
    (rest : List UInt8) : readNotify (recordBytes next n ++ rest) = some (n, next) := by
  let name := Records.wordBytes n.fileName ++ rest
  let size := Records.bytes 4 (2 * n.fileName.length)
  have layout : recordBytes next n ++ rest =
      Records.bytes 4 next ++ (Records.bytes 4 n.action ++ (size ++ name)) := by
    simp only [recordBytes, List.append_assoc, size, name]
  have first : Records.read 4 0 (recordBytes next n ++ rest) = some next := by
    rw [layout]
    exact Records.read_bytes small [] _
  have second : Records.read 4 4 (recordBytes next n ++ rest) = some n.action := by
    rw [layout]
    exact Records.read_bytes fits.1 (Records.bytes 4 next) _
  have third : Records.read 4 8 (recordBytes next n ++ rest) = some (2 * n.fileName.length) := by
    rw [layout, ← List.append_assoc]
    exact Records.read_bytes fits.2 (Records.bytes 4 next ++ Records.bytes 4 n.action) name
  have words : (recordBytes next n ++ rest).drop 12 = name := by
    rw [layout, ← List.append_assoc, ← List.append_assoc]
    exact List.drop_left' rfl
  rw [readNotify, first, second, third, words]
  simp only [Option.bind_some]
  rw [Nat.mul_div_cancel_left _ Nat.two_pos, Records.readWords_wordBytes, Option.map_some]

theorem chained_of_laid {ns : List FileNotify} {buf : List UInt8} (laid : Laid ns buf) :
    Records.Chained readNotify buf ns := by
  induction laid with
  | last stale fits => exact .last (readNotify_recordBytes (by decide) fits stale)
  | @link n ns buf padding fits small _ ih =>
    have found := readNotify_recordBytes small fits (padding ++ buf)
    have distance : 12 + 2 * n.fileName.length + padding.length =
        11 + 2 * n.fileName.length + padding.length + 1 := by omega
    have there : (recordBytes (12 + 2 * n.fileName.length + padding.length) n ++
        (padding ++ buf)).drop (12 + 2 * n.fileName.length + padding.length) = buf := by
      rw [← List.append_assoc]
      apply List.drop_left'
      rw [List.length_append, length_recordBytes]
    rw [distance] at found there ⊢
    exact .link found (there.symm ▸ ih)

theorem watch_laid {ns : List FileNotify} {buf : List UInt8} (laid : Laid ns buf) :
    (Completion.filled buf).events = some (ns.filterMap FileNotify.event) := by
  have chained := chained_of_laid laid
  rw [Completion.events, Records.walk_of_chained chained (chained.length_le rfl), Option.map_some]

theorem event_notifyOf {action : Nat} {type : WatchEventType}
    (known : notifyType action = some type) (name : String) :
    (notifyOf action name).event = some (.ofName type name) := by
  rw [FileNotify.event, notifyOf, known, Option.map_some, wideToUtf8, Utf16.decode_encode,
    String.ofList_toList, Bytes.normalizePath_encode, WatchEvent.ofName]

theorem records_events (c : DirectoryChange) : c.records.filterMap FileNotify.event = c.events := by
  cases c with
  | added name => exact List.filterMap_cons_some (@event_notifyOf 1 .created rfl name)
  | removed name => exact List.filterMap_cons_some (@event_notifyOf 2 .deleted rfl name)
  | modified name => exact List.filterMap_cons_some (@event_notifyOf 3 .modified rfl name)
  | renamed old new =>
    have last := List.filterMap_cons_some (l := []) (@event_notifyOf 5 .created rfl new)
    exact (List.filterMap_cons_some (@event_notifyOf 4 .deleted rfl old)).trans
      (congrArg (WatchEvent.ofName .deleted old :: ·) last)

structure Turn where
  completion : Completion
  changes : List DirectoryChange

/-- A read that completes with bytes holds its changes. In a turn without one there may be
changes too: more than the buffer holds, or those of a read that completed after the
timeout and before it was cancelled. -/
def Turn.Faithful (t : Turn) : Prop :=
  match t.completion with
  | .filled buffer => Laid (t.changes.flatMap DirectoryChange.records) buffer
  | _ => True

def Turn.isRead (t : Turn) : Bool :=
  match t.completion with
  | .filled _ => true
  | _ => false

theorem turn_events {t : Turn} (faithful : t.Faithful) : t.completion.events =
      some (if t.isRead then t.changes.flatMap DirectoryChange.events else []) := by
  obtain ⟨completion, changes⟩ := t
  cases completion with
  | timeout | overflow => rfl
  | filled buffer =>
    rw [watch_laid faithful, List.filterMap_flatMap]
    simp only [records_events]
    rfl

theorem watch_turns {turns : List Turn} (faithful : ∀ t ∈ turns, t.Faithful) :
    watchDirectory (turns.map Turn.completion) =
      some ((turns.filter Turn.isRead).flatMap fun t =>
        t.changes.flatMap DirectoryChange.events) := by
  induction turns with
  | nil => rfl
  | cons t turns ih =>
    have rest := ih fun u member => faithful u (List.mem_cons_of_mem _ member)
    rw [List.map_cons, watchDirectory, turn_events (faithful t List.mem_cons_self), rest,
      Option.bind_some, Option.map_some, List.filter_cons]
    cases t.isRead <;> rfl

theorem event_text {n : FileNotify} {event : WatchEvent} (told : n.event = some event) :
    (Utf8.decode (Bytes.normalizePath event.path)).isSome = true := by
  obtain ⟨type, -, rfl⟩ := Option.map_eq_some_iff.mp told
  rw [Bytes.normalizePath_encode, Bytes.normalizePath_encode, Utf8.decode_eq_some.mpr rfl]
  rfl

theorem watch_text {completions : List Completion} {events : List WatchEvent}
    (watched : watchDirectory completions = some events) :
    ∀ event ∈ events, (Utf8.decode (Bytes.normalizePath event.path)).isSome = true := by
  induction completions generalizing events with
  | nil =>
    cases watched
    exact List.forall_mem_nil _
  | cons c rest ih =>
    obtain ⟨first, turn, later⟩ := Option.bind_eq_some_iff.mp watched
    obtain ⟨others, loop, rfl⟩ := Option.map_eq_some_iff.mp later
    intro event member
    rcases List.mem_append.mp member with now | then_
    · cases c with
      | timeout | overflow =>
        cases turn
        cases now
      | filled buffer =>
        obtain ⟨ns, -, rfl⟩ := Option.map_eq_some_iff.mp turn
        obtain ⟨n, -, told⟩ := List.mem_filterMap.mp now
        exact event_text told
    · exact ih loop event then_

/-! Opening the directory. -/

/-- A char of the path as a word: it is signed. -/
def widened (ch : UInt8) : Nat := if ch.toNat < 0x80 then ch.toNat else 0xFF00 + ch.toNat

def widenPath (watchPath : List UInt8) : List UInt16 :=
  watchPath.map fun ch => UInt16.ofNat (widened ch)

theorem widened_range (ch : UInt8) :
    widened ch < 0x80 ∨ 0xFF80 ≤ widened ch ∧ widened ch < 0x10000 := by
  have small := ch.toNat_lt
  unfold widened
  split <;> omega

theorem decode_widenPath (watchPath : List UInt8) :
    Utf16.decode (widenPath watchPath) = watchPath.map fun ch => Char.ofNat (widened ch) := by
  induction watchPath with
  | nil => rfl
  | cons ch rest ih =>
    have range := widened_range ch
    have word : (UInt16.ofNat (widened ch)).toNat = widened ch :=
      UInt16.toNat_ofNat_of_lt' (by simp only [UInt16.size]; omega)
    have whole : ¬ (Utf16.High (UInt16.ofNat (widened ch)) ∨
        Utf16.Low (UInt16.ofNat (widened ch))) := by
      simp only [Utf16.High, Utf16.Low, word]
      omega
    rw [widenPath, List.map_cons, Utf16.decode_single fun high => whole (.inl high), ← widenPath, ih,
      Utf16.single, if_neg whole, word, List.map_cons]

theorem toNat_widened (ch : UInt8) : (Char.ofNat (widened ch)).toNat = widened ch := by
  have range := widened_range ch
  have valid : (widened ch).isValidChar := by
    unfold Nat.isValidChar
    omega
  rw [Char.ofNat, dif_pos valid]
  rfl

section Results

/-- The callback hears the changes that the loop reads once each, in order, with the name
that the file has and slashes between its pieces; a renaming as the loss of one file and the
arrival of another. The changes of a read that overflowed are never told. -/
theorem directory_changes_reported {turns : List Turn} (faithful : ∀ t ∈ turns, t.Faithful) :
    ∃ events, watchDirectory (turns.map Turn.completion) = some events ∧
      events = ((turns.filter Turn.isRead).flatMap fun t =>
        t.changes.flatMap DirectoryChange.events) ∧
      ∀ event ∈ events, (Utf8.decode (Bytes.normalizePath event.path)).isSome = true :=
  ⟨_, watch_turns faithful, rfl, watch_text (watch_turns faithful)⟩

def renamedTurn : Turn where
  completion := .filled (recordBytes 28 (notifyOf 4 "docs\\a") ++ ([0, 0, 0, 0] ++
    (recordBytes 0 (notifyOf 5 "docs\\ü") ++ [7])))
  changes := [.renamed "docs\\a" "docs\\ü"]

theorem directory_changes_reported_renamed :
    ∃ events, watchDirectory [renamedTurn.completion] = some events ∧
      events = [⟨.deleted, Utf8.encode "docs/a"⟩, ⟨.created, Utf8.encode "docs/ü"⟩] := by
  have faithful : ∀ t ∈ [renamedTurn], t.Faithful := by
    intro t member
    cases List.mem_singleton.mp member
    exact .link [0, 0, 0, 0] (by decide) (by decide) (.last [7] (by decide))
  obtain ⟨events, told, same, -⟩ := directory_changes_reported faithful
  exact ⟨events, told, same.trans (by decide)⟩

/-- The directories that can be watched: whatever the bytes of the path are, the name that
the system gets has no character from U+0080 to U+FF7F, and none beyond U+FFFF. -/
theorem watched_directory_openable_iff (path : String) :
    (∃ watchPath, wideToUtf8 (widenPath watchPath) = path) ↔
      ∀ c ∈ path.toList, c.toNat < 0x80 ∨ 0xFF80 ≤ c.toNat ∧ c.toNat < 0x10000 := by
  constructor
  · rintro ⟨watchPath, rfl⟩ c member
    rw [wideToUtf8, String.toList_ofList, decode_widenPath] at member
    obtain ⟨ch, -, rfl⟩ := List.mem_map.mp member
    rw [toNat_widened]
    exact widened_range ch
  · intro plain
    refine ⟨path.toList.map fun c => UInt8.ofNat c.toNat, ?_⟩
    have back : ∀ c ∈ path.toList, Char.ofNat (widened (UInt8.ofNat c.toNat)) = c := by
      intro c member
      have range := plain c member
      have byte : (UInt8.ofNat c.toNat).toNat = c.toNat % 256 := UInt8.toNat_ofNat'
      have same : widened (UInt8.ofNat c.toNat) = c.toNat := by
        rw [widened, byte]
        split <;> omega
      rw [same, Char.ofNat_toNat]
    rw [wideToUtf8, decode_widenPath, List.map_map]
    refine String.toList_inj.mp ?_
    rw [String.toList_ofList]
    exact (List.map_congr_left (g := id) back).trans (List.map_id _)

end Results

end P2PSync
