import P2PSync.Library.Binary64
import P2PSync.Paths
import P2PSync.Queue
import P2PSync.Versioning

/-! Messages between the coordinators of two peers and between a coordinator and
its daemons, with the validation the receiver applies. -/
namespace P2PSync

abbrev Content := List UInt8

/-- The library functions whose results the coordinator only compares or stores. -/
structure Runtime where
  sort : TaskSort
  /-- The lower-case hexadecimal SHA-256 digest. -/
  sha256 : Content → String
  /-- Standard base64; none is a decoding error. -/
  decodeString : String → Option Content

/-- An instance on which runs can be evaluated: the digest of a text is the text
itself after a mark, and base64 is not encoded at all. -/
def Runtime.plain : Runtime where
  sort := .stable
  sha256 data := String.ofList ('#' :: data.map (fun b => Char.ofNat b.toNat))
  decodeString text := some (text.toList.map (fun c => UInt8.ofNat c.toNat))

inductive FileAction where
  | add | modify | delete
  deriving DecidableEq, Repr

structure FileChangedEvent where
  action : String
  path : String
  hash : String
  size : Int
  modifiedTime : Int
  mode : Nat
  deriving DecidableEq, Repr

structure FileChangedPayload where
  action : FileAction
  path : String
  hash : String
  size : Int
  modifiedTime : Int
  mode : Nat
  deriving DecidableEq, Repr

/-- The daemon's action names are mapped to the coordinator's before the check. -/
def FileAction.parse (action : String) : Option FileAction :=
  if action = "created" ∨ action = "add" then some .add
  else if action = "modified" ∨ action = "modify" then some .modify
  else if action = "deleted" ∨ action = "delete" then some .delete
  else none

def FileAction.name : FileAction → String
  | .add => "add"
  | .modify => "modify"
  | .delete => "delete"

def FileChangedEvent.validate (p : FileChangedEvent) : Except String FileChangedPayload :=
  if p.path = "" then .error "path cannot be empty"
  else
    match FileAction.parse p.action with
    | none => .error ("unknown action type: " ++ quote p.action)
    | some action =>
      if action ≠ .delete ∧ p.hash = "" then
        .error ("hash cannot be empty for action: " ++ action.name)
      else if action ≠ .delete ∧ p.size < 0 then
        .error ("invalid file size " ++ toString p.size ++ " for action: " ++ action.name)
      else if p.modifiedTime ≤ 0 then .error "modified_time must be greater than 0"
      else .ok ⟨action, p.path, p.hash, p.size, p.modifiedTime, p.mode⟩

def FileChangedPayload.Valid (p : FileChangedPayload) : Prop :=
  p.path ≠ "" ∧ (p.action ≠ .delete → p.hash ≠ "" ∧ 0 ≤ p.size) ∧ 0 < p.modifiedTime

instance (p : FileChangedPayload) : Decidable p.Valid :=
  inferInstanceAs (Decidable (_ ∧ _ ∧ _))

theorem validate_ok_iff (p : FileChangedPayload) :
    p.Valid ↔ ∃ e : FileChangedEvent, e.validate = .ok p := by
  constructor
  · rintro ⟨path, body, time⟩
    refine ⟨⟨p.action.name, p.path, p.hash, p.size, p.modifiedTime, p.mode⟩, ?_⟩
    have parsed : FileAction.parse p.action.name = some p.action := by
      cases p.action <;> decide
    simp only [FileChangedEvent.validate, path, parsed, if_false]
    rw [if_neg (fun h => (body h.1).1 h.2), if_neg (fun h => absurd (body h.1).2 (not_le.mpr h.2)),
      if_neg (not_le.mpr time)]
  · rintro ⟨e, ok⟩
    unfold FileChangedEvent.validate at ok
    split at ok
    · cases ok
    · rename_i path
      split at ok
      · cases ok
      · rename_i action _
        split at ok
        · cases ok
        · rename_i hash
          split at ok
          · cases ok
          · rename_i size
            split at ok
            · cases ok
            · rename_i time
              cases ok
              exact ⟨path, fun h => ⟨fun e => hash ⟨h, e⟩, not_lt.mp (fun l => size ⟨h, l⟩)⟩,
                not_le.mp time⟩

/-- A file_metadata_update as it stands in the message. Absent or ill-typed
fields read as the zero value; numbers are the JSON numbers of the sender. -/
structure Update where
  path : String
  hash : String
  size : Int
  version : Int
  modifiedTime : Int
  isDeleted : Bool
  mode : Int
  vectorClock : Option (AList fun _ : String => Nat)
  deriving DecidableEq

/-- The receiver decodes every JSON number to a double first. -/
def Update.decodedSize (u : Update) : Int := Binary64.toInt64 u.size
def Update.decodedVersion (u : Update) : Nat := Binary64.toUint64 u.version
def Update.decodedTime (u : Update) : Int := Binary64.toInt64 u.modifiedTime
def Update.decodedMode (u : Update) : Nat := Binary64.toUint32 u.mode

def decodeClock (remote : AList fun _ : String => Nat) : AList fun _ : String => Nat where
  entries := remote.entries.map (fun e => ⟨e.1, Binary64.toUint64 e.2⟩)
  nodupKeys := by
    have h := remote.nodupKeys
    simp only [List.NodupKeys, List.keys, List.map_map] at h ⊢
    exact h

structure FileRequestPayload where
  path : String
  hash : String
  deriving DecidableEq, Repr

def FileRequestPayload.validate (p : FileRequestPayload) : Option String :=
  if p.path = "" then some "path cannot be empty"
  else if p.hash = "" then some "hash cannot be empty"
  else if traversal p.path then some "path must be relative and must not contain '..'"
  else none

structure FileResponsePayload where
  path : String
  hash : String
  contentBase64 : String
  fileContent : String
  transferPort : Int
  error : String
  deriving DecidableEq, Repr

def FileResponsePayload.validate (p : FileResponsePayload) : Option String :=
  if p.path = "" then some "path cannot be empty"
  else if p.error ≠ "" then none
  else if p.hash = "" then some "hash cannot be empty on successful response"
  else if p.contentBase64 = "" ∧ p.fileContent = "" ∧ p.transferPort ≤ 0 then
    some "either content_base64, file_content, or transfer_port must be populated"
  else if 65535 < p.transferPort then some ("invalid transfer port: " ++ toString p.transferPort)
  else none

inductive P2PMessage where
  | fileMetadataUpdate (repoID : String) (update : Update)
  | fileRequest (payload : FileRequestPayload)
  | fileResponse (payload : FileResponsePayload)
  deriving DecidableEq

inductive Direction where
  | upload | download
  deriving DecidableEq, Repr

structure VersionMetadata where
  hash : String
  timestamp : Int
  vectorClock : String × Nat
  sourcePeer : String
  deriving DecidableEq, Repr

/-- The IPC messages that make a daemon act on files, and the conflict notice. -/
inductive IpcMessage where
  | syncFromPeer (peerID path repoID : String) (isDelete : Bool) (hash : String) (timestamp : Int)
  | prepareFileTransfer (path repoID peerID expectedHash : String) (expectedSize : Int)
      (direction : Direction) (mode : Nat)
  | conflictDetected (path : String) (versions : List VersionMetadata)
  deriving DecidableEq, Repr

end P2PSync
