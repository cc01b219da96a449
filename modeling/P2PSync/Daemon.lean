import Mathlib.Tactic.SplitIfs
import P2PSync.Protocol

/-! The C++ daemon: what it does to files when the coordinator sends it a
message. A daemon watches one directory; every daemon receives every message. -/
namespace P2PSync

structure Daemon where
  repoID : String
  watchPath : String
  deriving DecidableEq, Repr

inductive FileOp where
  | createDirectories (path : String)
  | openWrite (path : String)
  | openRead (path : String)
  | rename (src dst : String)
  | remove (path : String)
  | permissions (path : String) (mode : Nat)
  deriving DecidableEq, Repr

def FileOp.paths : FileOp → List String
  | .createDirectories p | .openWrite p | .openRead p | .remove p | .permissions p _ => [p]
  | .rename a b => [a, b]

structure DaemonEnv where
  exists_ : Bool
  /-- It could be removed: fs::remove does not throw. -/
  removed : Bool
  connected : Bool
  directory : Bool
  opened : Bool
  /-- What arrives before the socket ends. -/
  stream : Content
  digest : Bool
  renamed : Bool
  /-- After an exception the temporary file is there. -/
  leftover : Bool

def receiveFile (rt : Runtime) (env : DaemonEnv) (dest : String) (expectedSize : Int)
    (expectedHash : String) (mode : Nat) : List FileOp × Option Content :=
  let tmp := dest ++ ".tmp"
  let cleanup := if env.leftover then [FileOp.remove tmp] else []
  if !env.directory then (.createDirectories (fsParent dest) :: cleanup, none)
  else
    let start := [FileOp.createDirectories (fsParent dest), .openWrite tmp]
    if !env.opened then (start, none)
    else
      -- the loop stops at the expected size or where the stream ends
      let received := env.stream.take expectedSize.toNat
      if (received.length : Int) ≠ expectedSize then (start ++ [.remove tmp], none)
      else if expectedHash ≠ "" ∧ env.digest ∧ rt.sha256 received ≠ expectedHash then
        (start ++ [.remove tmp], none)
      else if !env.renamed then (start ++ .rename tmp dest :: cleanup, none)
      else
        (start ++ .rename tmp dest :: (if 0 < mode then [.permissions dest mode] else []),
          some received)

def handleFileTransfer (rt : Runtime) (env : DaemonEnv) (watchPath relPath : String)
    (direction : Direction) (expectedSize : Int) (expectedHash : String) (mode : Nat) :
    List FileOp × Option Content :=
  if !env.connected ∨ expectedSize < 0 then ([], none)
  else
    let dest := fsAppend watchPath relPath
    match direction with
    | .download => receiveFile rt env dest expectedSize expectedHash mode
    | .upload => (if env.exists_ then [.openRead dest] else [], none)

/-- The daemon takes messages without a repository for its own. -/
def Daemon.addressed (d : Daemon) (repoID : String) : Bool := repoID = "" ∨ repoID = d.repoID

def Daemon.target (d : Daemon) (path : String) : String := fsAppend d.watchPath (normalizePath path)

inductive FileEffect where
  | none
  | removed (path : String)
  | replaced (path : String) (data : Content)
  deriving DecidableEq

def handleIpcMessage (rt : Runtime) (d : Daemon) (env : DaemonEnv) :
    IpcMessage → List FileOp × FileEffect
  | .prepareFileTransfer path repoID _ expectedHash expectedSize direction mode =>
    if d.addressed repoID then
      let (ops, content) := handleFileTransfer rt env d.watchPath (normalizePath path) direction
        expectedSize expectedHash mode
      (ops, match content with
        | some data => .replaced (d.target path) data
        | none => .none)
    else ([], .none)
  | .syncFromPeer _ path repoID isDelete _ _ =>
    if d.addressed repoID ∧ isDelete ∧ env.exists_ then
      ([.remove (d.target path)], if env.removed then .removed (d.target path) else .none)
    else ([], .none)
  | .conflictDetected .. => ([], .none)

def IpcMessage.filePath : IpcMessage → Option String
  | .syncFromPeer _ path _ _ _ _ => some path
  | .prepareFileTransfer path _ _ _ _ _ _ => some path
  | .conflictDetected .. => none

section

variable (rt : Runtime) (env : DaemonEnv) (dest : String) (expectedSize : Int)
  (expectedHash : String) (mode : Nat)

theorem receiveFile_ops : (receiveFile rt env dest expectedSize expectedHash mode).1 ⊆
      [.createDirectories (fsParent dest), .openWrite (dest ++ ".tmp"), .remove (dest ++ ".tmp"),
        .rename (dest ++ ".tmp") dest, .permissions dest mode] := by
  simp only [receiveFile]
  split_ifs <;> simp

theorem receiveFile_content {rt : Runtime} {env : DaemonEnv} {dest : String} {expectedSize : Int}
    {expectedHash : String} {mode : Nat} {data : Content}
    (placed : (receiveFile rt env dest expectedSize expectedHash mode).2 = some data) :
    data = env.stream.take expectedSize.toNat ∧ (data.length : Int) = expectedSize := by
  simp only [receiveFile] at placed
  split_ifs at placed with _ _ size <;> cases placed <;> exact ⟨rfl, not_not.mp size⟩

theorem receiveFile_placed_iff (data : Content) :
    (receiveFile rt env dest expectedSize expectedHash mode).2 = some data ↔
      env.directory = true ∧ env.opened = true ∧ env.renamed = true ∧
      ((env.stream.take expectedSize.toNat).length : Int) = expectedSize ∧
      (expectedHash ≠ "" → env.digest = true →
        rt.sha256 (env.stream.take expectedSize.toNat) = expectedHash) ∧
      env.stream.take expectedSize.toNat = data := by
  simp only [receiveFile]
  cases env.directory with
  | false => simp
  | true =>
    cases env.opened with
    | false => simp
    | true =>
      cases env.renamed with
      | false => split_ifs <;> simp_all
      | true => split_ifs <;> simp_all

theorem handleIpcMessage_inside (d : Daemon) (env : DaemonEnv) {msg : IpcMessage}
    (safe : ∀ path, msg.filePath = some path → daemonSafe path = true) :
    ∀ op ∈ (handleIpcMessage rt d env msg).1, ∀ path ∈ op.paths, Inside d.watchPath path := by
  intro op done path named
  cases msg with
  | conflictDetected => cases done
  | syncFromPeer peerID file repoID isDelete hash timestamp =>
    simp only [handleIpcMessage] at done
    split at done
    · cases List.mem_singleton.mp done
      rw [List.mem_singleton.mp named]
      exact inside_dest (safe file rfl) d.watchPath
    · cases done
  | prepareFileTransfer file repoID peerID hash size direction mode =>
    have dest := inside_dest (safe file rfl) d.watchPath
    have parent := inside_parent (safe file rfl) d.watchPath
    have tmp := inside_tmp (safe file rfl) d.watchPath
    simp only [handleIpcMessage] at done
    split at done
    · simp only [handleFileTransfer] at done
      split at done
      · cases done
      · cases direction with
        | download =>
          have one := receiveFile_ops _ _ _ _ _ _ done
          simp only [List.mem_cons, List.not_mem_nil, or_false] at one
          rcases one with rfl | rfl | rfl | rfl | rfl <;>
            simp only [FileOp.paths, List.mem_cons, List.not_mem_nil, or_false] at named
          · exact named ▸ parent
          · exact named ▸ tmp
          · exact named ▸ tmp
          · exact named.elim (· ▸ tmp) (· ▸ dest)
          · exact named ▸ dest
        | upload =>
          simp only at done
          split at done
          · cases List.mem_singleton.mp done
            rw [List.mem_singleton.mp named]
            exact dest
          · cases done
    · cases done

end

end P2PSync
