import P2PSync.Daemon

/-! What a download leaves on disk, with every call on its way that can fail. An
exception that leaves the catch block ends the process: then the function does not
return. -/
namespace P2PSync

inductive SocketRead where
  | chunk (data : Content) (written : Bool)
  | error
  | eof
  deriving DecidableEq, Repr

/-- How sha256_file ends. A read error in the middle of the file goes unnoticed. -/
inductive FileHash where
  | failed
  | stopped (n : Nat)
  | whole
  deriving DecidableEq, Repr

def FileHash.seen (content : Content) : FileHash → Option Content
  | .failed => none
  | .stopped n => some (content.take n)
  | .whole => some content

structure DownloadEnv where
  directories : Bool
  opened : Bool
  reads : List SocketRead
  /-- The flush on closing fails after so many bytes. -/
  flushFails : Option Nat
  hash : FileHash
  renamed : Bool
  removed : Bool
  looked : Bool
  removedLate : Bool
  deriving DecidableEq, Repr

structure Target where
  dest : Option Content
  tmp : Option Content
  deriving DecidableEq, Repr

/-- The loop that reads the socket. A read returns at most what it is asked for; past
the last one the peer has closed. -/
def receiveLoop (expectedSize : Nat) : List SocketRead → Content → Content
  | [], received => received
  | read :: reads, received =>
    if received.length < expectedSize then
      match read with
      | .error => received
      | .eof => received
      | .chunk data written =>
        let got := data.take (min 4096 (expectedSize - received.length))
        if got = [] then received
        else if written then receiveLoop expectedSize reads (received ++ got)
        else received
    else received

def DownloadEnv.received (env : DownloadEnv) (expectedSize : Nat) : Content :=
  receiveLoop expectedSize env.reads []

def DownloadEnv.stored (env : DownloadEnv) (expectedSize : Nat) : Content :=
  match env.flushFails with
  | none => env.received expectedSize
  | some n => (env.received expectedSize).take n

def cleanUp (env : DownloadEnv) (place : Target) : Option Target :=
  if !env.looked then none
  else if place.tmp.isSome then
    if env.removedLate then some { place with tmp := none } else none
  else some place

def removeTmp (env : DownloadEnv) (place : Target) : Option Target :=
  if env.removed then some { place with tmp := none } else cleanUp env place

/-- The download direction of handle_file_transfer; none: it does not return. The
permissions that are set at the end change no content. -/
def downloadFile (rt : Runtime) (env : DownloadEnv) (expectedSize : Nat) (expectedHash : String)
    (place : Target) : Option Target :=
  if !env.directories then cleanUp env place
  else if !env.opened then some place
  else
    let place := { place with tmp := some (env.stored expectedSize) }
    if (env.received expectedSize).length ≠ expectedSize then removeTmp env place
    else if expectedHash ≠ "" ∧
        (env.hash.seen (env.stored expectedSize)).any (fun data => rt.sha256 data ≠ expectedHash) then
      removeTmp env place
    else if env.renamed then some ⟨place.tmp, none⟩
    else cleanUp env place

def AllOrNothing (rt : Runtime) (env : DownloadEnv) (expectedSize : Nat) (expectedHash : String)
    (before after : Target) : Prop :=
  after.tmp = none ∧ (after.dest = before.dest ∨
    ∃ data, after.dest = some data ∧ data = env.received expectedSize ∧
      data.length = expectedSize ∧ env.hash.seen data = some data ∧ rt.sha256 data = expectedHash)

def LeavesOld (env : DownloadEnv) (before : Target) : Prop :=
  env.directories = true ∧ env.opened = false ∧ before.tmp ≠ none

structure Renames (rt : Runtime) (env : DownloadEnv) (expectedSize : Nat) (expectedHash : String) :
    Prop where
  directories : env.directories = true
  opened : env.opened = true
  size : (env.received expectedSize).length = expectedSize
  hash : expectedHash ≠ "" → ∀ data, env.hash.seen (env.stored expectedSize) = some data →
    rt.sha256 data = expectedHash
  renamed : env.renamed = true

/-- What is renamed into place is not what was received and checked: no digest could
be computed, or only that of a part, or a part of the bytes is missing. -/
def PlacesUnchecked (rt : Runtime) (env : DownloadEnv) (expectedSize : Nat) (expectedHash : String)
    (before : Target) : Prop :=
  Renames rt env expectedSize expectedHash ∧
    ¬ (env.stored expectedSize = env.received expectedSize ∧
      env.hash.seen (env.stored expectedSize) = some (env.stored expectedSize)) ∧
    before.dest ≠ some (env.stored expectedSize)

theorem cleanUp_returned {env : DownloadEnv} {place after : Target}
    (returned : cleanUp env place = some after) : after = ⟨place.dest, none⟩ := by
  unfold cleanUp at returned
  split at returned
  · cases returned
  · split at returned
    · split at returned
      · exact (Option.some.inj returned).symm
      · cases returned
    · rename_i absent
      cases returned
      obtain ⟨dest, tmp⟩ := place
      cases tmp with
      | none => rfl
      | some data => exact absurd rfl absent

theorem removeTmp_returned {env : DownloadEnv} {place after : Target}
    (returned : removeTmp env place = some after) : after = ⟨place.dest, none⟩ := by
  unfold removeTmp at returned
  split at returned
  · exact (Option.some.inj returned).symm
  · exact cleanUp_returned returned

theorem mismatch_iff (rt : Runtime) (expectedHash : String) (seen : Option Content) :
    seen.any (fun data => rt.sha256 data ≠ expectedHash) = true ↔
      ¬ ∀ data, seen = some data → rt.sha256 data = expectedHash := by
  cases seen with
  | none => simp
  | some data => simp

theorem downloadFile_cases {rt : Runtime} {env : DownloadEnv} {expectedSize : Nat}
    {expectedHash : String} {before after : Target}
    (returned : downloadFile rt env expectedSize expectedHash before = some after) :
    (Renames rt env expectedSize expectedHash ∧ after = ⟨some (env.stored expectedSize), none⟩) ∨
    (¬ Renames rt env expectedSize expectedHash ∧ env.directories = true ∧ env.opened = false ∧
      after = before) ∨
    (¬ Renames rt env expectedSize expectedHash ∧ (env.directories = true → env.opened = true) ∧
      after = ⟨before.dest, none⟩) := by
  unfold downloadFile at returned
  split at returned
  · rename_i thrown
    have no : env.directories ≠ true := by simpa using thrown
    exact Or.inr (Or.inr ⟨fun h => no h.directories, fun h => absurd h no, cleanUp_returned returned⟩)
  · rename_i made
    have directories : env.directories = true := by simpa using made
    split at returned
    · rename_i closed
      have no : env.opened = false := by simpa using closed
      refine Or.inr (Or.inl ⟨fun h => ?_, directories, no, (Option.some.inj returned).symm⟩)
      rw [h.opened] at no
      cases no
    · rename_i open_
      have opened : env.opened = true := by simpa using open_
      simp only at returned
      split at returned
      · rename_i size
        have left := removeTmp_returned returned
        exact Or.inr (Or.inr ⟨fun h => size h.size, fun _ => opened, left⟩)
      · rename_i size
        split at returned
        · rename_i differs
          have left := removeTmp_returned returned
          exact Or.inr (Or.inr ⟨fun h => (mismatch_iff _ _ _).mp differs.2 (h.hash differs.1),
            fun _ => opened, left⟩)
        · rename_i same
          have hash : expectedHash ≠ "" → ∀ data,
              env.hash.seen (env.stored expectedSize) = some data →
                rt.sha256 data = expectedHash := by
            intro checked
            by_contra differs
            exact same ⟨checked, (mismatch_iff _ _ _).mpr differs⟩
          split at returned
          · rename_i renamed
            exact Or.inl ⟨⟨directories, opened, not_not.mp size, hash, renamed⟩,
              (Option.some.inj returned).symm⟩
          · rename_i failed
            have left := cleanUp_returned returned
            exact Or.inr (Or.inr ⟨fun h => failed h.renamed, fun _ => opened, left⟩)

/-- A download that returns is all or nothing, except in two cases: an old temporary
file that cannot be opened stays, and content goes unchecked into place. -/
theorem download_all_or_nothing_iff {rt : Runtime} {env : DownloadEnv} {expectedSize : Nat}
    {expectedHash : String} (checked : expectedHash ≠ "") {before after : Target}
    (returned : downloadFile rt env expectedSize expectedHash before = some after) :
    AllOrNothing rt env expectedSize expectedHash before after ↔
      ¬ LeavesOld env before ∧ ¬ PlacesUnchecked rt env expectedSize expectedHash before := by
  rcases downloadFile_cases returned with
    ⟨renames, rfl⟩ | ⟨stays, directories, closed, rfl⟩ | ⟨stays, opened, rfl⟩
  · have fresh : ¬ LeavesOld env before := fun h => by
      have closed := h.2.1
      rw [renames.opened] at closed
      cases closed
    constructor
    · rintro ⟨-, same | ⟨data, placed, whole, -, seen, -⟩⟩
      · exact ⟨fresh, fun h => h.2.2 same.symm⟩
      · cases placed
        exact ⟨fresh, fun h => h.2.1 ⟨whole, seen⟩⟩
    · rintro ⟨-, sound⟩
      refine ⟨rfl, ?_⟩
      by_cases good : env.stored expectedSize = env.received expectedSize ∧
          env.hash.seen (env.stored expectedSize) = some (env.stored expectedSize)
      · right
        exact ⟨_, rfl, good.1, good.1 ▸ renames.size, good.2, renames.hash checked _ good.2⟩
      · left
        by_contra other
        exact sound ⟨renames, good, fun same => other same.symm⟩
  · have never : ¬ PlacesUnchecked rt env expectedSize expectedHash after := fun h => stays h.1
    constructor
    · rintro ⟨gone, -⟩
      exact ⟨fun h => h.2.2 gone, never⟩
    · rintro ⟨fresh, -⟩
      refine ⟨?_, Or.inl rfl⟩
      by_contra old
      exact fresh ⟨directories, closed, old⟩
  · have fresh : ¬ LeavesOld env before := fun h => by
      have contrary := opened h.1
      rw [h.2.1] at contrary
      cases contrary
    exact iff_of_true ⟨rfl, Or.inl rfl⟩ ⟨fresh, fun h => stays h.1⟩

def unhashed : DownloadEnv :=
  { directories := true, opened := true, reads := [.chunk [66] true], flushFails := none
    hash := .failed, renamed := true, removed := true, looked := true, removedLate := true }

theorem download_all_or_nothing_checked :
    AllOrNothing .plain { unhashed with hash := .whole } 1 "#B" ⟨some [65], some []⟩
      ⟨some [66], none⟩ := by
  refine (download_all_or_nothing_iff (by decide) rfl).mpr ⟨fun h => ?_, fun h => ?_⟩
  · cases h.2.1
  · exact h.2.1 ⟨rfl, rfl⟩

theorem download_unverified :
    downloadFile .plain unhashed 1 "#A" ⟨some [65], none⟩ = some ⟨some [66], none⟩ ∧
      Runtime.plain.sha256 [66] ≠ "#A" ∧
      ¬ AllOrNothing .plain unhashed 1 "#A" ⟨some [65], none⟩ ⟨some [66], none⟩ := by
  refine ⟨by decide, by decide, ?_⟩
  rintro ⟨-, same | ⟨data, -, -, -, seen, -⟩⟩
  · cases same
  · cases seen

section Refinement

theorem receiveLoop_length {expectedSize : Nat} (reads : List SocketRead) {received : Content}
    (small : received.length ≤ expectedSize) :
    (receiveLoop expectedSize reads received).length ≤ expectedSize := by
  induction reads generalizing received with
  | nil => exact small
  | cons read reads ih =>
    simp only [receiveLoop]
    split
    · cases read with
      | error => exact small
      | eof => exact small
      | chunk data written =>
        simp only
        split
        · exact small
        · split
          · apply ih
            simp only [List.length_append, List.length_take]
            omega
          · exact small
    · exact small

def DownloadEnv.daemonEnv (env : DownloadEnv) (expectedSize : Nat) : DaemonEnv where
  exists_ := false
  removed := false
  connected := true
  directory := env.directories
  opened := env.opened
  stream := env.received expectedSize
  digest := env.hash = .whole
  renamed := env.renamed
  leftover := false

section

variable {rt : Runtime} {env : DownloadEnv} {expectedSize : Nat} {expectedHash : String}
  {before after : Target} (flushed : env.flushFails = none) (noticed : ∀ n, env.hash ≠ .stopped n)

include flushed noticed

/-- Where no part gets lost unnoticed, the coarser model places a content exactly if
the download gets to the rename. -/
theorem placed_iff_renames (dest : String) (mode : Nat) (data : Content) :
    (receiveFile rt (env.daemonEnv expectedSize) dest expectedSize expectedHash mode).2 = some data ↔
      Renames rt env expectedSize expectedHash ∧ env.stored expectedSize = data := by
  have stored : env.stored expectedSize = env.received expectedSize := by
    rw [DownloadEnv.stored, flushed]
  have short : (env.received expectedSize).take expectedSize = env.received expectedSize :=
    List.take_of_length_le (receiveLoop_length env.reads (Nat.zero_le _))
  have digest : (∀ data, env.hash.seen (env.stored expectedSize) = some data →
      rt.sha256 data = expectedHash) ↔
      (decide (env.hash = .whole) = true →
        rt.sha256 (env.received expectedSize) = expectedHash) := by
    cases kind : env.hash with
    | failed => simp [FileHash.seen]
    | stopped n => exact absurd kind (noticed n)
    | whole => simp [FileHash.seen, stored]
  simp only [receiveFile_placed_iff, DownloadEnv.daemonEnv, Int.toNat_natCast, short, ← digest,
    Int.ofNat_inj, stored]
  constructor
  · rintro ⟨directories, opened, renamed, size, hash, whole⟩
    exact ⟨⟨directories, opened, size, stored ▸ hash, renamed⟩, whole⟩
  · rintro ⟨renames, whole⟩
    exact ⟨renames.directories, renames.opened, renames.renamed, renames.size,
      stored ▸ renames.hash, whole⟩

theorem downloadFile_refines
    (returned : downloadFile rt env expectedSize expectedHash before = some after) (dest : String)
    (mode : Nat) :
    after.dest = (receiveFile rt (env.daemonEnv expectedSize) dest expectedSize expectedHash
      mode).2.or before.dest := by
  have placed := fun data => @placed_iff_renames rt env expectedSize expectedHash flushed noticed dest
    mode data
  have nothing : ¬ Renames rt env expectedSize expectedHash →
      (receiveFile rt (env.daemonEnv expectedSize) dest expectedSize expectedHash mode).2 = none := by
    intro stays
    by_contra some_
    obtain ⟨data, found⟩ := Option.ne_none_iff_exists'.mp some_
    exact stays ((placed data).mp found).1
  rcases downloadFile_cases returned with ⟨renames, rfl⟩ | ⟨stays, -, -, rfl⟩ | ⟨stays, -, rfl⟩
  · rw [(placed _).mpr ⟨renames, rfl⟩, Option.some_or]
  · rw [nothing stays, Option.none_or]
  · rw [nothing stays, Option.none_or]

end

end Refinement

end P2PSync
