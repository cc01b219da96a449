import Mathlib.Data.Nat.Bitwise
import P2PSync.Host
import P2PSync.Library.FileTree

/-! The files of a host with their permission bits, and what the two ways of storing a
downloaded content do to them. There are no disk errors: an operation fails only where
the tree has no place for it, the bits refuse it or the path is too long. -/
namespace P2PSync

abbrev Disk := FileTree.Tree (List Char) Content

/-- The process that writes; it owns the files and is in their group. -/
structure Process where
  umask : Nat
  privileged : Bool

def nameBytes (name : List Char) : Nat := (name.map Char.utf8Size).sum

/-- A name has at most 255 bytes, a path with its slashes at most 4095. -/
def takesPath (p : Place) : Bool :=
  p.all (nameBytes · ≤ 255) && (p.map (nameBytes · + 1)).sum ≤ 4095

/-- The owner's bits count, unless the process is privileged. -/
def Process.access (k : Process) : FileTree.Access (List Char) where
  write mode := k.privileged || mode.testBit 7
  search mode := k.privileged || mode.testBit 6
  path := takesPath

def Process.created (k : Process) (mode : Nat) : Nat := (mode &&& 0o7777).ldiff k.umask

/-- Without privileges a write clears the set-user-id bit, and the set-group-id
bit where the group may execute. -/
def Process.rewritten (k : Process) (mode : Nat) : Nat :=
  if k.privileged then mode
  else if mode.testBit 3 then mode.ldiff 0o6000 else mode.ldiff 0o4000

/-- Go keeps the set-id and sticky bits of a file mode in places of its own. -/
def syscallMode (mode : Nat) : Nat :=
  (mode &&& 0o777) ||| (if mode.testBit 23 then 0o4000 else 0) |||
    (if mode.testBit 22 then 0o2000 else 0) ||| (if mode.testBit 20 then 0o1000 else 0)

namespace Disk

/-- Go's WriteFile: no directory is made, and an existing file keeps its bits. -/
def writeFile (k : Process) (t : Disk) (path : String) (data : Content) (mode : Nat) :
    Option Disk :=
  t.write k.access (placeOf path) data k.rewritten
    (k.rewritten (k.created (syscallMode mode)))

def output (k : Process) (t : Disk) : Output → Disk
  | .writeFile _ path data mode written =>
    ((written.content data).bind (writeFile k t path · mode)).getD t
  | .removeFile _ path => t.remove k.access (placeOf path)
  | _ => t

def openTemp (k : Process) (t : Disk) (path : String) (data : Content) : Option Disk :=
  t.write k.access (placeOf path) data k.rewritten (k.created 0o666)

def perform (k : Process) (data : Content) (t : Disk) : FileOp → Disk
  | .createDirectories path => (t.makeDirs k.access (placeOf path) (k.created 0o777)).getD t
  | .openWrite path => (openTemp k t path data).getD t
  | .openRead _ => t
  | .rename src dst => (t.rename k.access (placeOf src) (placeOf dst)).getD t
  | .remove path => t.remove k.access (placeOf path)
  | .permissions path mode => t.chmod k.access (placeOf path) (mode &&& 0o7777)

def made (k : Process) (t : Disk) (dest : String) : Option Disk :=
  t.makeDirs k.access (placeOf (fsParent dest)) (k.created 0o777)

def opened (k : Process) (t : Disk) (dest : String) (data : Content) : Option Disk :=
  (made k t dest).bind (openTemp k · (dest ++ ".tmp") data)

def moved (k : Process) (t : Disk) (dest : String) (data : Content) : Option Disk :=
  (opened k t dest data).bind (·.rename k.access (placeOf (dest ++ ".tmp")) (placeOf dest))

def answers (k : Process) (t : Disk) (dest : String) (stream : Content) : DaemonEnv where
  exists_ := (t.node (placeOf dest)).isSome
  removed := t.Changeable k.access (placeOf dest)
  connected := true
  directory := (made k t dest).isSome
  opened := (opened k t dest stream).isSome
  stream := stream
  -- the temporary file is opened once more to be read
  digest := (((opened k t dest stream).getD t).mode (placeOf (dest ++ ".tmp"))).any
    (fun mode => k.privileged || mode.testBit 8)
  renamed := (moved k t dest stream).isSome
  leftover := (((opened k t dest stream).getD t).node (placeOf (dest ++ ".tmp"))).isSome

def download (rt : Runtime) (k : Process) (t : Disk) (watchPath relPath : String) (c : Content)
    (expectedSize : Int) (expectedHash : String) (mode : Nat) : Disk :=
  (handleFileTransfer rt (answers k t (fsAppend watchPath relPath) c) watchPath relPath .download
    expectedSize expectedHash mode).1.foldl (perform k (c.take expectedSize.toNat)) t

def parentMode (k : Process) (t : Disk) (dest : String) : Nat :=
  (t.dirMode (placeOf (fsParent dest))).getD (k.created 0o777)

@[mk_iff receivable_fields]
structure Receivable (k : Process) (t : Disk) (dest : String) : Prop where
  fits : k.access.path (placeOf (dest ++ ".tmp")) = true
  way : t.Passable k.access (placeOf (fsParent dest)) (k.created 0o777)
  entered : k.access.search (parentMode k t dest) = true
  room : k.access.write (parentMode k t dest) = true
  temp : (t.dirMode (placeOf (dest ++ ".tmp"))).isNone
  rewritable : (t.mode (placeOf (dest ++ ".tmp"))).all k.access.write = true
  target : (t.dirMode (placeOf dest)).isNone
  /-- The last piece of the path is a name. -/
  entry : placeOf dest ≠ placeOf (fsParent dest)

instance (k : Process) (t : Disk) (dest : String) : Decidable (Receivable k t dest) :=
  decidable_of_iff _ (receivable_fields k t dest).symm

end Disk

/-! The places a download uses. -/

theorem placeOf_tmp (dest : String) : placeOf (dest ++ ".tmp") =
    placeOf (fsParent dest) ++ [Posix.lastPiece dest.toList ++ ".tmp".toList] := by
  have flat := Posix.normal_append_flat (t := ".tmp".toList) (by decide) (by decide) dest.toList
  simpa only [placeOf, fsParent, String.toList_append, String.toList_ofList] using flat

theorem path_of_longer {k : Process} {p : Place} {name more : List Char}
    (taken : k.access.path (p ++ [name ++ more]) = true) : k.access.path (p ++ [name]) = true := by
  simp only [Process.access, takesPath, nameBytes, List.all_append, List.all_cons, List.all_nil,
    List.map_append, List.map_cons, List.map_nil, List.sum_append, List.sum_cons, List.sum_nil,
    Bool.and_eq_true, decide_eq_true_eq] at taken ⊢
  obtain ⟨⟨above, short, -⟩, length⟩ := taken
  exact ⟨⟨above, decide_eq_true (by omega), trivial⟩, by omega⟩

theorem placeOf_dest {dest : String} (down : Posix.lastPiece dest.toList ≠ Posix.dotdot) :
    placeOf dest = placeOf (fsParent dest) ∨
      placeOf dest = placeOf (fsParent dest) ++ [Posix.lastPiece dest.toList] := by
  have enter := Posix.normal_eq_enter dest.toList
  have parent : placeOf (fsParent dest) = Posix.normal (Posix.parentPath dest.toList) := by
    rw [placeOf, fsParent, String.toList_ofList]
  rw [parent, placeOf, enter, Posix.enter]
  split_ifs
  · exact Or.inl rfl
  · exact Or.inr rfl

namespace Disk

variable {k : Process} {t : Disk} {dest : String} {c : Content}

theorem tmp_ne_dest (down : Posix.lastPiece dest.toList ≠ Posix.dotdot) :
    placeOf (dest ++ ".tmp") ≠ placeOf dest := by
  rcases placeOf_dest down with same | entry
  · rw [placeOf_tmp, same]
    simp
  · rw [placeOf_tmp, entry]
    simp

section

variable {m : Disk} (done : made k t dest = some m) (name : List Char)

include done

theorem made_entry :
    m.node (placeOf (fsParent dest) ++ [name]) = t.node (placeOf (fsParent dest) ++ [name]) := by
  rw [FileTree.makeDirs_node done, if_neg]
  intro below
  have length := below.length_le
  rw [List.length_append, List.length_singleton] at length
  omega

theorem made_dirMode {q : Place} (above : q <+: placeOf (fsParent dest)) :
    m.dirMode q = some ((t.dirMode q).getD (k.created 0o777)) := by
  rw [FileTree.Tree.dirMode, FileTree.makeDirs_node done, if_pos above]
  rfl

theorem made_reached : m.Reached k.access (placeOf (fsParent dest) ++ [name]) ↔
      k.access.path (placeOf (fsParent dest) ++ [name]) = true ∧
      k.access.search (parentMode k t dest) = true := by
  have clear := (FileTree.makeDirs_isSome k.access t (placeOf (fsParent dest)) (k.created 0o777)).mp
    (by rw [show t.makeDirs k.access _ _ = some m from done]; rfl)
  rw [FileTree.Tree.Reached, List.dropLast_concat]
  refine and_congr_right fun _ => ⟨?_, ?_⟩
  · intro all
    have last := all _ ((List.mem_inits _ _).mpr (List.prefix_refl _))
    rwa [made_dirMode done (List.prefix_refl _), Option.any_some] at last
  · intro parent q member
    have above := (List.mem_inits _ _).mp member
    rw [made_dirMode done above, Option.any_some]
    by_cases last : q = placeOf (fsParent dest)
    · rw [last]
      exact parent
    · apply clear.2.2.1 q
      rw [List.mem_inits]
      obtain ⟨rest, whole⟩ := above
      have more : rest ≠ [] := by
        rintro rfl
        rw [List.append_nil] at whole
        exact last whole
      rw [← whole, List.dropLast_append_of_ne_nil more]
      exact List.prefix_append _ _

theorem openTemp_isSome : (openTemp k m (dest ++ ".tmp") c).isSome = true ↔
      (k.access.path (placeOf (dest ++ ".tmp")) = true ∧
        k.access.search (parentMode k t dest) = true) ∧
      (t.dirMode (placeOf (dest ++ ".tmp"))).isNone ∧
      (t.mode (placeOf (dest ++ ".tmp"))).elim (k.access.write (parentMode k t dest))
        k.access.write = true := by
  rw [openTemp, placeOf_tmp]
  generalize Posix.lastPiece dest.toList ++ ".tmp".toList = name
  have dir : m.dirMode (placeOf (fsParent dest) ++ [name]) =
      t.dirMode (placeOf (fsParent dest) ++ [name]) := by
    rw [FileTree.Tree.dirMode, made_entry done, FileTree.Tree.dirMode]
  have bits : m.mode (placeOf (fsParent dest) ++ [name]) =
      t.mode (placeOf (fsParent dest) ++ [name]) := by
    rw [FileTree.Tree.mode, made_entry done, FileTree.Tree.mode]
  have proper : placeOf (fsParent dest) ++ [name] ≠ [] := by simp
  rw [FileTree.write_isSome, FileTree.Tree.Writable, FileTree.Tree.Free, made_reached done,
    List.dropLast_concat, made_dirMode done (List.prefix_refl _), dir, bits, and_iff_right proper,
    Option.isSome_some, and_iff_right rfl, Option.any_some]
  exact and_left_comm

end

section

variable (down : Posix.lastPiece dest.toList ≠ Posix.dotdot) {m o r : Disk}

include down

theorem rename_isSome (done : made k t dest = some m)
    (written : openTemp k m (dest ++ ".tmp") c = some o) :
    (o.rename k.access (placeOf (dest ++ ".tmp")) (placeOf dest)).isSome = true ↔
      k.access.write (parentMode k t dest) = true ∧ (t.dirMode (placeOf dest)).isNone ∧
        placeOf dest ≠ placeOf (fsParent dest) := by
  have apart := tmp_ne_dest down
  have temp := FileTree.write_node written (placeOf (dest ++ ".tmp"))
  rw [if_pos rfl] at temp
  have dirs := FileTree.write_dirMode written
  have open_ := (openTemp_isSome done).mp (by rw [written]; rfl)
  have entered : ∀ name, k.access.path (placeOf (fsParent dest) ++ [name]) = true →
      o.Reached k.access (placeOf (fsParent dest) ++ [name]) := by
    intro name taken
    refine ⟨taken, fun q member => ?_⟩
    rw [dirs]
    exact ((made_reached done name).mpr ⟨taken, open_.1.2⟩).2 q member
  have taken := open_.1.1
  rw [placeOf_tmp] at taken
  have source : o.Changeable k.access (placeOf (dest ++ ".tmp")) ↔
      k.access.write (parentMode k t dest) = true := by
    have free := FileTree.Tree.free_of_file temp
    rw [FileTree.Tree.Changeable, and_iff_right free, placeOf_tmp,
      and_iff_right (entered _ taken), dirs, List.dropLast_concat,
      made_dirMode done (List.prefix_refl _)]
    rfl
  rw [FileTree.rename_isSome temp apart, source]
  rcases placeOf_dest down with same | named
  · have parent : o.dirMode (placeOf dest) = some (parentMode k t dest) := by
      rw [dirs, same]
      exact made_dirMode done (List.prefix_refl _)
    constructor
    · rintro ⟨-, may⟩
      have none := may.1.2.2
      rw [parent] at none
      cases none
    · rintro ⟨-, -, entry⟩
      exact absurd same entry
  · have parent : o.dirMode (placeOf dest).dropLast = some (parentMode k t dest) := by
      rw [dirs, named, List.dropLast_concat]
      exact made_dirMode done (List.prefix_refl _)
    have here : o.dirMode (placeOf dest) = t.dirMode (placeOf dest) := by
      rw [dirs, FileTree.Tree.dirMode, named, made_entry done, FileTree.Tree.dirMode]
    have reached := entered _ (path_of_longer taken)
    rw [← named] at reached
    constructor
    · rintro ⟨room, may⟩
      refine ⟨room, here ▸ may.1.2.2, ?_⟩
      rw [named]
      simp
    · rintro ⟨room, target, -⟩
      refine ⟨room, ⟨?_, by rw [parent]; rfl, by rw [here]; exact target⟩, reached, ?_⟩
      · rw [named]
        simp
      · rw [parent]
        exact room

theorem receivable_iff (c : Content) : Receivable k t dest ↔ ∃ m o r, made k t dest = some m ∧
      openTemp k m (dest ++ ".tmp") c = some o ∧
      o.rename k.access (placeOf (dest ++ ".tmp")) (placeOf dest) = some r := by
  constructor
  · rintro ⟨fits, way, entered, room, temp, rewritable, target, entry⟩
    obtain ⟨m, done⟩ := Option.isSome_iff_exists.mp
      ((FileTree.makeDirs_isSome k.access t _ (k.created 0o777)).mpr way)
    have may : (t.mode (placeOf (dest ++ ".tmp"))).elim (k.access.write (parentMode k t dest))
        k.access.write = true := by
      cases found : t.mode (placeOf (dest ++ ".tmp")) with
      | none => exact room
      | some bits =>
        rw [found] at rewritable
        exact rewritable
    obtain ⟨o, written⟩ := Option.isSome_iff_exists.mp
      ((openTemp_isSome (c := c) done).mpr ⟨⟨fits, entered⟩, temp, may⟩)
    obtain ⟨r, moves⟩ := Option.isSome_iff_exists.mp
      ((rename_isSome down done written).mpr ⟨room, target, entry⟩)
    exact ⟨m, o, r, done, written, moves⟩
  · rintro ⟨m, o, r, done, written, moves⟩
    obtain ⟨⟨fits, entered⟩, temp, may⟩ := (openTemp_isSome done).mp (by rw [written]; rfl)
    obtain ⟨room, target, entry⟩ := (rename_isSome down done written).mp (by rw [moves]; rfl)
    refine ⟨fits, (FileTree.makeDirs_isSome k.access t _ _).mp (by rw [← made, done]; rfl), entered,
      room, temp, ?_, target, entry⟩
    cases found : t.mode (placeOf (dest ++ ".tmp")) with
    | none => rfl
    | some bits =>
      rw [found] at may
      exact may

theorem moved_reached (written : openTemp k m (dest ++ ".tmp") c = some o)
    (moves : o.rename k.access (placeOf (dest ++ ".tmp")) (placeOf dest) = some r) :
    r.Reached k.access (placeOf dest) := by
  have apart := tmp_ne_dest down
  have temp := FileTree.write_node written (placeOf (dest ++ ".tmp"))
  rw [if_pos rfl] at temp
  have may := (FileTree.rename_isSome temp apart).mp (by rw [moves]; rfl)
  refine ⟨may.2.2.1.1, fun q member => ?_⟩
  have other : q ≠ placeOf (dest ++ ".tmp") := by
    rintro rfl
    have dir := may.2.2.1.2 _ member
    rw [FileTree.Tree.dirMode, temp] at dir
    cases dir
  rw [FileTree.rename_dirMode temp apart moves other]
  exact may.2.2.1.2 q member

end

def receivedMode (k : Process) (t : Disk) (dest : String) (mode : Nat) : Nat :=
  if 0 < mode then mode &&& 0o7777
  else ((t.mode (placeOf (dest ++ ".tmp"))).map k.rewritten).getD (k.created 0o666)

theorem made_mode {m : Disk} (done : made k t dest = some m) :
    m.mode (placeOf (dest ++ ".tmp")) = t.mode (placeOf (dest ++ ".tmp")) := by
  simp only [FileTree.Tree.mode, placeOf_tmp, made_entry done]

theorem opened_content {m o : Disk} (done : made k t dest = some m)
    (written : openTemp k m (dest ++ ".tmp") c = some o) {p : Place}
    (other : p ≠ placeOf (dest ++ ".tmp")) : o.content p = t.content p := by
  rw [← FileTree.makeDirs_content done p, FileTree.Tree.content, FileTree.write_node written,
    if_neg other, FileTree.Tree.content]

/-! The outcomes of a download of the announced content. -/

section Receive

variable {rt : Runtime} {hash : String} (mode : Nat)

def received (rt : Runtime) (k : Process) (t : Disk) (dest : String) (c : Content) (hash : String)
    (mode : Nat) : Disk :=
  (receiveFile rt (answers k t dest c) dest c.length hash mode).1.foldl (perform k c) t

theorem perform_made (k : Process) (c : Content) (t : Disk) (dest : String) :
    perform k c t (.createDirectories (fsParent dest)) = (made k t dest).getD t :=
  rfl

theorem received_unmade (refused : made k t dest = none) : received rt k t dest c hash mode = t ∨
      received rt k t dest c hash mode = t.remove k.access (placeOf (dest ++ ".tmp")) := by
  have directory : (answers k t dest c).directory = false := by simp [answers, refused]
  have same : perform k c t (.createDirectories (fsParent dest)) = t := by
    rw [perform_made, refused, Option.getD_none]
  simp only [received, receiveFile, directory, Bool.not_false, if_true, List.foldl_cons, same]
  split
  · exact Or.inr rfl
  · exact Or.inl rfl

theorem received_unopened {m : Disk} (done : made k t dest = some m)
    (refused : openTemp k m (dest ++ ".tmp") c = none) : received rt k t dest c hash mode = m := by
  have directory : (answers k t dest c).directory = true := by simp [answers, done]
  have closed : (answers k t dest c).opened = false := by simp [answers, opened, done, refused]
  have first : perform k c t (.createDirectories (fsParent dest)) = m := by
    rw [perform_made, done, Option.getD_some]
  simp only [received, receiveFile, directory, closed, Bool.not_true, Bool.not_false,
    Bool.false_eq_true, if_false, if_true, List.foldl_cons, List.foldl_nil, first]
  simp only [perform, refused, Option.getD_none]

theorem received_opened (checked : hash ≠ "" → rt.sha256 c = hash) {m o : Disk}
    (done : made k t dest = some m) (written : openTemp k m (dest ++ ".tmp") c = some o) :
    received rt k t dest c hash mode =
      if (o.rename k.access (placeOf (dest ++ ".tmp")) (placeOf dest)).isSome then
        (if 0 < mode then [FileOp.permissions dest mode] else []).foldl (perform k c)
          ((o.rename k.access (placeOf (dest ++ ".tmp")) (placeOf dest)).getD o)
      else o.remove k.access (placeOf (dest ++ ".tmp")) := by
  have whole : opened k t dest c = some o := by rw [opened, done]; exact written
  have directory : (answers k t dest c).directory = true := by simp [answers, done]
  have open_ : (answers k t dest c).opened = true := by simp [answers, whole]
  have left : (answers k t dest c).leftover = true := by
    simp only [answers, whole, Option.getD_some]
    rw [FileTree.write_node written, if_pos rfl]
    rfl
  have renamed : (answers k t dest c).renamed =
      (o.rename k.access (placeOf (dest ++ ".tmp")) (placeOf dest)).isSome := by
    simp only [answers, moved, whole, Option.bind_some]
  have stream : (answers k t dest c).stream.take ((c.length : Int)).toNat = c := by
    rw [Int.toNat_natCast]
    exact List.take_length
  have good : ¬ (hash ≠ "" ∧ (answers k t dest c).digest = true ∧ rt.sha256 c ≠ hash) :=
    fun h => h.2.2 (checked h.1)
  have first : perform k c t (.createDirectories (fsParent dest)) = m := by
    rw [perform_made, done, Option.getD_some]
  have second : perform k c m (.openWrite (dest ++ ".tmp")) = o := by
    simp only [perform, written, Option.getD_some]
  simp only [received, receiveFile, directory, open_, stream, left, renamed, good, ne_eq,
    not_true_eq_false, Bool.not_true, Bool.false_eq_true, if_false, if_true]
  cases moves : o.rename k.access (placeOf (dest ++ ".tmp")) (placeOf dest) with
  | none =>
    simp only [Option.isSome_none, Bool.not_false, if_true, List.foldl_append, List.foldl_cons,
      List.foldl_nil, first, second, Bool.false_eq_true, if_false]
    simp only [perform, moves, Option.getD_none]
  | some r =>
    have third : perform k c o (.rename (dest ++ ".tmp") dest) = r := by
      simp only [perform, moves, Option.getD_some]
    simp only [Option.isSome_some, Bool.not_true, if_true, List.foldl_append, List.foldl_cons,
      List.foldl_nil, first, second, third, Bool.false_eq_true, if_false, Option.getD_some]

variable (down : Posix.lastPiece dest.toList ≠ Posix.dotdot)
include down

theorem received_node (checked : hash ≠ "" → rt.sha256 c = hash) (ready : Receivable k t dest) :
    (received rt k t dest c hash mode).node (placeOf dest) =
      some (.file c (receivedMode k t dest mode)) := by
  obtain ⟨m, o, r, done, written, moves⟩ := (receivable_iff down c).mp ready
  have apart := tmp_ne_dest down
  have temp := FileTree.write_node written (placeOf (dest ++ ".tmp"))
  rw [if_pos rfl, made_mode done] at temp
  have target := FileTree.rename_node temp apart moves apart.symm
  rw [if_pos rfl] at target
  rw [received_opened mode checked done written, moves, Option.isSome_some, if_pos rfl,
    Option.getD_some]
  by_cases bits : 0 < mode
  · simp only [if_pos bits, List.foldl_cons, List.foldl_nil, perform, receivedMode]
    rw [FileTree.chmod_node (moved_reached down written moves), if_pos rfl, target]
    rfl
  · simp only [if_neg bits, List.foldl_nil, receivedMode, target]

theorem received_content (checked : hash ≠ "" → rt.sha256 c = hash) {p : Place}
    (other : p ≠ placeOf (dest ++ ".tmp")) (spared : p ≠ placeOf dest ∨ ¬ Receivable k t dest) :
    (received rt k t dest c hash mode).content p = t.content p := by
  cases done : made k t dest with
  | none =>
    have outcome : received rt k t dest c hash mode = t ∨
        received rt k t dest c hash mode = t.remove k.access (placeOf (dest ++ ".tmp")) :=
      received_unmade mode done
    rcases outcome with same | removed
    · rw [same]
    · rw [removed, FileTree.remove_content _ other]
  | some m =>
    cases written : openTemp k m (dest ++ ".tmp") c with
    | none => rw [received_unopened mode done written, FileTree.makeDirs_content done]
    | some o =>
      have before := opened_content done written other
      rw [received_opened mode checked done written]
      cases moves : o.rename k.access (placeOf (dest ++ ".tmp")) (placeOf dest) with
      | none =>
        rw [Option.isSome_none, if_neg (by simp), FileTree.remove_content _ other, before]
      | some r =>
        have ready : Receivable k t dest :=
          (receivable_iff down c).mpr ⟨m, o, r, done, written, moves⟩
        have elsewhere := spared.resolve_right (not_not.mpr ready)
        have temp := FileTree.write_node written (placeOf (dest ++ ".tmp"))
        rw [if_pos rfl] at temp
        have kept := FileTree.rename_node temp (tmp_ne_dest down) moves other
        rw [if_neg elsewhere] at kept
        have same : r.content p = t.content p := by
          rw [← before, FileTree.Tree.content, kept, FileTree.Tree.content]
        rw [Option.isSome_some, if_pos rfl, Option.getD_some]
        split
        · simp only [List.foldl_cons, List.foldl_nil, perform]
          rw [FileTree.chmod_content, same]
        · exact same

end Receive

theorem download_eq (rt : Runtime) (k : Process) (t : Disk) (watchPath relPath : String)
    (c : Content) (hash : String) (mode : Nat) :
    download rt k t watchPath relPath c c.length hash mode =
      received rt k t (fsAppend watchPath relPath) c hash mode := by
  have nonneg : ¬ ((c.length : Int) < 0) := by omega
  have connected : (answers k t (fsAppend watchPath relPath) c).connected = true := rfl
  simp only [download, handleFileTransfer, connected, nonneg, Bool.not_true, Bool.false_eq_true,
    or_self, if_false, received, Int.toNat_natCast, List.take_length]

end Disk

end P2PSync
