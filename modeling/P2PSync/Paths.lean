import P2PSync.Library.Posix
import Mathlib.Data.String.Basic

/-! The path and string operations of the two implementations on a POSIX host.
Go works on the text it received; the C++ daemon first reads backslashes as
slashes and joins with an operator that lets an absolute operand win. -/
namespace P2PSync

def hasPrefix (s p : String) : Bool := p.toList <+: s.toList

def hasSuffix (s p : String) : Bool := p.toList <:+ s.toList

def contains (s sub : String) : Bool := sub.toList <:+: s.toList

/-- On POSIX the separator is already the slash and the text is returned as it is. -/
def toSlash (path : String) : String := path

def isAbs (path : String) : Bool := Posix.isAbs path.toList

def clean (path : String) : String := String.ofList (Posix.clean path.toList)

def join (a b : String) : String := String.ofList (Posix.join a.toList b.toList)

def elements (path : String) : List (List Char) :=
  (Posix.parts (clean path).toList).filter (fun p => p ≠ [] ∧ p ≠ ['.'])

def splitCommon : List (List Char) → List (List Char) → List (List Char) × List (List Char)
  | b :: bs, t :: ts => if b = t then splitCommon bs ts else (b :: bs, t :: ts)
  | bs, ts => (bs, ts)

/-- Go's Rel; none is its error. -/
def rel (basepath targpath : String) : Option String :=
  if isAbs (clean basepath) ≠ isAbs (clean targpath) then none
  else
    let (ups, downs) := splitCommon (elements basepath) (elements targpath)
    if ups.head? = some Posix.dotdot then none
    else
      let ps := ups.map (fun _ => Posix.dotdot) ++ downs
      some (String.ofList (if ps = [] then ['.'] else ['/'].intercalate ps))

/-- The check that every path from a peer's metadata update or request meets. -/
def traversal (path : String) : Bool := isAbs path || contains path ".."

/-- The daemon reads every backslash as a slash. -/
def normalizePath (path : String) : String :=
  String.ofList (path.toList.map (fun ch => if ch = '\\' then '/' else ch))

def fsAppend (a b : String) : String := String.ofList (Posix.append a.toList b.toList)

def fsParent (path : String) : String := String.ofList (Posix.parentPath path.toList)

def Inside (root path : String) : Prop := Posix.Inside root.toList path.toList

instance (root path : String) : Decidable (Inside root path) :=
  inferInstanceAs (Decidable (Posix.Inside root.toList path.toList))

/-- What the daemon makes of the path stays under the directory it joins it to. -/
def daemonSafe (path : String) : Bool :=
  !isAbs (normalizePath path) &&
    decide (Posix.dotdot ∉ Posix.parts (normalizePath path).toList)

theorem contains_iff (s sub : String) : contains s sub = true ↔ sub.toList <:+: s.toList :=
  decide_eq_true_iff

theorem normalizePath_toList (path : String) :
    (normalizePath path).toList = path.toList.map (fun ch => if ch = '\\' then '/' else ch) :=
  String.toList_ofList

theorem map_eq_dotdot {cs : List Char}
    (h : cs.map (fun ch => if ch = '\\' then '/' else ch) = Posix.dotdot) : cs = Posix.dotdot := by
  have dot : ∀ ch : Char, (if ch = '\\' then '/' else ch) = '.' → ch = '.' := by
    intro ch h
    split at h
    · cases h
    · exact h
  obtain ⟨a, as, rfl, ha, rest⟩ := List.map_eq_cons_iff.mp h
  obtain ⟨b, bs, rfl, hb, last⟩ := List.map_eq_cons_iff.mp rest
  rw [List.map_eq_nil_iff.mp last, dot a ha, dot b hb]
  rfl

theorem contains_of_dotdot {path : String}
    (h : Posix.dotdot ∈ Posix.parts (normalizePath path).toList) : contains path ".." = true := by
  rw [contains_iff]
  have found := (Posix.piece_of_mem_parts h).1
  rw [normalizePath_toList] at found
  obtain ⟨before, after, eq⟩ := found
  obtain ⟨u, r, whole, left, -⟩ := List.map_eq_append_iff.mp eq.symm
  obtain ⟨w, d, rfl, -, dots⟩ := List.map_eq_append_iff.mp left
  rw [map_eq_dotdot dots] at whole
  exact ⟨w, r, whole.symm⟩

theorem daemonSafe_of_check {path : String} (checked : traversal path = false)
    (start : path.toList.head? ≠ some '\\') : daemonSafe path = true := by
  simp only [traversal, Bool.or_eq_false_iff] at checked
  have down : Posix.dotdot ∉ Posix.parts (normalizePath path).toList := by
    intro h
    rw [contains_of_dotdot h] at checked
    exact absurd checked.2 (by decide)
  have relative : isAbs (normalizePath path) = false := by
    have own := checked.1
    unfold isAbs Posix.isAbs at own ⊢
    rw [normalizePath_toList]
    cases text : path.toList with
    | nil => rfl
    | cons c cs =>
      rw [text] at own start
      simp only [List.head?_cons, ne_eq, Option.some.injEq] at start
      simpa [start] using own
  simp [daemonSafe, relative, down]

theorem daemonSafe_iff (path : String) : daemonSafe path = true ↔
    isAbs (normalizePath path) = false ∧
      Posix.dotdot ∉ Posix.parts (normalizePath path).toList := by
  simp [daemonSafe]

theorem inside_join {path : String} (checked : traversal path = false) (root : String) :
    Inside root (join root path) := by
  simp only [traversal, Bool.or_eq_false_iff] at checked
  have down : Posix.dotdot ∉ Posix.parts path.toList := by
    intro h
    have text := (Posix.piece_of_mem_parts h).1
    rw [(contains_iff path "..").mpr text] at checked
    exact absurd checked.2 (by decide)
  unfold Inside join
  rw [String.toList_ofList]
  exact Posix.inside_join down root.toList

section Daemon

variable {path : String} (safe : daemonSafe path = true) (root : String)
include safe

theorem inside_dest : Inside root (fsAppend root (normalizePath path)) := by
  obtain ⟨relative, down⟩ := (daemonSafe_iff path).mp safe
  unfold Inside fsAppend
  rw [String.toList_ofList]
  exact Posix.inside_fs_append relative down root.toList

theorem inside_parent : Inside root (fsParent (fsAppend root (normalizePath path))) := by
  obtain ⟨relative, down⟩ := (daemonSafe_iff path).mp safe
  unfold Inside fsParent fsAppend
  rw [String.toList_ofList, String.toList_ofList]
  exact Posix.inside_parent_append relative down root.toList

theorem inside_tmp : Inside root (fsAppend root (normalizePath path) ++ ".tmp") := by
  obtain ⟨relative, down⟩ := (daemonSafe_iff path).mp safe
  unfold Inside fsAppend
  rw [String.toList_append, String.toList_ofList, Posix.append_suffix (by decide)]
  apply Posix.inside_fs_append
  · cases text : (normalizePath path).toList with
    | nil => decide
    | cons c cs =>
      rw [isAbs, text] at relative
      exact relative
  · intro h
    rcases Posix.mem_parts_append_flat (by decide) h with h | h
    · exact down h
    · exact absurd h (by decide)

end Daemon

end P2PSync
