import Mathlib.Data.List.Infix

/-! A tree of directories and regular files without links, both with permission
bits. An operation fails where the tree has no place for it and where the bits
refuse it to the process. -/
namespace FileTree

inductive Node (C : Type) where
  | dir (mode : Nat)
  | file (content : C) (mode : Nat)
  deriving DecidableEq

def Node.content {C : Type} : Node C → Option C
  | .dir _ => none
  | .file c _ => some c

def Node.mode {C : Type} : Node C → Option Nat
  | .dir _ => none
  | .file _ m => some m

def Node.dirMode {C : Type} : Node C → Option Nat
  | .dir m => some m
  | .file _ _ => none

def Node.chmod {C : Type} (m : Nat) : Node C → Node C
  | .dir m' => .dir m'
  | .file c _ => .file c m

structure Tree (N C : Type) where
  node : List N → Option (Node C)
  rooted : ((node []).bind Node.dirMode).isSome
  closed : ∀ p n, node (p ++ [n]) ≠ none → ((node p).bind Node.dirMode).isSome

structure Access (N : Type) where
  write : Nat → Bool
  search : Nat → Bool
  /-- The system takes the path; it refuses one that is too long. -/
  path : List N → Bool

variable {N C : Type}

namespace Tree

def content (t : Tree N C) (p : List N) : Option C := (t.node p).bind Node.content

def mode (t : Tree N C) (p : List N) : Option Nat := (t.node p).bind Node.mode

def dirMode (t : Tree N C) (p : List N) : Option Nat := (t.node p).bind Node.dirMode

def Free (t : Tree N C) (p : List N) : Prop :=
  p ≠ [] ∧ (t.dirMode p.dropLast).isSome ∧ (t.dirMode p).isNone

instance (t : Tree N C) (p : List N) : Decidable (t.Free p) :=
  inferInstanceAs (Decidable (_ ∧ _ ∧ _))

def Reached (a : Access N) (t : Tree N C) (p : List N) : Prop :=
  a.path p = true ∧ ∀ q ∈ p.dropLast.inits, (t.dirMode q).any a.search = true

instance (a : Access N) (t : Tree N C) (p : List N) : Decidable (t.Reached a p) :=
  inferInstanceAs (Decidable (_ ∧ ∀ q ∈ p.dropLast.inits, (t.dirMode q).any a.search = true))

def Changeable (a : Access N) (t : Tree N C) (p : List N) : Prop :=
  t.Free p ∧ t.Reached a p ∧ (t.dirMode p.dropLast).any a.write = true

instance (a : Access N) (t : Tree N C) (p : List N) : Decidable (t.Changeable a p) :=
  inferInstanceAs (Decidable (_ ∧ _ ∧ _))

/-- A file there may be opened for writing: by its own bits, or, where it has to be
made, by those of the directory. -/
def Writable (a : Access N) (t : Tree N C) (p : List N) : Prop :=
  t.Free p ∧ t.Reached a p ∧
    ((t.mode p).elim ((t.dirMode p.dropLast).any a.write) a.write) = true

instance (a : Access N) (t : Tree N C) (p : List N) : Decidable (t.Writable a p) :=
  inferInstanceAs (Decidable (_ ∧ _ ∧ _))

theorem free_of_file {t : Tree N C} {p : List N} {c : C} {m : Nat}
    (found : t.node p = some (.file c m)) : t.Free p := by
  rcases List.eq_nil_or_concat p with rfl | ⟨q, n, rfl⟩
  · have root := t.rooted
    rw [found] at root
    cases root
  · rw [List.concat_eq_append] at found ⊢
    refine ⟨by simp, ?_, by simp [dirMode, found, Node.dirMode]⟩
    rw [List.dropLast_concat]
    exact t.closed q n (by simp [found])

variable [DecidableEq N]

def empty (mode : Nat) : Tree N C where
  node p := if p = [] then some (.dir mode) else none
  rooted := rfl
  closed := by simp

def put (t : Tree N C) (p : List N) (free : t.Free p) (file : Option (C × Nat)) : Tree N C where
  node q := if q = p then file.map (fun f => .file f.1 f.2) else t.node q
  rooted := by
    rw [if_neg free.1.symm]
    exact t.rooted
  closed := by
    intro q n present
    by_cases here : q ++ [n] = p
    · have parent : q = p.dropLast := by rw [← here, List.dropLast_concat]
      have apart : q ≠ p := by
        rw [← here]
        simp
      rw [if_neg apart, parent]
      exact free.2.1
    · rw [if_neg here] at present
      have dir := t.closed q n present
      have apart : q ≠ p := by
        rintro rfl
        have none := free.2.2
        rw [dirMode, Option.isNone_iff_eq_none] at none
        rw [none] at dir
        cases dir
      rw [if_neg apart]
      exact dir

/-- The directory and those above it can be made: the path is taken, no piece of it is a
file, what is above may be searched, and what gets a new entry may be written. -/
def Passable (a : Access N) (t : Tree N C) (p : List N) (mode : Nat) : Prop :=
  a.path p = true ∧ (∀ q ∈ p.inits, (t.content q).isNone = true) ∧
    (∀ q ∈ p.dropLast.inits, a.search ((t.dirMode q).getD mode) = true) ∧
    ∀ q ∈ p.inits, (t.node q).isNone = true → a.write ((t.dirMode q.dropLast).getD mode) = true

instance (a : Access N) (t : Tree N C) (p : List N) (mode : Nat) :
    Decidable (t.Passable a p mode) :=
  inferInstanceAs (Decidable (_ ∧ _ ∧ _ ∧ _))

def makeDirs (a : Access N) (t : Tree N C) (p : List N) (mode : Nat) : Option (Tree N C) :=
  if t.Passable a p mode then
    some {
      node := fun q => if q <+: p then some (.dir ((t.dirMode q).getD mode)) else t.node q
      rooted := by
        rw [if_pos List.nil_prefix]
        rfl
      closed := by
        intro q n present
        by_cases above : q ++ [n] <+: p
        · rw [if_pos ((List.prefix_append q [n]).trans above)]
          rfl
        · rw [if_neg above] at present
          have dir := t.closed q n present
          split
          · rfl
          · exact dir }
  else none

/-- Open for writing, truncate and write. A file that exists keeps what `rewrite`
leaves of its bits; a new one has the bits `created`. -/
def write (a : Access N) (t : Tree N C) (p : List N) (c : C) (rewrite : Nat → Nat) (created : Nat) :
    Option (Tree N C) :=
  if may : t.Writable a p then
    some (t.put p may.1 (some (c, ((t.mode p).map rewrite).getD created)))
  else none

def unlink (t : Tree N C) (p : List N) : Tree N C :=
  if free : t.Free p then t.put p free none else t

def remove (a : Access N) (t : Tree N C) (p : List N) : Tree N C :=
  if t.Changeable a p then t.unlink p else t

def rename (a : Access N) (t : Tree N C) (src dst : List N) : Option (Tree N C) :=
  match t.node src with
  | some (.file c m) =>
    if t.Changeable a src then
      if src = dst then some t
      else if may : t.Changeable a dst then some ((t.put dst may.1 (some (c, m))).unlink src)
      else none
    else none
  | _ => none

def chmod (a : Access N) (t : Tree N C) (p : List N) (m : Nat) : Tree N C :=
  if t.Reached a p then
    if free : t.Free p then t.put p free ((t.content p).map (·, m)) else t
  else t

end Tree

/-! What the operations do. -/

variable [DecidableEq N] {a : Access N}

theorem makeDirs_isSome (a : Access N) (t : Tree N C) (p : List N) (mode : Nat) :
    (t.makeDirs a p mode).isSome = true ↔ t.Passable a p mode := by
  unfold Tree.makeDirs
  split <;> simp_all

section

variable {t t' : Tree N C} {p : List N} {c : C} {rewrite : Nat → Nat} {created : Nat}

theorem makeDirs_node {mode : Nat} (made : t.makeDirs a p mode = some t') (q : List N) :
    t'.node q = if q <+: p then some (.dir ((t.dirMode q).getD mode)) else t.node q := by
  unfold Tree.makeDirs at made
  split at made
  · cases made
    rfl
  · cases made

theorem makeDirs_content {mode : Nat} (made : t.makeDirs a p mode = some t') (q : List N) :
    t'.content q = t.content q := by
  have clear : t.Passable a p mode := (makeDirs_isSome a t p mode).mp (by rw [made]; rfl)
  have node := makeDirs_node made q
  by_cases above : q <+: p
  · rw [if_pos above] at node
    have none := Option.isNone_iff_eq_none.mp (clear.2.1 q ((List.mem_inits q p).mpr above))
    rw [none]
    simp only [Tree.content, node]
    rfl
  · rw [if_neg above] at node
    simp only [Tree.content, node]

theorem write_isSome (a : Access N) (t : Tree N C) (p : List N) (c : C) (rewrite : Nat → Nat)
    (created : Nat) : (t.write a p c rewrite created).isSome = true ↔ t.Writable a p := by
  unfold Tree.write
  split <;> simp_all

theorem write_node (written : t.write a p c rewrite created = some t') (q : List N) :
    t'.node q = if q = p then some (.file c (((t.mode p).map rewrite).getD created))
      else t.node q := by
  unfold Tree.write at written
  split at written
  · cases written
    rfl
  · cases written

theorem write_dirMode (written : t.write a p c rewrite created = some t') (q : List N) :
    t'.dirMode q = t.dirMode q := by
  have may : t.Writable a p := (write_isSome a t p c rewrite created).mp (by rw [written]; rfl)
  unfold Tree.dirMode
  rw [write_node written]
  split
  · rename_i here
    rw [here, Option.bind_some, Node.dirMode]
    exact (Option.isNone_iff_eq_none.mp may.1.2.2).symm
  · rfl

end

theorem unlink_node (t : Tree N C) {p q : List N} (other : q ≠ p) :
    (t.unlink p).node q = t.node q := by
  unfold Tree.unlink
  split
  · simp only [Tree.put, if_neg other]
  · rfl

theorem remove_content (t : Tree N C) {p q : List N} (other : q ≠ p) :
    (t.remove a p).content q = t.content q := by
  unfold Tree.remove
  split
  · rw [Tree.content, unlink_node t other, Tree.content]
  · rfl

section

variable {t t' : Tree N C} {src dst : List N} {c : C} {m : Nat}
  (found : t.node src = some (.file c m)) (apart : src ≠ dst) (moved : t.rename a src dst = some t')
  {q : List N} (other : q ≠ src)

include found apart moved other

omit moved other in
theorem rename_isSome :
    (t.rename a src dst).isSome = true ↔ t.Changeable a src ∧ t.Changeable a dst := by
  simp only [Tree.rename, found, if_neg apart]
  split
  · split <;> simp_all
  · simp_all

theorem rename_node : t'.node q = if q = dst then some (.file c m) else t.node q := by
  simp only [Tree.rename, found, if_neg apart] at moved
  split at moved
  · split at moved
    · cases moved
      rw [unlink_node _ other]
      rfl
    · cases moved
  · cases moved

theorem rename_dirMode : t'.dirMode q = t.dirMode q := by
  have may := (rename_isSome found apart).mp (by rw [moved]; rfl)
  unfold Tree.dirMode
  rw [rename_node found apart moved other]
  split
  · rename_i here
    rw [here, Option.bind_some, Node.dirMode]
    exact (Option.isNone_iff_eq_none.mp may.2.1.2.2).symm
  · rfl

end

theorem chmod_node {t : Tree N C} {p : List N} (reached : t.Reached a p) (q : List N) (m : Nat) :
    (t.chmod a p m).node q = if q = p then (t.node p).map (Node.chmod m) else t.node q := by
  rw [Tree.chmod, if_pos reached]
  by_cases free : t.Free p
  · rw [dif_pos free]
    simp only [Tree.put, Tree.content]
    split
    · cases found : t.node p with
      | none => rfl
      | some node =>
        cases node with
        | dir m' =>
          have none := free.2.2
          simp [Tree.dirMode, found, Node.dirMode] at none
        | file c m' => rfl
    · rfl
  · rw [dif_neg free]
    split
    · rename_i here
      subst here
      cases found : t.node q with
      | none => rfl
      | some node =>
        cases node with
        | dir m' => rfl
        | file c m' => exact absurd (Tree.free_of_file found) free
    · rfl

theorem chmod_content (t : Tree N C) (p q : List N) (m : Nat) :
    (t.chmod a p m).content q = t.content q := by
  by_cases reached : t.Reached a p
  · unfold Tree.content
    rw [chmod_node reached]
    by_cases here : q = p
    · subst here
      rw [if_pos rfl]
      cases t.node q with
      | none => rfl
      | some node => cases node <;> rfl
    · rw [if_neg here]
  · rw [Tree.chmod, if_neg reached]

end FileTree
