import Mathlib.Data.List.Nodup

/-! The contents of a directory as a finite forest, and its depth-first walk with
directories that are not entered. A path is the list of the names on the way. -/

inductive Forest (N F : Type) where
  | nil
  | file (name : N) (f : F) (rest : Forest N F)
  | dir (name : N) (children rest : Forest N F)

namespace Forest

variable {N F : Type}

def names : Forest N F → List N
  | nil => []
  | file name _ rest => name :: rest.names
  | dir name _ rest => name :: rest.names

def Distinct : Forest N F → Prop
  | nil => True
  | file name _ rest => name ∉ rest.names ∧ rest.Distinct
  | dir name children rest => name ∉ rest.names ∧ children.Distinct ∧ rest.Distinct

def files : Forest N F → List (List N × F)
  | nil => []
  | file name f rest => ([name], f) :: rest.files
  | dir name children rest =>
    children.files.map (fun e => (name :: e.1, e.2)) ++ rest.files

theorem head_of_mem_files {t : Forest N F} {e : List N × F} (found : e ∈ t.files) :
    ∃ name ∈ t.names, e.1.head? = some name := by
  induction t with
  | nil => cases found
  | file name f rest ih =>
    rcases List.mem_cons.mp found with rfl | later
    · exact ⟨name, List.mem_cons_self, rfl⟩
    · obtain ⟨other, listed, head⟩ := ih later
      exact ⟨other, List.mem_cons_of_mem _ listed, head⟩
  | dir name children rest _ ih =>
    rcases List.mem_append.mp found with below | later
    · obtain ⟨e, -, rfl⟩ := List.mem_map.mp below
      exact ⟨name, List.mem_cons_self, rfl⟩
    · obtain ⟨other, listed, head⟩ := ih later
      exact ⟨other, List.mem_cons_of_mem _ listed, head⟩

theorem not_mem_files {t : Forest N F} {name : N} (absent : name ∉ t.names) (below : List N) :
    name :: below ∉ t.files.map Prod.fst := by
  intro found
  obtain ⟨e, member, path⟩ := List.mem_map.mp found
  obtain ⟨other, listed, head⟩ := head_of_mem_files member
  rw [path] at head
  cases head
  exact absent listed

theorem files_nodup {t : Forest N F} (distinct : t.Distinct) : (t.files.map Prod.fst).Nodup := by
  induction t with
  | nil => exact List.nodup_nil
  | file name f rest ih =>
    exact List.nodup_cons.mpr ⟨not_mem_files distinct.1 [], ih distinct.2⟩
  | dir name children rest inner ih =>
    have paths : (dir name children rest).files.map Prod.fst =
        (children.files.map Prod.fst).map (name :: ·) ++ rest.files.map Prod.fst := by
      simp [files, Function.comp_def]
    rw [paths]
    refine List.nodup_append.mpr ⟨?_, ih distinct.2.2, ?_⟩
    · exact (inner distinct.2.1).map List.cons_injective
    · rintro p inside q later rfl
      obtain ⟨below, -, rfl⟩ := List.mem_map.mp inside
      exact not_mem_files distinct.1 below later

/-! The walk. -/

inductive Visit (N F : Type) where
  | file (path : List N) (f : F)
  | dir (path : List N)

/-- The calls a walk makes below a directory. What a directory contains follows
it, unless the directory is skipped. -/
def walk (skip : List N → Bool) (above : List N) : Forest N F → List (Visit N F)
  | nil => []
  | file name f rest => .file (above ++ [name]) f :: rest.walk skip above
  | dir name children rest =>
    .dir (above ++ [name]) ::
      ((if skip (above ++ [name]) then [] else children.walk skip (above ++ [name])) ++
        rest.walk skip above)

def Visit.kept (keep : List N → Bool) : Visit N F → Option (List N × F)
  | .file path f => if keep path then some (path, f) else none
  | .dir _ => none

/-- Where nothing is kept below a skipped directory, the walk meets every file
that is kept, once and in the order of the forest. -/
theorem walk_kept {skip keep : List N → Bool}
    (pruned : ∀ p q, skip p = true → keep (p ++ q) = false) (t : Forest N F) (above : List N) :
    (t.walk skip above).filterMap (Visit.kept keep) =
      (t.files.map (fun e => (above ++ e.1, e.2))).filter (fun e => keep e.1) := by
  induction t generalizing above with
  | nil => rfl
  | file name f rest ih =>
    simp only [walk, files, List.map_cons, List.filter_cons, List.filterMap_cons, Visit.kept, ih]
    cases keep (above ++ [name]) <;> rfl
  | dir name children rest inner ih =>
    have below : (children.files.map (fun e => (name :: e.1, e.2))).map
        (fun e => (above ++ e.1, e.2)) =
        children.files.map (fun e => ((above ++ [name]) ++ e.1, e.2)) := by
      simp
    simp only [walk, files, List.map_append, List.filter_append, List.filterMap_cons, Visit.kept,
      List.filterMap_append, ih, below]
    congr 1
    cases skipped : skip (above ++ [name]) with
    | false => exact inner (above ++ [name])
    | true =>
      refine (List.filter_eq_nil_iff.mpr ?_).symm
      intro e member
      obtain ⟨e', -, rfl⟩ := List.mem_map.mp member
      rw [pruned _ _ skipped]
      exact Bool.false_ne_true

end Forest
