import Mathlib.Data.Finset.Image
import Mathlib.Data.List.Infix
import Mathlib.Data.List.Nodup

/-! Directories and files by their places. A directory has a number, which it keeps
wherever it is moved; parts of a tree can be cut off and put elsewhere. -/
structure DirTree (N : Type) [DecidableEq N] where
  dirs : List (List N × Nat)
  files : Finset (List N)
  places : (dirs.map Prod.fst).Nodup
  numbers : (dirs.map Prod.snd).Nodup
  rooted : [] ∈ dirs.map Prod.fst
  closed : ∀ p n, p ++ [n] ∈ dirs.map Prod.fst ∨ p ++ [n] ∈ files → p ∈ dirs.map Prod.fst
  apart : ∀ p ∈ files, p ∉ dirs.map Prod.fst

variable {N : Type} [DecidableEq N]

namespace DirTree

def IsDir (t : DirTree N) (p : List N) : Prop := p ∈ t.dirs.map Prod.fst

instance (t : DirTree N) (p : List N) : Decidable (t.IsDir p) := inferInstanceAs (Decidable (p ∈ _))

def Free (t : DirTree N) (p : List N) : Prop := ¬ t.IsDir p ∧ p ∉ t.files

instance (t : DirTree N) (p : List N) : Decidable (t.Free p) := inferInstanceAs (Decidable (_ ∧ _))

def Empty (t : DirTree N) (p : List N) : Prop :=
  t.IsDir p ∧ (∀ d ∈ t.dirs, p <+: d.1 → d.1 = p) ∧ ∀ q ∈ t.files, ¬ p <+: q

instance (t : DirTree N) (p : List N) : Decidable (t.Empty p) :=
  inferInstanceAs (Decidable (_ ∧ _ ∧ _))

def number (t : DirTree N) (p : List N) : Option Nat := (t.dirs.find? (·.1 = p)).map Prod.snd

def subdirs (t : DirTree N) (p : List N) : List N :=
  t.dirs.filterMap (fun d => if d.1.dropLast = p then d.1.getLast? else none)

section Places

variable {t : DirTree N} {p q : List N} {i j : Nat}

theorem isDir_iff : t.IsDir p ↔ ∃ i, (p, i) ∈ t.dirs := by
  simp [IsDir]

theorem isDir_of_mem (there : (p, i) ∈ t.dirs) : t.IsDir p := isDir_iff.mpr ⟨i, there⟩

theorem number_unique (one : (p, i) ∈ t.dirs) (other : (p, j) ∈ t.dirs) : i = j :=
  congrArg Prod.snd (List.inj_on_of_nodup_map t.places one other rfl)

theorem place_unique (one : (p, i) ∈ t.dirs) (other : (q, i) ∈ t.dirs) : p = q :=
  congrArg Prod.fst (List.inj_on_of_nodup_map t.numbers one other rfl)

theorem number_eq_some : t.number p = some i ↔ (p, i) ∈ t.dirs := by
  rw [number, Option.map_eq_some_iff]
  constructor
  · rintro ⟨⟨q, j⟩, found, rfl⟩
    have here : q = p := by simpa using List.find?_some found
    exact here ▸ List.mem_of_find?_eq_some found
  · intro there
    cases found : t.dirs.find? (·.1 = p) with
    | none =>
      have missed := List.find?_eq_none.mp found _ there
      simp at missed
    | some d =>
      obtain ⟨q, j⟩ := d
      have here : q = p := by simpa using List.find?_some found
      have other := List.mem_of_find?_eq_some found
      rw [here] at other
      exact ⟨_, rfl, number_unique other there⟩

theorem isDir_above (there : t.IsDir q) (above : p <+: q) : t.IsDir p := by
  obtain ⟨r, rfl⟩ := above
  induction r using List.reverseRecOn with
  | nil => rwa [List.append_nil] at there
  | append_singleton r n ih =>
    rw [← List.append_assoc] at there
    exact ih (t.closed _ n (Or.inl there))

theorem isDir_of_file (there : q ∈ t.files) (above : p <+: q) (proper : p ≠ q) : t.IsDir p := by
  obtain ⟨r, rfl⟩ := above
  rcases List.eq_nil_or_concat r with rfl | ⟨r, n, rfl⟩
  · exact absurd (List.append_nil p).symm proper
  · rw [List.concat_eq_append, ← List.append_assoc] at there
    exact isDir_above (t.closed _ n (Or.inr there)) (List.prefix_append p r)

theorem Free.below (free : t.Free p) (above : p <+: q) : t.Free q := by
  refine ⟨fun there => free.1 (isDir_above there above), fun there => ?_⟩
  by_cases here : p = q
  · exact free.2 (here ▸ there)
  · exact free.1 (isDir_of_file there above here)

theorem mem_subdirs {n : N} : n ∈ t.subdirs p ↔ t.IsDir (p ++ [n]) := by
  rw [subdirs, List.mem_filterMap, isDir_iff]
  constructor
  · rintro ⟨⟨q, i⟩, there, last⟩
    split at last
    · rename_i above
      obtain ⟨front, rfl⟩ := List.getLast?_eq_some_iff.mp last
      rw [List.dropLast_concat] at above
      exact ⟨i, above ▸ there⟩
    · cases last
  · rintro ⟨i, there⟩
    exact ⟨_, there, by simp⟩

end Places

/-! Files. -/

def put (t : DirTree N) (p : List N) (n : N) (parent : t.IsDir p) (clear : ¬ t.IsDir (p ++ [n])) :
    DirTree N where
  dirs := t.dirs
  files := insert (p ++ [n]) t.files
  places := t.places
  numbers := t.numbers
  rooted := t.rooted
  closed := by
    rintro q m (dir | file)
    · exact t.closed q m (Or.inl dir)
    · rcases Finset.mem_insert.mp file with new | old
      · rw [(List.append_inj' new rfl).1]
        exact parent
      · exact t.closed q m (Or.inr old)
  apart := by
    intro q file
    rcases Finset.mem_insert.mp file with rfl | old
    · exact clear
    · exact t.apart q old

def take (t : DirTree N) (p : List N) : DirTree N where
  dirs := t.dirs
  files := t.files.erase p
  places := t.places
  numbers := t.numbers
  rooted := t.rooted
  closed := fun q m there => t.closed q m (there.imp_right (Finset.mem_of_mem_erase ·))
  apart := fun q file => t.apart q (Finset.mem_of_mem_erase file)

/-! Parts of a tree. -/

def single (i : Nat) : DirTree N where
  dirs := [([], i)]
  files := ∅
  places := List.nodup_singleton _
  numbers := List.nodup_singleton _
  rooted := List.mem_singleton_self _
  closed := by simp
  apart := by simp

def prune (t : DirTree N) (p : List N) (below : p ≠ []) : DirTree N where
  dirs := t.dirs.filter (fun d => ¬ p <+: d.1)
  files := t.files.filter (fun q => ¬ p <+: q)
  places := (List.filter_sublist.map Prod.fst).nodup t.places
  numbers := (List.filter_sublist.map Prod.snd).nodup t.numbers
  rooted := by
    obtain ⟨⟨q, i⟩, there, rfl⟩ := List.mem_map.mp t.rooted
    refine List.mem_map.mpr ⟨_, List.mem_filter.mpr ⟨there, ?_⟩, rfl⟩
    simpa using below
  closed := by
    intro q n there
    have outside : ¬ p <+: q ++ [n] ∧ t.IsDir q := by
      rcases there with dir | file
      · obtain ⟨⟨_, i⟩, kept, rfl⟩ := List.mem_map.mp dir
        obtain ⟨there, outside⟩ := List.mem_filter.mp kept
        exact ⟨by simpa using outside, t.closed q n (Or.inl (List.mem_map_of_mem there))⟩
      · obtain ⟨there, outside⟩ := Finset.mem_filter.mp file
        exact ⟨outside, t.closed q n (Or.inr there)⟩
    obtain ⟨i, there⟩ := isDir_iff.mp outside.2
    refine List.mem_map.mpr ⟨_, List.mem_filter.mpr ⟨there, ?_⟩, rfl⟩
    rw [decide_eq_true_eq]
    exact fun inside => outside.1 (inside.trans (List.prefix_append q [n]))
  apart := by
    intro q file dir
    obtain ⟨d, kept, rfl⟩ := List.mem_map.mp dir
    exact t.apart _ (Finset.mem_of_mem_filter _ file)
      (List.mem_map_of_mem (List.mem_of_mem_filter kept))

theorem mem_prune {t : DirTree N} {p : List N} (below : p ≠ []) {q : List N} {i : Nat} :
    (q, i) ∈ (t.prune p below).dirs ↔ (q, i) ∈ t.dirs ∧ ¬ p <+: q := by
  rw [prune, List.mem_filter, decide_eq_true_eq]

theorem isDir_prune {t : DirTree N} {p : List N} (below : p ≠ []) {q : List N} :
    (t.prune p below).IsDir q ↔ t.IsDir q ∧ ¬ p <+: q := by
  simp only [isDir_iff, mem_prune below, exists_and_right]

section Strip

variable {t : DirTree N} {p r : List N}

omit [DecidableEq N] in
theorem strip_eq {q : List N} (inside : p <+: q) : q = p ++ q.drop p.length :=
  (List.prefix_iff_eq_append.mp inside).symm

theorem mem_strip_dirs {i : Nat} :
    (r, i) ∈ (t.dirs.filter (fun d => p <+: d.1)).map (fun d => (d.1.drop p.length, d.2)) ↔
      (p ++ r, i) ∈ t.dirs := by
  constructor
  · intro there
    obtain ⟨⟨q, j⟩, kept, same⟩ := List.mem_map.mp there
    obtain ⟨there, inside⟩ := List.mem_filter.mp kept
    obtain ⟨rfl, rfl⟩ := Prod.mk.inj same
    rwa [← strip_eq (of_decide_eq_true inside)]
  · intro there
    refine List.mem_map.mpr ⟨_, List.mem_filter.mpr ⟨there, by simp⟩, ?_⟩
    rw [List.drop_left]

theorem mem_strip_files :
    r ∈ (t.files.filter (fun q => p <+: q)).image (·.drop p.length) ↔ p ++ r ∈ t.files := by
  constructor
  · intro there
    obtain ⟨q, kept, rfl⟩ := Finset.mem_image.mp there
    obtain ⟨there, inside⟩ := Finset.mem_filter.mp kept
    rwa [← strip_eq inside]
  · intro there
    refine Finset.mem_image.mpr ⟨_, Finset.mem_filter.mpr ⟨there, List.prefix_append p r⟩, ?_⟩
    exact List.drop_left

end Strip

def subtree (t : DirTree N) (p : List N) (dir : t.IsDir p) : DirTree N where
  dirs := (t.dirs.filter (fun d => p <+: d.1)).map (fun d => (d.1.drop p.length, d.2))
  files := (t.files.filter (fun q => p <+: q)).image (·.drop p.length)
  places := by
    rw [List.map_map]
    refine List.Nodup.map_on ?_ (t.places.of_map.filter _)
    intro d kept d' kept' same
    have inside := of_decide_eq_true (List.mem_filter.mp kept).2
    have inside' := of_decide_eq_true (List.mem_filter.mp kept').2
    have place : d.1 = d'.1 := by
      rw [strip_eq inside, strip_eq inside']
      exact congrArg (p ++ ·) same
    exact List.inj_on_of_nodup_map t.places (List.mem_of_mem_filter kept)
      (List.mem_of_mem_filter kept') place
  numbers := by
    rw [List.map_map]
    exact (List.filter_sublist.map Prod.snd).nodup t.numbers
  rooted := by
    obtain ⟨i, there⟩ := isDir_iff.mp dir
    exact List.mem_map_of_mem (mem_strip_dirs.mpr ((List.append_nil p).symm ▸ there))
  closed := by
    intro q n there
    have above : t.IsDir (p ++ q) := by
      rcases there with dir | file
      · obtain ⟨⟨_, i⟩, there, rfl⟩ := List.mem_map.mp dir
        exact isDir_above (isDir_of_mem (mem_strip_dirs.mp there))
          ((List.prefix_append_right_inj p).mpr (List.prefix_append q [n]))
      · have there := mem_strip_files.mp file
        rw [← List.append_assoc] at there
        exact t.closed _ n (Or.inr there)
    obtain ⟨i, there⟩ := isDir_iff.mp above
    exact List.mem_map_of_mem (mem_strip_dirs.mpr there)
  apart := by
    intro q file dir
    obtain ⟨⟨_, i⟩, there, rfl⟩ := List.mem_map.mp dir
    exact t.apart _ (mem_strip_files.mp file) (isDir_of_mem (mem_strip_dirs.mp there))

theorem mem_subtree {t : DirTree N} {p : List N} {dir : t.IsDir p} {r : List N} {i : Nat} :
    (r, i) ∈ (t.subtree p dir).dirs ↔ (p ++ r, i) ∈ t.dirs := mem_strip_dirs

theorem mem_shift_dirs {t sub : DirTree N} {p q : List N} :
    q ∈ (t.dirs ++ sub.dirs.map (fun d => (p ++ d.1, d.2))).map Prod.fst ↔
      t.IsDir q ∨ ∃ r, q = p ++ r ∧ sub.IsDir r := by
  rw [List.map_append, List.mem_append, List.map_map]
  refine or_congr_right ⟨?_, ?_⟩
  · intro shifted
    obtain ⟨d, there, rfl⟩ := List.mem_map.mp shifted
    exact ⟨d.1, rfl, isDir_of_mem there⟩
  · rintro ⟨r, rfl, there⟩
    obtain ⟨i, there⟩ := isDir_iff.mp there
    exact List.mem_map.mpr ⟨_, there, rfl⟩

def graft (t sub : DirTree N) (p : List N) (n : N) (parent : t.IsDir p) (free : t.Free (p ++ [n]))
    (others : ∀ i ∈ sub.dirs.map Prod.snd, i ∉ t.dirs.map Prod.snd) : DirTree N where
  dirs := t.dirs ++ sub.dirs.map (fun d => (p ++ [n] ++ d.1, d.2))
  files := t.files ∪ sub.files.image (p ++ [n] ++ ·)
  places := by
    rw [List.map_append, List.map_map, List.nodup_append']
    refine ⟨t.places, ?_, ?_⟩
    · have shifted := sub.places.map (List.append_right_injective (p ++ [n]))
      rwa [List.map_map] at shifted
    · intro q old new
      obtain ⟨d, -, rfl⟩ := List.mem_map.mp new
      exact (free.below (List.prefix_append _ d.1)).1 old
  numbers := by
    rw [List.map_append, List.map_map, List.nodup_append']
    exact ⟨t.numbers, sub.numbers, fun i old new => others i new old⟩
  rooted := mem_shift_dirs.mpr (Or.inl t.rooted)
  closed := by
    intro q m there
    rw [mem_shift_dirs] at there ⊢
    -- a parent of the new places is one of them, or the directory the tree is put into
    have shifted : (∃ r, q ++ [m] = p ++ [n] ++ r ∧ (sub.IsDir r ∨ r ∈ sub.files)) →
        t.IsDir q ∨ ∃ r, q = p ++ [n] ++ r ∧ sub.IsDir r := by
      rintro ⟨r, place, inside⟩
      rcases List.eq_nil_or_concat r with rfl | ⟨r, m', rfl⟩
      · rw [List.append_nil] at place
        exact Or.inl ((List.append_inj' place rfl).1 ▸ parent)
      · rw [List.concat_eq_append] at place inside
        rw [← List.append_assoc] at place
        exact Or.inr ⟨r, (List.append_inj' place rfl).1, sub.closed r m' inside⟩
    rcases there with (old | ⟨r, place, dir⟩) | file
    · exact Or.inl (t.closed q m (Or.inl old))
    · exact shifted ⟨r, place, Or.inl dir⟩
    · rcases Finset.mem_union.mp file with old | new
      · exact Or.inl (t.closed q m (Or.inr old))
      · obtain ⟨r, inside, place⟩ := Finset.mem_image.mp new
        exact shifted ⟨r, place.symm, Or.inr inside⟩
  apart := by
    intro q file dir
    rw [mem_shift_dirs] at dir
    rcases Finset.mem_union.mp file with old | new
    · rcases dir with dir | ⟨r, rfl, -⟩
      · exact t.apart q old dir
      · exact (free.below (List.prefix_append _ r)).2 old
    · obtain ⟨r, inside, rfl⟩ := Finset.mem_image.mp new
      rcases dir with dir | ⟨r', place, dir⟩
      · exact (free.below (List.prefix_append _ r)).1 dir
      · exact sub.apart r inside (List.append_cancel_left place ▸ dir)

theorem mem_graft {t sub : DirTree N} {p : List N} {n : N} {parent : t.IsDir p}
    {free : t.Free (p ++ [n])} {others : ∀ i ∈ sub.dirs.map Prod.snd, i ∉ t.dirs.map Prod.snd}
    {q : List N} {i : Nat} : (q, i) ∈ (t.graft sub p n parent free others).dirs ↔
      (q, i) ∈ t.dirs ∨ ∃ r, q = p ++ [n] ++ r ∧ (r, i) ∈ sub.dirs := by
  rw [graft, List.mem_append]
  refine or_congr_right ⟨?_, ?_⟩
  · intro shifted
    obtain ⟨⟨r, j⟩, there, same⟩ := List.mem_map.mp shifted
    obtain ⟨rfl, rfl⟩ := Prod.mk.inj same
    exact ⟨r, rfl, there⟩
  · rintro ⟨r, rfl, there⟩
    exact List.mem_map.mpr ⟨_, there, rfl⟩

end DirTree
