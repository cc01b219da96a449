import Mathlib.Data.List.Infix
import Mathlib.Data.List.DropRight

/-! Lexical path arithmetic on POSIX hosts. Paths are texts; two texts name the
same place when they have the same normal form. Symbolic links are outside this
reading, so nothing here looks at a file system. -/
namespace Posix

def dotdot : List Char := ['.', '.']

def parts (path : List Char) : List (List Char) := path.splitOn '/'

def enter (dir : List (List Char)) (part : List Char) : List (List Char) :=
  if part = [] ∨ part = ['.'] then dir
  else if part = dotdot then dir.dropLast
  else dir ++ [part]

def walk (dir ps : List (List Char)) : List (List Char) := ps.foldl enter dir

def normal (path : List Char) : List (List Char) := walk [] (parts path)

def Inside (root path : List Char) : Prop := normal root <+: normal path

instance (root path : List Char) : Decidable (Inside root path) :=
  inferInstanceAs (Decidable (normal root <+: normal path))

def isAbs (path : List Char) : Bool := path.head? == some '/'

theorem parts_append (a b : List Char) : parts (a ++ '/' :: b) = parts a ++ parts b :=
  List.splitOn_append_cons_self a b

theorem parts_of_not_mem {a : List Char} (flat : '/' ∉ a) : parts a = [a] :=
  List.splitOn_eq_singleton flat

theorem parts_ne_nil (a : List Char) : parts a ≠ [] := List.splitOn_ne_nil '/' a

@[simp] theorem walk_nil (dir : List (List Char)) : walk dir [] = dir := rfl

theorem walk_append (dir ps qs : List (List Char)) : walk dir (ps ++ qs) = walk (walk dir ps) qs :=
  List.foldl_append

theorem normal_append (a b : List Char) : normal (a ++ '/' :: b) = walk (normal a) (parts b) := by
  simp only [normal, parts_append, walk_append]

theorem normal_append_slash (a : List Char) : normal (a ++ ['/']) = normal a := by
  rw [normal_append]
  rfl

theorem prefix_walk {ps : List (List Char)} (down : dotdot ∉ ps) (dir : List (List Char)) :
    dir <+: walk dir ps := by
  induction ps generalizing dir with
  | nil => exact List.prefix_refl dir
  | cons p ps ih =>
    have head : p ≠ dotdot := fun h => down (h ▸ List.mem_cons_self)
    have tail : dotdot ∉ ps := fun h => down (List.mem_cons_of_mem p h)
    have one : dir <+: enter dir p := by
      by_cases idle : p = [] ∨ p = ['.']
      · rw [enter, if_pos idle]
      · rw [enter, if_neg idle, if_neg head]
        exact List.prefix_append dir [p]
    exact one.trans (ih tail (enter dir p))

theorem inside_append {b : List Char} (down : dotdot ∉ parts b) (a : List Char) :
    Inside a (a ++ '/' :: b) := by
  unfold Inside
  rw [normal_append]
  exact prefix_walk down (normal a)

/-! The textual join of std::filesystem and its parent. -/

/-- An absolute right operand replaces the left one. -/
def append (a b : List Char) : List Char :=
  if isAbs b then b
  else if a = [] ∨ a.getLast? = some '/' then a ++ b
  else a ++ '/' :: b

def parentPath (path : List Char) : List Char :=
  let dir := path.rdropWhile (· ≠ '/')
  let base := dir.rdropWhile (· = '/')
  if base = [] ∧ dir ≠ [] then ['/'] else base

theorem append_cases {b : List Char} (relative : isAbs b = false) (a : List Char) :
    (a = [] ∧ append a b = b) ∨
      ∃ w, normal w = normal a ∧ append a b = w ++ '/' :: b := by
  unfold append
  simp only [relative, Bool.false_eq_true, if_false]
  by_cases empty : a = []
  · exact Or.inl ⟨empty, by simp [empty]⟩
  · right
    by_cases slash : a.getLast? = some '/'
    · obtain ⟨w, rfl⟩ := List.getLast?_eq_some_iff.mp slash
      refine ⟨w, (normal_append_slash w).symm, ?_⟩
      simp
    · exact ⟨a, rfl, by simp [empty, slash]⟩

theorem inside_of_nil (path : List Char) : Inside [] path := List.nil_prefix

theorem inside_fs_append {b : List Char} (relative : isAbs b = false)
    (down : dotdot ∉ parts b) (a : List Char) : Inside a (append a b) := by
  obtain ⟨rfl, _⟩ | ⟨w, same, eq⟩ := append_cases relative a
  · exact inside_of_nil _
  · rw [eq]
    unfold Inside
    rw [← same]
    exact inside_append down w

theorem last_piece (path : List Char) : '/' ∉ path ∨ ∃ d f, path = d ++ '/' :: f ∧ '/' ∉ f := by
  by_cases slash : '/' ∈ path
  · right
    obtain ⟨f, d, eq, flat⟩ := List.eq_append_cons_of_mem (List.mem_reverse.mpr slash)
    refine ⟨d.reverse, f.reverse, ?_, by simpa using flat⟩
    have h := congrArg List.reverse eq
    simpa using h
  · exact Or.inl slash

theorem normal_rdropWhile_slash (path : List Char) :
    normal (path.rdropWhile (· = '/')) = normal path := by
  induction path using List.reverseRecOn with
  | nil => rfl
  | append_singleton path c ih =>
    by_cases slash : c = '/'
    · subst slash
      rw [List.rdropWhile_concat_pos _ _ _ (by simp), ih, normal_append_slash]
    · rw [List.rdropWhile_concat_neg _ _ _ (by simpa using slash)]

theorem rdropWhile_flat {f : List Char} (flat : '/' ∉ f) (d : List Char) :
    (d ++ f).rdropWhile (· ≠ '/') = d.rdropWhile (· ≠ '/') := by
  induction f using List.reverseRecOn with
  | nil => simp
  | append_singleton f c ih =>
    have last : c ≠ '/' := fun h => flat (by simp [h])
    have rest : '/' ∉ f := fun h => flat (by simp [h])
    rw [← List.append_assoc, List.rdropWhile_concat_pos _ _ _ (by simpa using last), ih rest]

theorem normal_parentPath (path : List Char) :
    normal (parentPath path) = walk [] (parts path).dropLast := by
  obtain flat | ⟨d, f, rfl, flat⟩ := last_piece path
  · have dir : path.rdropWhile (· ≠ '/') = [] := by
      simpa using rdropWhile_flat flat []
    simp only [parentPath, dir, parts_of_not_mem flat]
    rfl
  · have dir : (d ++ '/' :: f).rdropWhile (· ≠ '/') = d ++ ['/'] := by
      have cut := rdropWhile_flat flat (d ++ ['/'])
      rw [List.append_assoc, List.singleton_append] at cut
      rw [cut, List.rdropWhile_concat_neg _ _ _ (by simp)]
    have base : normal ((d ++ ['/']).rdropWhile (· = '/')) = normal d := by
      rw [normal_rdropWhile_slash, normal_append_slash]
    have whole : walk [] (parts (d ++ '/' :: f)).dropLast = normal d := by
      rw [parts_append, parts_of_not_mem flat, List.dropLast_concat]
      rfl
    rw [whole, ← base]
    simp only [parentPath, dir]
    split
    · rename_i h
      rw [h.1]
      rfl
    · rfl

theorem inside_parent_append {b : List Char} (relative : isAbs b = false)
    (down : dotdot ∉ parts b) (a : List Char) : Inside a (parentPath (append a b)) := by
  obtain ⟨rfl, _⟩ | ⟨w, same, eq⟩ := append_cases relative a
  · exact inside_of_nil _
  · unfold Inside
    rw [eq, normal_parentPath, parts_append,
      List.dropLast_append_of_ne_nil (parts_ne_nil b), walk_append, ← same]
    exact prefix_walk (fun h => down (List.mem_of_mem_dropLast h)) (normal w)

theorem mem_parts_append_flat {t : List Char} (flat : '/' ∉ t) {path p : List Char}
    (h : p ∈ parts (path ++ t)) : p ∈ parts path ∨ t <:+ p := by
  obtain whole | ⟨d, f, rfl, last⟩ := last_piece path
  · rw [parts_of_not_mem (by simp [whole, flat]), List.mem_singleton] at h
    exact Or.inr (h ▸ List.suffix_append path t)
  · rw [List.append_assoc, List.cons_append, parts_append,
      parts_of_not_mem (a := f ++ t) (by simp [last, flat]), List.mem_append,
      List.mem_singleton] at h
    rw [parts_append, List.mem_append]
    rcases h with h | rfl
    · exact Or.inl (Or.inl h)
    · exact Or.inr (List.suffix_append f t)

theorem append_suffix {t : List Char} (start : isAbs t = false) (a b : List Char) :
    append a b ++ t = append a (b ++ t) := by
  have joined : isAbs (b ++ t) = isAbs b := by
    cases b with
    | nil => exact start
    | cons c b => rfl
  unfold append
  rw [joined]
  split
  · rfl
  · split <;> simp

theorem piece_of_mem_parts {path p : List Char} (h : p ∈ parts path) : p <:+: path ∧ '/' ∉ p := by
  obtain whole | ⟨d, f, rfl, last⟩ := last_piece path
  · rw [parts_of_not_mem whole, List.mem_singleton] at h
    rw [h]
    exact ⟨List.infix_rfl, whole⟩
  · rw [parts_append, parts_of_not_mem last, List.mem_append, List.mem_singleton] at h
    rcases h with h | rfl
    · obtain ⟨inside, flat⟩ := piece_of_mem_parts h
      exact ⟨inside.trans (List.prefix_append d ('/' :: f)).isInfix, flat⟩
    · exact ⟨(List.suffix_append_of_suffix (List.suffix_cons '/' p)).isInfix, last⟩
termination_by path.length

/-! The shortest equivalent path, as the Go standard library computes it. -/

/-- Go keeps leading dot-dot pieces of a relative path and drops those of a rooted one. -/
def push (rooted : Bool) (out : List (List Char)) (part : List Char) : List (List Char) :=
  if part = [] ∨ part = ['.'] then out
  else if part = dotdot then
    if out.getLast? = none then (if rooted then out else [dotdot])
    else if out.getLast? = some dotdot then out ++ [dotdot]
    else out.dropLast
  else out ++ [part]

def clean (path : List Char) : List Char :=
  let body := ['/'].intercalate ((parts path).foldl (push (isAbs path)) [])
  if isAbs path then '/' :: body else if body = [] then ['.'] else body

/-- Go joins non-empty elements with a slash and cleans the result. -/
def join (a b : List Char) : List Char :=
  if a = [] then (if b = [] then [] else clean b)
  else if b = [] then clean a
  else clean (a ++ '/' :: b)

def Name (part : List Char) : Prop :=
  part ≠ [] ∧ part ≠ ['.'] ∧ part ≠ dotdot ∧ '/' ∉ part

theorem walk_ups_names (k : Nat) {names : List (List Char)} (proper : ∀ p ∈ names, Name p) :
    walk [] (List.replicate k dotdot ++ names) = names := by
  have ups : walk [] (List.replicate k dotdot) = [] := by
    induction k with
    | zero => rfl
    | succ k ih => exact ih
  rw [walk_append, ups]
  have grow : ∀ dir, walk dir names = dir ++ names := by
    induction names with
    | nil => simp
    | cons p names ih =>
      intro dir
      obtain ⟨h₁, h₂, h₃, _⟩ := proper p List.mem_cons_self
      have step : enter dir p = dir ++ [p] := by simp [enter, h₁, h₂, h₃]
      have rest := ih (fun q hq => proper q (List.mem_cons_of_mem p hq)) (dir ++ [p])
      simpa [walk, step] using rest
  simpa using grow []

theorem enter_names {names : List (List Char)} {p : List Char}
    (proper : ∀ q ∈ names, Name q) (flat : '/' ∉ p) : ∀ q ∈ enter names p, Name q := by
  unfold enter
  split
  · exact proper
  · rename_i busy
    split
    · exact fun q hq => proper q (List.mem_of_mem_dropLast hq)
    · rename_i up
      intro q hq
      rcases List.mem_append.mp hq with hq | hq
      · exact proper q hq
      · rw [List.mem_singleton] at hq
        subst hq
        exact ⟨fun h => busy (Or.inl h), fun h => busy (Or.inr h), up, flat⟩

theorem push_shape {rooted : Bool} {k : Nat} {names : List (List Char)} {p : List Char}
    (proper : ∀ q ∈ names, Name q) (noUp : rooted = true → k = 0) : ∃ k', (rooted = true → k' = 0) ∧
      push rooted (List.replicate k dotdot ++ names) p =
        List.replicate k' dotdot ++ enter names p := by
  by_cases idle : p = [] ∨ p = ['.']
  · exact ⟨k, noUp, by simp only [push, enter, if_pos idle]⟩
  by_cases up : p = dotdot
  · simp only [push, enter, if_neg idle, if_pos up]
    rcases List.eq_nil_or_concat names with rfl | ⟨front, q, rfl⟩
    · cases k with
      | zero =>
        cases rooted with
        | true => exact ⟨0, fun _ => rfl, by simp⟩
        | false => exact ⟨1, fun h => by simp at h, by simp⟩
      | succ k =>
        refine ⟨k + 2, fun h => absurd (noUp h) (by simp), ?_⟩
        simp [List.getLast?_replicate, ← List.replicate_succ']
    · have name := (proper q (by simp)).2.2.1
      refine ⟨k, noUp, ?_⟩
      simp only [List.concat_eq_append, ← List.append_assoc, List.getLast?_concat,
        List.dropLast_concat, reduceCtorEq, if_false, Option.some.injEq, name]
  · refine ⟨k, noUp, ?_⟩
    simp only [push, enter, if_neg idle, if_neg up, List.append_assoc]

theorem foldl_push_shape (rooted : Bool) {ps : List (List Char)} (flat : ∀ p ∈ ps, '/' ∉ p) :
    ∀ {k : Nat} {names : List (List Char)}, (∀ q ∈ names, Name q) → (rooted = true → k = 0) →
    ∃ k', (∀ q ∈ walk names ps, Name q) ∧
      ps.foldl (push rooted) (List.replicate k dotdot ++ names) =
        List.replicate k' dotdot ++ walk names ps := by
  induction ps with
  | nil => exact fun proper _ => ⟨_, proper, rfl⟩
  | cons p ps ih =>
    intro k names proper noUp
    obtain ⟨k₁, noUp₁, one⟩ := push_shape (p := p) proper noUp
    have proper₁ := enter_names proper (flat p List.mem_cons_self)
    obtain ⟨k₂, proper₂, rest⟩ := ih (fun q hq => flat q (List.mem_cons_of_mem p hq)) proper₁ noUp₁
    refine ⟨k₂, proper₂, ?_⟩
    rw [List.foldl_cons, one, rest]
    rfl

theorem normal_intercalate {k : Nat} {names : List (List Char)} (proper : ∀ q ∈ names, Name q) :
    normal (['/'].intercalate (List.replicate k dotdot ++ names)) = names := by
  by_cases empty : List.replicate k dotdot ++ names = []
  · rw [empty, (List.append_eq_nil_iff.mp empty).2]
    rfl
  · have flat : ∀ q ∈ List.replicate k dotdot ++ names, '/' ∉ q := by
      intro q hq
      rcases List.mem_append.mp hq with hq | hq
      · rw [List.eq_of_mem_replicate hq]
        decide
      · exact (proper q hq).2.2.2
    rw [normal, parts, List.splitOn_intercalate '/' flat empty]
    exact walk_ups_names k proper

theorem normal_clean (path : List Char) : normal (clean path) = normal path := by
  obtain ⟨k, proper, shape⟩ := @foldl_push_shape (isAbs path) _
    (fun p hp => (piece_of_mem_parts hp).2) 0 [] (by simp) (fun _ => rfl)
  have body : normal (['/'].intercalate ((parts path).foldl (push (isAbs path)) [])) =
      normal path := by
    have h := normal_intercalate (k := k) proper
    rw [← shape] at h
    exact h
  simp only [clean]
  by_cases rooted : isAbs path
  · rw [if_pos rooted, ← body]
    exact normal_append [] _
  · rw [if_neg rooted]
    by_cases empty : ['/'].intercalate ((parts path).foldl (push (isAbs path)) []) = []
    · rw [if_pos empty, ← body, empty]
      rfl
    · rw [if_neg empty]
      exact body

theorem inside_join {b : List Char} (down : dotdot ∉ parts b) (a : List Char) :
    Inside a (join a b) := by
  by_cases left : a = []
  · subst left
    exact inside_of_nil _
  · unfold Inside
    rw [join, if_neg left]
    by_cases right : b = []
    · rw [if_pos right, normal_clean]
    · rw [if_neg right, normal_clean]
      exact inside_append down a

theorem normal_append_join {b : List Char} (relative : isAbs b = false) (a : List Char) :
    normal (append a b) = normal (join a b) := by
  unfold join
  obtain ⟨rfl, eq⟩ | ⟨w, same, eq⟩ := append_cases relative a
  · rw [eq, if_pos rfl]
    split
    · rename_i empty
      rw [empty]
    · rw [normal_clean]
  · rw [eq, normal_append, same]
    split
    · rename_i empty
      subst empty
      split
      · rename_i nothing
        rw [nothing]
        rfl
      · rw [normal_clean]
        rfl
    · split
      · rename_i nothing
        rw [nothing, normal_clean]
        rfl
      · rw [normal_clean, normal_append]

/-! The last piece of a path. -/

def lastPiece (path : List Char) : List Char := (parts path).getLast (parts_ne_nil path)

theorem parts_eq_concat (path : List Char) :
    parts path = (parts path).dropLast ++ [lastPiece path] :=
  (List.dropLast_append_getLast (parts_ne_nil path)).symm

theorem normal_eq_enter (path : List Char) :
    normal path = enter (normal (parentPath path)) (lastPiece path) := by
  rw [normal_parentPath, normal, parts_eq_concat, walk_append, List.dropLast_concat]
  rfl

theorem normal_append_flat {t : List Char} (flat : '/' ∉ t) (long : 2 < t.length)
    (path : List Char) :
    normal (path ++ t) = normal (parentPath path) ++ [lastPiece path ++ t] := by
  have whole : parts (path ++ t) = (parts path).dropLast ++ [lastPiece path ++ t] := by
    obtain one | ⟨d, f, rfl, last⟩ := last_piece path
    · simp [lastPiece, parts_of_not_mem one, parts_of_not_mem (a := path ++ t) (by simp [one, flat])]
    · have rest : parts (f ++ t) = [f ++ t] := parts_of_not_mem (by simp [last, flat])
      simp [lastPiece, parts_append, parts_of_not_mem last, rest]
  have name : ∀ s : List Char, s.length ≤ 2 → lastPiece path ++ t ≠ s := by
    rintro s short rfl
    rw [List.length_append] at short
    omega
  rw [normal_parentPath, normal, whole, walk_append]
  simp only [walk, List.foldl_cons, List.foldl_nil, enter]
  rw [if_neg, if_neg]
  · exact name dotdot (by decide)
  · rintro (empty | dot)
    · exact name [] (by decide) empty
    · exact name ['.'] (by decide) dot

def names (path : List Char) : List (List Char) :=
  (parts path).filter (fun part => part ≠ [] ∧ part ≠ ['.'])

theorem walk_parts {path : List Char} (down : dotdot ∉ parts path) (dir : List (List Char)) :
    walk dir (parts path) = dir ++ names path := by
  unfold names
  generalize parts path = ps at down
  induction ps generalizing dir with
  | nil => simp
  | cons p ps ih =>
    have head : p ≠ dotdot := fun h => down (h ▸ List.mem_cons_self)
    have tail : dotdot ∉ ps := fun h => down (List.mem_cons_of_mem p h)
    have step : walk dir (p :: ps) = walk (enter dir p) ps := rfl
    rw [step, ih _ tail]
    by_cases idle : p = [] ∨ p = ['.']
    · rw [enter, if_pos idle, List.filter_cons_of_neg]
      rw [decide_eq_true_eq, not_and_or, not_not, not_not]
      exact idle
    · rw [enter, if_neg idle, if_neg head, List.filter_cons_of_pos]
      · simp
      · rw [decide_eq_true_eq, ← not_or]
        exact idle

theorem normal_append_names {b : List Char} (relative : isAbs b = false)
    (down : dotdot ∉ parts b) (a : List Char) : normal (append a b) = normal a ++ names b := by
  obtain ⟨rfl, eq⟩ | ⟨w, same, eq⟩ := append_cases relative a
  · rw [eq, normal, walk_parts down]
    rfl
  · rw [eq, normal_append, same, walk_parts down]

theorem normal_append_ne {b c part : List Char} (down : dotdot ∉ parts b) (named : part ∈ names c)
    (foreign : part ∉ names b) (a : List Char) : normal a ++ names c ≠ normal (append a b) := by
  intro same
  cases rooted : isAbs b with
  | false =>
    rw [normal_append_names rooted down] at same
    exact foreign (List.append_cancel_left same ▸ named)
  | true =>
    have whole : normal b = names b := walk_parts down []
    rw [append, if_pos rooted, whole] at same
    exact foreign (same ▸ List.mem_append_right _ named)

theorem lastPiece_append (a b : List Char) : lastPiece (append a b) = lastPiece b := by
  cases rooted : isAbs b with
  | true => rw [append, if_pos rooted]
  | false =>
    obtain ⟨rfl, eq⟩ | ⟨w, -, eq⟩ := append_cases rooted a
    · rw [eq]
    · have whole : parts (append a b) = parts w ++ parts b := by rw [eq, parts_append]
      simp only [lastPiece, whole]
      exact List.getLast_append_of_ne_nil _ (parts_ne_nil b)

theorem mem_names {path part : List Char} (found : part ∈ names path) : part <:+: path :=
  (piece_of_mem_parts (List.mem_filter.mp found).1).1

theorem exists_name {path : List Char} {ch : Char} (mem : ch ∈ path) (slash : ch ≠ '/')
    (dot : ch ≠ '.') : ∃ part ∈ names path, ch ∈ part := by
  have whole : ch ∈ ['/'].intercalate (parts path) := by
    rwa [parts, List.intercalate_splitOn]
  have piece : ∀ ps : List (List Char), ch ∈ ['/'].intercalate ps → ∃ part ∈ ps, ch ∈ part := by
    intro ps
    induction ps with
    | nil => simp
    | cons p ps ih =>
      cases ps with
      | nil => simp
      | cons q qs =>
        intro h
        rw [List.intercalate_cons_cons] at h
        rcases List.mem_append.mp h with h | h
        · rcases List.mem_append.mp h with h | h
          · exact ⟨p, List.mem_cons_self, h⟩
          · exact absurd (List.mem_singleton.mp h) slash
        · obtain ⟨part, mem, here⟩ := ih h
          exact ⟨part, List.mem_cons_of_mem p mem, here⟩
  obtain ⟨part, mem, here⟩ := piece _ whole
  refine ⟨part, List.mem_filter.mpr ⟨mem, ?_⟩, here⟩
  rw [decide_eq_true_eq]
  constructor
  · rintro rfl
    cases here
  · rintro rfl
    exact dot (List.mem_singleton.mp here)

end Posix
