import Mathlib.Data.List.Perm.Basic
import Mathlib.Data.List.Nodup
import Mathlib.Logic.Function.Basic

/-! Round-robin service. The first client in line that has something waiting is served
once and goes to the end; those without anything who stood before it go there too, ahead
of it. -/
namespace RoundRobin

variable {C T : Type}

structure Turn (C T : Type) where
  client : C
  served : T
  waiting : C → List T
  line : List C

def Idle (waiting : C → List T) (line : List C) : Prop := ∀ c ∈ line, waiting c = []

def load (waiting : C → List T) (line : List C) : Nat :=
  (line.flatMap waiting).length

theorem idle_append {waiting : C → List T} {front back : List C} :
    Idle waiting (front ++ back) ↔ Idle waiting front ∧ Idle waiting back :=
  List.forall_mem_append

section

variable (waiting : C → List T) (c : C) (line : List C)

theorem line_cases : Idle waiting line ∨ ∃ front c behind t rest, line = front ++ c :: behind ∧
      Idle waiting front ∧ waiting c = t :: rest := by
  induction line with
  | nil => exact Or.inl (List.forall_mem_nil _)
  | cons c behind ih =>
    cases first : waiting c with
    | cons t rest => exact Or.inr ⟨[], c, behind, t, rest, rfl, List.forall_mem_nil _, first⟩
    | nil =>
      rcases ih with all | ⟨front, d, behind', t, rest, split, all, busy⟩
      · exact Or.inl (List.forall_mem_cons.mpr ⟨first, all⟩)
      · refine Or.inr ⟨c :: front, d, behind', t, rest, ?_, ?_, busy⟩
        · rw [split, List.cons_append]
        · exact List.forall_mem_cons.mpr ⟨first, all⟩

theorem load_cons : load waiting (c :: line) = (waiting c).length + load waiting line := by
  rw [load, List.flatMap_cons, List.length_append, load]

theorem load_append (front back : List C) :
    load waiting (front ++ back) = load waiting front + load waiting back := by
  rw [load, List.flatMap_append, List.length_append, load, load]

theorem load_agree {waiting waiting' : C → List T} {line : List C}
    (same : ∀ c ∈ line, waiting c = waiting' c) : load waiting line = load waiting' line := by
  induction line with
  | nil => rfl
  | cons c line ih =>
    obtain ⟨here, later⟩ := List.forall_mem_cons.mp same
    rw [load_cons, load_cons, here, ih later]

theorem load_filter_le (p : C → Bool) (line : List C) :
    load waiting (line.filter p) ≤ load waiting line := by
  induction line with
  | nil => exact Nat.le_refl _
  | cons c line ih =>
    rw [List.filter_cons, load_cons]
    split
    · rw [load_cons]
      exact Nat.add_le_add_left ih _
    · exact Nat.le_trans ih (Nat.le_add_left _ _)

theorem load_perm {line line' : List C} (perm : line'.Perm line) :
    load waiting line' = load waiting line :=
  (perm.flatMap_right waiting).length_eq

end

theorem load_eq_zero {waiting : C → List T} {line : List C} (empty : load waiting line = 0) :
    Idle waiting line := by
  intro c member
  exact List.flatMap_eq_nil_iff.mp (List.length_eq_zero_iff.mp empty) c member

variable [DecidableEq C]

def next (waiting : C → List T) : List C → List C → Option (Turn C T)
  | _, [] => none
  | idle, c :: behind =>
    match waiting c with
    | [] => next waiting (idle ++ [c]) behind
    | t :: rest => some ⟨c, t, Function.update waiting c rest, behind ++ idle ++ [c]⟩

def order : Nat → (C → List T) → List C → List T
  | 0, _, _ => []
  | n + 1, waiting, line =>
    match next waiting [] line with
    | none => []
    | some turn => turn.served :: order n turn.waiting turn.line

section

variable {waiting : C → List T} {front behind : List C}

theorem next_idle {line : List C} (all : Idle waiting line) (idle : List C) :
    next waiting idle line = none := by
  induction line generalizing idle with
  | nil => rfl
  | cons c behind ih =>
    obtain ⟨empty, rest⟩ := List.forall_mem_cons.mp all
    rw [next, empty]
    exact ih rest _

theorem next_append (all : Idle waiting front) (idle line : List C) :
    next waiting idle (front ++ line) = next waiting (idle ++ front) line := by
  induction front generalizing idle with
  | nil => rw [List.nil_append, List.append_nil]
  | cons c front ih =>
    obtain ⟨empty, rest⟩ := List.forall_mem_cons.mp all
    rw [List.cons_append, next, empty]
    change next waiting (idle ++ [c]) (front ++ line) = _
    rw [ih rest, List.append_assoc, List.singleton_append]

theorem next_served {c : C} {t : T} {rest : List T} (all : Idle waiting front)
    (first : waiting c = t :: rest) : next waiting [] (front ++ c :: behind) =
      some ⟨c, t, Function.update waiting c rest, behind ++ front ++ [c]⟩ := by
  rw [next_append all, next, first]
  rfl

theorem next_some {line : List C} {turn : Turn C T} (taken : next waiting [] line = some turn) :
    ∃ front behind rest, line = front ++ turn.client :: behind ∧ Idle waiting front ∧
      waiting turn.client = turn.served :: rest ∧
      turn.waiting = Function.update waiting turn.client rest ∧
      turn.line = behind ++ front ++ [turn.client] := by
  rcases line_cases waiting line with all | ⟨front, c, behind, t, rest, split, all, first⟩
  · rw [next_idle all] at taken
    cases taken
  · rw [split, next_served all first] at taken
    cases taken
    exact ⟨front, behind, rest, split, all, first, rfl, rfl⟩

theorem next_rotate (all : Idle waiting front) (line : List C) :
    next waiting [] (front ++ line) = next waiting [] (line ++ front) := by
  rcases line_cases waiting line with idle | ⟨front', c, behind, t, rest, rfl, before, first⟩
  · rw [next_idle (idle_append.mpr ⟨all, idle⟩), next_idle (idle_append.mpr ⟨idle, all⟩)]
  · rw [← List.append_assoc, next_served (idle_append.mpr ⟨all, before⟩) first,
      List.append_assoc front', List.cons_append, next_served before first, List.append_assoc,
      List.append_assoc, List.append_assoc, List.append_assoc]

end

section Fairness

variable {waiting : C → List T} {line : List C} {turn : Turn C T}

theorem served_last (taken : next waiting [] line = some turn) {a : C} (inLine : a ∈ line)
    (other : a ≠ turn.client) : [a, turn.client].Sublist turn.line := by
  obtain ⟨front, behind, rest, split, -, -, -, line'⟩ := next_some taken
  rw [line', show [a, turn.client] = [a] ++ [turn.client] from rfl]
  apply List.Sublist.append _ (List.Sublist.refl _)
  rw [List.singleton_sublist]
  rw [split] at inLine
  rcases List.mem_append.mp inLine with before | after
  · exact List.mem_append_right _ before
  · exact List.mem_append_left _ ((List.mem_cons.mp after).resolve_left other)

/-- Nobody is served before a client who stands ahead of them with something
waiting, and that client keeps its place ahead until it is served. -/
theorem ahead_next (once : line.Nodup) (taken : next waiting [] line = some turn) {a b : C}
    (ahead : [a, b].Sublist line) (busy : waiting a ≠ []) :
    turn.client = a ∨ turn.client ≠ b ∧ [a, b].Sublist turn.line := by
  obtain ⟨front, behind, rest, split, all, -, -, line'⟩ := next_some taken
  by_cases own : turn.client = a
  · exact Or.inl own
  right
  rw [split] at ahead once
  -- a is not among the idle ones, so both stand from the served client on
  have later : [a, b].Sublist (turn.client :: behind) := by
    obtain ⟨l₁, l₂, both, one, two⟩ := List.sublist_append_iff.mp ahead
    cases l₁ with
    | nil => rwa [both]
    | cons x l₁ =>
      obtain ⟨rfl, -⟩ := List.cons.inj both
      exact absurd (all a (one.subset List.mem_cons_self)) busy
  have further : [a, b].Sublist behind := by
    rcases List.sublist_cons_iff.mp later with rest | ⟨r, both, -⟩
    · exact rest
    · exact absurd (List.cons.inj both).1.symm own
  constructor
  · intro same
    have member : b ∈ behind := further.subset (List.mem_cons_of_mem _ List.mem_cons_self)
    have fresh := (List.nodup_cons.mp (List.nodup_append.mp once).2.1).1
    exact fresh (same ▸ member)
  · rw [line', List.append_assoc]
    exact further.trans (List.sublist_append_left _ _)

end Fairness

section Whole

theorem load_update_of_notMem (waiting : C → List T) {c : C} {line : List C} (out : c ∉ line)
    (ts : List T) : load (Function.update waiting c ts) line = load waiting line := by
  apply load_agree
  intro d member
  apply Function.update_of_ne
  rintro rfl
  exact out member

section

variable {waiting waiting' : C → List T} {line : List C}

theorem next_line {turn : Turn C T} (taken : next waiting [] line = some turn) :
    turn.line.Perm line := by
  obtain ⟨front, behind, rest, split, -, -, -, line'⟩ := next_some taken
  rw [line', split]
  exact (List.perm_append_singleton _ _).trans ((List.perm_append_comm.cons _).trans
    List.perm_middle.symm)

theorem load_next (once : line.Nodup) {turn : Turn C T} (taken : next waiting [] line = some turn) :
    load waiting line = load turn.waiting turn.line + 1 := by
  obtain ⟨front, behind, rest, split, -, first, left, -⟩ := next_some taken
  rw [load_perm turn.waiting (next_line taken), split, left]
  rw [split] at once
  obtain ⟨-, later, apart⟩ := List.nodup_append.mp once
  have before : turn.client ∉ front := fun member =>
    apart _ member _ List.mem_cons_self rfl
  have after : turn.client ∉ behind := (List.nodup_cons.mp later).1
  rw [load_append, load_append, load_update_of_notMem waiting before]
  have tail : load (Function.update waiting turn.client rest) (turn.client :: behind) =
      rest.length + load waiting behind := by
    rw [load_cons, Function.update_self, load_update_of_notMem waiting after]
  have whole : load waiting (turn.client :: behind) = rest.length + 1 + load waiting behind := by
    rw [load_cons, first, List.length_cons]
  omega

theorem load_served {front behind : List C} {c : C} {t : T} {rest : List T}
    (once : (front ++ c :: behind).Nodup) (all : Idle waiting front)
    (first : waiting c = t :: rest) : load waiting (front ++ c :: behind) =
      load (Function.update waiting c rest) (behind ++ front ++ [c]) + 1 :=
  load_next once (next_served all first)

theorem order_idle (all : Idle waiting line) (n : Nat) : order n waiting line = [] := by
  cases n with
  | zero => rfl
  | succ n => rw [order, next_idle all]

theorem order_next {turn : Turn C T} (taken : next waiting [] line = some turn) (n : Nat) :
    order (n + 1) waiting line = turn.served :: order n turn.waiting turn.line := by
  rw [order, taken]

theorem order_served {front behind : List C} {c : C} {t : T} {rest : List T}
    (all : Idle waiting front) (first : waiting c = t :: rest) (n : Nat) :
    order (n + 1) waiting (front ++ c :: behind) =
      t :: order n (Function.update waiting c rest) (behind ++ front ++ [c]) :=
  order_next (next_served all first) n

theorem order_congr {line' : List C} (same : next waiting [] line = next waiting [] line')
    (n : Nat) : order n waiting line = order n waiting line' := by
  cases n with
  | zero => rfl
  | succ n => rw [order, order, same]

theorem order_agree (same : ∀ c ∈ line, waiting c = waiting' c) (n : Nat) :
    order n waiting line = order n waiting' line := by
  induction n generalizing waiting waiting' line with
  | zero => rfl
  | succ n ih =>
    rcases line_cases waiting line with all | ⟨front, c, behind, t, rest, rfl, all, first⟩
    · have all' : Idle waiting' line := fun c member => same c member ▸ all c member
      rw [order_idle all, order_idle all']
    · have all' : Idle waiting' front := fun d member =>
        same d (List.mem_append_left _ member) ▸ all d member
      have first' : waiting' c = t :: rest :=
        same c (List.mem_append_right _ List.mem_cons_self) ▸ first
      rw [order_served all first, order_served all' first']
      congr 1
      apply ih
      intro d member
      by_cases own : d = c
      · rw [own, Function.update_self, Function.update_self]
      · rw [Function.update_of_ne own, Function.update_of_ne own]
        apply same
        simp only [List.mem_append, List.mem_cons] at member ⊢
        tauto

end

variable (owner : T → C)

def Owned (waiting : C → List T) : Prop := ∀ c, ∀ t ∈ waiting c, owner t = c

variable {owner}

variable {waiting : C → List T} {line : List C} (owned : Owned owner waiting)

include owned

theorem Owned.next {line : List C} {turn : Turn C T} (taken : next waiting [] line = some turn) :
    Owned owner turn.waiting ∧ owner turn.served = turn.client := by
  obtain ⟨front, behind, rest, -, -, first, left, -⟩ := next_some taken
  constructor
  · intro c t member
    rw [left] at member
    by_cases same : c = turn.client
    · subst same
      rw [Function.update_self] at member
      exact owned _ t (first ▸ List.mem_cons_of_mem _ member)
    · rw [Function.update_of_ne same] at member
      exact owned c t member
  · exact owned _ _ (first ▸ List.mem_cons_self)

theorem order_filter_owner (once : line.Nodup) {c : C} (inLine : c ∈ line) {n : Nat}
    (enough : load waiting line ≤ n) :
    (order n waiting line).filter (fun t => owner t = c) = waiting c := by
  induction n generalizing waiting line with
  | zero =>
    have all := load_eq_zero (Nat.le_zero.mp enough)
    rw [all c inLine]
    rfl
  | succ n ih =>
    cases taken : next waiting [] line with
    | none =>
      rcases line_cases waiting line with all | ⟨front, d, behind, t, rest, rfl, all, first⟩
      · rw [order_idle all, all c inLine, List.filter_nil]
      · rw [next_served all first] at taken
        cases taken
    | some turn =>
      obtain ⟨owned', own⟩ := owned.next taken
      have perm := next_line taken
      have less : load turn.waiting turn.line ≤ n := by
        have one := load_next once taken
        omega
      have later := ih owned' (perm.nodup_iff.mpr once) (perm.mem_iff.mpr inLine) less
      obtain ⟨front, behind, rest, -, -, first, left, -⟩ := next_some taken
      rw [order_next taken, List.filter_cons, later, left, own]
      by_cases same : turn.client = c
      · subst same
        rw [Function.update_self, first]
        simp
      · rw [Function.update_of_ne (Ne.symm same)]
        simp [same]

omit owned in
theorem leave_served (waiting : C → List T) (front behind : List C) (d : C) (rest : List T) :
    (behind ++ front ++ [d]).filter (· ≠ d) = behind.filter (· ≠ d) ++ front.filter (· ≠ d) ∧
    (front ++ d :: behind).filter (· ≠ d) = front.filter (· ≠ d) ++ behind.filter (· ≠ d) ∧
    ∀ x ∈ behind.filter (· ≠ d) ++ front.filter (· ≠ d),
      Function.update waiting d rest x = waiting x := by
  refine ⟨by simp, by simp, ?_⟩
  intro x member
  apply Function.update_of_ne
  rw [← List.filter_append] at member
  simpa using (List.mem_filter.mp member).2

/-- A client who leaves the line takes its own away and changes nobody's turn. -/
theorem order_leave (once : line.Nodup) (c : C) {n m : Nat} (enough : load waiting line ≤ n)
    (enough' : load waiting (line.filter (· ≠ c)) ≤ m) :
    (order n waiting line).filter (fun t => owner t ≠ c) =
      order m waiting (line.filter (· ≠ c)) := by
  induction n generalizing waiting line m with
  | zero =>
    have all := load_eq_zero (Nat.le_zero.mp enough)
    have kept : Idle waiting (line.filter (· ≠ c)) := fun d member =>
      all d (List.mem_of_mem_filter member)
    rw [order_idle all, order_idle kept, List.filter_nil]
  | succ n ih =>
    rcases line_cases waiting line with all | ⟨front, d, behind, t, rest, rfl, all, first⟩
    · have kept : Idle waiting (line.filter (· ≠ c)) := fun d member =>
        all d (List.mem_of_mem_filter member)
      rw [order_idle all, order_idle kept, List.filter_nil]
    · have taken : next waiting [] (front ++ d :: behind) = some _ := next_served all first
      obtain ⟨owned', own⟩ := owned.next taken
      have once' := (next_line taken).nodup_iff.mpr once
      have less : load (Function.update waiting d rest) (behind ++ front ++ [d]) ≤ n := by
        have one := load_served once all first
        omega
      have kept : Idle waiting (front.filter (· ≠ c)) := fun x member =>
        all x (List.mem_of_mem_filter member)
      rw [order_served all first, List.filter_cons]
      by_cases leaves : d = c
      · -- the one who left was to be served: the others behind it come first now
        subst leaves
        obtain ⟨short, gone, agree⟩ := leave_served waiting front behind d rest
        have enough'' : load (Function.update waiting d rest)
            ((behind ++ front ++ [d]).filter (· ≠ d)) ≤ m := by
          rw [short, load_agree agree, load_perm waiting List.perm_append_comm, ← gone]
          exact enough'
        rw [own, if_neg (by simp), ih owned' once' less enough'', short, order_agree agree, gone]
        exact (order_congr (next_rotate kept _) m).symm
      · have stays : (front ++ d :: behind).filter (· ≠ c) =
            front.filter (· ≠ c) ++ d :: behind.filter (· ≠ c) := by simp [leaves]
        have moved : (behind ++ front ++ [d]).filter (· ≠ c) =
            behind.filter (· ≠ c) ++ front.filter (· ≠ c) ++ [d] := by simp [leaves]
        have one := load_served (stays ▸ once.filter _) kept first
        rw [← moved, ← stays] at one
        obtain ⟨m, rfl⟩ : ∃ k, m = k + 1 := Nat.exists_eq_add_one.mpr (by omega)
        rw [own, if_pos (by simpa using leaves), stays, order_served kept first, ← moved]
        congr 1
        apply ih owned' once' less
        change load (Function.update waiting d rest) ((behind ++ front ++ [d]).filter (· ≠ c)) ≤ m
        omega

/-- To pass over the client whose turn it is shows, unless it has nothing or is the
only one who has something. -/
theorem order_skip_iff {c : C} {line : List C} (once : (c :: line).Nodup) (n : Nat) :
    order (n + 1) waiting (line ++ [c]) = order (n + 1) waiting (c :: line) ↔
      waiting c = [] ∨ Idle waiting line := by
  constructor
  · intro same
    cases turn : waiting c with
    | nil => exact Or.inl rfl
    | cons t rest =>
      right
      rcases line_cases waiting line with all | ⟨front, d, behind, u, rest', rfl, all, first⟩
      · exact all
      · have due : order (n + 1) waiting (c :: (front ++ d :: behind)) = t :: _ :=
          order_served (List.forall_mem_nil _) turn n
        rw [due, List.append_assoc, List.cons_append, order_served all first] at same
        have who : d = c := by
          rw [← owned d u (first ▸ List.mem_cons_self), ← owned c t (turn ▸ List.mem_cons_self),
            (List.cons.inj same).1]
        have out := (List.nodup_cons.mp once).1
        exact absurd (List.mem_append_right _ (who ▸ List.mem_cons_self)) out
  · rintro (empty | all)
    · have idle : Idle waiting [c] := List.forall_mem_singleton.mpr empty
      exact (order_congr (next_rotate idle line) _).symm
    · exact order_congr (next_rotate all [c]) _

end Whole

end RoundRobin
