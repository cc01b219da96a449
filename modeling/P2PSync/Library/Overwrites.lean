import Mathlib.Data.List.Perm.Basic
import Mathlib.Data.List.Perm.Lattice

/-! A register that elements come in to one after another. An element is taken if it
has another content than the one held and is above it. What is held at the end may
depend on the order; here is when it does not. -/
namespace Overwrites

structure Register (α H : Type) where
  start : H
  content : α → H
  /-- The element is above the start, or above the one held. -/
  above : Option α → α → Prop
  trans : ∀ {held a b}, above held a → above (some a) b → above held b

variable {α H : Type} (r : Register α H)

namespace Register

def shown : Option α → H
  | none => r.start
  | some a => r.content a

def Takes (held : Option α) (a : α) : Prop := r.shown held ≠ r.content a ∧ r.above held a

open Classical in
noncomputable def step (held : Option α) (a : α) :
    Option α := if r.Takes held a then some a else held

noncomputable def run (held : Option α) (xs : List α) : Option α := xs.foldl r.step held

def Fresh (a : α) : Prop := r.Takes none a

def Reached (xs : List α) (h : H) (y : α) : Prop :=
  r.Fresh y ∨ ∃ w ∈ xs, r.content w ≠ h ∧ r.Fresh w ∧ r.Takes (some w) y

/-- Elements of the content are taken at the start, no other element displaces them,
and whatever else can be held one of them displaces. -/
structure Prevails (xs : List α) (h : H) : Prop where
  arrives : ∃ x ∈ xs, r.content x = h ∧ r.Fresh x
  lasts : ∀ x ∈ xs, r.content x = h → r.Fresh x → ∀ y ∈ xs, r.content y ≠ h →
    ¬ r.above (some x) y
  displaced : ∀ y ∈ xs, r.content y ≠ h → r.Reached xs h y →
    ∃ x ∈ xs, r.content x = h ∧ r.above (some y) x

section Decidable

variable [DecidableEq H] [∀ held a, Decidable (r.above held a)]

instance (held : Option α) (a : α) : Decidable (r.Takes held a) :=
  inferInstanceAs (Decidable (_ ∧ _))

instance (a : α) : Decidable (r.Fresh a) := inferInstanceAs (Decidable (r.Takes none a))

instance (xs : List α) (h : H) (y : α) : Decidable (r.Reached xs h y) :=
  inferInstanceAs (Decidable (_ ∨ _))

end Decidable

variable {r} {held : Option α} {a x y : α} {xs ys : List α} {h : H}

theorem step_taken (takes : r.Takes held a) : r.step held a = some a := if_pos takes

theorem step_kept (kept : ¬ r.Takes held a) : r.step held a = held := if_neg kept

theorem run_cons (held : Option α) (a : α) (xs : List α) :
    r.run held (a :: xs) = r.run (r.step held a) xs := rfl

theorem run_append (held : Option α) (xs ys : List α) :
    r.run held (xs ++ ys) = r.run (r.run held xs) ys := List.foldl_append

theorem run_kept (kept : ∀ a ∈ xs, ¬ r.Takes held a) : r.run held xs = held := by
  induction xs with
  | nil => rfl
  | cons a xs ih =>
    obtain ⟨first, rest⟩ := List.forall_mem_cons.mp kept
    rw [run_cons, step_kept first]
    exact ih rest

theorem shown_run_ne (apart : r.shown held ≠ h) (gone : ∀ a ∈ xs, r.content a ≠ h) :
    r.shown (r.run held xs) ≠ h := by
  induction xs generalizing held with
  | nil => exact apart
  | cons a xs ih =>
    obtain ⟨first, rest⟩ := List.forall_mem_cons.mp gone
    rw [run_cons]
    apply ih _ rest
    by_cases takes : r.Takes held a
    · rw [step_taken takes]
      exact first
    · rwa [step_kept takes]

theorem Reached.beyond (reached : r.Reached xs h y) : r.above none y := by
  rcases reached with fresh | ⟨w, -, -, fresh, takes⟩
  · exact fresh.2
  · exact r.trans fresh.2 takes.2

/-! The content that prevails is held at the end of every order. -/

/-- Some of the elements have come in: one of the content is held, or none that has
come in is above the one that is. -/
inductive Underway (r : Register α H) (xs : List α) (h : H) (seen : List α) : Option α → Prop where
  | won (x : α) : x ∈ xs → r.content x = h → r.Fresh x → Underway r xs h seen (some x)
  | open (held : Option α) : r.shown held ≠ h →
    (∀ x ∈ seen, r.content x = h → ¬ r.above held x) →
    (∀ y, held = some y → y ∈ xs ∧ r.Reached xs h y) → Underway r xs h seen held

theorem Underway.step {seen : List α} (prevails : r.Prevails xs h)
    (underway : Underway r xs h seen held) (member : a ∈ xs) :
    Underway r xs h (seen ++ [a]) (r.step held a) := by
  cases underway with
  | won x here same fresh =>
    have kept : ¬ r.Takes (some x) a := by
      rintro ⟨differ, above⟩
      refine prevails.lasts x here same fresh a member ?_ above
      rw [← same]
      exact differ.symm
    rw [step_kept kept]
    exact .won x here same fresh
  | «open» held apart below reached =>
    by_cases takes : r.Takes held a
    · rw [step_taken takes]
      have beyond : r.above none a := by
        cases held with
        | none => exact takes.2
        | some w => exact r.trans (reached w rfl).2.beyond takes.2
      by_cases same : r.content a = h
      · obtain ⟨x, -, content, fresh⟩ := prevails.arrives
        refine .won a member same ⟨?_, beyond⟩
        rw [same, ← content]
        exact fresh.1
      · refine .open _ same ?_ ?_
        · intro x mem content above
          rcases List.mem_append.mp mem with old | new
          · exact below x old content (r.trans takes.2 above)
          · rw [List.mem_singleton.mp new] at content
            exact same content
        · rintro y ⟨⟩
          refine ⟨member, ?_⟩
          cases held with
          | none => exact Or.inl takes
          | some w =>
            -- over the start, unless the content is that of the start
            by_cases first : r.start = r.content a
            · right
              obtain ⟨here, chain⟩ := reached w rfl
              refine ⟨w, here, apart, ⟨fun same => ?_, chain.beyond⟩, takes⟩
              exact takes.1 (same.symm.trans first)
            · exact Or.inl ⟨first, beyond⟩
    · rw [step_kept takes]
      refine .open held apart ?_ reached
      intro x mem content above
      rcases List.mem_append.mp mem with old | new
      · exact below x old content above
      · cases List.mem_singleton.mp new
        exact takes ⟨content ▸ apart, above⟩

theorem Underway.run {seen : List α} (prevails : r.Prevails xs h)
    (underway : Underway r xs h seen held) (among : ∀ a ∈ ys, a ∈ xs) :
    Underway r xs h (seen ++ ys) (r.run held ys) := by
  induction ys generalizing held seen with
  | nil =>
    rw [List.append_nil]
    exact underway
  | cons a ys ih =>
    obtain ⟨first, rest⟩ := List.forall_mem_cons.mp among
    have later := ih (underway.step prevails first) rest
    rwa [List.append_assoc, List.singleton_append] at later

theorem Prevails.run (prevails : r.Prevails xs h) (perm : ys.Perm xs) :
    ∃ x ∈ xs, r.run none ys = some x ∧ r.content x = h ∧ r.Fresh x := by
  obtain ⟨x, member, same, fresh⟩ := prevails.arrives
  have start : Underway r xs h [] none := by
    refine .open none ?_ (by simp) (by simp)
    rw [← same]
    exact fresh.1
  have done := start.run prevails (fun a mem => perm.subset mem)
  rw [List.nil_append] at done
  generalize r.run none ys = held at done
  cases done with
  | won x here same fresh => exact ⟨x, here, rfl, same, fresh⟩
  | «open» held apart below reached =>
    cases held with
    | none => exact absurd fresh.2 (below x (perm.symm.subset member) same)
    | some y =>
      obtain ⟨here, chain⟩ := reached y rfl
      obtain ⟨z, there, content, above⟩ := prevails.displaced y here apart chain
      exact absurd above (below z (perm.symm.subset there) content)

/-! Otherwise some order ends without it. -/

open Classical in
theorem exists_without (before after : List α) (perm : (before ++ after).Perm xs)
    (apart : r.shown (r.run none before) ≠ h)
    (below : ∀ x ∈ after, r.content x = h → ¬ r.above (r.run none before) x) :
    ∃ ys, ys.Perm xs ∧ r.shown (r.run none ys) ≠ h := by
  have split := List.filter_append_perm (fun x => decide (r.content x = h)) after
  have skipped : r.run (r.run none before) (after.filter (fun x => decide (r.content x = h))) =
      r.run none before := by
    apply run_kept
    intro a mem takes
    obtain ⟨member, content⟩ := List.mem_filter.mp mem
    exact below a member (of_decide_eq_true content) takes.2
  refine ⟨_, (split.append_left before).trans perm, ?_⟩
  rw [run_append, run_append, skipped]
  apply shown_run_ne apart
  intro a mem
  simpa using (List.mem_filter.mp mem).2

open Classical in
theorem exists_first (member : x ∈ xs) : ∃ rest, (x :: rest).Perm xs ∧ ∀ y ∈ xs, y ≠ x → y ∈ rest :=
  ⟨xs.erase x, (List.perm_cons_erase member).symm, fun _ mem ne => (List.mem_erase_of_ne ne).mpr mem⟩

theorem exists_moved (fresh : r.Fresh x) (member : x ∈ xs) :
    ∃ ys, ys.Perm xs ∧ r.shown (r.run none ys) ≠ r.start := by
  classical
  obtain ⟨rest, perm, -⟩ := exists_first member
  have split := List.filter_append_perm (fun a => decide (r.content a = r.start)) rest
  have skipped : r.run none (rest.filter (fun a => decide (r.content a = r.start))) = none := by
    apply run_kept
    intro a mem takes
    exact takes.1 (of_decide_eq_true (List.mem_filter.mp mem).2).symm
  have held : r.run none (rest.filter (fun a => decide (r.content a = r.start)) ++ [x]) = some x := by
    rw [run_append, skipped, run_cons, step_taken fresh]
    rfl
  refine exists_without (rest.filter (fun a => decide (r.content a = r.start)) ++ [x])
    (rest.filter (fun a => !decide (r.content a = r.start))) ?_ ?_ ?_
  · rw [List.append_assoc, List.singleton_append]
    exact (List.perm_middle.trans (split.cons x)).trans perm
  · rw [held]
    exact fresh.1.symm
  · intro a mem content
    have other := (List.mem_filter.mp mem).2
    rw [content] at other
    simp at other

section Always

variable (always : ∀ ys, ys.Perm xs → r.shown (r.run none ys) = h)

include always

theorem arrives_of_always (apart : r.start ≠ h) : ∃ x ∈ xs, r.content x = h ∧ r.Fresh x := by
  by_contra never
  obtain ⟨ys, perm, lost⟩ := exists_without [] xs (List.Perm.refl xs) apart
    (fun x mem content above => never ⟨x, mem, content, content ▸ apart, above⟩)
  exact lost (always ys perm)

theorem displaced_of_always (member : y ∈ xs) (other : r.content y ≠ h)
    (reached : r.Reached xs h y) : ∃ x ∈ xs, r.content x = h ∧ r.above (some y) x := by
  by_contra never
  have below : ∀ x ∈ xs, r.content x = h → ¬ r.above (some y) x :=
    fun x mem content above => never ⟨x, mem, content, above⟩
  have order : ∃ before after, (before ++ after).Perm xs ∧ r.run none before = some y := by
    rcases reached with fresh | ⟨w, here, -, fresh, takes⟩
    · obtain ⟨rest, perm, -⟩ := exists_first member
      exact ⟨[y], rest, perm, step_taken fresh⟩
    · obtain ⟨rest, perm, others⟩ := exists_first here
      have apart : y ≠ w := fun same => takes.1 (congrArg r.content same.symm)
      obtain ⟨rest', perm', -⟩ := exists_first (others y member apart)
      refine ⟨[w, y], rest', (perm'.cons w).trans perm, ?_⟩
      rw [run_cons, step_taken fresh]
      exact step_taken takes
  obtain ⟨before, after, perm, held⟩ := order
  obtain ⟨ys, perm', lost⟩ := exists_without before after perm (held ▸ other)
    (fun x mem => held ▸ below x (perm.subset (List.mem_append_right _ mem)))
  exact lost (always ys perm')

theorem lasts_of_always (member : x ∈ xs) (same : r.content x = h) (fresh : r.Fresh x)
    (there : y ∈ xs) (other : r.content y ≠ h) : ¬ r.above (some x) y := by
  classical
  intro above
  obtain ⟨rest, perm, others⟩ := exists_first member
  obtain ⟨rest', perm', -⟩ := exists_first (others y there (fun e => other (e ▸ same)))
  have split := List.filter_append_perm (fun a => decide (r.content a = h)) rest'
  have whole : ((x :: rest'.filter (fun a => decide (r.content a = h))) ++ [y] ++
      rest'.filter (fun a => !decide (r.content a = h))).Perm xs := by
    rw [List.append_assoc, List.singleton_append, List.cons_append]
    exact (((List.perm_middle.trans (split.cons y)).trans perm').cons x).trans perm
  -- the rest of the content comes while the first one is held
  have first : r.run none (x :: rest'.filter (fun a => decide (r.content a = h))) = some x := by
    rw [run_cons, step_taken fresh, run_kept]
    intro a mem takes
    apply takes.1
    rw [of_decide_eq_true (List.mem_filter.mp mem).2]
    exact same
  have second : r.run none ((x :: rest'.filter (fun a => decide (r.content a = h))) ++ [y]) =
      some y := by
    rw [run_append, first]
    exact step_taken ⟨fun e => other (e.symm.trans same), above⟩
  obtain ⟨ys, perm'', lost⟩ := exists_without (h := h) _ _ whole (by rw [second]; exact other) (by
    intro a mem content
    have apart := (List.mem_filter.mp mem).2
    rw [content] at apart
    simp at apart)
  exact lost (always ys perm'')

end Always

/-- A content other than the one at the start is held at the end of every order exactly
if it prevails. -/
theorem always_iff (apart : r.start ≠ h) :
    (∀ ys, ys.Perm xs → r.shown (r.run none ys) = h) ↔ r.Prevails xs h := by
  constructor
  · intro always
    exact ⟨arrives_of_always always apart,
      fun x mem same fresh y there other => lasts_of_always always mem same fresh there other,
      fun y mem other reached => displaced_of_always always mem other reached⟩
  · intro prevails ys perm
    obtain ⟨x, -, held, same, -⟩ := prevails.run perm
    rw [held]
    exact same

theorem Prevails.exists_held (prevails : r.Prevails xs h) (member : x ∈ xs)
    (same : r.content x = h) (fresh : r.Fresh x) : ∃ ys, ys.Perm xs ∧ r.run none ys = some x := by
  obtain ⟨rest, perm, -⟩ := exists_first member
  refine ⟨x :: rest, perm, ?_⟩
  rw [run_cons, step_taken fresh]
  apply run_kept
  rintro a mem ⟨differ, above⟩
  have there : a ∈ xs := perm.subset (List.mem_cons_of_mem _ mem)
  exact prevails.lasts x member same fresh a there (fun e => differ (same.trans e.symm)) above

end Register

end Overwrites
