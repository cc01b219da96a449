import Mathlib.Data.Finmap
import Mathlib.Order.Basic
import P2PSync.Versioning

/-! Vector clocks as an ordered set. The source ranges over its maps in any order: a
comparison gets the order of its loop as an argument, and a map that is merged is an
association list whose order means nothing. -/
namespace P2PSync

def Ordering.AtMost (o : Ordering) : Prop := o = .before ∨ o = .equal

def Ordering.AtLeast (o : Ordering) : Prop := o = .after ∨ o = .equal

namespace VectorClock

def KeyOrder (a b : VectorClock) : Type :=
  { ks : List String // ks.Perm (a.clocks.keys ∪ b.clocks.keys) }

def compareIn (vc other : VectorClock) (order : KeyOrder vc other) : Ordering :=
  compareLoop vc other order.1 false false

def asMap (vc : VectorClock) : Finmap fun _ : String => Nat := vc.clocks.toFinmap

def mergeAll (vc : VectorClock) (remotes : List (AList fun _ : String => Nat)) : VectorClock :=
  remotes.foldl merge vc

/-! Compare decides the pointwise order. -/

section Compare

variable {a b c : VectorClock}

theorem compareIn_eq (order : KeyOrder a b) : a.compareIn b order = a.compare b := by
  have less : order.1.any (fun k => a.get k < b.get k) = _ := order.2.any_eq
  have greater : order.1.any (fun k => b.get k < a.get k) = _ := order.2.any_eq
  rw [compareIn, compare, compareLoop_eq a b _ _ _ rfl, compareLoop_eq a b _ _ _ rfl, less, greater]

theorem compare_equal_iff : a.compare b = .equal ↔ a.Below b ∧ b.Below a := by
  obtain ⟨before, after, concurrent⟩ := compare_iff a b
  cases compared : a.compare b with
  | equal =>
    simp only [compared, reduceCtorEq, false_iff] at before after concurrent
    have first : a.Below b := by
      by_contra above
      by_cases below : b.Below a
      · exact after ⟨below, above⟩
      · exact concurrent ⟨above, below⟩
    have second : b.Below a := by
      by_contra above
      exact before ⟨first, above⟩
    simp [first, second]
  | before => simp [before.mp compared]
  | after => simp [after.mp compared]
  | concurrent => simp [concurrent.mp compared]

theorem compareIn_atMost (order : KeyOrder a b) : (a.compareIn b order).AtMost ↔ a.Below b := by
  rw [Ordering.AtMost, compareIn_eq, (compare_iff a b).1, compare_equal_iff, ← and_or_left]
  exact and_iff_left (em' _)

theorem compareIn_atLeast (order : KeyOrder a b) : (a.compareIn b order).AtLeast ↔ b.Below a := by
  rw [Ordering.AtLeast, compareIn_eq, (compare_iff a b).2.1, compare_equal_iff,
    and_comm (a := a.Below b), ← and_or_left]
  exact and_iff_left (em' _)

theorem not_below : ¬ a.Below b ↔ ∃ k, b.get k < a.get k := by
  simp only [Below, not_forall, not_le]

end Compare

/-- Whatever the order of its loop, Compare says how the counts of the two clocks are
ordered. Before or equal is a partial order, up to entries that are zero. -/
theorem compare_pointwise (a b : VectorClock) (order : KeyOrder a b) :
    (a.compareIn b order = .equal ↔ ∀ k, a.get k = b.get k) ∧
    (a.compareIn b order = .before ↔ (∀ k, a.get k ≤ b.get k) ∧ ∃ k, a.get k < b.get k) ∧
    (∀ back : KeyOrder b a, a.compareIn b order = .after ↔ b.compareIn a back = .before) ∧
    (a.compareIn b order = .concurrent ↔ ∃ k l, a.get k < b.get k ∧ b.get l < a.get l) ∧
    (∀ self : KeyOrder a a, (a.compareIn a self).AtMost) ∧
    (∀ (c : VectorClock) (further : KeyOrder b c) (across : KeyOrder a c),
      (a.compareIn b order).AtMost → (b.compareIn c further).AtMost →
        (a.compareIn c across).AtMost) ∧
    ∀ back : KeyOrder b a, (a.compareIn b order).AtMost → (b.compareIn a back).AtMost →
      ∀ k, a.get k = b.get k := by
  obtain ⟨before, after, concurrent⟩ := compare_iff a b
  refine ⟨?_, ?_, ?_, ?_, ?_, ?_, ?_⟩
  · rw [compareIn_eq, compare_equal_iff, Below, Below, ← forall_and]
    simp only [le_antisymm_iff]
  · rw [compareIn_eq, before, not_below]
    rfl
  · intro back
    rw [compareIn_eq, compareIn_eq, after, (compare_iff b a).1]
  · rw [compareIn_eq, concurrent, not_below, not_below]
    constructor
    · rintro ⟨⟨l, greater⟩, k, less⟩
      exact ⟨k, l, less, greater⟩
    · rintro ⟨k, l, less, greater⟩
      exact ⟨⟨l, greater⟩, k, less⟩
  · intro self
    exact (compareIn_atMost self).mpr (fun _ => le_rfl)
  · intro c further across first second
    rw [compareIn_atMost] at first second ⊢
    exact fun k => (first k).trans (second k)
  · intro back first second k
    rw [compareIn_atMost] at first second
    exact le_antisymm (first k) (second k)

/-! Merge makes least upper bounds. -/

section Merge

variable (vc : VectorClock)

theorem lookup_mergeEntry (e : Sigma fun _ : String => Nat) (q : String) :
    (vc.mergeEntry e).clocks.lookup q =
      if vc.get q < (vc.mergeEntry e).get q then some ((vc.mergeEntry e).get q)
      else vc.clocks.lookup q := by
  unfold mergeEntry
  split
  · rename_i grows
    by_cases same : q = e.1
    · subst same
      have now : (VectorClock.mk (vc.clocks.insert e.1 e.2)).get e.1 = e.2 := by simp [get]
      rw [now, if_pos grows]
      exact AList.lookup_insert _
    · have now : (VectorClock.mk (vc.clocks.insert e.1 e.2)).get q = vc.get q := by
        simp only [get, AList.lookup_insert_ne same]
      rw [now, if_neg (lt_irrefl _)]
      exact AList.lookup_insert_ne same
  · rw [if_neg (lt_irrefl _)]

def Grown (vc vc' : VectorClock) : Prop :=
  ∀ q, vc.get q ≤ vc'.get q ∧ vc'.clocks.lookup q =
    if vc.get q < vc'.get q then some (vc'.get q) else vc.clocks.lookup q

theorem Grown.refl : Grown vc vc := fun q => ⟨le_rfl, by rw [if_neg (lt_irrefl _)]⟩

variable {vc}

theorem Grown.trans {vc' vc'' : VectorClock} (first : Grown vc vc') (second : Grown vc' vc'') :
    Grown vc vc'' := by
  intro q
  obtain ⟨below, entry⟩ := first q
  obtain ⟨below', entry'⟩ := second q
  refine ⟨below.trans below', ?_⟩
  rw [entry', entry]
  by_cases later : vc'.get q < vc''.get q
  · rw [if_pos later, if_pos (below.trans_lt later)]
  · have same : vc'.get q = vc''.get q := le_antisymm below' (not_lt.mp later)
    rw [if_neg later, same]

theorem grown_mergeEntry (e : Sigma fun _ : String => Nat) : Grown vc (vc.mergeEntry e) := by
  intro q
  refine ⟨?_, lookup_mergeEntry vc e q⟩
  rw [get_mergeEntry]
  split
  · exact le_max_left _ _
  · exact le_rfl

theorem grown_foldl {X : Type} {f : VectorClock → X → VectorClock}
    (grows : ∀ vc x, Grown vc (f vc x)) (xs : List X) (vc : VectorClock) :
    Grown vc (xs.foldl f vc) := by
  induction xs generalizing vc with
  | nil => exact Grown.refl vc
  | cons x xs ih => exact (grows vc x).trans (ih (f vc x))

theorem grown_merge (vc : VectorClock) (remote : AList fun _ : String => Nat) :
    Grown vc (vc.merge remote) :=
  grown_foldl (fun _ e => grown_mergeEntry e) remote.entries vc

theorem grown_mergeAll (remotes : List (AList fun _ : String => Nat)) :
    Grown vc (vc.mergeAll remotes) :=
  grown_foldl grown_merge remotes vc

theorem mergeAll_le_iff (remotes : List (AList fun _ : String => Nat)) (q : String) (n : Nat) :
    (vc.mergeAll remotes).get q ≤ n ↔
      vc.get q ≤ n ∧ ∀ remote ∈ remotes, (VectorClock.mk remote).get q ≤ n := by
  induction remotes generalizing vc with
  | nil => simp [mergeAll]
  | cons remote remotes ih =>
    have step : vc.mergeAll (remote :: remotes) = (vc.merge remote).mergeAll remotes := rfl
    rw [step, ih, get_merge, max_le_iff, List.forall_mem_cons, and_assoc]
    rfl

theorem get_toFinmap {m m' : AList fun _ : String => Nat} (same : m.toFinmap = m'.toFinmap)
    (q : String) : (VectorClock.mk m).get q = (VectorClock.mk m').get q := by
  have entry : m.toFinmap.lookup q = m'.toFinmap.lookup q := by rw [same]
  simp only [Finmap.lookup_toFinmap] at entry
  simp only [get, entry]

theorem asMap_mergeAll {remotes remotes' : List (AList fun _ : String => Nat)}
    (same : ∀ m, m ∈ remotes'.map AList.toFinmap ↔ m ∈ remotes.map AList.toFinmap) :
    (vc.mergeAll remotes').asMap = (vc.mergeAll remotes).asMap := by
  have within : ∀ {l l' : List (AList fun _ : String => Nat)},
      (∀ m, m ∈ l.map AList.toFinmap → m ∈ l'.map AList.toFinmap) → ∀ q n,
        (∀ remote ∈ l', (VectorClock.mk remote).get q ≤ n) →
          ∀ remote ∈ l, (VectorClock.mk remote).get q ≤ n := by
    intro l l' sub q n bounded remote member
    obtain ⟨remote', member', equal⟩ := List.mem_map.mp (sub _ (List.mem_map_of_mem member))
    rw [← get_toFinmap equal]
    exact bounded remote' member'
  have counts : ∀ q, (vc.mergeAll remotes').get q = (vc.mergeAll remotes).get q := by
    intro q
    apply eq_of_forall_ge_iff
    intro n
    rw [mergeAll_le_iff, mergeAll_le_iff]
    exact and_congr_right (fun _ => ⟨within (fun m => (same m).mpr) q n,
      within (fun m => (same m).mp) q n⟩)
  apply Finmap.ext_lookup
  intro q
  rw [asMap, asMap, Finmap.lookup_toFinmap, Finmap.lookup_toFinmap,
    (grown_mergeAll remotes' q).2, (grown_mergeAll remotes q).2, counts]

end Merge

/-- Merging a list of maps gives the same map in whatever order and however often they
come, it dominates the clock and all of them, and whatever dominates these dominates it. -/
theorem merge_least_upper_bound (vc : VectorClock) (remotes : List (AList fun _ : String => Nat)) :
    (∀ remotes', (∀ m, m ∈ remotes'.map AList.toFinmap ↔ m ∈ remotes.map AList.toFinmap) →
      (vc.mergeAll remotes').asMap = (vc.mergeAll remotes).asMap) ∧
    (∀ order, ((vc.mergeAll remotes).compareIn vc order).AtLeast) ∧
    (∀ remote ∈ remotes, ∀ order, ((vc.mergeAll remotes).compareIn ⟨remote⟩ order).AtLeast) ∧
    ∀ (c : VectorClock) (first : KeyOrder c vc), (c.compareIn vc first).AtLeast →
      (∀ remote ∈ remotes, ∃ order : KeyOrder c ⟨remote⟩, (c.compareIn ⟨remote⟩ order).AtLeast) →
      ∀ order, (c.compareIn (vc.mergeAll remotes) order).AtLeast := by
  have bounds : ∀ q, vc.get q ≤ (vc.mergeAll remotes).get q ∧
      ∀ remote ∈ remotes, (VectorClock.mk remote).get q ≤ (vc.mergeAll remotes).get q :=
    fun q => (mergeAll_le_iff remotes q _).mp le_rfl
  refine ⟨fun remotes' same => asMap_mergeAll same, ?_, ?_, ?_⟩
  · intro order
    exact (compareIn_atLeast order).mpr (fun q => (bounds q).1)
  · intro remote member order
    exact (compareIn_atLeast order).mpr (fun q => (bounds q).2 remote member)
  · intro c first above all order
    rw [compareIn_atLeast] at above ⊢
    intro q
    refine (mergeAll_le_iff remotes q _).mpr ⟨above q, fun remote member => ?_⟩
    obtain ⟨order', dominates⟩ := all remote member
    exact (compareIn_atLeast order').mp dominates q

end VectorClock

end P2PSync
