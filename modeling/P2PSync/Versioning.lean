import Mathlib.Data.List.AList
import Mathlib.Data.Prod.Lex
import Mathlib.Data.String.Basic

/-! Logical clocks, whose counters wrap at 64 bits, and the last-write-wins resolver. -/
namespace P2PSync

inductive Action where
  | acceptRemote | keepLocal | skip
  deriving DecidableEq, Repr

structure Resolution where
  action : Action
  reason : String
  isConflict : Bool
  deriving DecidableEq, Repr

structure FileVersion where
  hash : String
  lamportVersion : Nat
  timestamp : Int
  peerID : String
  deriving DecidableEq, Repr

/-- Go's %q; characters beyond ASCII are taken for printable. -/
def quoteChar (c : Char) : String :=
  if c = '"' ∨ c = '\\' then String.ofList ['\\', c]
  else if c = '\n' then "\\n"
  else if c = '\t' then "\\t"
  else if c = '\r' then "\\r"
  else if c.toNat = 7 then "\\a"
  else if c.toNat = 8 then "\\b"
  else if c.toNat = 11 then "\\v"
  else if c.toNat = 12 then "\\f"
  else if c.toNat < 32 ∨ c.toNat = 127 then
    "\\x" ++ String.ofList [(c.toNat / 16).digitChar, (c.toNat % 16).digitChar]
  else String.singleton c

def quote (s : String) : String :=
  "\"" ++ s.toList.foldl (fun text c => text ++ quoteChar c) "" ++ "\""

def resolveConcurrent (own remote : FileVersion) : Resolution :=
  if own.timestamp < remote.timestamp then
    ⟨.acceptRemote, "concurrent edit: remote timestamp " ++ toString remote.timestamp ++
      " > local " ++ toString own.timestamp ++ " (LWW)", true⟩
  else if remote.timestamp < own.timestamp then
    ⟨.keepLocal, "concurrent edit: local timestamp " ++ toString own.timestamp ++
      " > remote " ++ toString remote.timestamp ++ " (LWW)", true⟩
  else if own.peerID < remote.peerID then
    ⟨.acceptRemote, "concurrent edit: same timestamp, remote peer " ++ quote remote.peerID ++
      " > local peer " ++ quote own.peerID ++ " (deterministic tie-break)", true⟩
  else
    ⟨.keepLocal, "concurrent edit: same timestamp, local peer " ++ quote own.peerID ++
      " >= remote peer " ++ quote remote.peerID ++ " (deterministic tie-break)", true⟩

def resolve (own remote : FileVersion) : Resolution :=
  if own.hash = remote.hash then
    ⟨.skip, "files are identical (same hash)", false⟩
  else if own.lamportVersion < remote.lamportVersion then
    ⟨.acceptRemote, "remote version " ++ toString remote.lamportVersion ++
      " > local version " ++ toString own.lamportVersion, false⟩
  else if remote.lamportVersion < own.lamportVersion then
    ⟨.keepLocal, "local version " ++ toString own.lamportVersion ++
      " > remote version " ++ toString remote.lamportVersion, false⟩
  else resolveConcurrent own remote

/-- What the resolver compares, in the order in which it compares it. -/
def FileVersion.rank (v : FileVersion) : Nat ×ₗ Int ×ₗ String :=
  toLex (v.lamportVersion, toLex (v.timestamp, v.peerID))

theorem rank_lt_iff (a b : FileVersion) : a.rank < b.rank ↔ a.lamportVersion < b.lamportVersion ∨
      (a.lamportVersion = b.lamportVersion ∧ (a.timestamp < b.timestamp ∨
        (a.timestamp = b.timestamp ∧ a.peerID < b.peerID))) := by
  simp only [FileVersion.rank, Prod.Lex.toLex_lt_toLex]

section

variable (own remote : FileVersion)

theorem resolveConcurrent_isConflict : (resolveConcurrent own remote).isConflict = true := by
  unfold resolveConcurrent
  split
  · rfl
  · split
    · rfl
    · split <;> rfl

theorem resolveConcurrent_action : (resolveConcurrent own remote).action =
      if own.timestamp < remote.timestamp ∨
        (own.timestamp = remote.timestamp ∧ own.peerID < remote.peerID)
      then .acceptRemote else .keepLocal := by
  unfold resolveConcurrent
  rcases lt_trichotomy own.timestamp remote.timestamp with t | t | t
  · simp [t]
  · by_cases p : own.peerID < remote.peerID <;> simp [t, p]
  · simp [t, t.not_gt, t.ne']

theorem resolve_same_hash {own remote : FileVersion} (same : own.hash = remote.hash) :
    (resolve own remote).action = .skip ∧ (resolve own remote).isConflict = false := by
  simp only [resolve, if_pos same, and_self]

theorem resolve_action {own remote : FileVersion} (differ : own.hash ≠ remote.hash) :
    (resolve own remote).action = if own.rank < remote.rank then .acceptRemote else .keepLocal := by
  simp only [rank_lt_iff, resolve, if_neg differ]
  rcases lt_trichotomy own.lamportVersion remote.lamportVersion with h | h | h
  · simp [h]
  · simp only [h, lt_self_iff_false, if_false, resolveConcurrent_action, true_and, false_or]
  · simp [h, h.not_gt, h.ne']

theorem resolve_skip_iff : (resolve own remote).action = .skip ↔ own.hash = remote.hash := by
  by_cases same : own.hash = remote.hash
  · simp [resolve_same_hash same, same]
  · rw [resolve_action same]
    split <;> simp [same]

theorem resolve_accept_iff :
    (resolve own remote).action = .acceptRemote ↔ own.hash ≠ remote.hash ∧ own.rank < remote.rank := by
  by_cases same : own.hash = remote.hash
  · simp [resolve_same_hash same, same]
  · rw [resolve_action same]
    split <;> simp_all

theorem resolve_keep_iff : (resolve own remote).action = .keepLocal ↔
      own.hash ≠ remote.hash ∧ ¬ own.rank < remote.rank := by
  by_cases same : own.hash = remote.hash
  · simp [resolve_same_hash same, same]
  · rw [resolve_action same]
    split <;> simp_all

theorem resolve_conflict_iff : (resolve own remote).isConflict = true ↔
      own.hash ≠ remote.hash ∧ own.lamportVersion = remote.lamportVersion := by
  by_cases same : own.hash = remote.hash
  · simp [resolve_same_hash same, same]
  simp only [resolve, if_neg same]
  rcases lt_trichotomy own.lamportVersion remote.lamportVersion with h | h | h
  · simp [h, h.ne]
  · simp [h, same, resolveConcurrent_isConflict]
  · simp [h, h.not_gt, h.ne']

end

def choose (own remote : FileVersion) : FileVersion :=
  if (resolve own remote).action = .acceptRemote then remote else own

def winner (own : FileVersion) (remotes : List FileVersion) :
    FileVersion := remotes.foldl choose own

section Winner

theorem choose_of_hash_ne {own remote : FileVersion} (differ : own.hash ≠ remote.hash) :
    choose own remote = if own.rank < remote.rank then remote else own := by
  simp only [choose, resolve_accept_iff, ne_eq, differ, not_false_eq_true, true_and]

theorem rank_le_choose {own remote : FileVersion} (differ : own.hash ≠ remote.hash) :
    own.rank ≤ (choose own remote).rank ∧ remote.rank ≤ (choose own remote).rank := by
  rw [choose_of_hash_ne differ]
  split
  · rename_i less
    exact ⟨le_of_lt less, le_refl _⟩
  · rename_i notLess
    exact ⟨le_refl _, le_of_not_gt notLess⟩

theorem choose_or (own remote : FileVersion) :
    choose own remote = own ∨ choose own remote = remote := by
  unfold choose
  split
  · exact Or.inr rfl
  · exact Or.inl rfl

theorem winner_greatest (own : FileVersion) (remotes : List FileVersion)
    (hashes : ((own :: remotes).map (·.hash)).Nodup) : winner own remotes ∈ own :: remotes ∧
      ∀ v ∈ own :: remotes, v.rank ≤ (winner own remotes).rank := by
  induction remotes generalizing own with
  | nil => exact ⟨List.mem_cons_self, fun v member => by rw [List.mem_singleton.mp member]; rfl⟩
  | cons remote remotes ih =>
    have differ : own.hash ≠ remote.hash := by
      intro same
      simp [same] at hashes
    obtain ⟨above, below⟩ := rank_le_choose differ
    have part : (choose own remote :: remotes).Sublist (own :: remote :: remotes) := by
      rcases choose_or own remote with kept | taken
      · rw [kept]
        exact (List.sublist_cons_self _ _).cons_cons _
      · rw [taken]
        exact List.sublist_cons_self _ _
    obtain ⟨member, greatest⟩ := ih (choose own remote) (hashes.sublist (part.map _))
    refine ⟨part.subset member, ?_⟩
    have first := greatest _ List.mem_cons_self
    intro v known
    rcases List.mem_cons.mp known with rfl | later
    · exact above.trans first
    · rcases List.mem_cons.mp later with rfl | rest
      · exact below.trans first
      · exact greatest v (List.mem_cons_of_mem _ rest)

theorem peerID_eq_of_rank_eq {a b : FileVersion} (same : a.rank = b.rank) : a.peerID = b.peerID :=
  congrArg (fun r => (ofLex (ofLex r).2).2) same

theorem choose_comm {a b : FileVersion} (hashes : a.hash ≠ b.hash) (peers : a.peerID ≠ b.peerID) :
    choose a b = choose b a := by
  rw [choose_of_hash_ne hashes, choose_of_hash_ne hashes.symm]
  have ranks : a.rank ≠ b.rank := fun same => peers (peerID_eq_of_rank_eq same)
  rcases lt_or_gt_of_ne ranks with less | greater
  · rw [if_pos less, if_neg less.asymm]
  · rw [if_neg greater.asymm, if_pos greater]

theorem isConflict_comm (a b : FileVersion) :
    (resolve a b).isConflict = (resolve b a).isConflict := by
  rw [Bool.eq_iff_iff, resolve_conflict_iff, resolve_conflict_iff, ne_comm, @eq_comm _ a.lamportVersion]

end Winner

/-- In whatever order versions of different contents and peers come in, the greatest
one is left, and any two of them are decided alike on both sides. -/
theorem resolver_winner_unique (own : FileVersion) (remotes : List FileVersion)
    (hashes : ((own :: remotes).map (·.hash)).Nodup)
    (peers : ((own :: remotes).map (·.peerID)).Nodup) :
    (∀ own' remotes', (own' :: remotes').Perm (own :: remotes) →
      winner own' remotes' = winner own remotes) ∧
    winner own remotes ∈ own :: remotes ∧
    (∀ v ∈ own :: remotes, v ≠ winner own remotes → v.rank < (winner own remotes).rank) ∧
    ∀ a ∈ own :: remotes, ∀ b ∈ own :: remotes,
      choose a b = choose b a ∧ (resolve a b).isConflict = (resolve b a).isConflict := by
  have same_rank : ∀ a ∈ own :: remotes, ∀ b ∈ own :: remotes, a.rank = b.rank → a = b :=
    fun a ha b hb same => List.inj_on_of_nodup_map peers ha hb (peerID_eq_of_rank_eq same)
  obtain ⟨member, greatest⟩ := winner_greatest own remotes hashes
  refine ⟨?_, member, ?_, ?_⟩
  · -- both are greatest among the same versions
    intro own' remotes' perm
    obtain ⟨member', greatest'⟩ := winner_greatest own' remotes'
      ((perm.map _).nodup_iff.mpr hashes)
    have inside := perm.subset member'
    apply same_rank _ inside _ member
    exact le_antisymm (greatest _ inside) (greatest' _ (perm.symm.subset member))
  · intro v known other
    exact lt_of_le_of_ne (greatest v known) (fun same => other (same_rank v known _ member same))
  · intro a ha b hb
    refine ⟨?_, isConflict_comm a b⟩
    by_cases same : a = b
    · rw [same]
    · apply choose_comm
      · exact fun h => same (List.inj_on_of_nodup_map hashes ha hb h)
      · exact fun h => same (List.inj_on_of_nodup_map peers ha hb h)

theorem resolver_winner_unique_pair :
    winner ⟨"h", 2, 5, "a"⟩ [⟨"g", 2, 5, "b"⟩] = winner ⟨"g", 2, 5, "b"⟩ [⟨"h", 2, 5, "a"⟩] :=
  ((resolver_winner_unique ⟨"g", 2, 5, "b"⟩ [⟨"h", 2, 5, "a"⟩] (by decide) (by decide)).1 _ _
    (List.Perm.swap _ _ _))

structure LamportClock where
  counter : Nat
  deriving DecidableEq, Repr

def LamportClock.tick (c : LamportClock) : LamportClock := ⟨(c.counter + 1) % 2 ^ 64⟩

def LamportClock.witness (c : LamportClock) (remote : Nat) : LamportClock :=
  ⟨((if c.counter < remote then remote else c.counter) + 1) % 2 ^ 64⟩

inductive Ordering where
  | equal | before | after | concurrent
  deriving DecidableEq, Repr

structure VectorClock where
  clocks : AList fun _ : String => Nat
  deriving DecidableEq

namespace VectorClock

def new : VectorClock := ⟨∅⟩

def get (vc : VectorClock) (peerID : String) : Nat := (vc.clocks.lookup peerID).getD 0

def tick (vc : VectorClock) (peerID : String) : VectorClock :=
  ⟨vc.clocks.insert peerID ((vc.get peerID + 1) % 2 ^ 64)⟩

def mergeEntry (vc : VectorClock) (e : Sigma fun _ : String => Nat) : VectorClock :=
  if vc.get e.1 < e.2 then ⟨vc.clocks.insert e.1 e.2⟩ else vc

def merge (vc : VectorClock) (remote : AList fun _ : String => Nat) : VectorClock :=
  remote.entries.foldl mergeEntry vc

/-- The loop over the union of the keys, with its early return. -/
def compareLoop (vc other : VectorClock) : List String → Bool → Bool → Ordering
  | [], hasLess, hasGreater =>
    if !hasLess && !hasGreater then .equal
    else if hasLess && !hasGreater then .before
    else .after
  | k :: ks, hasLess, hasGreater =>
    let hasLess := hasLess || decide (vc.get k < other.get k)
    let hasGreater := hasGreater || decide (other.get k < vc.get k)
    if hasLess && hasGreater then .concurrent else compareLoop vc other ks hasLess hasGreater

def compare (vc other : VectorClock) : Ordering :=
  compareLoop vc other (vc.clocks.keys ∪ other.clocks.keys) false false

theorem get_tick (vc : VectorClock) (p q : String) :
    (vc.tick p).get q = if q = p then (vc.get p + 1) % 2 ^ 64 else vc.get q := by
  split
  · rename_i same
    subst same
    simp [tick, get]
  · rename_i other
    simp only [tick, get, AList.lookup_insert_ne other]

theorem get_mergeEntry (vc : VectorClock) (e : Sigma fun _ : String => Nat) (q : String) :
    (vc.mergeEntry e).get q = if q = e.1 then max (vc.get q) e.2 else vc.get q := by
  unfold mergeEntry
  by_cases same : q = e.1
  · rw [if_pos same, same]
    split
    · simp only [get, AList.lookup_insert, Option.getD_some]
      rename_i below
      unfold get at below
      omega
    · omega
  · rw [if_neg same]
    split
    · simp only [get, AList.lookup_insert_ne same]
    · rfl

theorem get_foldl (es : List (Sigma fun _ : String => Nat)) (once : es.NodupKeys) (vc : VectorClock)
    (q : String) : (es.foldl mergeEntry vc).get q = max (vc.get q) ((es.dlookup q).getD 0) := by
  induction es generalizing vc with
  | nil => simp
  | cons e es ih =>
    obtain ⟨fresh, rest⟩ := List.nodupKeys_cons.mp once
    rw [List.foldl_cons, ih rest, get_mergeEntry]
    obtain ⟨k, v⟩ := e
    by_cases same : q = k
    · subst same
      have none : es.dlookup q = none := List.dlookup_eq_none.mpr fresh
      simp [none]
    · rw [List.dlookup_cons_ne _ _ same]
      simp [same]

theorem get_merge (vc : VectorClock) (remote : AList fun _ : String => Nat) (q : String) :
    (vc.merge remote).get q = max (vc.get q) ((remote.lookup q).getD 0) :=
  get_foldl remote.entries remote.nodupKeys vc q

def Below (a b : VectorClock) : Prop := ∀ q, a.get q ≤ b.get q

theorem compareLoop_eq (a b : VectorClock) (ks : List String) (less greater : Bool)
    (undecided : (less && greater) = false) : compareLoop a b ks less greater =
      match (less || ks.any (fun k => a.get k < b.get k)),
        (greater || ks.any (fun k => b.get k < a.get k)) with
      | false, false => .equal
      | true, false => .before
      | false, true => .after
      | true, true => .concurrent := by
  induction ks generalizing less greater with
  | nil => cases less <;> cases greater <;> simp_all [compareLoop]
  | cons k ks ih =>
    simp only [compareLoop]
    split
    · rename_i both
      obtain ⟨l, g⟩ := (Bool.and_eq_true _ _).mp both
      simp only [List.any_cons, ← Bool.or_assoc, l, g, Bool.true_or]
    · rename_i open_
      rw [ih _ _ (by simpa using open_)]
      simp only [List.any_cons, Bool.or_assoc]

theorem mem_keys_of_get {vc : VectorClock} {q : String} (counted : 0 < vc.get q) :
    q ∈ vc.clocks.keys := by
  apply AList.lookup_isSome.mp
  unfold get at counted
  cases found : vc.clocks.lookup q with
  | none => simp [found] at counted
  | some n => rfl

theorem any_keys (ks : List String) (a b : VectorClock) (all : b.clocks.keys ⊆ ks) :
    ks.any (fun k => a.get k < b.get k) = true ↔ ¬ b.Below a := by
  simp only [List.any_eq_true, decide_eq_true_eq, Below, not_forall, not_le]
  constructor
  · rintro ⟨k, -, less⟩
    exact ⟨k, less⟩
  · rintro ⟨k, less⟩
    exact ⟨k, all (mem_keys_of_get (by omega)), less⟩

theorem compare_iff (a b : VectorClock) : (a.compare b = .before ↔ a.Below b ∧ ¬ b.Below a) ∧
      (a.compare b = .after ↔ b.Below a ∧ ¬ a.Below b) ∧
      (a.compare b = .concurrent ↔ ¬ a.Below b ∧ ¬ b.Below a) := by
  have less := any_keys (a.clocks.keys ∪ b.clocks.keys) a b
    (fun _ h => List.mem_union_iff.mpr (Or.inr h))
  have greater := any_keys (a.clocks.keys ∪ b.clocks.keys) b a
    (fun _ h => List.mem_union_iff.mpr (Or.inl h))
  rw [compare, compareLoop_eq a b _ _ _ rfl]
  simp only [Bool.false_or]
  cases l : (a.clocks.keys ∪ b.clocks.keys).any (fun k => a.get k < b.get k) <;>
    cases g : (a.clocks.keys ∪ b.clocks.keys).any (fun k => b.get k < a.get k) <;>
    simp_all

end VectorClock

end P2PSync
