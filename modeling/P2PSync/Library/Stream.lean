import Mathlib.Algebra.Group.Nat.Defs
import Mathlib.Data.List.Basic

/-! Moving a fixed number of bytes over a stream that takes and delivers them in pieces.
The answers of the operating system to the single calls are a list; a loop that runs out
of answers is still blocked. -/
namespace Stream

inductive Answer where
  /-- At most this many bytes and one more. -/
  | moved (k : Nat)
  /-- The time limit of the socket has passed. -/
  | again
  | ended
  | failed
  deriving DecidableEq, Repr

inductive Stop where
  | full | again | broken
  deriving DecidableEq, Repr

structure Read (B : Type) where
  got : List B
  left : List B
  script : List Answer
  stop : Stop

def readFull {B : Type} : List Answer → Nat → List B → Option (Read B)
  | script, 0, stream => some ⟨[], stream, script, .full⟩
  | [], _ + 1, _ => none
  | .again :: script, _ + 1, stream => some ⟨[], stream, script, .again⟩
  | .ended :: script, _ + 1, stream => some ⟨[], stream, script, .broken⟩
  | .failed :: script, _ + 1, stream => some ⟨[], stream, script, .broken⟩
  | .moved k :: script, want + 1, stream =>
    -- a read delivers no more than there is; nothing is the end of the stream
    let n := min (min (k + 1) (want + 1)) stream.length
    if stream.isEmpty then some ⟨[], stream, script, .broken⟩
    else (readFull script (want + 1 - n) (stream.drop n)).map
      (fun r => { r with got := stream.take n ++ r.got })

/-- How many bytes the answers let through to a reader of this many, and how its
loop ends, where the stream holds enough of them. -/
def delivery : List Answer → Nat → Option (Nat × Stop)
  | _, 0 => some (0, .full)
  | [], _ + 1 => none
  | .again :: _, _ + 1 => some (0, .again)
  | .ended :: _, _ + 1 => some (0, .broken)
  | .failed :: _, _ + 1 => some (0, .broken)
  | .moved k :: script, want + 1 =>
    let n := min (k + 1) (want + 1)
    (delivery script (want + 1 - n)).map (fun d => (n + d.1, d.2))

section

variable {B : Type} {script : List Answer} {want : Nat} {stream : List B} {r : Read B}

theorem readFull_spec (returned : readFull script want stream = some r) :
    r.got ++ r.left = stream ∧ (r.stop = .full → r.got.length = want) := by
  induction script generalizing want stream r with
  | nil =>
    cases want with
    | zero =>
      cases returned
      simp
    | succ want => cases returned
  | cons answer script ih =>
    cases want with
    | zero =>
      cases returned
      simp
    | succ want =>
      cases answer with
      | moved k =>
        simp only [readFull] at returned
        split at returned
        · cases returned
          simp
        · obtain ⟨later, found, rfl⟩ := Option.map_eq_some_iff.mp returned
          obtain ⟨whole, full⟩ := ih found
          constructor
          · rw [List.append_assoc, whole, List.take_append_drop]
          · intro stop
            rw [List.length_append, full stop, List.length_take]
            omega
      | _ =>
        cases returned
        simp

theorem readFull_take (returned : readFull script want stream = some r) (full : r.stop = .full) :
    r.got = stream.take want := by
  obtain ⟨whole, length⟩ := readFull_spec returned
  rw [← whole, ← length full, List.take_left]

/-- On a stream that holds enough the answers alone decide how much is read. -/
theorem readFull_delivery (enough : want ≤ stream.length)
    (returned : readFull script want stream = some r) :
    delivery script want = some (r.got.length, r.stop) := by
  induction script generalizing want stream r with
  | nil =>
    cases want with
    | zero =>
      cases returned
      rfl
    | succ want => cases returned
  | cons answer script ih =>
    cases want with
    | zero =>
      cases returned
      rfl
    | succ want =>
      cases answer with
      | moved k =>
        simp only [readFull] at returned
        split at returned
        · rename_i empty
          rw [List.isEmpty_iff.mp empty] at enough
          cases enough
        · have all : min (min (k + 1) (want + 1)) stream.length = min (k + 1) (want + 1) := by
            omega
          rw [all] at returned
          obtain ⟨later, found, rfl⟩ := Option.map_eq_some_iff.mp returned
          have rest := ih (by rw [List.length_drop]; omega) found
          simp only [delivery, rest, Option.map_some, List.length_append, List.length_take]
          congr 3
          omega
      | _ =>
        cases returned
        rfl

structure Written (B : Type) where
  out : List B
  script : List Answer
  done : Bool

def writeFull {B : Type} : List Answer → List B → Option (Written B)
  | script, [] => some ⟨[], script, true⟩
  | [], _ :: _ => none
  | .moved k :: script, b :: bytes =>
    (writeFull script (bytes.drop k)).map (fun w => { w with out := b :: bytes.take k ++ w.out })
  | _ :: script, _ :: _ => some ⟨[], script, false⟩

theorem writeFull_spec {bytes : List B} {w : Written B}
    (returned : writeFull script bytes = some w) :
    w.out <+: bytes ∧ (w.done = true → w.out = bytes) := by
  induction script generalizing bytes w with
  | nil =>
    cases bytes with
    | nil =>
      cases returned
      simp
    | cons b bytes => cases returned
  | cons answer script ih =>
    cases bytes with
    | nil =>
      cases returned
      simp
    | cons b bytes =>
      cases answer with
      | moved k =>
        obtain ⟨later, found, rfl⟩ := Option.map_eq_some_iff.mp returned
        obtain ⟨front, full⟩ := ih found
        constructor
        · have more := List.prefix_append_right_inj (bytes.take k) |>.mpr front
          rw [List.take_append_drop] at more
          exact List.cons_prefix_cons.mpr ⟨rfl, more⟩
        · intro done
          simp only [full done, List.cons_append, List.take_append_drop]
      | _ =>
        cases returned
        simp

def Moves (script : List Answer) : Prop := ∀ answer ∈ script, ∃ k, answer = .moved k

instance (script : List Answer) : Decidable (Moves script) :=
  decidable_of_iff (script.all (fun answer => match answer with
    | .moved _ => true
    | _ => false) = true) (by
      rw [List.all_eq_true]
      refine forall₂_congr fun answer _ => ?_
      cases answer <;> simp)

theorem Moves.tail {answer : Answer} {script : List Answer} (moves : Moves (answer :: script)) :
    Moves script :=
  fun a member => moves a (List.mem_cons_of_mem _ member)

/-- Every answer moves at least one byte, so that as many answers as bytes suffice. -/
theorem readFull_moves (moves : Moves script) (answers : want ≤ script.length)
    (enough : want ≤ stream.length) :
    ∃ rest, readFull script want stream = some ⟨stream.take want, stream.drop want, rest, .full⟩ ∧
      Moves rest ∧ script.length ≤ rest.length + want := by
  induction script generalizing want stream with
  | nil =>
    obtain rfl : want = 0 := Nat.le_zero.mp answers
    exact ⟨[], rfl, moves, Nat.le_refl _⟩
  | cons answer script ih =>
    cases want with
    | zero => exact ⟨answer :: script, rfl, moves, Nat.le_refl _⟩
    | succ want =>
      obtain ⟨k, rfl⟩ := moves answer List.mem_cons_self
      rw [List.length_cons] at answers
      have all : min (min (k + 1) (want + 1)) stream.length = min (k + 1) (want + 1) := by omega
      have some_ : stream.isEmpty = false := by
        rw [List.isEmpty_eq_false_iff, ← List.length_pos_iff]
        omega
      obtain ⟨rest, read, still, count⟩ : ∃ rest, readFull script
          (want + 1 - min (k + 1) (want + 1)) (stream.drop (min (k + 1) (want + 1))) = _ ∧ _ :=
        ih moves.tail (by omega) (by rw [List.length_drop]; omega)
      have sum : min (k + 1) (want + 1) + (want + 1 - min (k + 1) (want + 1)) = want + 1 := by
        omega
      refine ⟨rest, ?_, still, by rw [List.length_cons]; omega⟩
      simp only [readFull, all, some_, read, Option.map_some, Bool.false_eq_true, if_false]
      rw [← List.take_add, List.drop_drop, sum]

theorem writeFull_moves {bytes : List B} (moves : Moves script)
    (answers : bytes.length ≤ script.length) :
    ∃ rest, writeFull script bytes = some ⟨bytes, rest, true⟩ ∧ Moves rest ∧
      script.length ≤ rest.length + bytes.length := by
  induction script generalizing bytes with
  | nil =>
    obtain rfl : bytes = [] := List.length_eq_zero_iff.mp (Nat.le_zero.mp answers)
    exact ⟨[], rfl, moves, Nat.le_refl _⟩
  | cons answer script ih =>
    cases bytes with
    | nil => exact ⟨answer :: script, rfl, moves, Nat.le_refl _⟩
    | cons b bytes =>
      obtain ⟨k, rfl⟩ := moves answer List.mem_cons_self
      rw [List.length_cons, List.length_cons] at answers
      obtain ⟨rest, written, still, count⟩ : ∃ rest, writeFull script (bytes.drop k) = _ ∧ _ :=
        ih moves.tail (by rw [List.length_drop]; omega)
      rw [List.length_drop] at count
      refine ⟨rest, ?_, still, by rw [List.length_cons, List.length_cons]; omega⟩
      simp only [writeFull, written, Option.map_some, List.cons_append, List.take_append_drop]

end

/-- The four bytes of a length, most significant first. -/
def header (n : Nat) : List UInt8 :=
  [UInt8.ofNat (n / 2 ^ 24), UInt8.ofNat (n / 2 ^ 16), UInt8.ofNat (n / 2 ^ 8), UInt8.ofNat n]

def headerValue (bytes : List UInt8) : Nat := bytes.foldl (fun acc b => acc * 256 + b.toNat) 0

theorem headerValue_header (n : Nat) : headerValue (header n) = n % 2 ^ 32 := by
  simp only [headerValue, header, List.foldl_cons, List.foldl_nil, UInt8.toNat_ofNat']
  omega

def frame (body : List UInt8) : List UInt8 := header body.length ++ body

end Stream
