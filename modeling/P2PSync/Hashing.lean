import P2PSync.Library.Digest
import P2PSync.Protocol

/-! The hash of a file, which three functions compute: the daemon in blocks with a digit
stream, the coordinator's scan in whatever pieces the reads return, and the coordinator
in one go. -/
namespace P2PSync

open Digest (Hash)

structure OpenedFile where
  data : Content
  failsAt : Option Nat
  deriving DecidableEq

def OpenedFile.readable (f : OpenedFile) : Content :=
  match f.failsAt with
  | none => f.data
  | some place => f.data.take place

/-- std::hex with a width of two and zeros in front. -/
def streamByte (b : UInt8) : List Char :=
  let digits := Nat.toDigits 16 b.toNat
  List.replicate (2 - digits.length) '0' ++ digits

def blockSize : Nat := 4096

/-- The loop over file.read ends with the first block that is not full, for whatever
reason, and takes what is in that block. -/
def sha256Loop (h : Hash) (state : h.State) (rest : Content) : h.State :=
  if blockSize ≤ rest.length then
    sha256Loop h (h.update state (rest.take blockSize)) (rest.drop blockSize)
  else h.update state rest
termination_by rest.length
decreasing_by
  simp only [blockSize, List.length_drop] at *
  omega

/-- The daemon's function; none is a file that could not be opened. -/
def sha256File (h : Hash) : Option OpenedFile → Option String
  | none => none
  | some f => some (String.ofList ((h.output (sha256Loop h h.init f.readable)).flatMap streamByte))

def computeFileSHA256 (h : Hash) (reads : List Content) (failed : Bool) : Option String :=
  if failed then none else some (Digest.hex (h.output (reads.foldl h.update h.init)))

def sum256Text (h : Hash) (data : Content) : String := Digest.hex (h.sum data)

theorem streamByte_eq (b : UInt8) : streamByte b = Digest.byteDigits b := by
  have all : ∀ n < 256, streamByte (UInt8.ofNat n) = Digest.byteDigits (UInt8.ofNat n) := by
    decide +kernel
  have own := all b.toNat b.toNat_lt
  rwa [UInt8.ofNat_toNat] at own

theorem sha256Loop_eq (h : Hash) (state : h.State) (rest : Content) :
    sha256Loop h state rest = h.update state rest := by
  induction state, rest using sha256Loop.induct h with
  | case1 state rest full ih =>
    rw [sha256Loop, if_pos full, ih, ← Hash.update_append, List.take_append_drop]
  | case2 state rest short => rw [sha256Loop, if_neg short]

/-- The daemon has no error for a read that fails: it returns the hash of what came before. -/
theorem sha256File_eq (h : Hash) (f : OpenedFile) :
    sha256File h (some f) = some (sum256Text h f.readable) := by
  have digits : ∀ bytes : List UInt8, bytes.flatMap streamByte = bytes.flatMap Digest.byteDigits :=
    fun bytes => List.flatMap_congr (fun b _ => streamByte_eq b)
  rw [sha256File, sha256Loop_eq, digits]
  rfl

/-- For every file that can be read to its end, in whatever pieces, the three functions
return the same text. Where reading fails, the scan returns an error and the daemon the
text of a shorter file. -/
theorem file_hashes_agree (h : Hash) (f : OpenedFile) (reads : List Content)
    (pieces : reads.flatten = f.readable) : (f.failsAt = none →
      sha256File h (some f) = some (sum256Text h f.data) ∧
      computeFileSHA256 h reads false = some (sum256Text h f.data)) ∧
    (∀ place, f.failsAt = some place →
      sha256File h (some f) = some (sum256Text h (f.data.take place)) ∧
      computeFileSHA256 h reads true = none) ∧
    ∀ other, sum256Text h f.data = sum256Text h other ↔ h.sum f.data = h.sum other := by
  have loop := sha256File_eq h f
  refine ⟨fun whole => ?_, fun place fails => ?_, fun other => ?_⟩
  · have all : f.readable = f.data := by rw [OpenedFile.readable, whole]
    rw [all] at loop pieces
    refine ⟨loop, ?_⟩
    rw [computeFileSHA256, if_neg Bool.false_ne_true, Hash.update_flatten, pieces]
    rfl
  · have cut : f.readable = f.data.take place := by rw [OpenedFile.readable, fails]
    rw [cut] at loop
    exact ⟨loop, rfl⟩
  · constructor
    · exact Digest.hex_inj
    · intro same
      rw [sum256Text, same, sum256Text]

def sumHash : Hash := ⟨UInt8 × UInt8, (0, 0), fun s b => (s.1 + b, s.2 + 1), fun s => [s.1, s.2]⟩

theorem file_hashes_agree_twoReads : sha256File sumHash (some ⟨[10, 20, 250], none⟩) = some "1803" ∧
      computeFileSHA256 sumHash [[10], [20, 250]] false = some "1803" := by
  have agree := (file_hashes_agree sumHash ⟨[10, 20, 250], none⟩ [[10], [20, 250]] rfl).1 rfl
  have text : sum256Text sumHash [10, 20, 250] = "1803" := by decide
  rw [text] at agree
  exact agree

end P2PSync
