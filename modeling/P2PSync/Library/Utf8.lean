import Mathlib.Data.List.Infix

/-! Texts as UTF-8 bytes. Every text can be written as bytes and read back. A byte below
128 stands for a character of its own and is part of no other one, so that such
characters can be looked for among the bytes. -/
namespace Utf8

def bytes (cs : List Char) : List UInt8 := cs.flatMap String.utf8EncodeChar

def encode (text : String) : List UInt8 := bytes text.toList

def decode (raw : List UInt8) : Option String := String.fromUTF8? raw.toByteArray

theorem bytes_nil : bytes [] = [] := rfl

theorem bytes_cons (c : Char) (cs : List Char) :
    bytes (c :: cs) = String.utf8EncodeChar c ++ bytes cs := rfl

theorem toByteArray_encode (text : String) : (encode text).toByteArray = text.toByteArray := by
  rw [encode, bytes, ← List.utf8Encode, ← String.toByteArray_ofList, String.ofList_toList]

theorem decode_eq_some {raw : List UInt8} {text : String} :
    decode raw = some text ↔ encode text = raw := by
  unfold decode String.fromUTF8?
  constructor
  · intro found
    split at found
    · rename_i valid
      cases Option.some.inj found
      have same : (encode (String.fromUTF8 raw.toByteArray valid)).toByteArray = raw.toByteArray :=
        toByteArray_encode _
      simpa using congrArg (fun a => a.data.toList) same
    · cases found
  · rintro rfl
    have valid : (encode text).toByteArray.IsValidUTF8 := by
      rw [toByteArray_encode]
      exact text.isValidUTF8
    rw [dif_pos valid, Option.some.injEq, ← String.toByteArray_inj, ← toByteArray_encode text]
    rfl

theorem bytes_inj {cs ds : List Char} : bytes cs = bytes ds ↔ cs = ds := by
  constructor
  · intro same
    have texts : String.ofList cs = String.ofList ds := by
      rw [← String.toByteArray_inj, ← toByteArray_encode, ← toByteArray_encode, encode, encode,
        String.toList_ofList, String.toList_ofList, same]
    simpa using congrArg String.toList texts
  · rintro rfl
    rfl

/-! Characters of one byte. -/

def Ascii (c : Char) : Prop := c.toNat < 128

instance (c : Char) : Decidable (Ascii c) := inferInstanceAs (Decidable (_ < _))

def byte (c : Char) : UInt8 := UInt8.ofNat c.toNat

theorem toNat_byte {c : Char} (ascii : Ascii c) : (byte c).toNat = c.toNat := by
  rw [byte, UInt8.toNat_ofNat']
  exact Nat.mod_eq_of_lt (lt_trans ascii (by decide))

theorem encodeChar_ascii {c : Char} (ascii : Ascii c) : String.utf8EncodeChar c = [byte c] :=
  if_pos (Nat.le_of_lt_succ ascii)

theorem encodeChar_high {c : Char} (high : ¬ Ascii c) :
    ∀ b ∈ String.utf8EncodeChar c, 128 ≤ b.toNat := by
  have first : ¬ c.val.toNat ≤ 0x7f := fun low => high (Nat.lt_succ_of_le low)
  intro b member
  simp only [String.utf8EncodeChar, if_neg first] at member
  split_ifs at member <;> simp only [List.mem_cons, List.not_mem_nil, or_false] at member <;>
    rcases member with rfl | rfl | rfl | rfl <;> simp only [UInt8.toNat_ofNat'] <;> omega

theorem byte_injective {c d : Char} (first : Ascii c) (second : Ascii d) :
    byte c = byte d ↔ c = d := by
  constructor
  · intro same
    have number := congrArg UInt8.toNat same
    rw [toNat_byte first, toNat_byte second] at number
    exact Char.toNat_inj.mp number
  · rintro rfl
    rfl

/-! Looking for them. -/

section Search

variable {t : List Char} (ascii : ∀ c ∈ t, Ascii c)
include ascii

theorem low_bytes {b : UInt8} (member : b ∈ bytes t) : b.toNat < 128 := by
  obtain ⟨c, inside, here⟩ := List.mem_flatMap.mp member
  rw [encodeChar_ascii (ascii c inside)] at here
  rw [List.mem_singleton.mp here, toNat_byte (ascii c inside)]
  exact ascii c inside

theorem not_prefix_high (some_ : t ≠ []) {b : UInt8} (high : 128 ≤ b.toNat) (v : List UInt8) :
    ¬ bytes t <+: b :: v := by
  obtain ⟨a, rest, rfl⟩ := List.exists_cons_of_ne_nil some_
  have first := ascii a List.mem_cons_self
  rw [bytes_cons, encodeChar_ascii first, List.singleton_append, List.cons_prefix_cons]
  rintro ⟨rfl, -⟩
  rw [toNat_byte first] at high
  exact absurd first (not_lt.mpr high)

theorem prefix_bytes {cs : List Char} : bytes t <+: bytes cs ↔ t <+: cs := by
  induction t generalizing cs with
  | nil => simp [bytes]
  | cons a t ih =>
    obtain ⟨first, rest⟩ := List.forall_mem_cons.mp ascii
    cases cs with
    | nil => simp [bytes_cons, bytes_nil, encodeChar_ascii first]
    | cons c cs =>
      by_cases one : Ascii c
      · rw [bytes_cons, bytes_cons, encodeChar_ascii first, encodeChar_ascii one,
          List.singleton_append, List.singleton_append, List.cons_prefix_cons,
          List.cons_prefix_cons, ih rest, byte_injective first one]
      · obtain ⟨b, later, split⟩ := List.exists_cons_of_ne_nil (String.utf8EncodeChar_ne_nil (c := c))
        have high := encodeChar_high one b (split ▸ List.mem_cons_self)
        refine iff_of_false ?_ ?_
        · rw [bytes_cons c cs, split, List.cons_append]
          exact not_prefix_high ascii (List.cons_ne_nil _ _) high _
        · intro whole
          exact one ((List.cons_prefix_cons.mp whole).1 ▸ first)

theorem suffix_high {u v : List UInt8} (high : ∀ b ∈ u, 128 ≤ b.toNat) :
    bytes t <:+ u ++ v ↔ bytes t <:+ v := by
  induction u with
  | nil => rfl
  | cons b u ih =>
    obtain ⟨first, rest⟩ := List.forall_mem_cons.mp high
    rw [List.cons_append, List.suffix_cons_iff, ih rest]
    refine or_iff_right fun whole => ?_
    exact absurd (low_bytes ascii (whole ▸ List.mem_cons_self)) (not_lt.mpr first)

theorem suffix_bytes {cs : List Char} : bytes t <:+ bytes cs ↔ t <:+ cs := by
  induction cs with
  | nil => rw [bytes_nil, List.suffix_nil, List.suffix_nil, ← bytes_inj, bytes_nil]
  | cons c cs ih =>
    rw [bytes_cons, List.suffix_cons_iff, ← ih]
    by_cases one : Ascii c
    · have whole : bytes t = byte c :: bytes cs ↔ t = c :: cs := by
        rw [← bytes_inj, bytes_cons, encodeChar_ascii one, List.singleton_append]
      rw [encodeChar_ascii one, List.singleton_append, List.suffix_cons_iff, whole]
    · rw [suffix_high ascii (encodeChar_high one)]
      refine (or_iff_right fun whole => ?_).symm
      exact one (ascii c (whole ▸ List.mem_cons_self))

theorem infix_high (some_ : t ≠ []) {u v : List UInt8} (high : ∀ b ∈ u, 128 ≤ b.toNat) :
    bytes t <:+: u ++ v ↔ bytes t <:+: v := by
  induction u with
  | nil => rfl
  | cons b u ih =>
    obtain ⟨first, rest⟩ := List.forall_mem_cons.mp high
    rw [List.cons_append, List.infix_cons_iff, ih rest]
    exact or_iff_right (not_prefix_high ascii some_ first _)

theorem infix_bytes (some_ : t ≠ []) {cs : List Char} : bytes t <:+: bytes cs ↔ t <:+: cs := by
  induction cs with
  | nil => rw [bytes_nil, List.infix_nil, List.infix_nil, ← bytes_inj, bytes_nil]
  | cons c cs ih =>
    have front : t <+: c :: cs ↔ bytes t <+: bytes (c :: cs) := (prefix_bytes ascii).symm
    rw [List.infix_cons_iff, front, ← ih, bytes_cons]
    by_cases one : Ascii c
    · rw [encodeChar_ascii one, List.singleton_append, List.infix_cons_iff]
    · obtain ⟨b, more, first⟩ := List.exists_cons_of_ne_nil (String.utf8EncodeChar_ne_nil (c := c))
      have high := encodeChar_high one b (first ▸ List.mem_cons_self)
      rw [infix_high ascii some_ (encodeChar_high one), first, List.cons_append]
      exact (or_iff_right (not_prefix_high ascii some_ high _)).symm

end Search

theorem head_bytes {c : Char} (ascii : Ascii c) (cs : List Char) :
    (bytes cs).head? = some (byte c) ↔ cs.head? = some c := by
  have single : bytes [c] <+: bytes cs ↔ [c] <+: cs := prefix_bytes (by simpa using ascii)
  have front : ∀ {α : Type} (x : α) (l : List α), [x] <+: l ↔ l.head? = some x := by
    intro α x l
    cases l with
    | nil => simp
    | cons y l => simp [List.cons_prefix_cons, eq_comm]
  rwa [bytes_cons, encodeChar_ascii ascii, bytes, List.flatMap_nil, List.append_nil, front,
    front] at single

theorem map_bytes {c d : Char} (first : Ascii c) (second : Ascii d) (cs : List Char) :
    (bytes cs).map (fun b => if b = byte c then byte d else b) =
      bytes (cs.map fun a => if a = c then d else a) := by
  induction cs with
  | nil => rfl
  | cons a cs ih =>
    rw [bytes_cons, List.map_append, ih, List.map_cons, bytes_cons]
    congr 1
    by_cases same : a = c
    · subst same
      rw [encodeChar_ascii first, if_pos rfl, encodeChar_ascii second]
      simp
    · rw [if_neg same]
      by_cases one : Ascii a
      · rw [encodeChar_ascii one]
        simp [byte_injective one first, same]
      · have other : ∀ b ∈ String.utf8EncodeChar a, (if b = byte c then byte d else b) = b := by
          intro b member
          refine if_neg ?_
          rintro rfl
          have high := encodeChar_high one _ member
          rw [toNat_byte first] at high
          exact absurd first (not_lt.mpr high)
        rw [List.map_congr_left other, List.map_id']

end Utf8
