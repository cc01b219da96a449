import Mathlib.Data.List.Basic
import Mathlib.Data.String.Basic

/-! JSON texts as an encoder writes them that leaves out all blanks and also escapes what
has a meaning in HTML, and the number of their bytes. A value is given by its text. -/
namespace Json

def shortEscape : Nat → Option UInt8
  | 0x22 => some 0x22
  | 0x5C => some 0x5C
  | 0x08 => some 0x62
  | 0x0C => some 0x66
  | 0x0A => some 0x6E
  | 0x0D => some 0x72
  | 0x09 => some 0x74
  | _ => none

/-- Other control characters, the three of HTML, and two that end a line elsewhere. -/
def unicodeEscaped (code : Nat) : Bool :=
  code < 0x20 || code = 0x3C || code = 0x3E || code = 0x26 || code = 0x2028 || code = 0x2029

def hexDigit (n : Nat) : UInt8 := UInt8.ofNat ("0123456789abcdef".toList.getD (n % 16) '0').toNat

def escape (c : Char) : List UInt8 :=
  match shortEscape c.toNat with
  | some letter => [0x5C, letter]
  | none =>
    if unicodeEscaped c.toNat then
      [0x5C, 0x75, hexDigit (c.toNat / 4096), hexDigit (c.toNat / 256), hexDigit (c.toNat / 16),
        hexDigit c.toNat]
    else String.utf8EncodeChar c

def string (s : String) : List UInt8 := 0x22 :: (s.toList.flatMap escape ++ [0x22])

def int (n : Int) : List UInt8 := (toString n).toList.map (fun c => UInt8.ofNat c.toNat)

def array (items : List (List UInt8)) : List UInt8 :=
  0x5B :: ([0x2C].intercalate items ++ [0x5D])

def field (f : String × List UInt8) : List UInt8 := string f.1 ++ 0x3A :: f.2

def object (fields : List (String × List UInt8)) : List UInt8 :=
  0x7B :: ([0x2C].intercalate (fields.map field) ++ [0x7D])

/-! The number of bytes. -/

def escapedSize (c : Char) : Nat :=
  if (shortEscape c.toNat).isSome then 2 else if unicodeEscaped c.toNat then 6 else c.utf8Size

def stringSize (s : String) : Nat := 2 + s.toList.foldr (fun c n => escapedSize c + n) 0

def intSize (n : Int) : Nat := (toString n).length

def spaced (items : List (List UInt8)) : Nat := items.foldr (fun item n => item.length + 1 + n) 0

def listSize {α : Type} (size : α → Nat) : List α → Nat
  | [] => 2
  | items => 1 + items.foldr (fun item n => size item + 1 + n) 0

theorem length_escape (c : Char) : (escape c).length = escapedSize c := by
  unfold escape escapedSize
  split
  · rename_i letter short
    simp [short]
  · rename_i none
    simp only [none, Option.isSome_none, Bool.false_eq_true, if_false]
    split
    · rfl
    · exact String.length_utf8EncodeChar c

@[simp] theorem length_string (s : String) : (string s).length = stringSize s := by
  have body : ∀ cs : List Char,
      (cs.flatMap escape).length = cs.foldr (fun c n => escapedSize c + n) 0 := by
    intro cs
    induction cs with
    | nil => rfl
    | cons c cs ih => rw [List.flatMap_cons, List.length_append, length_escape, ih, List.foldr_cons]
  rw [string, List.length_cons, List.length_append, body, stringSize, List.length_singleton]
  omega

@[simp] theorem length_int (n : Int) : (int n).length = intSize n := by
  rw [int, List.length_map, intSize, String.length_toList]

theorem length_intercalate (item : List UInt8) (items : List (List UInt8)) :
    ([0x2C].intercalate (item :: items)).length + 1 = spaced (item :: items) := by
  induction items generalizing item with
  | nil => simp [spaced, List.intercalate]
  | cons next items ih =>
    have rest := ih next
    rw [List.intercalate_cons_cons, List.length_append, List.length_append, List.length_singleton]
    simp only [spaced, List.foldr_cons] at rest ⊢
    omega

theorem length_array (items : List (List UInt8)) :
    (array items).length = if items = [] then 2 else 1 + spaced items := by
  cases items with
  | nil => rfl
  | cons item items =>
    have inner := length_intercalate item items
    rw [if_neg (List.cons_ne_nil _ _), array, List.length_cons, List.length_append,
      List.length_singleton]
    omega

theorem spaced_append (items more : List (List UInt8)) :
    spaced (items ++ more) = spaced items + spaced more := by
  induction items with
  | nil => simp [spaced]
  | cons item items ih =>
    simp only [spaced, List.cons_append, List.foldr_cons] at ih ⊢
    omega

theorem length_array_map {α : Type} {text : α → List UInt8} {size : α → Nat}
    (sized : ∀ item, (text item).length = size item) (items : List α) :
    (array (items.map text)).length = listSize size items := by
  have total : ∀ items : List α, spaced (items.map text) =
      items.foldr (fun item n => size item + 1 + n) 0 := by
    intro items
    induction items with
    | nil => rfl
    | cons item items ih =>
      rw [List.map_cons, List.foldr_cons, ← ih, ← sized item]
      rfl
  cases items with
  | nil => rfl
  | cons item items =>
    rw [length_array, if_neg (by simp), total]
    rfl

theorem length_object (f : String × List UInt8) (fields : List (String × List UInt8)) :
    (object (f :: fields)).length = 1 + spaced ((f :: fields).map field) := by
  have inner := length_intercalate (field f) (fields.map field)
  rw [object, List.length_cons, List.length_append, List.length_singleton, List.map_cons]
  omega

@[simp] theorem spaced_nil : spaced [] = 0 := rfl

@[simp] theorem spaced_field (key : String) (value : List UInt8) (rest : List (List UInt8)) :
    spaced (field (key, value) :: rest) = stringSize key + 2 + value.length + spaced rest := by
  simp only [spaced, List.foldr_cons, field, List.length_append, List.length_cons, length_string]
  omega

end Json
