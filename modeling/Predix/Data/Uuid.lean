import Mathlib.Algebra.Ring.Nat
import Mathlib.Data.List.Basic

namespace Predix.Data

/-! UUIDs and their texts. -/

structure UUID where
  digits : List (Fin 16)
  complete : digits.length = 32
  deriving DecidableEq, Repr

def hexChar (digit : Fin 16) : Char :=
  ['0', '1', '2', '3', '4', '5', '6', '7', '8', '9', 'a', 'b', 'c', 'd', 'e',
    'f'].get digit

def hexValue? (char : Char) : Option (Fin 16) :=
  (List.finRange 16).find? fun digit => hexChar digit = char.toLower

private theorem hexValue?_hexChar (digit : Fin 16) :
    hexValue? (hexChar digit) = some digit := by
  revert digit
  decide

private theorem hexChar_ascii (digit : Fin 16) :
    (hexChar digit).toNat < 128 := by
  revert digit
  decide

/-! Texts in groups. -/

/-- The text in groups of the given sizes; the last group takes what is
left. -/
def hyphenate : List Nat → List Char → List Char
  | [], chars => chars
  | size :: sizes, chars =>
      chars.take size ++ '-' :: hyphenate sizes (chars.drop size)

def dehyphenate : List Nat → List Char → Option (List Char)
  | [], chars => some chars
  | size :: sizes, chars =>
      match chars.drop size with
      | '-' :: rest => (dehyphenate sizes rest).map (chars.take size ++ ·)
      | _ => none

theorem dehyphenate_hyphenate {sizes : List Nat} {chars : List Char}
    (enough : sizes.sum ≤ chars.length) :
    dehyphenate sizes (hyphenate sizes chars) = some chars := by
  induction sizes generalizing chars with
  | nil => rfl
  | cons size sizes induction =>
      rw [List.sum_cons] at enough
      have taken : (chars.take size).length = size :=
        List.length_take_of_le (by omega)
      have rest : sizes.sum ≤ (chars.drop size).length := by
        rw [List.length_drop]
        omega
      simp only [hyphenate, dehyphenate, List.drop_left' taken,
        List.take_left' taken, induction rest, Option.map_some,
        List.take_append_drop]

theorem length_hyphenate {sizes : List Nat} {chars : List Char}
    (enough : sizes.sum ≤ chars.length) :
    (hyphenate sizes chars).length = chars.length + sizes.length := by
  induction sizes generalizing chars with
  | nil => rfl
  | cons size sizes induction =>
      rw [List.sum_cons] at enough
      have rest : sizes.sum ≤ (chars.drop size).length := by
        rw [List.length_drop]
        omega
      simp only [hyphenate, List.length_append, List.length_cons,
        induction rest, List.length_take, List.length_drop]
      omega

theorem mem_hyphenate {sizes : List Nat} {chars : List Char} {char : Char}
    (member : char ∈ hyphenate sizes chars) : char ∈ chars ∨ char = '-' := by
  induction sizes generalizing chars with
  | nil => exact .inl member
  | cons size sizes induction =>
      rcases List.mem_append.mp member with taken | rest
      · exact .inl (List.mem_of_mem_take taken)
      · rcases List.mem_cons.mp rest with hyphen | later
        · exact .inr hyphen
        · rcases induction later with dropped | hyphen
          · exact .inl (List.mem_of_mem_drop dropped)
          · exact .inr hyphen

/-! Writing and reading. -/

namespace UUID

def groups : List Nat := [8, 4, 4, 4]

def text (uuid : UUID) : String :=
  String.ofList (hyphenate groups (uuid.digits.map hexChar))

def ofHex (chars : List Char) : Option UUID :=
  match chars.mapM hexValue? with
  | none => none
  | some digits =>
      if complete : digits.length = 32 then some ⟨digits, complete⟩ else none

def ofGroups (chars : List Char) : Option UUID :=
  (dehyphenate groups chars).bind ofHex

/-- The standard text, the same after `urn:uuid:` or between two characters
that are not looked at, or the digits alone. -/
def read (text : String) : Option UUID :=
  let chars := text.toList
  if chars.all fun char => char.toNat < 128 then
    if chars.length = 36 then
      ofGroups chars
    else if chars.length = 45 then
      if (chars.take 9).map Char.toLower = "urn:uuid:".toList then
        ofGroups (chars.drop 9)
      else
        none
    else if chars.length = 38 then
      ofGroups ((chars.drop 1).take 36)
    else if chars.length = 32 then
      ofHex chars
    else
      none
  else
    -- no character of these forms takes more than one byte
    none

private theorem ofHex_digits (uuid : UUID) :
    ofHex (uuid.digits.map hexChar) = some uuid := by
  have read : (uuid.digits.map hexChar).mapM hexValue? =
      some uuid.digits := by
    generalize uuid.digits = digits
    induction digits with
    | nil => rfl
    | cons digit digits induction =>
        simp only [List.map_cons, List.mapM_cons, hexValue?_hexChar, induction]
        rfl
  simp only [ofHex, read, uuid.complete, dif_pos]

theorem read_text (uuid : UUID) : read uuid.text = some uuid := by
  have enough : groups.sum ≤ (uuid.digits.map hexChar).length := by
    rw [List.length_map, uuid.complete]
    decide
  have length : (hyphenate groups (uuid.digits.map hexChar)).length = 36 := by
    rw [length_hyphenate enough, List.length_map, uuid.complete]
    rfl
  have ascii : (hyphenate groups (uuid.digits.map hexChar)).all
      (fun char => char.toNat < 128) = true := by
    rw [List.all_eq_true]
    intro char member
    rw [decide_eq_true_iff]
    rcases mem_hyphenate member with digit | rfl
    · obtain ⟨value, _, rfl⟩ := List.mem_map.mp digit
      exact hexChar_ascii value
    · decide
  unfold read text
  simp only [String.toList_ofList]
  rw [if_pos ascii, if_pos length, ofGroups, dehyphenate_hyphenate enough]
  exact ofHex_digits uuid

theorem text_injective {left right : UUID} (same : left.text = right.text) :
    left = right := by
  have known := read_text left
  rw [same, read_text right] at known
  exact (Option.some.inj known).symm

theorem text_ne_empty (uuid : UUID) : uuid.text ≠ "" := by
  intro empty
  have known := read_text uuid
  rw [empty] at known
  cases known

/-- A library that reads UUIDs: the canonical texts, and not the empty one. -/
class Parser where
  parse : String → Option UUID
  parse_text : ∀ uuid, parse uuid.text = some uuid
  parse_empty : parse "" = none

abbrev parse [Parser] : String → Option UUID := Parser.parse

@[simp] theorem parse_text [Parser] (uuid : UUID) :
    parse uuid.text = some uuid :=
  Parser.parse_text uuid

theorem parse_ne_empty [Parser] {text : String} {uuid : UUID}
    (parsed : parse text = some uuid) : text ≠ "" := by
  rintro rfl
  rw [parse, Parser.parse_empty] at parsed
  contradiction

/-- The texts that `uuid.Parse` documents. -/
instance documented : Parser := ⟨read, read_text, rfl⟩

end UUID

def Canonical (text : String) : Prop :=
  (UUID.read text).map UUID.text = some text

instance (text : String) : Decidable (Canonical text) :=
  inferInstanceAs (Decidable (_ = _))

theorem canonical_text (uuid : UUID) : Canonical uuid.text :=
  congrArg (Option.map UUID.text) uuid.read_text

theorem Canonical.exists [UUID.Parser] {text : String}
    (canonical : Canonical text) :
    ∃ uuid, UUID.parse text = some uuid ∧ uuid.text = text := by
  obtain ⟨uuid, _, rfl⟩ := Option.map_eq_some_iff.mp canonical
  exact ⟨uuid, UUID.parse_text uuid, rfl⟩

end Predix.Data
