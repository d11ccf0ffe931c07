import Mathlib.Data.List.TakeWhile
import PizzaChain.Assets.Json

/-! # JSON text

A writer and a reader of compact JSON text, as `JSON.stringify` writes it and
`JSON.parse` reads it back, and the round trip between them.
-/

namespace PizzaChain.Assets.JsonText

/-! ## Writing -/

/-- A character inside a JSON string: quotes, backslashes and control
characters are escaped. -/
def escape (char : Char) : List Char :=
  if char = '"' then ['\\', '"']
  else if char = '\\' then ['\\', '\\']
  else if char = '\n' then ['\\', 'n']
  else if char = '\r' then ['\\', 'r']
  else if char = '\t' then ['\\', 't']
  else if char = '\x08' then ['\\', 'b']
  else if char = '\x0c' then ['\\', 'f']
  else if char.toNat < 32 then
    ['\\', 'u', '0', '0', Nat.digitChar (char.toNat / 16), Nat.digitChar (char.toNat % 16)]
  else [char]

def writeString (text : List Char) : List Char :=
  '"' :: (text.flatMap escape ++ ['"'])

mutual
def write : Json → List Char
  | .null => ['n', 'u', 'l', 'l']
  | .bool true => ['t', 'r', 'u', 'e']
  | .bool false => ['f', 'a', 'l', 's', 'e']
  | .number value => value.text
  | .string text => writeString text.toList
  | .array [] => ['[', ']']
  | .array (item :: items) => '[' :: (write item ++ writeItems items)
  | .object [] => ['\x7b', '\x7d']
  | .object ((name, value) :: fields) =>
      '\x7b' :: (writeString name.toList ++ ':' :: (write value ++ writeFields fields))

def writeItems : List Json → List Char
  | [] => [']']
  | item :: items => ',' :: (write item ++ writeItems items)

def writeFields : List (String × Json) → List Char
  | [] => ['\x7d']
  | (name, value) :: fields =>
      ',' :: (writeString name.toList ++ ':' :: (write value ++ writeFields fields))
end

/-! ## Reading -/

/-- The value of a lower-case hexadecimal digit. -/
def digitValue (char : Char) : Option Nat :=
  (List.range 16).find? fun value => Nat.digitChar value == char

/-- The rest of a string after its opening quote. -/
def readString : List Char → Option (List Char × List Char)
  | [] => none
  | '"' :: rest => some ([], rest)
  | '\\' :: 'u' :: '0' :: '0' :: high :: low :: rest =>
      match digitValue high, digitValue low, readString rest with
      | some high, some low, some (text, rest) => some (Char.ofNat (16 * high + low) :: text, rest)
      | _, _, _ => none
  | '\\' :: char :: rest =>
      let plain :=
        if char = 'n' then '\n'
        else if char = 'r' then '\r'
        else if char = 't' then '\t'
        else if char = 'b' then '\x08'
        else if char = 'f' then '\x0c'
        else char
      (readString rest).map fun result => (plain :: result.1, result.2)
  | char :: rest => (readString rest).map fun result => (char :: result.1, result.2)

/-- A number: the longest run of number characters, which must not be empty. -/
def readNumber (chars : List Char) : Option (Json × List Char) :=
  if nonempty : chars.takeWhile isNumberChar ≠ [] then
    some (.number ⟨chars.takeWhile isNumberChar, nonempty,
      fun _ member => List.mem_takeWhile_imp member⟩, chars.dropWhile isNumberChar)
  else
    none

/-- Read what is expected and keep the rest. -/
def expect (wanted : List Char) (value : Json) (chars : List Char) :
    Option (Json × List Char) :=
  if wanted = chars.take wanted.length then some (value, chars.drop wanted.length) else none

mutual
def readValue : (fuel : Nat) → List Char → Option (Json × List Char)
  | 0, _ => none
  | fuel + 1, chars =>
      match chars.head? with
      | some 'n' => expect ['n', 'u', 'l', 'l'] .null chars
      | some 't' => expect ['t', 'r', 'u', 'e'] (.bool true) chars
      | some 'f' => expect ['f', 'a', 'l', 's', 'e'] (.bool false) chars
      | some '"' =>
          (readString chars.tail).map fun result =>
            (.string (String.ofList result.1), result.2)
      | some '[' =>
          if chars.tail.head? = some ']' then
            some (.array [], chars.drop 2)
          else
            match readValue fuel chars.tail with
            | none => none
            | some (item, rest) =>
                (readItems fuel rest).map fun result => (.array (item :: result.1), result.2)
      | some '\x7b' =>
          if chars.tail.head? = some '\x7d' then
            some (.object [], chars.drop 2)
          else
            match readField fuel chars.tail with
            | none => none
            | some (field, rest) =>
                (readFields fuel rest).map fun result => (.object (field :: result.1), result.2)
      | _ => readNumber chars

def readItems : (fuel : Nat) → List Char → Option (List Json × List Char)
  | 0, _ => none
  | _ + 1, ']' :: rest => some ([], rest)
  | fuel + 1, ',' :: rest =>
      match readValue fuel rest with
      | none => none
      | some (item, rest) =>
          (readItems fuel rest).map fun result => (item :: result.1, result.2)
  | _ + 1, _ => none

def readField : (fuel : Nat) → List Char → Option ((String × Json) × List Char)
  | 0, _ => none
  | fuel + 1, '"' :: rest =>
      match readString rest with
      | some (name, ':' :: rest) =>
          (readValue fuel rest).map fun result => ((String.ofList name, result.1), result.2)
      | _ => none
  | _ + 1, _ => none

def readFields : (fuel : Nat) → List Char → Option (List (String × Json) × List Char)
  | 0, _ => none
  | _ + 1, '\x7d' :: rest => some ([], rest)
  | fuel + 1, ',' :: rest =>
      match readField fuel rest with
      | none => none
      | some (field, rest) =>
          (readFields fuel rest).map fun result => (field :: result.1, result.2)
  | _ + 1, _ => none
end

def stringify (value : Json) : String :=
  String.ofList (write value)

def parse (text : String) : Option Json :=
  match readValue (text.toList.length + 1) text.toList with
  | some (value, []) => some value
  | _ => none

/-! ## The round trip -/

theorem digitValue_digitChar {value : Nat} (small : value < 16) :
    digitValue (Nat.digitChar value) = some value := by
  have all : ∀ digit ∈ List.range 16, digitValue (Nat.digitChar digit) = some digit := by decide
  exact all value (List.mem_range.mpr small)

theorem readString_escape (char : Char) (rest : List Char) :
    readString (escape char ++ rest) =
      (readString rest).map fun result => (char :: result.1, result.2) := by
  unfold escape
  split
  · subst char; simp [readString]
  split
  · subst char; simp [readString]
  split
  · subst char; simp [readString]
  split
  · subst char; simp [readString]
  split
  · subst char; simp [readString]
  split
  · subst char; simp [readString]
  split
  · subst char; simp [readString]
  split
  · rename_i control
    have high := @digitValue_digitChar (char.toNat / 16) (by omega)
    have low := @digitValue_digitChar (char.toNat % 16) (by omega)
    have whole : Char.ofNat (16 * (char.toNat / 16) + char.toNat % 16) = char := by
      rw [Nat.div_add_mod]
      exact Char.ofNat_toNat char
    cases found : readString rest <;> simp [readString, high, low, found, whole]
  · rename_i notQuote notBackslash _ _ _ _ _ _
    rw [List.singleton_append, readString.eq_def]
    split <;> simp_all

theorem readString_flatMap_escape (text rest : List Char) :
    readString (text.flatMap escape ++ '"' :: rest) = some (text, rest) := by
  induction text with
  | nil => simp [readString]
  | cons char text induction =>
      rw [List.flatMap_cons, List.append_assoc, readString_escape, induction]
      rfl

/-- What may follow a number. -/
def EndsNumber (rest : List Char) : Prop :=
  ∀ char, rest.head? = some char → isNumberChar char = false

theorem readNumber_text (value : JsonNumber) (rest : List Char) (ends : EndsNumber rest) :
    readNumber (value.text ++ rest) = some (.number value, rest) := by
  have taken : rest.takeWhile isNumberChar = [] := by
    cases rest with
    | nil => rfl
    | cons char rest => simp [ends char rfl]
  have dropped : rest.dropWhile isNumberChar = rest := by
    cases rest with
    | nil => rfl
    | cons char rest => simp [ends char rfl]
  have text : (value.text ++ rest).takeWhile isNumberChar = value.text := by
    rw [List.takeWhile_append_of_pos value.numeric, taken, List.append_nil]
  have remaining : (value.text ++ rest).dropWhile isNumberChar = rest := by
    rw [List.dropWhile_append_of_pos value.numeric, dropped]
  rw [readNumber, dif_pos (by rw [text]; exact value.nonempty)]
  simp only [text, remaining]

/-- The first character of a number is none of those that announce another
kind of value. -/
theorem isNumberChar_ne {char : Char} (numeric : isNumberChar char = true) :
    char ≠ 'n' ∧ char ≠ 't' ∧ char ≠ 'f' ∧ char ≠ '"' ∧ char ≠ '[' ∧ char ≠ '\x7b' ∧
      char ≠ ']' := by
  refine ⟨?_, ?_, ?_, ?_, ?_, ?_, ?_⟩ <;> intro equal <;> subst equal <;> revert numeric <;> decide

theorem readValue_number (fuel : Nat) (value : JsonNumber) (rest : List Char)
    (ends : EndsNumber rest) :
    readValue (fuel + 1) (value.text ++ rest) = some (.number value, rest) := by
  rcases value with ⟨text, nonempty, numeric⟩
  cases text with
  | nil => exact absurd rfl nonempty
  | cons first text =>
      have read := readNumber_text ⟨first :: text, nonempty, numeric⟩ rest ends
      have others := isNumberChar_ne (numeric first List.mem_cons_self)
      rw [readValue]
      split <;> simp_all

/-- Written values do not start with a closing bracket. -/
theorem head_write_ne (value : Json) (rest : List Char) :
    (write value ++ rest).head? ≠ some ']' := by
  cases value with
  | null => simp [write]
  | bool value => cases value <;> simp [write]
  | number value =>
      rcases value with ⟨text, nonempty, numeric⟩
      cases text with
      | nil => exact absurd rfl nonempty
      | cons first text =>
          have others := isNumberChar_ne (numeric first List.mem_cons_self)
          simp [write, others]
  | string text => simp [write, writeString]
  | array items => cases items <;> simp [write]
  | object fields =>
      cases fields with
      | nil => simp [write]
      | cons field fields => simp [write]

theorem endsNumber_writeItems (items : List Json) (rest : List Char) :
    EndsNumber (writeItems items ++ rest) := by
  intro char head
  cases items <;> simp [writeItems] at head <;> subst head <;> decide

theorem endsNumber_writeFields (fields : List (String × Json)) (rest : List Char) :
    EndsNumber (writeFields fields ++ rest) := by
  intro char head
  cases fields <;> simp [writeFields] at head <;> subst head <;> decide

theorem length_write_pos (value : Json) : 0 < (write value).length := by
  cases value with
  | null => simp [write]
  | bool value => cases value <;> simp [write]
  | number value => exact List.length_pos_iff.mpr value.nonempty
  | string text => simp [write, writeString]
  | array items => cases items <;> simp [write]
  | object fields => cases fields <;> simp [write]

theorem readField_writeString {fuel : Nat} {name : String} {value : Json} {rest : List Char}
    (read : readValue fuel (write value ++ rest) = some (value, rest)) :
    readField (fuel + 1) (writeString name.toList ++ ':' :: (write value ++ rest)) =
      some ((name, value), rest) := by
  simp [writeString, readField, readString_flatMap_escape, read]

mutual
theorem readValue_write (value : Json) (fuel : Nat) (rest : List Char)
    (enough : (write value).length ≤ fuel) (ends : EndsNumber rest) :
    readValue fuel (write value ++ rest) = some (value, rest) := by
  have positive := length_write_pos value
  rcases fuel with _ | fuel
  · omega
  match value with
  | .null => simp [write, readValue, expect]
  | .bool true => simp [write, readValue, expect]
  | .bool false => simp [write, readValue, expect]
  | .number value => exact readValue_number fuel value rest ends
  | .string text =>
      simp [write, writeString, readValue, readString_flatMap_escape]
  | .array [] => simp [write, readValue]
  | .array (item :: items) =>
      simp only [write, List.length_cons, List.length_append] at enough
      have first := readValue_write item fuel (writeItems items ++ rest) (by omega)
        (endsNumber_writeItems items rest)
      have others := readItems_writeItems items fuel rest (by omega)
      have notEmpty := head_write_ne item (writeItems items ++ rest)
      simp only [write, List.cons_append, List.append_assoc, readValue, List.head?_cons,
        List.tail_cons, if_neg notEmpty, first, others, Option.map_some]
  | .object [] => simp [write, readValue]
  | .object ((name, value) :: fields) =>
      simp only [write, List.length_cons, List.length_append] at enough
      rcases fuel with _ | fuel
      · omega
      have read := readValue_write value fuel (writeFields fields ++ rest) (by omega)
        (endsNumber_writeFields fields rest)
      have first := @readField_writeString _ name _ _ read
      have others := readFields_writeFields fields (fuel + 1) rest (by omega)
      have notEmpty : (writeString name.toList ++
          ':' :: (write value ++ (writeFields fields ++ rest))).head? ≠ some '\x7d' := by
        simp [writeString]
      simp only [write, List.cons_append, List.append_assoc, readValue, List.head?_cons,
        List.tail_cons, if_neg notEmpty, first, others, Option.map_some]

theorem readItems_writeItems (items : List Json) (fuel : Nat) (rest : List Char)
    (enough : (writeItems items).length ≤ fuel) :
    readItems fuel (writeItems items ++ rest) = some (items, rest) := by
  match items with
  | [] =>
      rcases fuel with _ | fuel
      · simp [writeItems] at enough
      simp [writeItems, readItems]
  | item :: items =>
      simp only [writeItems, List.length_cons, List.length_append] at enough
      rcases fuel with _ | fuel
      · omega
      have first := readValue_write item fuel (writeItems items ++ rest) (by omega)
        (endsNumber_writeItems items rest)
      have others := readItems_writeItems items fuel rest (by omega)
      simp [writeItems, readItems, first, others]

theorem readFields_writeFields (fields : List (String × Json)) (fuel : Nat) (rest : List Char)
    (enough : (writeFields fields).length ≤ fuel) :
    readFields fuel (writeFields fields ++ rest) = some (fields, rest) := by
  match fields with
  | [] =>
      rcases fuel with _ | fuel
      · simp [writeFields] at enough
      simp [writeFields, readFields]
  | (name, value) :: fields =>
      simp only [writeFields, List.length_cons, List.length_append] at enough
      rcases fuel with _ | _ | fuel
      · omega
      · omega
      have read := readValue_write value fuel (writeFields fields ++ rest) (by omega)
        (endsNumber_writeFields fields rest)
      have first := @readField_writeString _ name _ _ read
      have others := readFields_writeFields fields (fuel + 1) rest (by omega)
      simp [writeFields, readFields, first, others]
end

/-- Reading what was written gives the value back. -/
theorem parse_stringify (value : Json) : parse (stringify value) = some value := by
  have read := readValue_write value ((write value).length + 1) [] (Nat.le_succ _)
    (fun _ head => by simp at head)
  rw [List.append_nil] at read
  simp [parse, stringify, read]

end PizzaChain.Assets.JsonText
