import Mathlib.Data.List.Basic

/-! # JSON values

The values that descriptions, assets and request bodies are made of. Objects
keep the order of their fields, which `JSON.stringify` writes out.
-/

namespace PizzaChain.Assets

/-- The characters of a number in JSON text. -/
def isNumberChar (char : Char) : Bool :=
  char.isDigit || char == '-' || char == '+' || char == '.' || char == 'e' || char == 'E'

/-- A JavaScript number, as the decimal text that `JSON.stringify` gives it. -/
structure JsonNumber where
  text : List Char
  nonempty : text ≠ []
  numeric : ∀ char ∈ text, isNumberChar char = true

inductive Json
  | null
  | bool (value : Bool)
  | number (value : JsonNumber)
  | string (text : String)
  | array (items : List Json)
  | object (fields : List (String × Json))

abbrev Fields := List (String × Json)

/-- What every object inherits from `Object.prototype`. -/
def inheritedNames : List String :=
  ["constructor", "hasOwnProperty", "isPrototypeOf", "propertyIsEnumerable", "toLocaleString",
    "toString", "valueOf", "__proto__", "__defineGetter__", "__defineSetter__",
    "__lookupGetter__", "__lookupSetter__"]

namespace Json

/-- `value[name]` of an object; the last field of a name counts. -/
def field (name : String) : Json → Option Json
  | .object fields => (fields.reverse.find? fun field => field.1 == name).map Prod.snd
  | _ => none

/-- `value[index]` of an array. -/
def item (index : Nat) : Json → Option Json
  | .array items => items[index]?
  | _ => none

/-- The texts of an array of strings. -/
def strings : Json → Option (List String)
  | .array items => items.mapM fun
      | .string text => some text
      | _ => none
  | _ => none

def fields : Json → Option Fields
  | .object fields => some fields
  | _ => none

mutual

/-- The value in a text. An object whose own field hides the inherited `toString` has none. -/
def asText : Json → Option String
  | .null => some "null"
  | .bool value => some (toString value)
  | .number value => some (String.ofList value.text)
  | .string text => some text
  | .array items => (itemTexts items).map (String.intercalate ",")
  | .object fields =>
      if fields.any fun field => field.1 == "toString" then none else some "[object Object]"

/-- What `join` puts together: the texts of the items, and nothing for `null`. -/
def itemTexts : List Json → Option (List String)
  | [] => some []
  | .null :: items => (itemTexts items).map ("" :: ·)
  | item :: items => do
      let text ← asText item
      return text :: (← itemTexts items)

end

/-- The number of a field whose name is an array index. -/
def arrayIndex (name : String) : Option Nat :=
  let index := Nat.ofDigitChars 10 name.toList 0
  if Nat.toDigits 10 index = name.toList ∧ index < 4294967295 then some index else none

/-- Whether an object can have a field of the first name before one of the second: the
array indices stand in front, in their order, and no name comes twice. -/
def inOrder (first second : String) : Bool :=
  match arrayIndex first, arrayIndex second with
  | some index, some later => index < later
  | some _, none => true
  | none, some _ => false
  | none, none => first != second

/-- The values that JavaScript has, given its numbers. -/
inductive WellFormed (numeral : JsonNumber → Prop) : Json → Prop
  | null : WellFormed numeral .null
  | bool (value : Bool) : WellFormed numeral (.bool value)
  | number {value : JsonNumber} (canonical : numeral value) : WellFormed numeral (.number value)
  | string (text : String) : WellFormed numeral (.string text)
  | array {items : List Json} (values : ∀ item ∈ items, WellFormed numeral item) :
      WellFormed numeral (.array items)
  | object {fields : Fields} (ordered : (fields.map Prod.fst).Pairwise (inOrder · ·))
      (values : ∀ field ∈ fields, WellFormed numeral field.2) : WellFormed numeral (.object fields)

theorem wellFormed_array_map_string (numeral : JsonNumber → Prop) (texts : List String) :
    (Json.array (texts.map .string)).WellFormed numeral := by
  apply WellFormed.array
  intro item member
  rcases List.mem_map.mp member with ⟨text, _, rfl⟩
  exact .string text

theorem wellFormed_object_string (numeral : JsonNumber → Prop) (name text : String) :
    (Json.object [(name, .string text)]).WellFormed numeral := by
  refine .object (List.pairwise_singleton _ _) ?_
  intro field member
  rw [List.mem_singleton.mp member]
  exact .string text

theorem strings_array_map_string (texts : List String) :
    (Json.array (texts.map .string)).strings = some texts := by
  simp only [strings]
  induction texts with
  | nil => rfl
  | cons text texts induction =>
      rw [List.map_cons, List.mapM_cons, induction]
      rfl

theorem array_map_string_injective {left right : List String}
    (equal : left.map Json.string = right.map Json.string) : left = right :=
  List.map_injective_iff.mpr (fun _ _ => Json.string.inj) equal

end Json

end PizzaChain.Assets
