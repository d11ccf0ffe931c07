import Mathlib.Data.Set.Function
import PizzaChain.Assets.JsonText
import PizzaChain.Swarm.SwarmHash

/-! # Assets

`asset.js`: an asset is a list of child hashes and a data object, and its hash
is the swarm hash of their JSON text. Keccak-256 and the JSON functions of
JavaScript come from outside the repository.
-/

namespace PizzaChain.Assets

open PizzaChain.Swarm

/-- What the asset service takes from its runtime. -/
structure Runtime where
  keccak : Bytes → Digest
  stringify : Json → String
  parse : String → Option Json

/-- The text is that of the number it is read as. -/
def Runtime.IsNumeral (runtime : Runtime) (value : JsonNumber) : Prop :=
  runtime.parse (String.ofList value.text) = some (.number value)

def Runtime.values (runtime : Runtime) : Set Json :=
  {value | value.WellFormed runtime.IsNumeral}

/-- `JSON.parse` undoes `JSON.stringify` on the values that JavaScript has, keeping the
order of keys. -/
def Runtime.RoundTrip (runtime : Runtime) : Prop :=
  ∀ value ∈ runtime.values, runtime.parse (runtime.stringify value) = some value

theorem Runtime.RoundTrip.injOn {runtime : Runtime} (roundTrip : runtime.RoundTrip) :
    Set.InjOn runtime.stringify runtime.values := by
  intro left leftValue right rightValue equal
  have parsed := congrArg runtime.parse equal
  rw [roundTrip left leftValue, roundTrip right rightValue] at parsed
  exact Option.some.inj parsed

/-- The runtime with compact JSON text over a given Keccak. -/
def Runtime.compact (keccak : Bytes → Digest) : Runtime where
  keccak := keccak
  stringify := JsonText.stringify
  parse := JsonText.parse

theorem Runtime.compact_roundTrip (keccak : Bytes → Digest) :
    (Runtime.compact keccak).RoundTrip :=
  fun value _ => JsonText.parse_stringify value

theorem Runtime.compact_injective (keccak : Bytes → Digest) :
    Function.Injective (Runtime.compact keccak).stringify := by
  intro left right equal
  have parsed := congrArg JsonText.parse equal
  simp only [Runtime.compact, JsonText.parse_stringify] at parsed
  exact Option.some.inj parsed

/-- `new Buffer(text)`: the UTF-8 bytes of a string. -/
def utf8 (text : String) : Bytes :=
  text.toByteArray.data.toList

theorem utf8_injective : Function.Injective utf8 := by
  intro left right equal
  apply String.toByteArray_inj.mp
  apply ByteArray.ext
  exact Array.toList_inj.mp equal

theorem utf8_ofList (chars : List Char) :
    utf8 (String.ofList chars) = chars.flatMap String.utf8EncodeChar := by
  simp [utf8, List.utf8Encode]

/-- The pair `[a, d]` that an asset holds, as JSON. -/
def assetJson (childHashes : List String) (data : Fields) : Json :=
  .array [.array (childHashes.map .string), .object data]

theorem assetJson_mem_values {runtime : Runtime} (childHashes : List String) {data : Fields}
    (value : .object data ∈ runtime.values) : assetJson childHashes data ∈ runtime.values := by
  apply Json.WellFormed.array
  simp only [List.forall_mem_cons, List.not_mem_nil, false_imp_iff, implies_true, and_true]
  exact ⟨Json.wellFormed_array_map_string _ childHashes, value⟩

theorem assetJson_injective {leftHashes rightHashes : List String} {leftData rightData : Fields}
    (equal : assetJson leftHashes leftData = assetJson rightHashes rightData) :
    leftHashes = rightHashes ∧ leftData = rightData := by
  simp only [assetJson, Json.array.injEq, List.cons.injEq, Json.object.injEq, and_true] at equal
  exact ⟨Json.array_map_string_injective equal.1, equal.2⟩

/-- The bytes whose swarm hash is the hash of an asset. -/
def assetBytes (runtime : Runtime) (childHashes : List String) (data : Fields) : Bytes :=
  utf8 (runtime.stringify (assetJson childHashes data))

/-- An asset. The constructor of the class is the only way to make one, so the
stored hash is always the hash of the contents. -/
structure Asset (runtime : Runtime) where
  childHashes : List String
  data : Fields
  hash : String
  hash_eq : hash = hex (swarmHash runtime.keccak (assetBytes runtime childHashes data)).bytes

namespace Asset

variable {runtime : Runtime}

/-- `new Asset(a, d)`. -/
def create (runtime : Runtime) (childHashes : List String) (data : Fields) : Asset runtime where
  childHashes := childHashes
  data := data
  hash := hex (swarmHash runtime.keccak (assetBytes runtime childHashes data)).bytes
  hash_eq := rfl

theorem eq_of_contents {left right : Asset runtime} (hashes : left.childHashes = right.childHashes)
    (data : left.data = right.data) : left = right := by
  rcases left with ⟨leftHashes, leftData, leftHash, leftEq⟩
  rcases right with ⟨rightHashes, rightData, rightHash, rightEq⟩
  cases hashes
  cases data
  cases leftEq
  cases rightEq
  rfl

@[simp] theorem create_contents (asset : Asset runtime) :
    create runtime asset.childHashes asset.data = asset :=
  eq_of_contents rfl rfl

def bytes (asset : Asset runtime) : Bytes :=
  assetBytes runtime asset.childHashes asset.data

/-- The pair that the asset holds. -/
def pair (asset : Asset runtime) : Json :=
  assetJson asset.childHashes asset.data

theorem eq_of_bytes {values : Set Json} (injective : Set.InjOn runtime.stringify values)
    {left right : Asset runtime} (leftValue : left.pair ∈ values)
    (rightValue : right.pair ∈ values) (equal : left.bytes = right.bytes) : left = right := by
  have same := injective leftValue rightValue (utf8_injective equal)
  rcases assetJson_injective same with ⟨hashes, data⟩
  exact eq_of_contents hashes data

/-- The swarm hash has no collision among the given assets. -/
def NoCollision (assets : Asset runtime → Prop) : Prop :=
  ∀ left right, assets left → assets right →
    swarmHash runtime.keccak left.bytes = swarmHash runtime.keccak right.bytes →
      left.bytes = right.bytes

/-- Without a collision the hash determines the asset. -/
theorem eq_of_hash {values : Set Json} (injective : Set.InjOn runtime.stringify values)
    {assets : Asset runtime → Prop} (noCollision : NoCollision assets)
    {left right : Asset runtime} (leftMember : assets left) (rightMember : assets right)
    (leftValue : left.pair ∈ values) (rightValue : right.pair ∈ values)
    (equal : left.hash = right.hash) : left = right := by
  apply eq_of_bytes injective leftValue rightValue
  apply noCollision left right leftMember rightMember
  rw [left.hash_eq, right.hash_eq] at equal
  exact Digest.bytes_injective (hex_injective equal)

/-! ## Hashes over compact text

Evaluated from the digests of the children, without decoding any text. -/

def linksText : (digests : List Bytes) → List Char
  | [] => ['[', ']']
  | digest :: digests => '[' :: (JsonText.writeString (digest.flatMap hexByte) ++
      (digests.flatMap (fun digest => ',' :: JsonText.writeString (digest.flatMap hexByte)) ++
        [']']))

theorem writeItems_hex (digests : List Bytes) :
    JsonText.writeItems ((digests.map hex).map .string) =
      digests.flatMap (fun digest => ',' :: JsonText.writeString (digest.flatMap hexByte)) ++
        [']'] := by
  induction digests with
  | nil => rfl
  | cons digest digests induction =>
      rw [List.map_cons, List.map_cons, JsonText.writeItems, induction, JsonText.write, toList_hex]
      simp

theorem write_links (digests : List Bytes) :
    JsonText.write (.array ((digests.map hex).map .string)) = linksText digests := by
  cases digests with
  | nil => rfl
  | cons digest digests =>
      rw [List.map_cons, List.map_cons, JsonText.write, writeItems_hex, JsonText.write, toList_hex,
        linksText]

/-- The bytes of an asset with compact text, from the digests of its children. -/
def compactBytes (childDigests : List Bytes) (data : Fields) : Bytes :=
  ('[' :: (linksText childDigests ++ ',' :: (JsonText.write (.object data) ++ [']']))).flatMap
    String.utf8EncodeChar

theorem assetBytes_compact (keccak : Bytes → Digest) (childDigests : List Bytes)
    (data : Fields) :
    assetBytes (Runtime.compact keccak) (childDigests.map hex) data =
      compactBytes childDigests data := by
  change utf8 (String.ofList (JsonText.write _)) = _
  rw [assetJson, JsonText.write, write_links, JsonText.writeItems, JsonText.writeItems,
    utf8_ofList, compactBytes]

/-- The digest of an asset whose compact text fits in one chunk. -/
def compactDigest (keccak : Bytes → Digest) (childDigests : List Bytes) (data : Fields) : Bytes :=
  (swarmHashBlock keccak (compactBytes childDigests data)
    (compactBytes childDigests data).length).bytes

theorem hash_compact {keccak : Bytes → Digest} (childDigests : List Bytes) (data : Fields)
    (short : (compactBytes childDigests data).length ≤ chunkSize) :
    (create (Runtime.compact keccak) (childDigests.map hex) data).hash =
      hex (compactDigest keccak childDigests data) := by
  rw [compactDigest, ← swarmHash_of_short keccak short, ← assetBytes_compact keccak]
  rfl

end Asset

end PizzaChain.Assets
