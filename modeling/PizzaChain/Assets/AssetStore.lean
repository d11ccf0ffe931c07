import PizzaChain.Assets.Asset
import PizzaChain.Foundation.KeyedStore

/-! # Assets in LevelDB

`defaultStorer` and `defaultRetriever` of `controller.js`. The database is the
map of the texts last put under each key.
-/

namespace PizzaChain.Assets

abbrev Database := String → Option String

def Database.put (database : Database) (key value : String) : Database :=
  Function.update database key (some value)

variable {runtime : Runtime}

/-- The JSON text of an asset object, which has the fields `asset` and `hash`. -/
def Asset.toJson (asset : Asset runtime) : Json :=
  .object [("asset", assetJson asset.childHashes asset.data), ("hash", .string asset.hash)]

def defaultStorer (database : Database) (asset : Asset runtime) : Database :=
  database.put asset.hash (runtime.stringify asset.toJson)

/-- `new Asset(JSON.parse(assetJson).asset[0], JSON.parse(assetJson).asset[1])`,
or `none` where reading the parts throws. -/
def readAsset (runtime : Runtime) (text : String) : Option (Asset runtime) := do
  let value ← runtime.parse text
  let pair ← value.field "asset"
  let childHashes ← (← pair.item 0).strings
  let data ← (← pair.item 1).fields
  return .create runtime childHashes data

theorem Asset.toJson_mem_values {asset : Asset runtime} (value : asset.pair ∈ runtime.values) :
    asset.toJson ∈ runtime.values := by
  apply Json.WellFormed.object
  · simp only [List.map_cons, List.map_nil, List.pairwise_pair]
    decide
  · simp only [List.forall_mem_cons, List.not_mem_nil, false_imp_iff, implies_true, and_true]
    exact ⟨value, .string asset.hash⟩

theorem readAsset_toJson (roundTrip : runtime.RoundTrip) {asset : Asset runtime}
    (value : asset.pair ∈ runtime.values) :
    readAsset runtime (runtime.stringify asset.toJson) = some asset := by
  have pair : asset.toJson.field "asset" = some (assetJson asset.childHashes asset.data) := by
    simp [Asset.toJson, Json.field]
  have parsed := roundTrip asset.toJson (Asset.toJson_mem_values value)
  simp [readAsset, parsed, pair, assetJson, Json.item, Json.strings_array_map_string,
    Json.fields]

structure SwarmError where
  message : String

/-- The arguments `(err, asset)` of a retriever's callback. -/
structure Answer (runtime : Runtime) where
  error : Option SwarmError
  asset : Option (Asset runtime)

/-- What a retriever calls back with for a hash, if it ever calls back. -/
abbrev Retriever (runtime : Runtime) := String → Option (Answer runtime)

/-- A missing key is only logged, and an unreadable text throws in the callback
of the database: there is no answer to either. -/
def defaultRetriever (runtime : Runtime) (database : Database) : Retriever runtime := fun hash =>
  match database hash with
  | none => none
  | some text => (readAsset runtime text).map fun asset => ⟨none, some asset⟩

/-- Storing a list of assets, in the order of the list. -/
def storeAll (database : Database) (assets : List (Asset runtime)) : Database :=
  assets.foldl defaultStorer database

/-- Without collisions the database holds every stored asset under its hash, in
whatever order and however often they were stored. -/
theorem storeAll_hash (roundTrip : runtime.RoundTrip) {assets : List (Asset runtime)}
    (values : ∀ asset ∈ assets, asset.pair ∈ runtime.values)
    (noCollision : Asset.NoCollision fun asset => asset ∈ assets) (database : Database)
    {asset : Asset runtime} (member : asset ∈ assets) :
    storeAll database assets asset.hash = some (runtime.stringify asset.toJson) := by
  apply putAll_of_mem (fun other otherMember same => ?_) member
  rw [Asset.eq_of_hash roundTrip.injOn noCollision otherMember member
    (values other otherMember) (values asset member) same]

theorem defaultRetriever_storeAll (roundTrip : runtime.RoundTrip) {assets : List (Asset runtime)}
    (values : ∀ asset ∈ assets, asset.pair ∈ runtime.values)
    (noCollision : Asset.NoCollision fun asset => asset ∈ assets) (database : Database)
    {asset : Asset runtime} (member : asset ∈ assets) :
    defaultRetriever runtime (storeAll database assets) asset.hash = some ⟨none, some asset⟩ := by
  rw [defaultRetriever, storeAll_hash roundTrip values noCollision database member]
  simp [readAsset_toJson roundTrip (values asset member)]

end PizzaChain.Assets
