import PizzaChain.Assets.AssetStore
import PizzaChain.Assets.AssetTree
import PizzaChain.Semantics.Sequence

/-! # The asset service

The two routes of `restapi.js` behind `bodyParser.json()`, over `createFromJson` and
`getFromHash` of `controller.js`, with the storers and retrievers of `swarm.js` and of
LevelDB. The service hands the JSON text of a description to the storer, and both storers were
written for asset objects.
-/

namespace PizzaChain.Assets

open PizzaChain.Swarm

/-! ## The storage -/

/-- What `--swarm` selects. -/
inductive Backend
  | swarm
  | levelDB

/-- What the service awaits from the Swarm node and from the database. -/
inductive StorageCall
  | bzzPost (body : String)
  | bzzGet (hash : String)
  | dbPut (key value : String)
  | dbGet (key : String)

structure NodeResponse where
  statusCode : Nat
  body : String

abbrev StorageCall.Answer : StorageCall → Type
  | .bzzPost _ => NodeResponse
  | .bzzGet _ => NodeResponse
  | .dbPut _ _ => Unit
  | .dbGet _ => Option String

structure Storage where
  node : Database
  database : Database

def Storage.empty : Storage where
  node := fun _ => none
  database := fun _ => none

/-- What ends a request with an error: the body is refused, or `asset.getHash` is not a
function of a string. -/
inductive RequestError
  | tooLarge
  | malformed
  | getHash

abbrev storage : Interface where
  Point := Unit
  Call := StorageCall
  Answer := StorageCall.Answer
  Globals := Unit
  Error := RequestError

abbrev Service := Program storage

abbrev request (call : StorageCall) : Service call.Answer :=
  @Program.call storage () call

variable (runtime : Runtime)

/-- The swarm hash of the bytes of a text, in hexadecimal. -/
def textHash (text : String) : String :=
  hex (swarmHash runtime.keccak (utf8 text)).bytes

/-- The node has an error page for hashes that it does not know. -/
def nodeResponse (errorPage : String → String) (node : Database) (hash : String) : NodeResponse :=
  match node hash with
  | none => ⟨404, errorPage hash⟩
  | some body => ⟨200, body⟩

/-- The node stores a body under its swarm hash. -/
def serveStorage (errorPage : String → String) :
    (call : StorageCall) → Storage → Except RequestError call.Answer × Storage
  | .bzzPost body, storage =>
      (.ok ⟨200, textHash runtime body⟩,
        { storage with node := storage.node.put (textHash runtime body) body })
  | .bzzGet hash, storage => (.ok (nodeResponse errorPage storage.node hash), storage)
  | .dbPut key value, storage =>
      (.ok (), { storage with database := storage.database.put key value })
  | .dbGet key, storage => (.ok (storage.database key), storage)

/-! ## Storers and retrievers -/

/-- A value that a storer is given or a retriever calls back with. -/
inductive Value (runtime : Runtime)
  | text (text : String)
  | asset (asset : Asset runtime)

variable {runtime}

namespace Value

/-- `value.toString()`. -/
def toString : Value runtime → String
  | .text content => content
  | .asset object => runtime.stringify (assetJson object.childHashes object.data)

/-- `value.getHash()`. -/
def getHash : Value runtime → Service String
  | .text _ => .fail .getHash
  | .asset object => return object.hash

def toJson : Value runtime → Json
  | .text content => .string content
  | .asset object => object.toJson

/-- What `res.send(value)` writes. -/
def sent : Value runtime → String
  | .text content => content
  | .asset object => runtime.stringify object.toJson

end Value

/-- The argument of a storer's callback, where `none` is `undefined`. -/
abbrev Storer (runtime : Runtime) := Value runtime → Service (Option String)

def swarmStorer : Storer runtime := fun asset => do
  let response ← request (.bzzPost asset.toString)
  return some response.body

/-- `defaultStorer(asset, callback, isRoot)` with an undefined `isRoot`, which is what
it calls back with. -/
def LevelDB.defaultStorer : Storer runtime := fun asset => do
  let hash ← asset.getHash
  request (.dbPut hash (runtime.stringify asset.toJson))
  return none

/-- The arguments of a retriever's callback, if it calls back. -/
abbrev Callback (runtime : Runtime) := Option (Except SwarmError (Value runtime))

/-- The error that is passed is always `null`. -/
def swarmRetriever (hash : String) : Service (Callback runtime) := do
  let response ← request (.bzzGet hash)
  return some (.ok (.text response.body))

/-- An error of the database is only logged. -/
def LevelDB.defaultRetriever (hash : String) : Service (Callback runtime) := do
  match ← request (.dbGet hash) with
  | none => return none
  | some assetJson => return (readAsset runtime assetJson).map fun asset => .ok (.asset asset)

namespace Backend

def storer (runtime : Runtime) : Backend → Storer runtime
  | .swarm => swarmStorer
  | .levelDB => LevelDB.defaultStorer

def retriever (runtime : Runtime) : Backend → String → Service (Callback runtime)
  | .swarm => swarmRetriever
  | .levelDB => LevelDB.defaultRetriever

end Backend

/-! ## The controller and the routes -/

/-- The object `{rootHash: hash}`, which has no field for `undefined`. -/
def rootHashJson : Option String → Json
  | none => .object []
  | some hash => .object [("rootHash", .string hash)]

def createFromJson (storer : Storer runtime) (description : Json) : Service String := do
  let responseHash ← storer (.text (runtime.stringify description))
  return runtime.stringify (rootHashJson responseHash)

def getFromHash (retriever : String → Service (Callback runtime)) (rootHash : String) :
    Service (Callback runtime) := do
  match ← retriever rootHash with
  | none => return none
  | some (.error err) => return some (.error err)
  | some (.ok rootAsset) => return some (.ok rootAsset)

/-- The most bytes that `bodyParser.json()` reads: 100 kB. -/
def bodyLimit : Nat := 100 * 1024

/-- `bodyParser.json()`. It is strict: other values than objects and arrays are refused. An
empty body, which is no JSON, is taken for an object without fields. -/
def parseBody (runtime : Runtime) (body : String) : Except RequestError Json :=
  if bodyLimit < (utf8 body).length then .error .tooLarge
  else
    match runtime.parse body with
    | some (.object fields) => .ok (.object fields)
    | some (.array items) => .ok (.array items)
    | some _ => .error .malformed
    | none => if body = "" then .ok (.object []) else .error .malformed

/-- An object is read as it was written, if it is not too large. -/
theorem parseBody_stringify {runtime : Runtime} (roundTrip : runtime.RoundTrip) {fields : Fields}
    (value : .object fields ∈ runtime.values) :
    parseBody runtime (runtime.stringify (.object fields)) =
      if bodyLimit < (utf8 (runtime.stringify (.object fields))).length then .error .tooLarge
      else .ok (.object fields) := by
  rw [parseBody, roundTrip _ value]

inductive AssetRequest
  | post (body : String)
  | get (hash : String)

/-- The description that is posted, if its body is not refused. -/
def AssetRequest.description (runtime : Runtime) : AssetRequest → Option Json
  | .post body => (parseBody runtime body).toOption
  | .get _ => none

structure HttpReply where
  status : Nat
  body : String

/-- The handlers of the two routes; a request may never be answered. -/
def route (runtime : Runtime) (backend : Backend) : AssetRequest → Service (Option HttpReply)
  | .post body =>
      match parseBody runtime body with
      | .error refusal => .fail refusal
      | .ok description => do
          let hash ← createFromJson (backend.storer runtime) description
          return some ⟨200, hash⟩
  | .get hash => do
      match ← getFromHash (backend.retriever runtime) hash with
      | none => return none
      | some (.error err) => return some ⟨404, err.message⟩
      | some (.ok assets) => return some ⟨200, assets.sent⟩

/-- What the client is answered. Express answers an error with a page, of which these are
the first words. -/
def replied : Except RequestError (Option HttpReply) → Option HttpReply
  | .ok reply => reply
  | .error .tooLarge => some ⟨413, "PayloadTooLargeError: request entity too large"⟩
  | .error .malformed => some ⟨400, "SyntaxError"⟩
  | .error .getHash => some ⟨500, "TypeError: asset.getHash is not a function"⟩

abbrev assetService (runtime : Runtime) (errorPage : String → String) (backend : Backend) :
    System where
  interface := storage
  World := Storage
  serve := serveStorage runtime errorPage
  Request := AssetRequest
  Result := Option HttpReply
  handler := route runtime backend
  cell := fun _ => 0

/-- The requests are answered one after another. -/
abbrev ServiceRun {runtime : Runtime} {errorPage : String → String} {backend : Backend}
    (stored : Storage) (requests : List AssetRequest)
    (final : Sequence (assetService runtime errorPage backend)) : Prop :=
  Transitions (Sequence.Step fun _ _ => True) (.initial stored ()) requests final

/-! ## What a run answers -/

section Runs

variable (runtime : Runtime) (errorPage : String → String) (backend : Backend)

/-- The hash under which the node stores a description. -/
def descriptionHash (description : Json) : String :=
  textHash runtime (runtime.stringify description)

def descriptions (requests : List AssetRequest) : List Json :=
  requests.filterMap (AssetRequest.description runtime)

/-- What a request leaves in the storage: only the node is ever written. -/
def left (stored : Storage) (request : AssetRequest) : Storage :=
  match backend, request.description runtime with
  | .swarm, some description => { stored with
      node := stored.node.put (descriptionHash runtime description)
        (runtime.stringify description) }
  | _, _ => stored

def storedAfter (stored : Storage) (requests : List AssetRequest) : Storage :=
  requests.foldl (left runtime backend) stored

/-- How a request ends. -/
def ending (stored : Storage) : AssetRequest → Except RequestError (Option HttpReply)
  | .post body =>
      match parseBody runtime body with
      | .error refusal => .error refusal
      | .ok description =>
          match backend with
          | .swarm => .ok (some ⟨200, runtime.stringify
              (rootHashJson (some (descriptionHash runtime description)))⟩)
          | .levelDB => .error .getHash
  | .get hash =>
      match backend with
      | .swarm => .ok (some ⟨200, (stored.node hash).getD (errorPage hash)⟩)
      | .levelDB => .ok (((stored.database hash).bind (readAsset runtime)).map fun asset =>
          ⟨200, (Value.asset asset).sent⟩)

theorem nodeResponse_body (node : Database) (hash : String) :
    (nodeResponse errorPage node hash).body = (node hash).getD (errorPage hash) := by
  rw [nodeResponse]
  cases node hash <;> rfl

variable (stored : Storage)

theorem storedAfter_append_singleton (requests : List AssetRequest) (request : AssetRequest) :
    storedAfter runtime backend stored (requests ++ [request]) =
      left runtime backend (storedAfter runtime backend stored requests) request :=
  List.foldl_append

theorem node_storedAfter (requests : List AssetRequest) :
    (storedAfter runtime .swarm stored requests).node =
      putAll (descriptionHash runtime) runtime.stringify stored.node
        (descriptions runtime requests) := by
  induction requests generalizing stored with
  | nil => rfl
  | cons request requests induction =>
      show (storedAfter runtime .swarm (left runtime .swarm stored request) requests).node = _
      rw [induction]
      cases described : request.description runtime with
      | none => simp only [left, descriptions, List.filterMap_cons, described]
      | some description =>
          simp only [left, descriptions, List.filterMap_cons, described]
          rfl

theorem node_of_mem {requests : List AssetRequest} {description : Json}
    (agree : ∀ other ∈ descriptions runtime requests,
      descriptionHash runtime other = descriptionHash runtime description →
      runtime.stringify other = runtime.stringify description)
    (member : description ∈ descriptions runtime requests) :
    (storedAfter runtime .swarm stored requests).node (descriptionHash runtime description) =
      some (runtime.stringify description) := by
  rw [node_storedAfter]
  exact putAll_of_mem agree member

theorem replied_ending_ne_notFound {request : AssetRequest} {body : String} :
    replied (ending runtime errorPage backend stored request) ≠ some ⟨404, body⟩ := by
  cases request with
  | post text =>
      rw [ending]
      cases parseBody runtime text with
      | error refusal => cases refusal <;> simp [replied]
      | ok description => cases backend <;> simp [replied]
  | get hash =>
      cases backend with
      | swarm => simp [ending, replied]
      | levelDB =>
          simp only [ending, replied]
          cases (stored.database hash).bind (readAsset runtime) <;> simp

/-- What is stored, and how the requests so far have ended. -/
structure Explained (sequence : Sequence (assetService runtime errorPage backend)) : Prop where
  outcomes : Sequence.Each (fun earlier record => record.outcome =
    ending runtime errorPage backend
      (storedAfter runtime backend stored (Sequence.requestsOf earlier)) record.request)
    sequence.history
  world : sequence.world =
    storedAfter runtime backend stored (Sequence.requestsOf sequence.history)

end Runs

section Explanation

variable {runtime : Runtime} {errorPage : String → String} {backend : Backend} {stored : Storage}
  {sequence final : Sequence (assetService runtime errorPage backend)}

theorem post_alone (view : View (assetService runtime errorPage backend)) (body : String) :
    (route runtime backend (.post body)).Ensures view fun outcome final =>
      outcome = ending runtime errorPage backend view.world (.post body) ∧
        final.world = left runtime backend view.world (.post body) := by
  simp only [route, ending, left, AssetRequest.description]
  cases parseBody runtime body with
  | error refusal => cases backend <;> exact ⟨rfl, rfl⟩
  | ok description => cases backend <;> exact ⟨rfl, rfl⟩

theorem get_alone (view : View (assetService runtime errorPage backend)) (hash : String) :
    (route runtime backend (.get hash)).Ensures view fun outcome final =>
      outcome = ending runtime errorPage backend view.world (.get hash) ∧
        final.world = left runtime backend view.world (.get hash) := by
  cases backend with
  | swarm =>
      rw [ending, ← nodeResponse_body]
      exact ⟨rfl, rfl⟩
  | levelDB =>
      simp only [route, getFromHash, Backend.retriever, LevelDB.defaultRetriever, ending,
        Program.bind_assoc]
      apply Program.ensures_ok rfl
      cases view.world.database hash with
      | none => exact ⟨rfl, rfl⟩
      | some text =>
          simp only [Option.bind_some]
          cases readAsset runtime text <;> exact ⟨rfl, rfl⟩

theorem route_alone (view : View (assetService runtime errorPage backend))
    (request : AssetRequest) :
    (route runtime backend request).Ensures view fun outcome final =>
      outcome = ending runtime errorPage backend view.world request ∧
        final.world = left runtime backend view.world request := by
  cases request with
  | post body => exact post_alone view body
  | get hash => exact get_alone view hash

theorem explained_initial : Explained runtime errorPage backend stored (.initial stored ()) where
  outcomes := nofun
  world := rfl

theorem Explained.next (explained : Explained runtime errorPage backend stored sequence)
    (request : AssetRequest) :
    Explained runtime errorPage backend stored (sequence.next request) := by
  rcases route_alone sequence.view request with ⟨outcome, world⟩
  constructor
  · apply Sequence.each_append_singleton explained.outcomes
    rw [← explained.world]
    exact outcome
  · rw [Sequence.next, Sequence.requestsOf_append_singleton, storedAfter_append_singleton,
      ← explained.world]
    exact world

theorem explained_of_run {requests : List AssetRequest} (run : ServiceRun stored requests final) :
    Explained runtime errorPage backend stored final := by
  apply run.invariant (Explained runtime errorPage backend stored) _ explained_initial
  rintro current request next explained ⟨rfl, _⟩
  exact explained.next request

end Explanation

/-! ## Content addressing -/

abbrev Answered (runtime : Runtime) (errorPage : String → String) (backend : Backend) :=
  Record (assetService runtime errorPage backend)

section ContentAddressing

variable {runtime : Runtime} {errorPage : String → String} {backend : Backend} {stored : Storage}
  {record : Answered runtime errorPage backend}

/-- The record is of a description that was posted and answered with a root hash. -/
def PostedAs (record : Answered runtime errorPage backend) (description : Json) (hash : String) :
    Prop :=
  record.request.description runtime = some description ∧
  replied record.outcome = some ⟨200, runtime.stringify (rootHashJson (some hash))⟩

/-- Everything posted is answered with a hash, and every hash with the description that
was answered with it, or not found. -/
structure ContentAddressed (history : List (Answered runtime errorPage backend)) : Prop where
  posts : ∀ record ∈ history, ∀ body, record.request = .post body →
    ∃ description hash, PostedAs record description hash
  hits : Sequence.Each (fun earlier (record : Answered runtime errorPage backend) =>
    ∀ hash, record.request = .get hash →
      ∀ posted ∈ earlier, ∀ description, PostedAs posted description hash →
        replied record.outcome = some ⟨200, runtime.stringify description⟩) history
  misses : Sequence.Each (fun earlier (record : Answered runtime errorPage backend) =>
    ∀ hash, record.request = .get hash →
      (∀ posted ∈ earlier, ∀ description, ¬PostedAs posted description hash) →
        ∃ body, replied record.outcome = some ⟨404, body⟩) history

/-- No body that is posted is refused. -/
def BodiesAccepted (runtime : Runtime) (requests : List AssetRequest) : Prop :=
  ∀ body, .post body ∈ requests → ∃ description, parseBody runtime body = .ok description

/-- Every hash that is asked for is that of a description posted before, and all such
descriptions have the same text. -/
def KnownHashes (runtime : Runtime) (requests : List AssetRequest) : Prop :=
  ∀ (index : Nat) hash, requests[index]? = some (.get hash) →
    ∃ description ∈ descriptions runtime (requests.take index),
      descriptionHash runtime description = hash ∧
      ∀ other ∈ descriptions runtime (requests.take index),
        descriptionHash runtime other = hash →
          runtime.stringify other = runtime.stringify description

theorem rootHashJson_injective : Function.Injective rootHashJson := by
  intro hash other same
  cases hash <;> cases other <;> simp_all [rootHashJson]

theorem rootHashJson_mem_values (runtime : Runtime) (hash : String) :
    rootHashJson (some hash) ∈ runtime.values :=
  Json.wellFormed_object_string _ "rootHash" hash

theorem parseBody_of_description {body : String} {description : Json} :
    AssetRequest.description runtime (.post body) = some description ↔
      parseBody runtime body = .ok description := by
  rw [AssetRequest.description]
  cases parseBody runtime body <;> simp [Except.toOption]

variable {sequence : Sequence (assetService runtime errorPage backend)}

theorem Explained.outcome_of_mem (explained : Explained runtime errorPage backend stored sequence)
    (member : record ∈ sequence.history) :
    ∃ earlier, record.outcome = ending runtime errorPage backend earlier record.request := by
  rcases List.mem_iff_getElem?.mp member with ⟨index, found⟩
  exact ⟨_, explained.outcomes index record found⟩

/-- Nothing is ever answered with not found, so the hashes asked for were answered. -/
theorem Explained.exists_postedAs
    (explained : Explained runtime errorPage backend stored sequence)
    (addressed : ContentAddressed sequence.history) {index : Nat} {hash : String}
    (found : sequence.history[index]? = some record) (gets : record.request = .get hash) :
    ∃ posted ∈ sequence.history.take index, ∃ description, PostedAs posted description hash := by
  by_contra missing
  push Not at missing
  rcases addressed.misses index record found hash gets missing with ⟨body, answered⟩
  rw [explained.outcomes index record found] at answered
  exact replied_ending_ne_notFound _ _ _ _ answered

/-- The descriptions before a request are those of the records before it. -/
theorem mem_descriptions_take {history : List (Answered runtime errorPage backend)} {index : Nat}
    {description : Json} :
    description ∈ descriptions runtime ((Sequence.requestsOf history).take index) ↔
      ∃ posted ∈ history.take index, posted.request.description runtime = some description := by
  rw [descriptions, List.mem_filterMap]
  constructor
  · rintro ⟨request, early, described⟩
    rcases Sequence.mem_take_requestsOf.mp early with ⟨posted, member, rfl⟩
    exact ⟨posted, member, described⟩
  · rintro ⟨posted, member, described⟩
    exact ⟨_, Sequence.mem_take_requestsOf.mpr ⟨posted, member, rfl⟩, described⟩

theorem Explained.postedAs_iff {sequence : Sequence (assetService runtime errorPage .swarm)}
    {record : Answered runtime errorPage .swarm}
    (injective : Set.InjOn runtime.stringify runtime.values)
    (explained : Explained runtime errorPage .swarm stored sequence)
    (member : record ∈ sequence.history) {description : Json} {hash : String} :
    PostedAs record description hash ↔
      record.request.description runtime = some description ∧
        descriptionHash runtime description = hash := by
  rcases explained.outcome_of_mem member with ⟨earlier, outcome⟩
  rw [PostedAs]
  apply and_congr_right
  intro described
  rw [outcome]
  cases posts : record.request with
  | get hash =>
      rw [posts] at described
      cases described
  | post body =>
      rw [posts, parseBody_of_description] at described
      simp only [ending, described, replied, Option.some.injEq, HttpReply.mk.injEq, true_and]
      constructor
      · intro same
        exact Option.some.inj (rootHashJson_injective (injective
          (rootHashJson_mem_values runtime _) (rootHashJson_mem_values runtime _) same))
      · rintro rfl
        rfl

/-- LevelDB answers no description with a hash. -/
theorem Explained.not_postedAs_levelDB
    {sequence : Sequence (assetService runtime errorPage .levelDB)}
    {record : Answered runtime errorPage .levelDB}
    (explained : Explained runtime errorPage .levelDB stored sequence)
    (member : record ∈ sequence.history) (description : Json) (hash : String) :
    ¬PostedAs record description hash := by
  rintro ⟨described, answered⟩
  rcases explained.outcome_of_mem member with ⟨earlier, outcome⟩
  cases posts : record.request with
  | get hash =>
      rw [posts] at described
      cases described
  | post body =>
      rw [posts, parseBody_of_description] at described
      rw [outcome, posts] at answered
      simp [ending, described, replied] at answered

theorem Explained.history_eq_nil {sequence : Sequence (assetService runtime errorPage .levelDB)}
    (explained : Explained runtime errorPage .levelDB stored sequence)
    (addressed : ContentAddressed sequence.history) : sequence.history = [] := by
  apply List.eq_nil_iff_forall_not_mem.mpr
  intro record member
  cases kind : record.request with
  | post body =>
      rcases addressed.posts record member body kind with ⟨description, hash, posted⟩
      exact explained.not_postedAs_levelDB member description hash posted
  | get hash =>
      rcases List.mem_iff_getElem?.mp member with ⟨index, found⟩
      rcases explained.exists_postedAs addressed found kind with
        ⟨posted, early, description, postedAs⟩
      exact explained.not_postedAs_levelDB (List.mem_of_mem_take early) description hash postedAs

theorem contentAddressed_nil :
    ContentAddressed ([] : List (Answered runtime errorPage backend)) where
  posts := nofun
  hits := nofun
  misses := nofun

theorem ContentAddressed.bodiesAccepted
    {history : List (Answered runtime errorPage backend)} (addressed : ContentAddressed history) :
    BodiesAccepted runtime (Sequence.requestsOf history) := by
  intro body member
  rcases List.mem_map.mp member with ⟨record, recorded, posts⟩
  rcases addressed.posts record recorded body posts with ⟨description, _, described, _⟩
  rw [posts, parseBody_of_description] at described
  exact ⟨description, described⟩

section SwarmHistory

variable {sequence : Sequence (assetService runtime errorPage .swarm)}
  (injective : Set.InjOn runtime.stringify runtime.values)
  (explained : Explained runtime errorPage .swarm stored sequence)

include injective explained

theorem Explained.knownHashes (addressed : ContentAddressed sequence.history) :
    KnownHashes runtime (Sequence.requestsOf sequence.history) := by
  intro index hash asked
  rcases Sequence.getElem?_requestsOf.mp asked with ⟨record, found, gets⟩
  have answered {posted description} (early : posted ∈ sequence.history.take index)
      (described : posted.request.description runtime = some description)
      (same : descriptionHash runtime description = hash) :
      replied record.outcome = some ⟨200, runtime.stringify description⟩ := by
    apply addressed.hits index record found hash gets posted early description
    exact (explained.postedAs_iff injective (List.mem_of_mem_take early)).mpr ⟨described, same⟩
  rcases explained.exists_postedAs addressed found gets with ⟨posted, early, description, postedAs⟩
  rcases (explained.postedAs_iff injective (List.mem_of_mem_take early)).mp postedAs with
    ⟨described, same⟩
  refine ⟨description, mem_descriptions_take.mpr ⟨posted, early, described⟩, same, ?_⟩
  intro other otherPosted otherSame
  rcases mem_descriptions_take.mp otherPosted with ⟨otherRecord, otherEarly, otherDescribed⟩
  have both := (answered otherEarly otherDescribed otherSame).symm.trans
    (answered early described same)
  exact congrArg HttpReply.body (Option.some.inj both)

theorem Explained.contentAddressed
    (accepted : BodiesAccepted runtime (Sequence.requestsOf sequence.history))
    (known : KnownHashes runtime (Sequence.requestsOf sequence.history)) :
    ContentAddressed sequence.history where
  posts := by
    intro record member body posts
    rcases accepted body (List.mem_map.mpr ⟨record, member, posts⟩) with ⟨description, parsed⟩
    refine ⟨description, _, (explained.postedAs_iff injective member).mpr ⟨?_, rfl⟩⟩
    rw [posts]
    exact parseBody_of_description.mpr parsed
  hits := by
    intro index record found hash gets posted early description postedAs
    rcases (explained.postedAs_iff injective (List.mem_of_mem_take early)).mp postedAs with
      ⟨described, rfl⟩
    rcases known index _ (Sequence.getElem?_requestsOf.mpr ⟨record, found, gets⟩) with
      ⟨first, _, _, agree⟩
    have member := mem_descriptions_take.mpr ⟨posted, early, described⟩
    have node := node_of_mem runtime stored (fun other otherMember same =>
      (agree other otherMember same).trans (agree description member rfl).symm) member
    rw [explained.outcomes index record found, gets]
    rw [Sequence.requestsOf, ← List.map_take] at node
    simp only [ending, replied, Sequence.requestsOf, node, Option.getD_some]
  misses := by
    intro index record found hash gets missing
    rcases known index hash (Sequence.getElem?_requestsOf.mpr ⟨record, found, gets⟩) with
      ⟨description, posted, same, _⟩
    rcases mem_descriptions_take.mp posted with ⟨postedRecord, early, described⟩
    refine absurd ?_ (missing postedRecord early description)
    exact (explained.postedAs_iff injective (List.mem_of_mem_take early)).mpr ⟨described, same⟩

end SwarmHistory

theorem contentAddressed_iff (injective : Set.InjOn runtime.stringify runtime.values)
    {requests : List AssetRequest} {final : Sequence (assetService runtime errorPage backend)}
    (run : ServiceRun stored requests final) :
    ContentAddressed final.history ↔
      requests = [] ∨
        backend = .swarm ∧ BodiesAccepted runtime requests ∧ KnownHashes runtime requests := by
  have explained := explained_of_run run
  have asked : Sequence.requestsOf final.history = requests :=
    Sequence.requestsOf_of_transitions run
  subst asked
  constructor
  · intro addressed
    cases backend with
    | swarm =>
        exact .inr ⟨rfl, addressed.bodiesAccepted, explained.knownHashes injective addressed⟩
    | levelDB =>
        left
        rw [explained.history_eq_nil addressed]
        rfl
  · rintro (empty | ⟨rfl, accepted, known⟩)
    · rw [List.map_eq_nil_iff.mp empty]
      exact contentAddressed_nil
    · exact explained.contentAddressed injective accepted known

end ContentAddressing

section Cheese

def cheeseAsset : Json :=
  .object [("name", .string "cheese")]

def cheeseBody : String :=
  JsonText.stringify cheeseAsset

theorem parseBody_cheeseBody :
    parseBody (Runtime.compact lastBytes) cheeseBody = .ok cheeseAsset := by
  have read := parseBody_stringify (Runtime.compact_roundTrip lastBytes)
    (Json.wellFormed_object_string _ "name" "cheese")
  rw [if_neg (by decide)] at read
  exact read

-- A number is JSON, but it is refused as a body.
example : parseBody (Runtime.compact lastBytes) "5" = .error .malformed := rfl

abbrev cheeseService (backend : Backend) : System :=
  assetService (Runtime.compact lastBytes) (fun _ => "404 page not found") backend

theorem cheeseAsset_contentAddressed :
    ∃ final : Sequence (cheeseService .swarm),
      ServiceRun .empty [.post cheeseBody,
        .get (descriptionHash (Runtime.compact lastBytes) cheeseAsset)] final ∧
      ContentAddressed final.history := by
  refine ⟨_, .cons ⟨rfl, trivial⟩ (.cons ⟨rfl, trivial⟩ (.nil _)), ?_⟩
  apply (contentAddressed_iff (Runtime.compact_roundTrip lastBytes).injOn
    (.cons ⟨rfl, trivial⟩ (.cons ⟨rfl, trivial⟩ (.nil _)))).mpr
  refine .inr ⟨rfl, ?_, ?_⟩
  · intro body posted
    have same : body = cheeseBody := by simpa using posted
    rw [same]
    exact ⟨cheeseAsset, parseBody_cheeseBody⟩
  · intro index hash asked
    match index with
    | 0 => cases asked
    | 1 =>
        cases asked
        have posted : descriptions (Runtime.compact lastBytes) [.post cheeseBody] =
            [cheeseAsset] := by
          simp [descriptions, AssetRequest.description, parseBody_cheeseBody, Except.toOption]
        refine ⟨cheeseAsset, ?_, rfl, ?_⟩
        · exact posted ▸ List.mem_singleton_self cheeseAsset
        · intro other member _
          rw [List.take_succ_cons, List.take_zero, posted] at member
          rw [List.mem_singleton.mp member]
    | _ + 2 => cases asked

/-- The error page of the node is sent as if it were the asset. LevelDB answers a
description with an error, and an unknown hash not at all. -/
theorem unknownHash_not_contentAddressed :
    (∃ final : Sequence (cheeseService .swarm), ServiceRun .empty [.get "00"] final ∧
      final.history.map (fun record => replied record.outcome) =
        [some ⟨200, "404 page not found"⟩] ∧
      ¬ContentAddressed final.history) ∧
    (∃ final : Sequence (cheeseService .levelDB), ServiceRun .empty [.post cheeseBody] final ∧
      final.history.map (fun record => replied record.outcome) =
        [some ⟨500, "TypeError: asset.getHash is not a function"⟩] ∧
      ¬ContentAddressed final.history) ∧
    ∃ final : Sequence (cheeseService .levelDB), ServiceRun .empty [.get "00"] final ∧
      final.history.map (fun record => replied record.outcome) = [none] ∧
      ¬ContentAddressed final.history := by
  refine ⟨⟨_, .cons ⟨rfl, trivial⟩ (.nil _), rfl, ?_⟩, ⟨_, .cons ⟨rfl, trivial⟩ (.nil _), rfl, ?_⟩,
    ⟨_, .cons ⟨rfl, trivial⟩ (.nil _), rfl, ?_⟩⟩
  · intro addressed
    rcases addressed.misses 0 _ rfl "00" rfl nofun with ⟨body, answered⟩
    cases answered
  · intro addressed
    rcases addressed.posts _ (.head _) cheeseBody rfl with ⟨_, hash, _, answered⟩
    cases answered
  · intro addressed
    rcases addressed.misses 0 _ rfl "00" rfl nofun with ⟨body, answered⟩
    cases answered

end Cheese

end PizzaChain.Assets
