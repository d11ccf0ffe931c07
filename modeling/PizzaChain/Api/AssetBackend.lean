import PizzaChain.Api.IssuedTerms
import PizzaChain.Assets.AssetService
import PizzaChain.Semantics.Refinement

/-! # The asset service behind the API

The API posts the description of a token to the asset service and reads it back by
HTTP, through `fnPOST` and `fnGET` of `externalAPI.js`, and the service keeps it in a
Swarm node. Elsewhere these are two calls with a root hash for each description. Here
the service and the node are in their places, and the two descriptions of the server
have the same runs.
-/

namespace PizzaChain.Api

open PizzaChain.Assets (Json JsonNumber Runtime Storage StorageCall RequestError HttpReply Service
  serveStorage descriptionHash textHash rootHashJson replied utf8 bodyLimit parseBody)

/-! ## Descriptions as JSON -/

/-- How JSON text spells the numbers that JavaScript has. -/
structure Numerals (runtime : Runtime) where
  write : Nat → JsonNumber
  read : JsonNumber → Option Nat
  numeral : ∀ value, runtime.IsNumeral (write (roundToDouble value))
  read_write : ∀ value, read (write (roundToDouble value)) = some (roundToDouble value)

namespace Metadata

variable {runtime : Runtime}

/-- The object that is posted. `JSON.stringify` leaves a field out that is
`undefined`. -/
def toJson (numerals : Numerals runtime) (metadata : Metadata) : Json :=
  .object ([("invoiceId", .string metadata.invoiceId)] ++
    (metadata.itemType.map fun itemType => ("itemType", Json.string itemType)).toList ++
    [("uom", .string metadata.uom), ("qty", .number (numerals.write metadata.qty)),
      ("price", .number (numerals.write metadata.price))])

def textOf : Json → Option String
  | .string text => some text
  | _ => none

def numberOf (numerals : Numerals runtime) : Json → Option Nat
  | .number value => numerals.read value
  | _ => none

/-- The object as the fields of a description. -/
def ofJson (numerals : Numerals runtime) (value : Json) : Option Metadata := do
  let invoiceId ← (value.field "invoiceId").bind textOf
  let uom ← (value.field "uom").bind textOf
  let qty ← (value.field "qty").bind (numberOf numerals)
  let price ← (value.field "price").bind (numberOf numerals)
  match value.field "itemType" with
  | none => return ⟨invoiceId, none, uom, qty, price⟩
  | some itemType => return ⟨invoiceId, some (← textOf itemType), uom, qty, price⟩

theorem ofJson_toJson (numerals : Numerals runtime) {metadata : Metadata}
    (exact : metadata.Exact) : ofJson numerals (metadata.toJson numerals) = some metadata := by
  rcases metadata with ⟨invoiceId, itemType, uom, qty, price⟩
  rcases exact with ⟨⟨qty, rfl⟩, price, rfl⟩
  cases itemType with
  | none => simp [ofJson, toJson, Json.field, textOf, numberOf, numerals.read_write]
  | some itemType => simp [ofJson, toJson, Json.field, textOf, numberOf, numerals.read_write]

theorem toJson_mem_values (numerals : Numerals runtime) {metadata : Metadata}
    (exact : metadata.Exact) : metadata.toJson numerals ∈ runtime.values := by
  rcases metadata with ⟨invoiceId, itemType, uom, qty, price⟩
  rcases exact with ⟨⟨qty, rfl⟩, price, rfl⟩
  cases itemType with
  | none =>
      have ordered : ["invoiceId", "uom", "qty", "price"].Pairwise (Json.inOrder · ·) := by decide
      refine .object ordered ?_
      simp only [Option.map_none, Option.toList_none, List.append_nil, List.cons_append,
        List.nil_append, List.forall_mem_cons, List.not_mem_nil, false_imp_iff, implies_true,
        and_true]
      exact ⟨.string _, .string _, .number (numerals.numeral _), .number (numerals.numeral _)⟩
  | some itemType =>
      have ordered : ["invoiceId", "itemType", "uom", "qty", "price"].Pairwise
          (Json.inOrder · ·) := by decide
      refine .object ordered ?_
      simp only [Option.map_some, Option.toList_some, List.cons_append, List.nil_append,
        List.forall_mem_cons, List.not_mem_nil, false_imp_iff, implies_true, and_true]
      exact ⟨.string _, .string _, .string _, .number (numerals.numeral _),
        .number (numerals.numeral _)⟩

end Metadata

/-! ## HTTP requests -/

/-- What the server awaits: its own calls, those that the asset service makes for it, and
the reply to a request for which the service makes none. -/
inductive DeployedCall
  | own (call : Call)
  | storage (call : StorageCall)
  | message

abbrev DeployedCall.Answer : DeployedCall → Type
  | .own call => call.Answer
  | .storage call => call.Answer
  | .message => Unit

abbrev deployedServer : Interface :=
  server.withCalls DeployedCall DeployedCall.Answer

/-- The asset service goes on with a request while the server waits for the reply, which
does not come when the connection fails. -/
def remoteRest (point : Point) :
    Service α → Program deployedServer (Option (Except RequestError α))
  | .done result => .done (some (.ok result))
  | .fail error => .done (some (.error error))
  | .read next => remoteRest point (next ())
  | .write _ next => remoteRest point next
  | .await _ call next => .await point (.storage call) fun
      | .ok answer => remoteRest point (next (.ok answer))
      | .error _ => .done none

/-- A request that the asset service handles. -/
def remote (point : Point) : Service α → Program deployedServer (Option (Except RequestError α))
  | .done result => .await point .message fun _ => .done (some (.ok result))
  | .fail error => .await point .message fun _ => .done (some (.error error))
  | .read next => remote point (next ())
  | .write _ next => remote point next
  | .await _ call next => .await point (.storage call) fun
      | .ok answer => remoteRest point (next (.ok answer))
      | .error _ => .done none

/-- `request-promise` resolves with the body of a reply in the two hundreds, and rejects
others. -/
def resolved (reply : Option HttpReply) : Option String :=
  reply.bind fun reply => if reply.status / 100 = 2 then some reply.body else none

section Requests

variable (runtime : Runtime)

/-- `fnPOST(url, obj)`, where `none` is `undefined`. -/
def fnPOST (point : Point) (obj : Json) : Program deployedServer (Option Json) := do
  let outcome ← remote point (Assets.route runtime .swarm (.post (runtime.stringify obj)))
  return (resolved (outcome.bind replied)).bind runtime.parse

/-- `fnGET(url + "/" + hash)`. -/
def fnGET (point : Point) (hash : String) : Program deployedServer (Option Json) := do
  let outcome ← remote point (Assets.route runtime .swarm (.get hash))
  return (resolved (outcome.bind replied)).bind runtime.parse

variable (numerals : Numerals runtime)

/-- How each call is carried out. Of the answer to a post, `rootHash` is read. -/
def implementation (point : Point) :
    (call : Call) → Program deployedServer (Except Failure call.Answer)
  | .swarmPost metadata => do
      let response ← fnPOST runtime point (metadata.toJson numerals)
      return .ok ((response.bind (Json.field "rootHash")).bind Metadata.textOf)
  | .swarmGet hash => do
      let response ← fnGET runtime point hash
      return .ok (response.bind (Metadata.ofJson numerals))
  | call => .await point (.own call) .done

/-- The two calls reach the node as they leave the asset service, if it does not refuse
the body. -/
def calls : Translation server DeployedCall DeployedCall.Answer where
  carrier := fun
    | .swarmPost metadata =>
        match parseBody runtime (runtime.stringify (metadata.toJson numerals)) with
        | .error _ => ⟨.message, fun _ => .ok none⟩
        | .ok description => ⟨.storage (.bzzPost (runtime.stringify description)), fun
            | .ok response =>
                .ok (((runtime.parse (runtime.stringify (rootHashJson (some response.body)))).bind
                  (Json.field "rootHash")).bind Metadata.textOf)
            | .error _ => .ok none⟩
    | .swarmGet hash =>
        ⟨.storage (.bzzGet hash), fun
          | .ok response => .ok ((runtime.parse response.body).bind (Metadata.ofJson numerals))
          | .error _ => .ok none⟩
    | call => ⟨.own call, id⟩

theorem resolved_ok (body : String) : resolved (some ⟨200, body⟩) = some body := by
  simp [resolved]

theorem remote_request (point : Point) (call : StorageCall)
    (continuation : call.Answer → Service α) :
    remote point (Assets.request call >>= continuation) = .await point (.storage call) fun
      | .ok answer => remoteRest point (continuation answer)
      | .error _ => .done none := by
  rw [Program.call_bind, remote]
  rfl

theorem swarmPost_single (point : Point) (metadata : Metadata) :
    implementation runtime numerals point (.swarmPost metadata) =
      .await point ((calls runtime numerals).encode (.swarmPost metadata)) fun answer =>
        .done ((calls runtime numerals).decode (.swarmPost metadata) answer) := by
  simp only [implementation, fnPOST, Assets.route, Translation.encode, Translation.decode, calls]
  cases parseBody runtime (runtime.stringify (metadata.toJson numerals)) with
  | error refusal => cases refusal <;> rfl
  | ok description =>
      simp only [Assets.createFromJson, Assets.Backend.storer, Assets.swarmStorer,
        Program.bind_assoc, Program.pure_eq_done, Program.done_bind]
      rw [remote_request]
      refine congrArg (@Program.await deployedServer _ point _) (funext fun answer => ?_)
      cases answer with
      | error failure => rfl
      | ok response =>
          simp only [remoteRest, Program.bind, Option.bind_some, replied, resolved_ok]

theorem implementation_single (point : Point) (call : Call) :
    implementation runtime numerals point call =
      .await point ((calls runtime numerals).encode call) fun answer =>
        .done ((calls runtime numerals).decode call answer) := by
  cases call with
  | swarmPost metadata => exact swarmPost_single runtime numerals point metadata
  | swarmGet hash =>
      simp only [implementation, fnGET, Assets.route, Assets.getFromHash,
        Assets.Backend.retriever, Assets.swarmRetriever, Program.bind_assoc,
        Program.pure_eq_done, Program.done_bind]
      rw [remote_request]
      refine congrArg (@Program.await deployedServer _ point _) (funext fun answer => ?_)
      cases answer with
      | error failure => rfl
      | ok response =>
          simp only [remoteRest, Program.bind, Option.bind_some, replied, resolved_ok]
          rfl
  | _ => rfl

end Requests

/-! ## The server with the service in its place -/

section Deployed

variable (environment : Environment) (runtime : Runtime) (numerals : Numerals runtime)
  (errorPage : String → String)

def serveDeployed : (call : DeployedCall) → World × Storage →
    Except Failure call.Answer × (World × Storage)
  | .own call, (world, stored) =>
      ((serve environment call world).1, ((serve environment call world).2, stored))
  | .storage call, (world, stored) =>
      ((serveStorage runtime errorPage call stored).1.mapError fun _ => .undefinedProperty,
        (world, (serveStorage runtime errorPage call stored).2))
  | .message, state => (.ok (), state)

/-- The handlers over the asset service and its node. -/
abbrev deployedApi : System :=
  (sharedApi environment).over (World × Storage) (serveDeployed environment runtime errorPage)
    fun request => (handle environment request).carriedOut (implementation runtime numerals)

/-- The hash under which the node stores a description, if its body is not too large. -/
def serviceHash (metadata : Metadata) : Option String :=
  if bodyLimit < (utf8 (runtime.stringify (metadata.toJson numerals))).length then none
  else some (descriptionHash runtime (metadata.toJson numerals))

def HashedByService : Prop :=
  ∀ metadata : Metadata, metadata.Exact →
    environment.rootHash metadata = serviceHash runtime numerals metadata

def World.withSwarm (swarm : List (String × Metadata)) (world : World) : World :=
  { world with swarm := swarm }

/-- Chain and table are the same, and the node has the text of each description. -/
structure Stores (below : World × Storage) (above : World) : Prop where
  world : above = below.1.withSwarm above.swarm
  node : ∀ hash, below.2.node hash =
    (above.swarm.lookup hash).map fun metadata => runtime.stringify (metadata.toJson numerals)
  exact : ∀ hash metadata, above.swarm.lookup hash = some metadata → metadata.Exact

variable {environment runtime numerals errorPage}

theorem stores_deployed : Stores runtime numerals (World.deployed environment, Storage.empty)
    (World.deployed environment) :=
  ⟨rfl, fun _ => rfl, nofun⟩

/-! ### Calls that do not reach the service -/

theorem reshaping_withSwarm (swarm : List (String × Metadata)) :
    World.Reshaping (World.withSwarm swarm) :=
  ⟨fun _ => rfl, fun _ _ => rfl⟩

/-- What the Swarm service holds is of no concern to the other calls. -/
theorem serve_withSwarm {call : Call} (posts : ∀ metadata, call ≠ .swarmPost metadata)
    (gets : ∀ hash, call ≠ .swarmGet hash) (world : World) (swarm : List (String × Metadata)) :
    serve environment call (world.withSwarm swarm) =
      ((serve environment call world).1, (serve environment call world).2.withSwarm swarm) := by
  cases call with
  | swarmPost metadata => exact absurd rfl (posts metadata)
  | swarmGet hash => exact absurd rfl (gets hash)
  | transfer | transferFrom | mint | mintWithItemData =>
      apply (reshaping_withSwarm swarm).send
      intro value _
      rw [Option.map_map]
      rfl
  | issuePO | issueInvoice | updatePOStatus | updateInvoiceStatus =>
      exact (reshaping_withSwarm swarm).procure environment world _ fun _ _ => ⟨rfl, rfl⟩
  | updateInvoice poId invoiceId itemPrice =>
      simp only [serve]
      split <;> rfl
  | getTransactionCount account => cases account <;> rfl
  | balanceOf | ownerOf | getMetadata | tokenBalanceOf | getPOById | getInvoiceById =>
      simp only [serve]
      rw [World.ask_reshaped (World.withSwarm swarm)]
      rfl
  | _ => rfl

theorem own_stores {call : Call} (posts : ∀ metadata, call ≠ .swarmPost metadata)
    (gets : ∀ hash, call ≠ .swarmGet hash) {below : World × Storage} {above : World}
    (stores : Stores runtime numerals below above) :
    (serve environment call below.1).1 = (serve environment call above).1 ∧
      Stores runtime numerals ((serve environment call below.1).2, below.2)
        (serve environment call above).2 := by
  have served := @serve_withSwarm environment call posts gets below.1 above.swarm
  rw [← stores.world] at served
  rw [served]
  exact ⟨rfl, rfl, stores.node, stores.exact⟩

/-! ### Calls that reach the node -/

/-- The latest description under a hash counts, here and in the node. -/
theorem Stores.post {below : World × Storage} {above : World}
    (stores : Stores runtime numerals below above) {metadata : Metadata} (posted : metadata.Exact)
    (hash : String) :
    Stores runtime numerals
      (below.1, { below.2 with
        node := below.2.node.put hash (runtime.stringify (metadata.toJson numerals)) })
      { above with swarm := (hash, metadata) :: above.swarm } where
  world := by
    have same := stores.world
    exact congrArg (fun world : World => { world with swarm := (hash, metadata) :: above.swarm })
      same
  node := by
    intro wanted
    show Function.update below.2.node hash _ wanted = _
    rw [List.lookup_cons]
    by_cases same : wanted = hash
    · subst same
      simp
    · rw [Function.update_of_ne same, beq_false_of_ne same]
      exact stores.node wanted
  exact := by
    intro wanted found
    rw [List.lookup_cons]
    split
    · rintro ⟨⟩
      exact posted
    · exact stores.exact wanted found

/-- The node answers a post with the hash of the description. -/
theorem swarmPost_serves (roundTrip : runtime.RoundTrip)
    (hashed : HashedByService environment runtime numerals) {metadata : Metadata}
    (exact : metadata.Exact) {below : World × Storage} {above : World}
    (stores : Stores runtime numerals below above) :
    (calls runtime numerals).decode (.swarmPost metadata)
        (serveDeployed environment runtime errorPage
          ((calls runtime numerals).encode (.swarmPost metadata)) below).1 =
      (serve environment (.swarmPost metadata) above).1 ∧
    Stores runtime numerals
      (serveDeployed environment runtime errorPage
        ((calls runtime numerals).encode (.swarmPost metadata)) below).2
      (serve environment (.swarmPost metadata) above).2 := by
  have parsed : parseBody runtime (runtime.stringify (metadata.toJson numerals)) =
      if bodyLimit < (utf8 (runtime.stringify (metadata.toJson numerals))).length
      then .error .tooLarge else .ok (metadata.toJson numerals) :=
    Assets.parseBody_stringify roundTrip (Metadata.toJson_mem_values numerals exact)
  simp only [serve, hashed metadata exact, serviceHash, Translation.encode, Translation.decode,
    calls]
  by_cases large : bodyLimit < (utf8 (runtime.stringify (metadata.toJson numerals))).length
  · rw [if_pos large] at parsed ⊢
    rw [parsed]
    exact ⟨rfl, stores⟩
  · rw [if_neg large] at parsed ⊢
    rw [parsed]
    refine ⟨?_, stores.post exact _⟩
    show Except.ok (((runtime.parse (runtime.stringify (rootHashJson (some (textHash runtime
      (runtime.stringify (metadata.toJson numerals))))))).bind _).bind _) = _
    rw [roundTrip _ (Assets.rootHashJson_mem_values runtime _)]
    rfl

theorem deployed_refines (roundTrip : runtime.RoundTrip)
    (pages : ∀ hash, runtime.parse (errorPage hash) = none)
    (hashed : HashedByService environment runtime numerals) :
    @Refines (sharedApi environment) _ _ _ (serveDeployed environment runtime errorPage)
      (fun request => (handle environment request).carriedOut (implementation runtime numerals))
      (calls runtime numerals) (Stores runtime numerals)
      (fun call => ∀ metadata, call = .swarmPost metadata → metadata.Exact) where
  handlers := fun request =>
    Translation.carriesOut_carriedOut (implementation_single runtime numerals) _
  serves := by
    intro call below above posted stores
    cases call with
    | swarmPost metadata => exact swarmPost_serves roundTrip hashed (posted metadata rfl) stores
    | swarmGet hash =>
        refine ⟨?_, stores⟩
        show Except.ok ((runtime.parse (Assets.nodeResponse errorPage below.2.node hash).body).bind
          _) = Except.ok (above.swarm.lookup hash)
        rw [Assets.nodeResponse_body, stores.node]
        cases found : above.swarm.lookup hash with
        | none => simp [pages]
        | some metadata =>
            have exact := stores.exact hash metadata found
            simp [roundTrip _ (Metadata.toJson_mem_values numerals exact),
              Metadata.ofJson_toJson numerals exact]
    | _ =>
        apply own_stores _ _ stores
        · rintro _ ⟨⟩
        · rintro _ ⟨⟩

end Deployed

/-- The two servers have come equally far: the same requests have ended with the same
responses, the variables and the chain are the same, and the node has what was posted. -/
structure SameServer {environment : Environment} {runtime : Runtime}
    {numerals : Numerals runtime} {errorPage : String → String}
    (below : Pool (deployedApi environment runtime numerals errorPage))
    (above : Pool (sharedApi environment)) : Prop where
  outcomes : ∀ (index : Nat) request outcome,
    below.tasks[index]? = some ⟨request, .ended outcome⟩ ↔
      above.tasks[index]? = some ⟨request, .ended outcome⟩
  globals : below.globals = above.globals
  stores : Stores runtime numerals below.world above.world

/-- Decimal digits. -/
def Numerals.decimal (keccak : Bytes → Swarm.Digest) : Numerals (Runtime.compact keccak) where
  write := fun value =>
    ⟨Nat.toDigits 10 value, Nat.toDigits_ne_nil, fun char member => by
      have digit : char.isDigit = true :=
        Nat.isDigit_of_mem_toDigits (by decide) (by decide) member
      simp [Assets.isNumberChar, digit]⟩
  read := fun number => some (Nat.ofDigitChars 10 number.text 0)
  numeral := fun _ => Assets.JsonText.parse_stringify (.number _)
  read_write := fun _ => congrArg some Nat.ofDigitChars_ten_toDigits

/-- The test network with the root hashes of the asset service. -/
def servedNetwork : Environment := { testNetwork with
  rootHash := serviceHash (Runtime.compact Assets.lastBytes) (.decimal Assets.lastBytes) }

theorem servedNetwork_hashed : HashedByService servedNetwork (Runtime.compact Assets.lastBytes)
    (.decimal Assets.lastBytes) := by
  intro metadata _
  simp only [servedNetwork]

abbrev servedApi : System :=
  deployedApi servedNetwork (Runtime.compact Assets.lastBytes) (.decimal Assets.lastBytes)
    fun _ => "Not Found"

/-- The hash of the description of the cheese. -/
def cheeseHash : String :=
  descriptionHash (Runtime.compact Assets.lastBytes)
    (Metadata.toJson (.decimal Assets.lastBytes) ⟨"1002", some "CHEESE", "KG", 2, 5⟩)

/-- The cheese is ordered, billed, tokenized and delivered. -/
def cheeseDelivered : List (Action servedApi) :=
  Action.alone 0 cheeseOrder 2 ++ Action.alone 1 cheeseInvoice 4 ++
    Action.alone 2 cheeseToken 9 ++
    Action.alone 3 (Request.transferToken ("0x" ++ cheeseHash) "2" "1") 9

end PizzaChain.Api
