import PizzaChain.Api.Routes
import PizzaChain.Semantics.Sequence

/-! # Delivery of a token

`transferToken` moves the token and then writes two statuses. The second update
is meant for the invoice but writes the table of purchase orders, so a delivery
that moves the token is never complete.
-/

namespace PizzaChain.Api

open PizzaChain.Chain

variable {environment : Environment} {cell : Nat → Nat}

/-- The token is with the supplier and goes to another account. -/
def delivers (environment : Environment) (token : ItemToken)
    (tokenId supplierId payerId : String) : Bool :=
  match environment.encodeUint tokenId, accountAt environment.accounts supplierId,
    accountAt environment.accounts payerId with
  | some number, some supplier, some payer =>
      token.tokenOwner number == supplier && payer != supplier
  | _, _, _ => false

theorem delivers_iff {token : ItemToken} {tokenId supplierId payerId : String} :
    delivers environment token tokenId supplierId payerId = true ↔
      ∃ number supplier payer, environment.encodeUint tokenId = some number ∧
        accountAt environment.accounts supplierId = some supplier ∧
        accountAt environment.accounts payerId = some payer ∧
        token.tokenOwner number = supplier ∧ payer ≠ supplier := by
  constructor
  · intro moves
    rw [delivers] at moves
    split at moves
    · rename_i number supplier payer encoded supplying paying
      simp only [Bool.and_eq_true, beq_iff_eq, bne_iff_ne] at moves
      exact ⟨number, supplier, payer, encoded, supplying, paying, moves⟩
    · cases moves
  · intro parts
    rcases parts with ⟨number, supplier, payer, encoded, supplying, paying, owned, different⟩
    simp [delivers, encoded, supplying, paying, owned, different]

/-! ## The client -/

/-- A transfer that is not a delivery is rejected. -/
theorem transferFrom_rejected {world : World} {tokenId supplierId payerId : String} {number : Nat}
    {owner : Address}
    (stays : delivers environment world.token tokenId supplierId payerId = false)
    (encoded : environment.encodeUint tokenId = some number)
    (owned : world.token.ownerOf number = some owner)
    (different : accountAt environment.accounts payerId ≠ some owner) :
    ∃ failure transactions,
      serve environment (.transferFrom (accountAt environment.accounts supplierId)
        (accountAt environment.accounts supplierId) (accountAt environment.accounts payerId)
        (some number)) world = (.error failure, { world with transactions := transactions }) := by
  cases supplying : accountAt environment.accounts supplierId with
  | none => exact ⟨.invalidArgument, world.transactions, rfl⟩
  | some supplier =>
      cases paying : accountAt environment.accounts payerId with
      | none => exact ⟨.invalidArgument, world.transactions, rfl⟩
      | some payer =>
          have others : world.token.tokenOwner number ≠ supplier := by
            intro supplied
            have nonzero := environment.accountAt_ne_zero supplying
            rw [ItemToken.ownerOf_of_owner supplied nonzero] at owned
            rw [paying, ← owned] at different
            have moves := delivers_iff.mpr ⟨number, supplier, payer, encoded, supplying, paying,
              supplied, fun same => different (congrArg some same)⟩
            rw [stays] at moves
            cases moves
          refine ⟨.reverted, world.transactions ++ [supplier], ?_⟩
          simp [serve, World.send, World.mined, ItemToken.transferFrom_of_not_owner others]

section Client

variable {continuation : TransferDetails → Handler β} {view : View (api environment cell)}
  {post : Except Failure β → View (api environment cell) → Prop}
  {tokenId supplierId payerId : String}

/-- Without a delivery the world stays as it is, but for a transfer that reverts. -/
theorem ensures_transferToken_of_not
    (stays : delivers environment view.world.token tokenId supplierId payerId = false)
    (fails : ∀ error transactions globals trace, post (.error error)
      ⟨{ view.world with transactions := transactions }, globals, trace⟩)
    (refuses : ∀ globals trace,
      (continuation ⟨false, none⟩).Ensures ⟨view.world, globals, trace⟩ post) :
    (ItemTokenClient.transferToken environment supplierId payerId tokenId >>=
      continuation).Ensures view post := by
  simp only [ItemTokenClient.transferToken, Program.bind_assoc]
  apply Program.ensures_ok rfl
  apply Program.ensures_modify
  apply Program.ensures_ok rfl
  apply Program.ensures_modify
  cases encoded : environment.encodeUint tokenId with
  | none => exact Program.ensures_error rfl (fails _ view.world.transactions _ _)
  | some number =>
      cases owned : view.world.token.ownerOf number with
      | none =>
          have served : serve environment (.ownerOf (some number)) view.world =
              (.error .reverted, view.world) := by
            simp [serve, World.ask, owned]
          exact Program.ensures_error served (fails _ view.world.transactions _ _)
      | some owner =>
          have served : serve environment (.ownerOf (some number)) view.world =
              (.ok owner, view.world) := by
            simp [serve, World.ask, owned]
          apply Program.ensures_ok served
          apply Program.ensures_get
          split
          · rename_i different
            rcases transferFrom_rejected stays encoded owned different with
              ⟨failure, transactions, rejected⟩
            simp only [Program.bind_assoc]
            exact Program.ensures_error rejected (fails _ transactions _ _)
          · exact refuses _ _

/-- A delivery moves the token to the payer. -/
theorem ensures_transferToken_of_delivers
    (moves : delivers environment view.world.token tokenId supplierId payerId = true)
    (delivered : ∀ number payer token receipt transactions globals trace,
      environment.encodeUint tokenId = some number →
      accountAt environment.accounts payerId = some payer →
      payer ≠ view.world.token.tokenOwner number →
      token.tokenOwner = Function.update view.world.token.tokenOwner number payer →
      (continuation ⟨true, some receipt⟩).Ensures
        (⟨{ view.world with token := token, transactions := transactions }, globals, trace⟩ :
          View (api environment cell)) post) :
    (ItemTokenClient.transferToken environment supplierId payerId tokenId >>=
      continuation).Ensures view post := by
  rcases delivers_iff.mp moves with
    ⟨number, supplier, payer, encoded, supplying, paying, owned, different⟩
  have supplierNonzero := environment.accountAt_ne_zero supplying
  have payerNonzero := environment.accountAt_ne_zero paying
  rcases ItemToken.transferFrom_of_owner owned supplierNonzero payerNonzero with
    ⟨token, transfers, owners⟩
  have owns : token.tokenOwner number = payer := by
    rw [owners, Function.update_self]
  let moved : World := { view.world with token := token }.mined supplier
  have before : serve environment (.ownerOf (some number)) view.world =
      (.ok supplier, view.world) := by
    simp [serve, World.ask, ItemToken.ownerOf_of_owner owned supplierNonzero]
  have sent : serve environment (.transferFrom (some supplier) (some supplier) (some payer)
      (some number)) view.world = (.ok view.world.transactions.length, moved) := by
    simp [serve, World.send, transfers, moved]
  have after : serve environment (.ownerOf (some number)) moved = (.ok payer, moved) := by
    simp [serve, World.ask, moved, World.mined, ItemToken.ownerOf_of_owner owns payerNonzero]
  simp only [ItemTokenClient.transferToken, Program.bind_assoc]
  rw [encoded]
  apply Program.ensures_ok rfl
  apply Program.ensures_modify
  rw [paying]
  apply Program.ensures_ok rfl
  apply Program.ensures_modify
  rw [supplying]
  apply Program.ensures_ok before
  apply Program.ensures_get
  rw [if_pos (by simpa using different)]
  simp only [Program.bind_assoc]
  apply Program.ensures_ok sent
  apply Program.ensures_ok after
  apply Program.ensures_get
  rw [if_pos rfl]
  exact delivered number payer token _ _ _ _ encoded paying (owned ▸ different) owners

end Client

/-! ## The route -/

/-- The token, the purchase order and the invoice of its row are delivered, and
nothing else is changed. -/
def Delivered (environment : Environment) (tokenId payerId : String) (before after : World) :
    Prop :=
  ∃ number payer row po invoice,
    environment.encodeUint tokenId = some number ∧
    accountAt environment.accounts payerId = some payer ∧
    before.rows.find? (Query.tokenId tokenId).matches = some row ∧
    row.poId.bind environment.encodeUint = some po ∧
    row.invoiceId.bind environment.encodeUint = some invoice ∧
    after.token.tokenOwner number = payer ∧
    (after.procurement.pos po).status = PoStatus.delivered.text ∧
    (after.procurement.invoices invoice).status = InvoiceStatus.completed.text ∧
    (∀ other, other ≠ number → after.token.tokenOwner other = before.token.tokenOwner other) ∧
    (∀ other, other ≠ po → after.procurement.pos other = before.procurement.pos other) ∧
    (∀ other, other ≠ invoice →
      after.procurement.invoices other = before.procurement.invoices other)

def AllOrNothing (environment : Environment) (tokenId payerId : String) (before after : World) :
    Prop :=
  Delivered environment tokenId payerId before after ∨
    (after.token.tokenOwner = before.token.tokenOwner ∧ after.procurement = before.procurement)

/-- What is left to call once the token has moved. -/
def ReadsOrUpdatesPO (call : Call) : Prop :=
  call.reads = true ∨ ∃ poId status, call = .updatePOStatus poId status

theorem ReadsOrUpdatesPO.token {call : Call} (allowed : ReadsOrUpdatesPO call)
    (environment : Environment) (world : World) :
    (serve environment call world).2.token = world.token := by
  rcases allowed with reads | ⟨poId, status, rfl⟩
  · rw [serve_of_reads environment reads]
  · exact (serve_framed environment _ world).token (by simp [Call.changes])

theorem ReadsOrUpdatesPO.invoices {call : Call} (allowed : ReadsOrUpdatesPO call)
    (environment : Environment) (world : World) :
    (serve environment call world).2.procurement.invoices = world.procurement.invoices := by
  rcases allowed with reads | ⟨poId, status, rfl⟩
  · rw [serve_of_reads environment reads]
  · exact invoices_updatePOStatus environment poId status world

section Route

variable {view : View (api environment cell)} {tokenId supplierId payerId : String}

theorem transferToken_alone_of_not
    (stays : delivers environment view.world.token tokenId supplierId payerId = false) :
    (handle environment (.transferToken tokenId supplierId payerId)).Ensures view
      fun _ after => after.world.token = view.world.token ∧
        after.world.procurement = view.world.procurement := by
  simp only [handle, Controller.getTransactionByTokenId, Controller.transferToken,
    ProcurementService.getProcurementByTokenId, Program.bind_assoc, Program.pure_eq_done,
    Program.done_bind]
  apply Program.ensures_ok rfl
  apply ensures_transferToken_of_not
  · exact stays
  · exact fun _ _ _ _ => ⟨rfl, rfl⟩
  · intro globals trace
    refine ensures_reads environment ?_ fun _ _ _ => ⟨rfl, rfl⟩
    refine Program.Calls.bind ?_ fun _ => (retrieveMetadata_reads tokenId).bind fun _ => trivial
    trivial

/-- A delivery leaves the invoices as they are. -/
theorem transferToken_alone_of_delivers
    (moves : delivers environment view.world.token tokenId supplierId payerId = true) :
    (handle environment (.transferToken tokenId supplierId payerId)).Ensures view
      fun _ after => after.world.token.tokenOwner ≠ view.world.token.tokenOwner ∧
        after.world.procurement.invoices = view.world.procurement.invoices := by
  simp only [handle, Controller.getTransactionByTokenId, Controller.transferToken,
    ProcurementService.getProcurementByTokenId, Program.bind_assoc, Program.pure_eq_done,
    Program.done_bind]
  apply Program.ensures_ok rfl
  apply ensures_transferToken_of_delivers
  · exact moves
  intro number payer token receipt transactions globals trace _ _ different owners
  have calls : (Controller.recordDelivery environment ⟨200, "Procurement Transaction Retrieved",
        List.filter (Query.tokenId tokenId).matches view.world.rows, none⟩
        ⟨true, some receipt⟩ >>= fun _ =>
      Controller.retrieveMetadata tokenId >>= fun response =>
        Program.done (response.map Data.metadata)).Calls ReadsOrUpdatesPO := by
    refine Program.Calls.bind ?_ fun _ => ?_
    · apply recordDelivery_calls
      exact fun poId status => .inr ⟨poId, status, rfl⟩
    · refine Program.Calls.bind ?_ fun _ => trivial
      exact (retrieveMetadata_reads tokenId).mono fun _ reads => .inl reads
  have kept := Program.alone_invariant
    (⟨{ view.world with token := token, transactions := transactions }, globals, trace⟩ :
      View (api environment cell))
    (fun world => world.token = token ∧
      world.procurement.invoices = view.world.procurement.invoices)
    (fun call world allowed before =>
      ⟨(allowed.token environment world).trans before.1,
        (allowed.invoices environment world).trans before.2⟩) calls ⟨rfl, rfl⟩
  refine ⟨fun same => different ?_, kept.2⟩
  have owner := congrFun (same.symm.trans (congrArg ItemToken.tokenOwner kept.1)) number
  rw [owners, Function.update_self] at owner
  exact owner.symm

end Route

/-! ## Reachable states -/

/-- No invoice has the status that a delivery should give it. -/
def NeverCompleted (procurement : Procurement) : Prop :=
  ∀ number, (procurement.invoices number).status ≠ InvoiceStatus.completed.text

theorem NeverCompleted.issue {procurement : Procurement} (never : NeverCompleted procurement)
    (invoiceId poId : Nat) (supplierId : String) (itemType qty : Nat) (uom : String) (price : Nat) :
    NeverCompleted (procurement.issueInvoice invoiceId poId supplierId itemType qty uom price
      InvoiceStatus.issued.text) := by
  intro number
  by_cases same : number = invoiceId
  · simp [same, InvoiceStatus.text]
  · rw [Procurement.invoices_issueInvoice_of_ne _ _ _ _ _ _ _ _ _ same]
    exact never number

theorem NeverCompleted.pay {procurement : Procurement} (never : NeverCompleted procurement)
    (invoiceId : Nat) :
    NeverCompleted (procurement.updateInvoiceStatus invoiceId
      InvoiceStatus.paymentReceived.text) := by
  intro number
  by_cases same : number = invoiceId
  · simp [same, InvoiceStatus.text]
  · rw [Procurement.invoices_updateInvoiceStatus_of_ne _ _ _ same]
    exact never number

/-- The requests write other statuses to invoices. -/
theorem neverCompleted_kept (environment : Environment) (cell : Nat → Nat) :
    @KeptByCalls (api environment cell) (Request.MayCall environment)
      fun _ world => NeverCompleted world.procurement where
  handlers := handle_mayCall environment
  starts := fun _ _ _ before => before
  keeps := by
    intro requests request call world _ allowed before
    have effect := invoice_effect environment call world
    generalize (serve environment call world).2.procurement = after at effect ⊢
    cases effect with
    | same invoices issued =>
        intro number
        rw [invoices]
        exact before number
    | issue =>
        rw [allowed.2]
        exact before.issue _ _ _ _ _ _ _
    | update =>
        rcases allowed with ⟨_, _, _, _, _, received⟩
        rw [received]
        exact before.pay _

theorem neverCompleted_of_reachable {condition : Pool (api environment cell) → Action _ → Prop}
    {globals : Nat → Globals} {actions : List (Action (api environment cell))}
    {pool : Pool (api environment cell)}
    (run : Transitions (Pool.Step condition)
      (Pool.initial (World.deployed environment) globals) actions pool) :
    NeverCompleted pool.world.procurement := by
  have deployed : NeverCompleted (World.deployed environment).procurement := by
    intro number
    exact show "" ≠ "COMPLETED" by decide
  exact ((neverCompleted_kept environment cell).run run (Pool.calls_initial _ _ _) deployed).2

/-- In every reachable state, a delivery request that runs alone does all or
nothing exactly if the token stays where it is. -/
theorem transferToken_allOrNothing_iff (environment : Environment) (cell : Nat → Nat)
    (globals : Nat → Globals) (actions : List (Action (api environment cell)))
    (pool : Pool (api environment cell))
    (run : Transitions (Pool.Step fun _ _ => True)
      (Pool.initial (World.deployed environment) globals) actions pool)
    (tokenId supplierId payerId : String) :
    AllOrNothing environment tokenId payerId pool.world
        ((handle environment (.transferToken tokenId supplierId payerId)).alone
          (pool.view pool.tasks.length)).2.world ↔
      delivers environment pool.world.token tokenId supplierId payerId = false := by
  constructor
  · intro whole
    by_contra delivery
    have moves : delivers environment (pool.view pool.tasks.length).world.token tokenId supplierId
        payerId = true := Bool.of_not_eq_false delivery
    have ends := transferToken_alone_of_delivers moves
    rcases whole with ⟨_, _, _, _, invoice, _, _, _, _, _, _, _, completed, _⟩ | ⟨owners, _⟩
    · -- The status would have to have been there before.
      rw [ends.2] at completed
      exact neverCompleted_of_reachable run invoice completed
    · exact ends.1 owners
  · intro stays
    have same := @transferToken_alone_of_not environment cell (pool.view pool.tasks.length)
      tokenId supplierId payerId stays
    exact .inr ⟨congrArg ItemToken.tokenOwner same.1, same.2⟩

/-- CheeseCo has the token, DoughCo does not. -/
theorem cheeseToken_allOrNothing :
    ∃ actions, ∃ pool : Pool (api testNetwork fun _ => 0),
      Transitions (Pool.Step fun _ _ => True)
        (Pool.initial (World.deployed testNetwork) fun _ => Globals.initial) actions pool ∧
      pool.world.token.tokenOwner 4098 = 3 ∧
      AllOrNothing testNetwork "0x1002" "1" pool.world
        ((handle testNetwork (.transferToken "0x1002" "3" "1")).alone
          (pool.view pool.tasks.length)).2.world := by
  have ran : ((Sequence.initial (World.deployed testNetwork) Globals.initial :
          Sequence (api testNetwork fun _ => 0)).run (fun _ _ => true)
        [cheeseOrder, cheeseInvoice, cheesePayment, cheeseToken]).map (fun final =>
          (final.world.token.tokenOwner 4098,
            delivers testNetwork final.world.token "0x1002" "3" "1")) =
      some (3, false) := by decide +kernel
  rcases Option.map_eq_some_iff.mp ran with ⟨final, runs, reached⟩
  rcases Sequence.exists_pool_run (fun _ _ => rfl) (Sequence.transitions_of_run runs)
    (Sequence.follows_initial _ _) with ⟨actions, pool, run, follows⟩
  simp only [Prod.mk.injEq] at reached
  rw [← follows.world] at reached
  exact ⟨actions, pool, run, reached.1,
    (transferToken_allOrNothing_iff testNetwork _ _ _ pool run "0x1002" "3" "1").mpr reached.2⟩

/-- The token moves to PizzaCo, and the invoice keeps its status. -/
theorem cheeseToken_not_allOrNothing :
    ∃ pool : Pool (api testNetwork fun _ => 0), Transitions (Pool.Step fun _ _ => True)
        (Pool.initial (World.deployed testNetwork) fun _ => Globals.initial)
        (Action.alone 0 cheeseOrder 2 ++ Action.alone 1 cheeseInvoice 4 ++
          Action.alone 2 cheesePayment 12 ++ Action.alone 3 cheeseToken 9) pool ∧
      ¬AllOrNothing testNetwork "0x1002" "1" pool.world
        ((handle testNetwork (.transferToken "0x1002" "2" "1")).alone
          (pool.view pool.tasks.length)).2.world := by
  let after (pool : Pool (api testNetwork fun _ => 0)) : World :=
    ((handle testNetwork (.transferToken "0x1002" "2" "1")).alone
      (pool.view pool.tasks.length)).2.world
  have ran : ((Pool.initial (World.deployed testNetwork) fun _ => Globals.initial :
          Pool (api testNetwork fun _ => 0)).run (fun _ _ => true)
        (Action.alone 0 cheeseOrder 2 ++ Action.alone 1 cheeseInvoice 4 ++
          Action.alone 2 cheesePayment 12 ++ Action.alone 3 cheeseToken 9)).map (fun pool =>
            (pool.world.token.tokenOwner 4098, (after pool).token.tokenOwner 4098,
              pool.world.rows.find? (Query.tokenId "0x1002").matches,
              ((after pool).procurement.invoices 1002).status)) =
      some (3, 2, some ⟨some "1000", some "CHEESECO", some "1001", some "1002", some "0x1002"⟩,
        "PAYMENT RECEIVED") := by decide +kernel
  rcases Option.map_eq_some_iff.mp ran with ⟨pool, runs, reached⟩
  simp only [Prod.mk.injEq] at reached
  rcases reached with ⟨before, moved, found, status⟩
  refine ⟨pool, Pool.transitions_of_free_run runs, fun whole => ?_⟩
  rcases whole with ⟨_, _, row, _, invoice, _, _, looked, _, encoded, _, _, completed, _⟩ |
    ⟨owners, _⟩
  · rw [found] at looked
    cases looked
    have invoice_eq : invoice = 1002 := (Option.some.inj encoded).symm
    rw [invoice_eq] at completed
    exact absurd (status.symm.trans completed) (by decide)
  · have same := congrFun owners 4098
    exact absurd (moved.symm.trans (same.trans before)) (by decide)

end PizzaChain.Api
