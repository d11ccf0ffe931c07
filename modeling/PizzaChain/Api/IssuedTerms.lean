import PizzaChain.Api.Lookups
import PizzaChain.Chain.TokenCalls
import PizzaChain.Semantics.Tickets

/-! # What is issued is final

The contract lets an id be issued again, which would overwrite its terms. The server
never does: every id that it issues is drawn right before the call, so that all
requests together only add to what was there, in any interleaving.
-/

namespace PizzaChain.Api

open PizzaChain.Chain

variable {environment : Environment} {number : Nat → Nat}

/-! ## The ids that requests draw -/

/-- The id that a call issues. -/
def Call.issues : Call → Option Nat
  | .issuePO poId _ _ _ _ _ => poId
  | .issueInvoice invoiceId _ _ _ _ _ _ _ => invoiceId
  | _ => none

/-- Calls that issue are stamped with the number of a drawn id. -/
def idTickets (fresh : FreshIds environment number) : Ticketing server Nat where
  counter := Globals.ids
  stamp := number
  distinct := fresh.injective
  ofCall := Call.issues

section Stamps

variable (fresh : FreshIds environment number)

theorem wait_stamps (point : Point) {call : Call} (issues : call.issues = none) :
    (idTickets fresh).Stamps (wait point call) :=
  Ticketing.stamps_call issues

/-- The other variables are not drawn from. -/
theorem modify_stamps {change : Globals → Globals} {continuation : Unit → Handler α}
    (keeps : ∀ globals, (change globals).ids = globals.ids)
    (continues : (idTickets fresh).Stamps (continuation ())) :
    (idTickets fresh).Stamps (Program.modify change >>= continuation) := by
  refine Ticketing.Stamps.bind (Ticketing.stamps_modify fun globals => ?_) fun _ => continues
  exact Nat.le_of_eq (keeps globals).symm

theorem get_stamps : (idTickets fresh).Stamps (Program.get : Handler Globals) :=
  Ticketing.stamps_get

theorem pure_stamps (result : α) : (idTickets fresh).Stamps (pure result : Handler α) :=
  Ticketing.stamps_pure result

theorem uniqueId_stamps {continuation : String → Handler α}
    (continues : ∀ drawn first (globals : Globals), first ≤ drawn → drawn < globals.ids →
      (idTickets fresh).Draws first (continuation (environment.uniqueId drawn)) globals) :
    (idTickets fresh).Stamps (Controller.uniqueId environment >>= continuation) :=
  fun first globals started => continues globals.ids first _ started (Nat.lt_succ_self _)

/-- A call that issues the drawn id. -/
theorem draws_issue {call : Call} {drawn first : Nat} {globals : Globals}
    (issues : call.issues = environment.encodeUint (environment.uniqueId drawn))
    (late : first ≤ drawn) (early : drawn < globals.ids) :
    (idTickets fresh).Draws first (wait .contract call) globals := by
  apply Ticketing.draws_call (Nat.le_trans late (Nat.le_of_lt early))
  intro stamp stamped
  have same : stamp = number drawn :=
    Option.some.inj ((stamped.symm.trans issues).trans (fresh.encoded drawn))
  exact ⟨drawn, late, early, same⟩

/-! ### Functions that only read -/

theorem getPOById_stamps (poId : String) :
    (idTickets fresh).Stamps (Controller.getPOById environment poId) := by
  apply (wait_stamps fresh _ rfl).bind
  intro po
  split <;> exact pure_stamps fresh _

theorem getInvoiceById_stamps (invoiceId : String) (encoded : Option Nat) :
    (idTickets fresh).Stamps (Controller.getInvoiceById invoiceId encoded) := by
  apply (wait_stamps fresh _ rfl).bind
  intro invoice
  split <;> exact pure_stamps fresh _

theorem invoiceDetails_stamps (invoiceIds : List Nat) :
    (idTickets fresh).Stamps (Controller.invoiceDetails invoiceIds) := by
  induction invoiceIds with
  | nil => exact pure_stamps fresh _
  | cons invoiceId invoiceIds induction =>
      apply (getInvoiceById_stamps fresh _ _).bind
      intro response
      exact induction.bind fun rest => pure_stamps fresh _

theorem rowPO_stamps (row : Row) (filter : String) :
    (idTickets fresh).Stamps (Controller.rowPO environment row filter) := by
  rw [Controller.rowPO]
  split
  · exact pure_stamps fresh _
  · split
    · exact pure_stamps fresh _
    · exact (getPOById_stamps fresh _).bind fun poData => pure_stamps fresh _

theorem rowInvoice_stamps (row : Row) (filter : String) :
    (idTickets fresh).Stamps (Controller.rowInvoice environment row filter) := by
  rw [Controller.rowInvoice]
  split
  · exact pure_stamps fresh _
  · split
    · exact pure_stamps fresh _
    · exact (getInvoiceById_stamps fresh _ _).bind fun invoiceData => pure_stamps fresh _

theorem getTransactionDetails_stamps (filter : String) (rows : List Row) :
    (idTickets fresh).Stamps (Controller.getTransactionDetails environment filter rows) := by
  induction rows with
  | nil => exact pure_stamps fresh _
  | cons row rows induction =>
      apply (rowPO_stamps fresh row filter).bind
      intro po
      apply (rowInvoice_stamps fresh row filter).bind
      intro invoice
      apply induction.bind
      intro rest
      split <;> exact pure_stamps fresh _

/-- The three listings, which read the rows and then their details. -/
theorem listing_stamps (query : Query) (filter : String)
    (respond : List TransactionDetails → Response (List TransactionDetails)) :
    (idTickets fresh).Stamps (do
      let rows ← wait .database (.findRows query)
      let details ← Controller.getTransactionDetails environment filter rows
      return respond details) := by
  apply (wait_stamps fresh _ rfl).bind
  intro rows
  exact (getTransactionDetails_stamps fresh filter rows).bind fun _ => pure_stamps fresh _

/-- The two balances differ in the contract that is asked. -/
theorem balance_stamps {ask : Option Address → Call} (entityId : String)
    (asks : ∀ account, (ask account).issues = none)
    {continuation : (globals : Globals) → (ask globals.acc).Answer → Handler α}
    (continues : ∀ globals balance, (idTickets fresh).Stamps (continuation globals balance)) :
    (idTickets fresh).Stamps (do
      let accounts ← wait .accounts .getAccounts
      Program.modify fun globals => { globals with acc := accountAt accounts entityId }
      let globals ← Program.get
      let balance ← wait .balance (ask globals.acc)
      continuation globals balance) := by
  apply (wait_stamps fresh _ rfl).bind
  intro accounts
  refine modify_stamps fresh (fun _ => rfl) ?_
  apply (get_stamps fresh).bind
  intro globals
  exact (wait_stamps fresh _ (asks _)).bind (continues globals)

theorem retrieveMetadata_stamps (tokenId : String) :
    (idTickets fresh).Stamps (Controller.retrieveMetadata tokenId) := by
  refine Ticketing.Stamps.bind ?_ fun _ => pure_stamps fresh _
  rw [Controller.getMetadata]
  split
  · exact wait_stamps fresh _ rfl
  · exact wait_stamps fresh _ rfl

/-! ### Functions that write -/

theorem issueItems_stamps (transactionId : String) (items : List PurchaseItem) :
    (idTickets fresh).Stamps (Controller.issueItems environment transactionId items) := by
  induction items with
  | nil => exact pure_stamps fresh _
  | cons item items induction =>
      apply uniqueId_stamps fresh
      intro drawn first globals late early
      apply (draws_issue fresh rfl late early).bind
      intro _
      apply (wait_stamps fresh _ rfl).bind
      intro _
      exact induction.bind fun poIds => pure_stamps fresh _

theorem issuePO_stamps (items : List PurchaseItem) :
    (idTickets fresh).Stamps (Controller.issuePO environment items) := by
  apply uniqueId_stamps fresh
  intro drawn first globals late early
  refine Ticketing.Draws.bind ?_ fun poIds => pure_stamps fresh _
  exact issueItems_stamps fresh _ items first globals (Nat.le_trans late (Nat.le_of_lt early))

theorem ackPO_stamps (poId : String) :
    (idTickets fresh).Stamps (Controller.ackPO environment poId) := by
  apply (wait_stamps fresh _ rfl).bind
  intro po
  exact (wait_stamps fresh _ rfl).bind fun _ => pure_stamps fresh _

theorem issueInvoice_stamps (poData : PoData) (itemPrice : Option String) :
    (idTickets fresh).Stamps (Controller.issueInvoice environment poData itemPrice) := by
  apply uniqueId_stamps fresh
  intro drawn first globals late early
  apply (draws_issue fresh rfl late early).bind
  intro _
  exact (wait_stamps fresh _ rfl).bind fun _ => pure_stamps fresh _

theorem payAndReadBack_stamps (initial amount : Nat) :
    (idTickets fresh).Stamps (PizzaCoinClient.payAndReadBack initial amount) := by
  apply (get_stamps fresh).bind
  intro globals
  refine Ticketing.Stamps.bind ?_ fun receipt => ?_
  · apply (wait_stamps fresh _ rfl).bind
    intro _
    apply (wait_stamps fresh _ rfl).bind
    intro _
    exact (wait_stamps fresh _ rfl).bind fun _ => wait_stamps fresh _ rfl
  · apply (get_stamps fresh).bind
    intro globals
    apply (wait_stamps fresh _ rfl).bind
    intro balance
    split <;> exact pure_stamps fresh _

theorem transferAmount_stamps (userAccId merchantAcctId : String) (amount : Nat) :
    (idTickets fresh).Stamps
      (PizzaCoinClient.transferAmount environment userAccId merchantAcctId amount) := by
  apply (wait_stamps fresh _ rfl).bind
  intro accounts
  refine modify_stamps fresh (fun _ => rfl) ?_
  apply (wait_stamps fresh _ rfl).bind
  intro accounts
  refine modify_stamps fresh (fun _ => rfl) ?_
  apply (get_stamps fresh).bind
  intro globals
  apply (wait_stamps fresh _ rfl).bind
  intro payerBalance
  apply (get_stamps fresh).bind
  intro globals
  apply (wait_stamps fresh _ rfl).bind
  intro payeeBalance
  split
  · apply (get_stamps fresh).bind
    intro globals
    apply (wait_stamps fresh _ rfl).bind
    intro _
    exact payAndReadBack_stamps fresh _ amount
  · exact payAndReadBack_stamps fresh _ amount

theorem payment_stamps (invoiceId fromId toId : String) :
    (idTickets fresh).Stamps (Controller.payment environment invoiceId fromId toId) := by
  apply (wait_stamps fresh _ rfl).bind
  intro invoice
  apply (transferAmount_stamps fresh _ _ _).bind
  intro details
  rw [Controller.recordPayment]
  split
  · exact (wait_stamps fresh _ rfl).bind fun _ => pure_stamps fresh _
  · exact pure_stamps fresh _

theorem transferToken_stamps (merchantAcctId userAccId tokenId : String) :
    (idTickets fresh).Stamps
      (ItemTokenClient.transferToken environment merchantAcctId userAccId tokenId) := by
  apply (wait_stamps fresh _ rfl).bind
  intro accounts
  refine modify_stamps fresh (fun _ => rfl) ?_
  apply (wait_stamps fresh _ rfl).bind
  intro accounts
  refine modify_stamps fresh (fun _ => rfl) ?_
  apply (wait_stamps fresh _ rfl).bind
  intro tokenOwner
  apply (get_stamps fresh).bind
  intro globals
  split
  · apply (wait_stamps fresh _ rfl).bind
    intro receipt
    apply (wait_stamps fresh _ rfl).bind
    intro tokenOwner
    apply (get_stamps fresh).bind
    intro globals
    split <;> exact pure_stamps fresh _
  · exact pure_stamps fresh _

theorem recordDelivery_stamps (transaction : Response (List Row)) (details : TransferDetails) :
    (idTickets fresh).Stamps (Controller.recordDelivery environment transaction details) := by
  rw [Controller.recordDelivery]
  split
  · split
    · exact Ticketing.stamps_fail _
    · apply (wait_stamps fresh _ rfl).bind
      intro _
      exact (wait_stamps fresh _ rfl).bind fun _ => pure_stamps fresh _
  · exact pure_stamps fresh _

theorem mintItemToken_stamps (invoice : InvoiceData) :
    (idTickets fresh).Stamps (Controller.mintItemToken environment invoice) := by
  apply (wait_stamps fresh _ rfl).bind
  intro rootHash
  cases rootHash with
  | none => exact Ticketing.stamps_fail _
  | some rootHash =>
      refine Ticketing.Stamps.bind ?_ fun _ => pure_stamps fresh _
      exact (wait_stamps fresh _ rfl).bind fun _ => pure_stamps fresh _

theorem makeTokens_stamps (invoiceId : String) :
    (idTickets fresh).Stamps (Controller.makeTokens environment invoiceId) := by
  apply (wait_stamps fresh _ rfl).bind
  intro invoice
  apply (mintItemToken_stamps fresh _).bind
  intro tokenId
  refine Ticketing.Stamps.bind ?_ fun _ => ?_
  · apply (wait_stamps fresh _ rfl).bind
    intro accounts
    refine modify_stamps fresh (fun _ => rfl) ?_
    apply (wait_stamps fresh _ rfl).bind
    intro accounts
    refine modify_stamps fresh (fun _ => rfl) ?_
    apply (get_stamps fresh).bind
    intro globals
    exact wait_stamps fresh _ rfl
  · refine Ticketing.Stamps.bind ?_ fun _ => ?_
    · apply (wait_stamps fresh _ rfl).bind
      intro _
      exact (wait_stamps fresh _ rfl).bind fun _ => pure_stamps fresh _
    · exact (wait_stamps fresh _ rfl).bind fun _ => pure_stamps fresh _

theorem handle_stamps (request : Request) :
    (idTickets fresh).Stamps (handle environment request) := by
  cases request with
  | getTransactions filter =>
      exact (listing_stamps fresh _ _ _).bind fun _ => pure_stamps fresh _
  | getTransaction id filter =>
      exact (listing_stamps fresh _ _ _).bind fun _ => pure_stamps fresh _
  | getSupplierTransactions supplierId filter =>
      exact (listing_stamps fresh _ _ _).bind fun _ => pure_stamps fresh _
  | postPurchaseOrder items => exact (issuePO_stamps fresh items).bind fun _ => pure_stamps fresh _
  | getPurchaseOrder poId => exact (getPOById_stamps fresh poId).bind fun _ => pure_stamps fresh _
  | getPurchaseOrders =>
      refine Ticketing.Stamps.bind ?_ fun _ => pure_stamps fresh _
      exact (wait_stamps fresh _ rfl).bind fun _ => pure_stamps fresh _
  | postInvoice poId itemPrice =>
      apply (ackPO_stamps fresh poId).bind
      intro poDataRes
      exact (issueInvoice_stamps fresh _ _).bind fun _ => pure_stamps fresh _
  | getInvoice invoiceId =>
      exact (getInvoiceById_stamps fresh _ _).bind fun _ => pure_stamps fresh _
  | getInvoices =>
      refine Ticketing.Stamps.bind ?_ fun _ => pure_stamps fresh _
      exact (wait_stamps fresh _ rfl).bind fun _ => pure_stamps fresh _
  | getInvoiceDetails =>
      refine Ticketing.Stamps.bind ?_ fun _ => pure_stamps fresh _
      refine Ticketing.Stamps.bind ?_ fun response => ?_
      · exact (wait_stamps fresh _ rfl).bind fun _ => pure_stamps fresh _
      · exact (invoiceDetails_stamps fresh _).bind fun _ => pure_stamps fresh _
  | getBalance entityId =>
      refine Ticketing.Stamps.bind ?_ fun _ => pure_stamps fresh _
      refine Ticketing.Stamps.bind ?_ fun _ => pure_stamps fresh _
      exact balance_stamps fresh entityId (fun _ => rfl) fun _ _ => pure_stamps fresh _
  | paySupplier invoiceId payerId supplierId =>
      exact (payment_stamps fresh _ _ _).bind fun _ => pure_stamps fresh _
  | makeTokens invoiceId =>
      exact (makeTokens_stamps fresh invoiceId).bind fun _ => pure_stamps fresh _
  | transferToken tokenId supplierId payerId =>
      refine Ticketing.Stamps.bind ?_ fun transaction => ?_
      · exact (wait_stamps fresh _ rfl).bind fun _ => pure_stamps fresh _
      refine Ticketing.Stamps.bind ?_ fun _ => ?_
      · exact (transferToken_stamps fresh _ _ _).bind fun details =>
          recordDelivery_stamps fresh _ details
      · exact (retrieveMetadata_stamps fresh tokenId).bind fun _ => pure_stamps fresh _
  | getTokenBalance entityId =>
      refine Ticketing.Stamps.bind ?_ fun _ => pure_stamps fresh _
      refine Ticketing.Stamps.bind ?_ fun _ => pure_stamps fresh _
      exact balance_stamps fresh entityId (fun _ => rfl) fun _ _ => pure_stamps fresh _

end Stamps

/-! ## States that only grow -/

/-- The id that a transaction issues. -/
def issuedBy : ProcurementCall → Option Nat
  | .issuePO poId _ _ _ _ _ => some poId
  | .issueInvoice invoiceId _ _ _ _ _ _ _ => some invoiceId
  | .updatePOStatus _ _ | .updateInvoiceStatus _ _ => none

theorem issues_of_sent {call : Call} {sent : ProcurementCall} {id : Nat}
    (sends : call.procurementCall = some sent) (issued : issuedBy sent = some id) :
    call.issues = some id := by
  cases call with
  | issuePO poId supplierId itemType qty uom status =>
      simp only [Call.procurementCall, Option.bind_eq_bind, Option.bind_eq_some_iff] at sends
      rcases sends with ⟨_, encoded, _, _, _, _, _, _, _, _, equal⟩
      cases equal
      cases issued
      exact encoded
  | issueInvoice invoiceId poId supplierId itemType qty uom price status =>
      simp only [Call.procurementCall, Option.bind_eq_bind, Option.bind_eq_some_iff] at sends
      rcases sends with ⟨_, encoded, _, _, _, _, _, _, _, _, equal⟩
      cases equal
      cases issued
      exact encoded
  | updatePOStatus poId status =>
      rcases Option.map_eq_some_iff.mp sends with ⟨_, _, rfl⟩
      cases issued
  | updateInvoiceStatus invoiceId status =>
      rcases Option.map_eq_some_iff.mp sends with ⟨_, _, rfl⟩
      cases issued
  | _ => cases sends

/-- Orders and invoices are only added, the terms of those that were there are the same,
and an invoice that was paid is still paid. -/
structure ProcurementExtends (before after : Procurement) : Prop where
  orders : before.poArray <+: after.poArray
  orderTerms : ∀ poId ∈ before.poArray, (after.pos poId).terms = (before.pos poId).terms
  invoices : before.invoiceArray <+: after.invoiceArray
  invoiceTerms : ∀ invoiceId ∈ before.invoiceArray,
    (after.invoices invoiceId).terms = (before.invoices invoiceId).terms
  paid : ∀ invoiceId ∈ before.invoiceArray,
    (before.invoices invoiceId).status = InvoiceStatus.paymentReceived.text →
      (after.invoices invoiceId).status = InvoiceStatus.paymentReceived.text

/-- A row keeps what it was saved with, and stays invoiced and linked to a token. -/
structure RowExtends (before after : Row) : Prop where
  transactionId : after.transactionId = before.transactionId
  supplierId : after.supplierId = before.supplierId
  poId : after.poId = before.poId
  invoiced : before.invoiceId.isSome → after.invoiceId.isSome
  linked : before.tokenId.isSome → after.tokenId.isSome

/-- What the server has stored stays, on the chain, in the table and at the Swarm
service, and no token loses its last owner. -/
structure Extends (before after : World) : Prop where
  procurement : ProcurementExtends before.procurement after.procurement
  tokens : ∀ tokenId, before.token.tokenOwner tokenId ≠ 0 → after.token.tokenOwner tokenId ≠ 0
  rows : ∀ (index : Nat) row, before.rows[index]? = some row →
    ∃ later, after.rows[index]? = some later ∧ RowExtends row later
  swarm : before.swarm <:+ after.swarm

theorem ProcurementExtends.refl (state : Procurement) : ProcurementExtends state state where
  orders := List.prefix_refl _
  orderTerms := fun _ _ => rfl
  invoices := List.prefix_refl _
  invoiceTerms := fun _ _ => rfl
  paid := fun _ _ paid => paid

theorem ProcurementExtends.trans {first second third : Procurement}
    (early : ProcurementExtends first second) (late : ProcurementExtends second third) :
    ProcurementExtends first third where
  orders := early.orders.trans late.orders
  orderTerms := fun poId member =>
    (late.orderTerms poId (early.orders.subset member)).trans (early.orderTerms poId member)
  invoices := early.invoices.trans late.invoices
  invoiceTerms := fun invoiceId member =>
    (late.invoiceTerms invoiceId (early.invoices.subset member)).trans
      (early.invoiceTerms invoiceId member)
  paid := fun invoiceId member paid =>
    late.paid invoiceId (early.invoices.subset member) (early.paid invoiceId member paid)

theorem RowExtends.refl (row : Row) : RowExtends row row :=
  ⟨rfl, rfl, rfl, id, id⟩

theorem RowExtends.trans {first second third : Row} (early : RowExtends first second)
    (late : RowExtends second third) : RowExtends first third where
  transactionId := late.transactionId.trans early.transactionId
  supplierId := late.supplierId.trans early.supplierId
  poId := late.poId.trans early.poId
  invoiced := late.invoiced ∘ early.invoiced
  linked := late.linked ∘ early.linked

theorem Extends.refl (world : World) : Extends world world where
  procurement := .refl _
  tokens := fun _ owned => owned
  rows := fun _ row found => ⟨row, found, .refl row⟩
  swarm := List.suffix_refl _

theorem Extends.trans {first second third : World} (early : Extends first second)
    (late : Extends second third) : Extends first third where
  procurement := early.procurement.trans late.procurement
  tokens := fun tokenId owned => late.tokens tokenId (early.tokens tokenId owned)
  rows := by
    intro index row found
    rcases early.rows index row found with ⟨middle, middleFound, first⟩
    rcases late.rows index middle middleFound with ⟨last, lastFound, second⟩
    exact ⟨last, lastFound, first.trans second⟩
  swarm := early.swarm.trans late.swarm

/-! ### One call -/

/-- Nothing that a transaction does to records that were issued before changes terms or
takes a payment back, unless it issues them again. -/
theorem extends_apply {state : Procurement} {call : ProcurementCall}
    (unused : ∀ id, issuedBy call = some id → id ∉ state.poArray ∧ id ∉ state.invoiceArray)
    (pays : ∀ invoiceId status, call = .updateInvoiceStatus invoiceId status →
      status = InvoiceStatus.paymentReceived.text) :
    ProcurementExtends state (state.apply call) := by
  have same := ProcurementExtends.refl state
  cases call with
  | issuePO poId supplierId itemType qty uom status =>
      refine { same with orders := List.prefix_append _ _, orderTerms := fun other member => ?_ }
      have different : other ≠ poId := fun equal => (unused poId rfl).1 (equal ▸ member)
      simp only [Procurement.apply, Procurement.issuePO, Function.update_of_ne different]
  | issueInvoice invoiceId poId supplierId itemType qty uom price status =>
      have kept : ∀ other ∈ state.invoiceArray,
          (state.apply (.issueInvoice invoiceId poId supplierId itemType qty uom price
            status)).invoices other = state.invoices other := by
        intro other member
        have different : other ≠ invoiceId := fun equal => (unused invoiceId rfl).2 (equal ▸ member)
        exact Procurement.invoices_issueInvoice_of_ne _ _ _ _ _ _ _ _ _ different
      refine { same with
        invoices := List.prefix_append _ _
        invoiceTerms := fun other member => congrArg Invoice.terms (kept other member)
        paid := fun other member paid => ?_ }
      rw [kept other member]
      exact paid
  | updatePOStatus poId status =>
      refine { same with orderTerms := fun other _ => ?_ }
      by_cases equal : other = poId
      · simp only [Procurement.apply, Procurement.updatePOStatus, equal, Function.update_self]
        rfl
      · simp only [Procurement.apply, Procurement.updatePOStatus, Function.update_of_ne equal]
  | updateInvoiceStatus invoiceId status =>
      cases pays invoiceId status rfl
      refine { same with invoiceTerms := fun other _ => ?_, paid := fun other _ paid => ?_ }
      · by_cases equal : other = invoiceId
        · rw [equal, Procurement.apply, Procurement.invoices_updateInvoiceStatus_self]
          rfl
        · rw [Procurement.apply, Procurement.invoices_updateInvoiceStatus_of_ne _ _ _ equal]
      · by_cases equal : other = invoiceId
        · rw [equal, Procurement.apply, Procurement.invoices_updateInvoiceStatus_self]
        · rw [Procurement.apply, Procurement.invoices_updateInvoiceStatus_of_ne _ _ _ equal]
          exact paid

/-- The first row that matches is changed and the others stay. -/
theorem getElem?_updateFirst {condition : Row → Bool} {change : Row → Row} {rows : List Row}
    {index : Nat} {row : Row} (found : rows[index]? = some row) :
    (updateFirst condition change rows)[index]? = some row ∨
      condition row = true ∧ (updateFirst condition change rows)[index]? = some (change row) := by
  induction rows generalizing index with
  | nil => cases found
  | cons first rest induction =>
      rw [updateFirst]
      split
      · rename_i met
        cases index with
        | zero =>
            cases found
            exact .inr ⟨met, rfl⟩
        | succ index => exact .inl found
      · cases index with
        | zero => exact .inl found
        | succ index => exact induction found

theorem extends_updateFirst {condition : Row → Bool} {change : Row → Row}
    (keeps : ∀ row, RowExtends row (change row)) {rows : List Row} {index : Nat} {row : Row}
    (found : rows[index]? = some row) :
    ∃ later, (updateFirst condition change rows)[index]? = some later ∧ RowExtends row later := by
  rcases getElem?_updateFirst found with same | ⟨_, changed⟩
  · exact ⟨row, same, .refl row⟩
  · exact ⟨_, changed, keeps row⟩

theorem owned_send {world : World} {sender : β → Address} {nonce : Option Nat}
    {argument : Option β} {run : β → Option World}
    (keeps : ∀ value next, run value = some next → ∀ tokenId,
      world.token.tokenOwner tokenId ≠ 0 → next.token.tokenOwner tokenId ≠ 0)
    {tokenId : Nat} (owned : world.token.tokenOwner tokenId ≠ 0) :
    (world.send sender nonce argument run).2.token.tokenOwner tokenId ≠ 0 := by
  refine @World.holds_send _ (fun world => world.token.tokenOwner tokenId ≠ 0) ?_ _ _ _ _ _
    owned fun value next _ ran => keeps value next ran tokenId owned
  exact fun _ _ owned => owned

theorem owned_update {token next : ItemToken} {number tokenId : Nat} {owner : Address}
    (nonzero : owner ≠ 0)
    (owners : next.tokenOwner = Function.update token.tokenOwner number owner)
    (owned : token.tokenOwner tokenId ≠ 0) : next.tokenOwner tokenId ≠ 0 := by
  rw [owners]
  by_cases same : tokenId = number
  · rw [same, Function.update_self]
    exact nonzero
  · rw [Function.update_of_ne same]
    exact owned

/-- No call takes the last owner of a token away. -/
theorem owned_serve {call : Call} {world : World} {tokenId : Nat}
    (owned : world.token.tokenOwner tokenId ≠ 0) :
    (serve environment call world).2.token.tokenOwner tokenId ≠ 0 := by
  by_cases changes : call.changes = some .token
  · cases call with
    | mint number =>
        apply owned_send _ owned
        intro value next ran tokenId owned
        rcases Option.map_eq_some_iff.mp ran with ⟨token, mints, rfl⟩
        rcases TokenHistory.mint_cases mints with ⟨_, nonzero, owners, _⟩
        exact owned_update nonzero owners owned
    | mintWithItemData number itemType uom qty price =>
        apply owned_send _ owned
        intro value next ran tokenId owned
        rcases Option.map_eq_some_iff.mp ran with ⟨token, mints, rfl⟩
        rw [ItemToken.mintWithItemData] at mints
        split at mints
        · cases mints
        · rename_i plain plainMints
          cases mints
          rcases TokenHistory.mint_cases plainMints with ⟨_, nonzero, owners, _⟩
          exact owned_update nonzero owners owned
    | transferFrom caller sender recipient number =>
        apply owned_send _ owned
        intro value next ran tokenId owned
        rcases Option.map_eq_some_iff.mp ran with ⟨token, moves, rfl⟩
        rcases ItemToken.tokenOwner_transferFrom moves with ⟨nonzero, owners⟩
        exact owned_update nonzero owners owned
    | _ => simp [Call.changes] at changes
  · rw [(serve_framed environment call world).token changes]
    exact owned

/-- A call that issues no id again, and sets invoices to paid only, keeps what there is. -/
theorem extends_serve {call : Call} {world : World}
    (unused : ∀ id, call.issues = some id →
      id ∉ world.procurement.poArray ∧ id ∉ world.procurement.invoiceArray)
    (pays : ∀ invoiceId status, call = .updateInvoiceStatus invoiceId status →
      status = InvoiceStatus.paymentReceived.text) :
    Extends world (serve environment call world).2 where
  procurement := by
    rw [serve_procurement]
    cases applied : call.applied environment world.procurement with
    | none => exact .refl _
    | some sent =>
        have sends := procurementCall_of_applied applied
        apply extends_apply
        · exact fun id issued => unused id (issues_of_sent sends issued)
        · rintro invoiceId status rfl
          cases call with
          | updateInvoiceStatus encoded written =>
              rcases Option.map_eq_some_iff.mp sends with ⟨_, _, equal⟩
              cases equal
              exact pays _ _ rfl
          | _ => simp [Call.procurementCall, Option.bind_eq_some_iff] at sends
  tokens := fun _ => owned_serve
  rows := by
    intro index row found
    by_cases changes : call.changes = some .rows
    · cases call with
      | saveRow saved =>
          exact ⟨row, getElem?_append_of_some found _, .refl row⟩
      | updateInvoice poId invoiceId itemPrice =>
          rw [serve]
          split
          · refine extends_updateFirst (fun row => ?_) found
            exact ⟨rfl, rfl, rfl, fun _ => rfl, id⟩
          · exact ⟨row, found, .refl row⟩
      | updateTokenId invoiceId tokenId =>
          refine extends_updateFirst (fun row => ?_) found
          exact ⟨rfl, rfl, rfl, id, fun _ => rfl⟩
      | _ => simp [Call.changes] at changes
    · rw [(serve_framed environment call world).rows changes]
      exact ⟨row, found, .refl row⟩
  swarm := by
    by_cases changes : call.changes = some .swarm
    · cases call with
      | swarmPost metadata =>
          simp only [serve]
          split
          · exact List.suffix_refl _
          · exact List.suffix_cons _ _
      | _ => simp [Call.changes] at changes
    · rw [(serve_framed environment call world).swarm changes]

/-! ## Runs -/

/-- The server as it is: all requests share the undeclared variables. -/
abbrev sharedApi (environment : Environment) : System :=
  api environment fun _ => 0

section Runs

variable {globals : Nat → Globals} {actions : List (Action (sharedApi environment))}
  {pool : Pool (sharedApi environment)}

/-- A run of the server from the migrations on. -/
abbrev ServerRun (environment : Environment) (globals : Nat → Globals)
    (actions : List (Action (sharedApi environment))) (pool : Pool (sharedApi environment)) :
    Prop :=
  Transitions (Pool.Step fun _ _ => True) (Pool.initial (World.deployed environment) globals)
    actions pool

theorem ids_unique (fresh : FreshIds environment number)
    (run : ServerRun environment globals actions pool) : (idTickets fresh).Unique pool :=
  Ticketing.unique_of_run (fun _ => rfl) (handle_stamps fresh) run

/-- What is listed has been stamped. -/
theorem mem_stamped_of_listed (fresh : FreshIds environment number)
    (run : ServerRun environment globals actions pool) {id : Nat}
    (listed : id ∈ pool.world.procurement.poArray ∨ id ∈ pool.world.procurement.invoiceArray) :
    id ∈ (idTickets fresh).stamped pool.log := by
  have sent : ∃ sent ∈ ranIn pool, issuedBy sent = some id := by
    rw [procurement_of_run run, Procurement.mem_poArray_after,
      Procurement.mem_invoiceArray_after] at listed
    rcases listed with ⟨_, _, _, _, _, member⟩ | ⟨_, _, _, _, _, _, _, member⟩
    · exact ⟨_, member, rfl⟩
    · exact ⟨_, member, rfl⟩
  rcases sent with ⟨sent, member, issued⟩
  rcases List.mem_filterMap.mp member with ⟨entry, logged, ran⟩
  exact List.mem_filterMap.mpr
    ⟨entry, logged, issues_of_sent (procurementCall_of_ranBy ran) issued⟩

/-- An id that a request waits to issue is not listed. -/
theorem unused_of_waiting (fresh : FreshIds environment number)
    (run : ServerRun environment globals actions pool) {index : Nat} {request : Request}
    {point : Point} {call : Call} {next : Except Failure call.Answer → Handler (Response Data)}
    (found : pool.tasks[index]? = some ⟨request, .waiting point call next⟩) {id : Nat}
    (issues : call.issues = some id) :
    id ∉ pool.world.procurement.poArray ∧ id ∉ pool.world.procurement.invoiceArray := by
  have absent := ((ids_unique fresh run).waiting index _ id found issues).1
  exact ⟨fun member => absent (mem_stamped_of_listed fresh run (.inl member)),
    fun member => absent (mem_stamped_of_listed fresh run (.inr member))⟩

/-- The calls that tasks wait for are allowed to their requests. -/
theorem mayCall_of_waiting (run : ServerRun environment globals actions pool) {index : Nat}
    {request : Request} {point : Point} {call : Call}
    {next : Except Failure call.Answer → Handler (Response Data)}
    (found : pool.tasks[index]? = some ⟨request, .waiting point call next⟩) :
    request.MayCall environment call := by
  have kept : @KeptByCalls (sharedApi environment) (Request.MayCall environment)
      fun _ _ => True :=
    ⟨handle_mayCall environment, fun _ _ _ _ => trivial, fun _ _ _ _ _ _ _ => trivial⟩
  have calls := (kept.run run (Pool.calls_initial _ _ _) trivial).1
  exact (calls _ (List.mem_of_getElem? found)).1

theorem extends_of_waiting (fresh : FreshIds environment number)
    (run : ServerRun environment globals actions pool) {index : Nat} {request : Request}
    {point : Point} {call : Call} {next : Except Failure call.Answer → Handler (Response Data)}
    (found : pool.tasks[index]? = some ⟨request, .waiting point call next⟩) :
    Extends pool.world (serve environment call pool.world).2 := by
  apply extends_serve
  · exact fun id issues => unused_of_waiting fresh run found issues
  · rintro invoiceId status rfl
    rcases mayCall_of_waiting run found with ⟨_, _, _, _, _, paid⟩
    exact paid

/-- The states on the way are themselves reached from the migrations. -/
theorem reached_and_extends (fresh : FreshIds environment number)
    (reached : ServerRun environment globals actions pool)
    {later : List (Action (sharedApi environment))} {final : Pool (sharedApi environment)}
    (run : Transitions (Pool.Step fun _ _ => True) pool later final) :
    (∃ more, ServerRun environment globals more final) ∧ Extends pool.world final.world := by
  apply run.invariant (fun current => (∃ more, ServerRun environment globals more current) ∧
    Extends pool.world current.world) _ ⟨⟨actions, reached⟩, .refl _⟩
  rintro current action next ⟨⟨more, runs⟩, extended⟩ step
  refine ⟨⟨more ++ [action], runs.append (.cons step (.nil _))⟩, ?_⟩
  cases Pool.step_cases step.1 with
  | start request => exact extended
  | serve found => exact extended.trans (extends_of_waiting fresh runs found)
  | resume found => exact extended

end Runs

/-- In every interleaving of any requests, from any state that was reached on, ids are
only added to the lists, what was issued keeps its terms, paid invoices stay paid, rows
keep their order, and tokens keep having an owner. -/
theorem issued_is_final (environment : Environment) (number : Nat → Nat)
    (fresh : FreshIds environment number) (globals : Nat → Globals)
    (actions later : List (Action (sharedApi environment)))
    (middle final : Pool (sharedApi environment))
    (reached : ServerRun environment globals actions middle)
    (run : Transitions (Pool.Step fun _ _ => True) middle later final) :
    Extends middle.world final.world :=
  (reached_and_extends fresh reached run).2

/-- The order of the cheese is there before its invoice, and stays as it is. -/
theorem cheeseOrder_is_final :
    ∃ middle final : Pool (sharedApi testNetwork),
      ServerRun testNetwork (fun _ => Globals.initial) (Action.alone 0 cheeseOrder 2) middle ∧
      Transitions (Pool.Step fun _ _ => True) middle (Action.alone 1 cheeseInvoice 4) final ∧
      middle.world.procurement.poArray = [1001] ∧
      final.world.procurement.invoiceArray = [1002] ∧ Extends middle.world final.world := by
  have ran : ((Pool.initial (World.deployed testNetwork) fun _ => Globals.initial :
        Pool (sharedApi testNetwork)).run (fun _ _ => true) (Action.alone 0 cheeseOrder 2)).bind
        (fun middle => (middle.run (fun _ _ => true) (Action.alone 1 cheeseInvoice 4)).map
          fun final => (middle.world.procurement.poArray,
            final.world.procurement.invoiceArray)) = some ([1001], [1002]) := by decide +kernel
  rcases Option.bind_eq_some_iff.mp ran with ⟨middle, early, later⟩
  rcases Option.map_eq_some_iff.mp later with ⟨final, runs, lists⟩
  have reached := Pool.transitions_of_free_run early
  have run := Pool.transitions_of_free_run runs
  exact ⟨middle, final, reached, run, congrArg Prod.fst lists, congrArg Prod.snd lists,
    issued_is_final testNetwork _ testNetwork_fresh _ _ _ middle final reached run⟩

end PizzaChain.Api
