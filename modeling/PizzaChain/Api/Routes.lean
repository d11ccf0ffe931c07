import PizzaChain.Api.Controller
import PizzaChain.Api.Effects
import PizzaChain.Semantics.Alone

/-! # What each route may call

Every invariant of the world is derived from the calls that the routes make.
Calls that only read are open to all routes.
-/

namespace PizzaChain.Api

open PizzaChain.Chain

/-! ## The calls of each route -/

variable (environment : Environment)

/-- The numbers are numbers of JavaScript. -/
def Metadata.Exact (metadata : Metadata) : Prop :=
  (∃ qty, metadata.qty = roundToDouble qty) ∧ ∃ price, metadata.price = roundToDouble price

/-- The calls that a request may make. -/
def Request.MayCall (request : Request) : Call → Prop
  | .transfer _ _ _ _ => ∃ invoiceId payerId supplierId,
      request = .paySupplier invoiceId payerId supplierId
  | .updateInvoiceStatus id status => ∃ invoiceId payerId supplierId,
      request = .paySupplier invoiceId payerId supplierId ∧
      id = environment.encodeUint invoiceId ∧ status = InvoiceStatus.paymentReceived.text
  | .issuePO _ _ _ _ _ status => (∃ items, request = .postPurchaseOrder items) ∧
      status = PoStatus.issued.text
  | .issueInvoice _ _ _ _ _ _ _ status =>
      (∃ poId itemPrice, request = .postInvoice poId itemPrice) ∧
      status = InvoiceStatus.issued.text
  | .updatePOStatus _ _ => (∃ poId itemPrice, request = .postInvoice poId itemPrice) ∨
      (∃ invoiceId, request = .makeTokens invoiceId) ∨
      ∃ tokenId supplierId payerId, request = .transferToken tokenId supplierId payerId
  | .mint _ => ∃ invoiceId, request = .makeTokens invoiceId
  | .mintWithItemData _ _ _ _ _ => False
  | .transferFrom _ _ _ _ => (∃ invoiceId, request = .makeTokens invoiceId) ∨
      ∃ tokenId supplierId payerId, request = .transferToken tokenId supplierId payerId
  | .saveRow _ => ∃ items, request = .postPurchaseOrder items
  | .updateInvoice _ _ _ => ∃ poId itemPrice, request = .postInvoice poId itemPrice
  | .updateTokenId _ _ => ∃ invoiceId, request = .makeTokens invoiceId
  | .swarmPost metadata => (∃ invoiceId, request = .makeTokens invoiceId) ∧ metadata.Exact
  | _ => True

theorem mayCall_of_reads (request : Request) {call : Call} (reads : call.reads = true) :
    request.MayCall environment call := by
  cases call <;> trivial

/-! ### Functions that only read -/

abbrev ReadsOnly (program : Handler α) : Prop :=
  program.Calls fun call : Call => call.reads = true

theorem wait_reads (point : Point) {call : Call} (reads : call.reads = true) :
    ReadsOnly (wait point call) := by
  apply Program.Calls.call
  exact reads

theorem getPOById_reads (poId : String) : ReadsOnly (Controller.getPOById environment poId) := by
  apply (wait_reads _ rfl).bind
  intro po
  split <;> trivial

theorem getInvoiceById_reads (invoiceId : String) (encoded : Option Nat) :
    ReadsOnly (Controller.getInvoiceById invoiceId encoded) := by
  apply (wait_reads _ rfl).bind
  intro invoice
  split <;> trivial

theorem getPOList_reads : ReadsOnly Controller.getPOList :=
  (wait_reads _ rfl).bind fun _ => trivial

theorem getInvoiceList_reads : ReadsOnly Controller.getInvoiceList :=
  (wait_reads _ rfl).bind fun _ => trivial

theorem invoiceDetails_reads (invoiceIds : List Nat) :
    ReadsOnly (Controller.invoiceDetails invoiceIds) := by
  induction invoiceIds with
  | nil => trivial
  | cons invoiceId invoiceIds induction =>
      exact (getInvoiceById_reads _ _).bind fun response => induction.bind fun rest => trivial

theorem getInvoiceDetailsList_reads : ReadsOnly Controller.getInvoiceDetailsList :=
  getInvoiceList_reads.bind fun list => (invoiceDetails_reads list.data).bind fun _ => trivial

theorem rowPO_reads (row : Row) (filter : String) :
    ReadsOnly (Controller.rowPO environment row filter) := by
  rw [Controller.rowPO]
  split
  · trivial
  · split
    · trivial
    · exact (getPOById_reads environment _).bind fun poData => trivial

theorem rowInvoice_reads (row : Row) (filter : String) :
    ReadsOnly (Controller.rowInvoice environment row filter) := by
  rw [Controller.rowInvoice]
  split
  · trivial
  · split
    · trivial
    · exact (getInvoiceById_reads _ _).bind fun invoiceData => trivial

theorem getTransactionDetails_reads (filter : String) (rows : List Row) :
    ReadsOnly (Controller.getTransactionDetails environment filter rows) := by
  induction rows with
  | nil => trivial
  | cons row rows induction =>
      apply (rowPO_reads environment row filter).bind
      intro po
      apply (rowInvoice_reads environment row filter).bind
      intro invoice
      apply induction.bind
      intro rest
      split <;> trivial

theorem getTransactions_reads (filter : String) :
    ReadsOnly (Controller.getTransactions environment filter) := by
  apply (wait_reads _ rfl).bind
  intro rows
  exact (getTransactionDetails_reads environment _ rows).bind fun _ => trivial

theorem getTransactionBySupplierId_reads (supplierId filter : String) :
    ReadsOnly (Controller.getTransactionBySupplierId environment supplierId filter) := by
  apply (wait_reads _ rfl).bind
  intro rows
  exact (getTransactionDetails_reads environment _ rows).bind fun _ => trivial

theorem getTransactionById_reads (transactionId filter : String) :
    ReadsOnly (Controller.getTransactionById environment transactionId filter) := by
  apply (wait_reads _ rfl).bind
  intro rows
  exact (getTransactionDetails_reads environment _ rows).bind fun _ => trivial

theorem getTransactionByTokenId_reads (tokenId : String) :
    ReadsOnly (Controller.getTransactionByTokenId tokenId) :=
  (wait_reads _ rfl).bind fun _ => trivial

theorem getBalance_reads (entityId : String) : ReadsOnly (Controller.getBalance entityId) := by
  refine Program.Calls.bind ?_ fun balance => trivial
  apply (wait_reads _ rfl).bind
  intro accounts
  apply (Program.Calls.modify _).bind
  intro _
  apply Program.Calls.get.bind
  intro globals
  exact (wait_reads _ rfl).bind fun balance => trivial

theorem getOwnedTokenBalance_reads (entityId : String) :
    ReadsOnly (Controller.getOwnedTokenBalance entityId) := by
  refine Program.Calls.bind ?_ fun balance => trivial
  apply (wait_reads _ rfl).bind
  intro accounts
  apply (Program.Calls.modify _).bind
  intro _
  apply Program.Calls.get.bind
  intro globals
  exact (wait_reads _ rfl).bind fun balance => trivial

theorem retrieveMetadata_reads (tokenId : String) :
    ReadsOnly (Controller.retrieveMetadata tokenId) := by
  refine Program.Calls.bind ?_ fun metadata => trivial
  rw [Controller.getMetadata]
  split
  · exact wait_reads _ rfl
  · exact wait_reads _ rfl

/-- A program that only reads leaves the world as it is. -/
theorem ensures_reads {cell : Nat → Nat} {program : Handler α} (reads : ReadsOnly program)
    {view : View (api environment cell)}
    {post : Except Failure α → View (api environment cell) → Prop}
    (ends : ∀ outcome globals trace, post outcome ⟨view.world, globals, trace⟩) :
    program.Ensures view post := by
  have same := Program.alone_invariant view (fun world => world = view.world)
    (fun call world only before => (serve_of_reads environment only world).trans before) reads rfl
  have ended := ends (program.alone view).1 (program.alone view).2.globals
    (program.alone view).2.trace
  rw [← same] at ended
  exact ended

/-! ### Functions that write -/

section Writers

variable {allowed : Call → Prop} (reads : ∀ call, call.reads = true → allowed call)

theorem uniqueId_calls {continuation : String → Handler β}
    (continues : ∀ drawn, (continuation (environment.uniqueId drawn)).Calls allowed) :
    (Controller.uniqueId environment >>= continuation).Calls allowed :=
  fun globals _ => continues globals.ids

theorem issueItems_calls (transactionId : String) {items : List PurchaseItem}
    (issues : ∀ drawn, ∀ item ∈ items,
      allowed (.issuePO (environment.encodeUint (environment.uniqueId drawn)) item.supplierId
        (item.itemType.bind (itemTypes.lookup ·)) item.qty item.uom PoStatus.issued.text))
    (saves : ∀ row, allowed (.saveRow row)) :
    (Controller.issueItems environment transactionId items).Calls allowed := by
  induction items with
  | nil => trivial
  | cons item items induction =>
      apply uniqueId_calls
      intro drawn
      apply (Program.Calls.call _ (issues drawn item List.mem_cons_self)).bind
      intro _
      apply (Program.Calls.call _ (saves _)).bind
      intro _
      have rest := induction fun drawn other member =>
        issues drawn other (List.mem_cons_of_mem _ member)
      exact rest.bind fun poIds => trivial

theorem issuePO_calls {items : List PurchaseItem}
    (issues : ∀ drawn, ∀ item ∈ items,
      allowed (.issuePO (environment.encodeUint (environment.uniqueId drawn)) item.supplierId
        (item.itemType.bind (itemTypes.lookup ·)) item.qty item.uom PoStatus.issued.text))
    (saves : ∀ row, allowed (.saveRow row)) :
    (Controller.issuePO environment items).Calls allowed := by
  apply uniqueId_calls
  intro drawn
  exact (issueItems_calls environment _ issues saves).bind fun _ => trivial

theorem issueInvoice_calls (poData : PoData) (itemPrice : Option String)
    (issues : ∀ drawn, allowed (.issueInvoice
      (environment.encodeUint (environment.uniqueId drawn)) (environment.encodeUint poData.poId)
      poData.supplierId (poData.itemType.bind (itemTypes.lookup ·)) (encodeNumber poData.qty)
      poData.uom (itemPrice.bind environment.encodeUint) InvoiceStatus.issued.text))
    (updates : ∀ poId invoiceId itemPrice, allowed (.updateInvoice poId invoiceId itemPrice)) :
    (Controller.issueInvoice environment poData itemPrice).Calls allowed := by
  apply uniqueId_calls
  intro drawn
  apply (Program.Calls.call _ (issues drawn)).bind
  intro _
  exact (Program.Calls.call _ (updates _ _ _)).bind fun _ => trivial

theorem recordDelivery_calls (transaction : Response (List Row)) (details : TransferDetails)
    (updates : ∀ poId status, allowed (.updatePOStatus poId status)) :
    (Controller.recordDelivery environment transaction details).Calls allowed := by
  rw [Controller.recordDelivery]
  split
  · split
    · trivial
    · apply (Program.Calls.call _ (updates _ _)).bind
      intro _
      exact (Program.Calls.call _ (updates _ _)).bind fun _ => trivial
  · trivial

theorem mintItemToken_calls (invoice : InvoiceData)
    (posts : allowed (.swarmPost
      ⟨invoice.invoiceId, invoice.itemType, invoice.uom, invoice.qty, invoice.price⟩))
    (mints : ∀ tokenId, allowed (.mint tokenId)) :
    (Controller.mintItemToken environment invoice).Calls allowed := by
  apply (Program.Calls.call _ posts).bind
  intro rootHash
  cases rootHash with
  | none => trivial
  | some rootHash =>
      refine Program.Calls.bind ?_ fun _ => trivial
      exact (Program.Calls.call _ (mints _)).bind fun _ => trivial

include reads

theorem transferAmt_calls (fromAcct toAcct : Option Address) (amount : Nat)
    (transfers : ∀ sender recipient nonce, allowed (.transfer sender recipient amount nonce)) :
    (PizzaCoinClient.transferAmt fromAcct toAcct amount).Calls allowed := by
  apply (Program.Calls.call _ (reads _ rfl)).bind
  intro _
  apply (Program.Calls.call _ (reads _ rfl)).bind
  intro _
  apply (Program.Calls.call _ (reads _ rfl)).bind
  intro _
  exact Program.Calls.call _ (transfers _ _ _)

theorem payAndReadBack_calls (initial amount : Nat)
    (transfers : ∀ sender recipient nonce, allowed (.transfer sender recipient amount nonce)) :
    (PizzaCoinClient.payAndReadBack initial amount).Calls allowed := by
  apply Program.Calls.get.bind
  intro globals
  apply (transferAmt_calls reads _ _ amount transfers).bind
  intro receipt
  apply Program.Calls.get.bind
  intro globals
  apply (Program.Calls.call _ (reads _ rfl)).bind
  intro balance
  split <;> trivial

theorem transferAmount_calls (userAccId merchantAcctId : String) (amount : Nat)
    (transfers : ∀ sender recipient nonce, allowed (.transfer sender recipient amount nonce)) :
    (PizzaCoinClient.transferAmount environment userAccId merchantAcctId amount).Calls
      allowed := by
  apply (Program.Calls.call _ (reads _ rfl)).bind
  intro accounts
  apply (Program.Calls.modify _).bind
  intro _
  apply (Program.Calls.call _ (reads _ rfl)).bind
  intro accounts
  apply (Program.Calls.modify _).bind
  intro _
  apply Program.Calls.get.bind
  intro globals
  apply (Program.Calls.call _ (reads _ rfl)).bind
  intro payerBalance
  apply Program.Calls.get.bind
  intro globals
  apply (Program.Calls.call _ (reads _ rfl)).bind
  intro payeeBalance
  split
  · apply Program.Calls.get.bind
    intro globals
    apply (Program.Calls.call _ (transfers _ _ _)).bind
    intro _
    exact payAndReadBack_calls reads _ amount transfers
  · exact payAndReadBack_calls reads _ amount transfers

theorem payment_calls (invoiceId fromId toId : String)
    (transfers : ∀ sender recipient amount nonce,
      allowed (.transfer sender recipient amount nonce))
    (updates : allowed (.updateInvoiceStatus (environment.encodeUint invoiceId)
      InvoiceStatus.paymentReceived.text)) :
    (Controller.payment environment invoiceId fromId toId).Calls allowed := by
  apply (Program.Calls.call _ (reads _ rfl)).bind
  intro invoice
  refine (transferAmount_calls environment reads _ _ _ ?_).bind fun details => ?_
  · exact fun sender recipient => transfers sender recipient _
  rw [Controller.recordPayment]
  split
  · exact (Program.Calls.call _ updates).bind fun _ => trivial
  · trivial

theorem transferToken_calls (merchantAcctId userAccId tokenId : String)
    (transfers : ∀ sender recipient,
      allowed (.transferFrom sender sender recipient (environment.encodeUint tokenId))) :
    (ItemTokenClient.transferToken environment merchantAcctId userAccId tokenId).Calls
      allowed := by
  apply (Program.Calls.call _ (reads _ rfl)).bind
  intro accounts
  apply (Program.Calls.modify _).bind
  intro _
  apply (Program.Calls.call _ (reads _ rfl)).bind
  intro accounts
  apply (Program.Calls.modify _).bind
  intro _
  apply (Program.Calls.call _ (reads _ rfl)).bind
  intro tokenOwner
  apply Program.Calls.get.bind
  intro globals
  split
  · apply (Program.Calls.call _ (transfers _ _)).bind
    intro receipt
    apply (Program.Calls.call _ (reads _ rfl)).bind
    intro tokenOwner
    apply Program.Calls.get.bind
    intro globals
    split <;> trivial
  · trivial

theorem transfer_calls (fromAccId toAccId : Option Nat) (tokenId : String)
    (transfers : ∀ sender recipient, allowed (.transferFrom environment.coinbase sender recipient
      (environment.encodeUint tokenId))) :
    (ItemTokenClient.transfer environment fromAccId toAccId tokenId).Calls allowed := by
  apply (Program.Calls.call _ (reads _ rfl)).bind
  intro accounts
  apply (Program.Calls.modify _).bind
  intro _
  apply (Program.Calls.call _ (reads _ rfl)).bind
  intro accounts
  apply (Program.Calls.modify _).bind
  intro _
  apply Program.Calls.get.bind
  intro globals
  exact Program.Calls.call _ (transfers _ _)

theorem ackPO_calls (poId : String)
    (updates : ∀ poId status, allowed (.updatePOStatus poId status)) :
    (Controller.ackPO environment poId).Calls allowed := by
  apply (Program.Calls.call _ (reads _ rfl)).bind
  intro po
  exact (Program.Calls.call _ (updates _ _)).bind fun _ => trivial

theorem makeTokens_calls (invoiceId : String)
    (posts : ∀ metadata : Metadata, metadata.Exact → allowed (.swarmPost metadata))
    (mints : ∀ tokenId, allowed (.mint tokenId))
    (transfers : ∀ caller sender recipient tokenId,
      allowed (.transferFrom caller sender recipient tokenId))
    (updates : ∀ poId status, allowed (.updatePOStatus poId status))
    (links : ∀ invoiceId tokenId, allowed (.updateTokenId invoiceId tokenId)) :
    (Controller.makeTokens environment invoiceId).Calls allowed := by
  apply (Program.Calls.call _ (reads _ rfl)).bind
  intro invoice
  apply (mintItemToken_calls environment _ (posts _ ⟨⟨_, rfl⟩, _, rfl⟩) mints).bind
  intro tokenId
  refine (transfer_calls environment reads _ _ _ ?_).bind fun _ => ?_
  · exact fun _ _ => transfers _ _ _ _
  refine Program.Calls.bind ?_ fun _ => ?_
  · apply (Program.Calls.call _ (reads _ rfl)).bind
    intro _
    exact (Program.Calls.call _ (updates _ _)).bind fun _ => trivial
  exact (Program.Calls.call _ (links _ _)).bind fun _ => trivial

end Writers

/-- Every route makes only the calls it may make. -/
theorem handle_mayCall (request : Request) :
    (handle environment request).Calls (request.MayCall environment) := by
  have reads : ∀ call, call.reads = true → request.MayCall environment call :=
    fun _ => mayCall_of_reads environment request
  cases request with
  | getTransactions filter =>
      exact ((getTransactions_reads environment filter).mono reads).bind fun _ => trivial
  | getTransaction id filter =>
      exact ((getTransactionById_reads environment id filter).mono reads).bind fun _ => trivial
  | getSupplierTransactions supplierId filter =>
      have details := getTransactionBySupplierId_reads environment supplierId filter
      exact (details.mono reads).bind fun _ => trivial
  | postPurchaseOrder items =>
      refine (issuePO_calls environment ?_ ?_).bind fun _ => trivial
      · exact fun _ _ _ => ⟨⟨items, rfl⟩, rfl⟩
      · exact fun _ => ⟨items, rfl⟩
  | getPurchaseOrder poId =>
      exact ((getPOById_reads environment poId).mono reads).bind fun _ => trivial
  | getPurchaseOrders => exact (getPOList_reads.mono reads).bind fun _ => trivial
  | postInvoice poId itemPrice =>
      refine (ackPO_calls environment reads poId ?_).bind fun poDataRes => ?_
      · exact fun _ _ => .inl ⟨poId, itemPrice, rfl⟩
      refine (issueInvoice_calls environment _ _ ?_ ?_).bind fun _ => trivial
      · exact fun _ => ⟨⟨poId, itemPrice, rfl⟩, rfl⟩
      · exact fun _ _ _ => ⟨poId, itemPrice, rfl⟩
  | getInvoice invoiceId =>
      exact ((getInvoiceById_reads _ _).mono reads).bind fun _ => trivial
  | getInvoices => exact (getInvoiceList_reads.mono reads).bind fun _ => trivial
  | getInvoiceDetails => exact (getInvoiceDetailsList_reads.mono reads).bind fun _ => trivial
  | getBalance entityId =>
      exact ((getBalance_reads entityId).mono reads).bind fun _ => trivial
  | paySupplier invoiceId payerId supplierId =>
      refine (payment_calls environment reads _ _ _ ?_ ?_).bind fun response => trivial
      · exact fun _ _ _ _ => ⟨invoiceId, payerId, supplierId, rfl⟩
      · exact ⟨invoiceId, payerId, supplierId, rfl, rfl, rfl⟩
  | makeTokens invoiceId =>
      refine (makeTokens_calls environment reads _ ?_ ?_ ?_ ?_ ?_).bind fun response => trivial
      · exact fun _ exact => ⟨⟨invoiceId, rfl⟩, exact⟩
      · exact fun _ => ⟨invoiceId, rfl⟩
      · exact fun _ _ _ _ => .inl ⟨invoiceId, rfl⟩
      · exact fun _ _ => .inr (.inl ⟨invoiceId, rfl⟩)
      · exact fun _ _ => ⟨invoiceId, rfl⟩
  | transferToken tokenId supplierId payerId =>
      apply ((getTransactionByTokenId_reads tokenId).mono reads).bind
      intro transaction
      refine Program.Calls.bind ?_ fun _ => ?_
      · refine (transferToken_calls environment reads _ _ _ ?_).bind fun details => ?_
        · exact fun _ _ => .inr ⟨tokenId, supplierId, payerId, rfl⟩
        apply recordDelivery_calls
        exact fun _ _ => .inr (.inr ⟨tokenId, supplierId, payerId, rfl⟩)
      · exact ((retrieveMetadata_reads tokenId).mono reads).bind fun _ => trivial
  | getTokenBalance entityId =>
      exact ((getOwnedTokenBalance_reads entityId).mono reads).bind fun _ => trivial

end PizzaChain.Api
