import PizzaChain.Api.Clients
import PizzaChain.Semantics.Pool

/-! # The controller and the routes

`controller.js` and `apiGatewayController.js`. A handler ends with its response
or is rejected; the route answers a rejection with status 500.
-/

namespace PizzaChain.Api

open PizzaChain.Chain

/-! ## Responses -/

inductive ResponseError
  | text (message : String)
  | thrown (failure : Failure)

structure Response (α : Type) where
  code : Nat
  message : String
  data : α
  err : Option ResponseError

def Response.map (change : α → β) (response : Response α) : Response β :=
  { response with data := change response.data }

structure TransactionDetails where
  transactionId : Option String
  po : List (Response (Option PoData))
  invoice : List (Response (Option InvoiceData))
  tokenId : Option String

namespace Controller

variable (environment : Environment)

/-- `fnGetUniqueID()`. -/
def uniqueId : Handler String := do
  let globals ← Program.get
  Program.modify fun globals => { globals with ids := globals.ids + 1 }
  return environment.uniqueId globals.ids

def mapInvoiceData (invoiceId : String)
    (invoice : Nat × String × Nat × Nat × String × Nat × String) : InvoiceData :=
  let (poId, supplierId, itemType, qty, uom, price, status) := invoice
  { invoiceId := invoiceId
    poId := poId
    supplierId := supplierId
    itemType := getKeyByValue itemTypes (roundToDouble itemType)
    qty := roundToDouble qty
    uom := uom
    price := roundToDouble price
    status := status }

def mapPOData (poId : String) (po : String × Nat × Nat × String × String) : PoData :=
  let (supplierId, itemType, qty, uom, status) := po
  { poId := poId
    supplierId := supplierId
    itemType := getKeyByValue itemTypes (roundToDouble itemType)
    qty := roundToDouble qty
    uom := uom
    status := status }

def mapTokenData (invoiceId : String) (metadata : Nat × Nat × String × Nat) : Metadata :=
  let (itemType, qty, uom, price) := metadata
  { invoiceId := invoiceId
    itemType := getKeyByValue itemTypes (roundToDouble itemType)
    qty := roundToDouble qty
    uom := uom
    price := roundToDouble price }

/-! ## Purchase orders -/

def getPOById (poId : String) : Handler (Response (Option PoData)) := do
  let po ← ProcurementClient.getPOById (environment.encodeUint poId)
  if po.1 = "" then
    return ⟨404, "Error in Get PO by Id", none, some (.text "PO Not Found")⟩
  else
    return ⟨200, "PO Retrieved", some (mapPOData poId po), none⟩

def getPOList : Handler (Response (List Nat)) := do
  let poIds ← ProcurementClient.getPOList
  return ⟨200, "PO List Retrieved", poIds, none⟩

/-- The loop of `issuePO` over the items of the request. -/
def issueItems (transactionId : String) : List PurchaseItem → Handler (List String)
  | [] => return []
  | item :: items => do
      let processId ← uniqueId environment
      let _ ← ProcurementClient.createPO environment processId .issued item
      ProcurementService.createProcurement
        ⟨some transactionId, item.supplierId, some processId, none, none⟩
      let poIds ← issueItems transactionId items
      return processId :: poIds

def issuePO (items : List PurchaseItem) : Handler (Response (String × List String)) := do
  let transactionId ← uniqueId environment
  let poIds ← issueItems environment transactionId items
  return ⟨201, "PO Issued", (transactionId, poIds), none⟩

/-- `ackPO(poId)`. The receipt of the update is never `== true`, so the response
always has status 500; its data is used all the same. -/
def ackPO (poId : String) : Handler (Response PoData) := do
  let po ← ProcurementClient.getPOById (environment.encodeUint poId)
  let poData := mapPOData poId po
  let _ ← ProcurementClient.updatePOStatus (environment.encodeUint poData.poId)
    PoStatus.acknowledged.text
  return ⟨500, "Failed", poData, none⟩

/-- `updatedPOStatus(poId, status)`, whose response is not read. -/
def updatedPOStatus (poId : Nat) (status : PoStatus) : Handler Unit := do
  let _ ← ProcurementClient.getPOById (some poId)
  let _ ← ProcurementClient.updatePOStatus (some poId) status.text
  return ()

/-! ## Invoices and payment -/

def issueInvoice (poData : PoData) (itemPrice : Option String) : Handler (Response String) := do
  let processId ← uniqueId environment
  let _ ← ProcurementClient.createInvoice environment processId .issued itemPrice poData
  ProcurementService.updateInvoice poData.poId processId itemPrice
  return ⟨201, "Invoice Issued", processId, none⟩

/-- `getInvoiceById(invoiceId)`, for an id with its `uint`. -/
def getInvoiceById (invoiceId : String) (encoded : Option Nat) :
    Handler (Response (Option InvoiceData)) := do
  let invoice ← ProcurementClient.getInvoiceById encoded
  if invoice.1 = 0 then
    return ⟨404, "Error in Get Invoice by Id", none, some (.text "Invoice Not Found")⟩
  else
    return ⟨200, "Invoice Retrieved", some (mapInvoiceData invoiceId invoice), none⟩

def getInvoiceList : Handler (Response (List Nat)) := do
  let invoiceIds ← ProcurementClient.getInvoiceList
  return ⟨200, "Invoice List Retrieved", invoiceIds, none⟩

/-- The loop of `getInvoiceDetailsList`. -/
def invoiceDetails : List Nat → Handler (List (Option InvoiceData))
  | [] => return []
  | invoiceId :: invoiceIds => do
      let response ← getInvoiceById (toString invoiceId) (some invoiceId)
      let rest ← invoiceDetails invoiceIds
      return response.data :: rest

def getInvoiceDetailsList : Handler (Response (List (Option InvoiceData))) := do
  let response ← getInvoiceList
  let invoiceList ← invoiceDetails response.data
  return ⟨200, "Invoice Details List Retrieved", invoiceList, none⟩

def getBalance (entityId : String) : Handler (Response Nat) := do
  let balance ← PizzaCoinClient.getBalance entityId
  return ⟨200, "Balance Retrieved", balance, none⟩

/-- The part of `payment` that follows the transfer. -/
def recordPayment (invoiceId : String) (transferDetails : TransferDetails) :
    Handler (Response (Option Receipt)) := do
  if transferDetails.transferStatus then
    let _ ← ProcurementClient.updateInvoiceStatus (environment.encodeUint invoiceId)
      InvoiceStatus.paymentReceived.text
    return ⟨200, "Payment done", transferDetails.receipt, none⟩
  else
    return ⟨500, "Failed", none, none⟩

def payment (invoiceId fromId toId : String) : Handler (Response (Option Receipt)) := do
  let invoice ← ProcurementClient.getInvoiceById (environment.encodeUint invoiceId)
  let invoiceData := mapInvoiceData invoiceId invoice
  let transferDetails ← PizzaCoinClient.transferAmount environment fromId toId invoiceData.price
  recordPayment environment invoiceId transferDetails

/-! ## Transactions -/

/-- The tests `transaction[key].po_id` and `transaction[key].invoice_id`. -/
def truthy (text : Option String) : Option String :=
  text.filter (· ≠ "")

/-- The part of `getTransactionDetails` for the PO of a row. -/
def rowPO (row : Row) (filter : String) : Handler (List (Response (Option PoData))) :=
  match truthy row.poId with
  | none => return []
  | some poId =>
      if filter = "INVOICE" then return []
      else do
        let poData ← getPOById environment poId
        return if poData.code = 200 then [poData] else []

/-- The part of `getTransactionDetails` for the invoice of a row. -/
def rowInvoice (row : Row) (filter : String) : Handler (List (Response (Option InvoiceData))) :=
  match truthy row.invoiceId with
  | none => return []
  | some invoiceId =>
      if filter = "PO" then return []
      else do
        let invoiceData ← getInvoiceById invoiceId (environment.encodeUint invoiceId)
        return if invoiceData.code = 200 then [invoiceData] else []

def getTransactionDetails (filter : String) : List Row → Handler (List TransactionDetails)
  | [] => return []
  | row :: rows => do
      let po ← rowPO environment row filter
      let invoice ← rowInvoice environment row filter
      let rest ← getTransactionDetails filter rows
      -- Only a row that contributed a PO or an invoice gets a transaction id.
      if (po.isEmpty && invoice.isEmpty) || (truthy row.transactionId).isNone then
        return rest
      else
        return ⟨row.transactionId, po, invoice, row.tokenId⟩ :: rest

def getTransactions (filter : String) : Handler (Response (List TransactionDetails)) := do
  let rows ← ProcurementService.getProcurements
  let details ← getTransactionDetails environment (environment.toUpperCase filter) rows
  return ⟨200, "Transactions", details, none⟩

def getTransactionBySupplierId (supplierId filter : String) :
    Handler (Response (List TransactionDetails)) := do
  let rows ← ProcurementService.getProcurementBySupplierId supplierId
  let details ← getTransactionDetails environment (environment.toUpperCase filter) rows
  return ⟨200, "Procurement Transactions By Supplier Retrieved", details, none⟩

def getTransactionById (transactionId filter : String) :
    Handler (Response (List TransactionDetails)) := do
  let rows ← ProcurementService.getProcurementById transactionId
  let details ← getTransactionDetails environment (environment.toUpperCase filter) rows
  return ⟨200, "Procurement Transaction Retrieved", details, none⟩

def getTransactionByTokenId (tokenId : String) : Handler (Response (List Row)) := do
  let rows ← ProcurementService.getProcurementByTokenId tokenId
  return ⟨200, "Procurement Transaction Retrieved", rows, none⟩

/-! ## Tokens -/

/-- `mintItemToken(invoiceData, true)`. -/
def mintItemToken (invoice : InvoiceData) : Handler String := do
  let rootHash ← wait .swarm
    (.swarmPost ⟨invoice.invoiceId, invoice.itemType, invoice.uom, invoice.qty, invoice.price⟩)
  match rootHash with
  | none => .fail .undefinedProperty
  | some rootHash => do
      let tokenId := "0x" ++ rootHash
      let _ ← ItemTokenClient.mint environment tokenId
      return tokenId

/-- `mintItemToken(invoiceData, useSwarm)`, of which the routes use the first
branch only. -/
def mintItemTokenBy (useSwarm : Bool) (invoice : InvoiceData) : Handler String :=
  if useSwarm then mintItemToken environment invoice
  else do
    let _ ← ItemTokenClient.mintDataToBC environment
      ⟨invoice.invoiceId, invoice.itemType, invoice.uom, invoice.qty, invoice.price⟩
    return invoice.invoiceId

/-- `makeTokens(invoiceId)`, with the supplier and the token of its response. -/
def makeTokens (invoiceId : String) : Handler (Response (String × String)) := do
  let invoice ← ProcurementClient.getInvoiceById (environment.encodeUint invoiceId)
  let invoiceData := mapInvoiceData invoiceId invoice
  let tokenId ← mintItemToken environment invoiceData
  let supplierAccountId := accountNumbers.lookup invoiceData.supplierId
  let _ ← ItemTokenClient.transfer environment (accountNumbers.lookup "ADMIN") supplierAccountId
    tokenId
  updatedPOStatus invoiceData.poId .pendingDelivery
  ProcurementService.updateTokenId invoiceId tokenId
  return ⟨200, "Tokens transferred to Supplier", (invoiceData.supplierId, tokenId), none⟩

/-- `generateQRCode(supplierId, tokenId)`, which answers with the path of the file. -/
def generateQRCode (tokenId : String) : Response String :=
  ⟨200, "QR Code generated", environment.qrCodePath ++ tokenId ++ ".svg", none⟩

/-- The part of `transferToken` that follows the transfer. The second update is
meant for the invoice. -/
def recordDelivery (transaction : Response (List Row)) (transferDetails : TransferDetails) :
    Handler (Response TransferDetails) := do
  if transferDetails.transferStatus then
    match transaction.data with
    | [] => .fail .undefinedProperty
    | row :: _ => do
        let _ ← ProcurementClient.updatePOStatus (row.poId.bind environment.encodeUint)
          PoStatus.delivered.text
        let _ ← ProcurementClient.updatePOStatus (row.invoiceId.bind environment.encodeUint)
          InvoiceStatus.completed.text
        return ⟨200, "Transfer done", transferDetails, none⟩
  else
    return ⟨500, "Failed", transferDetails, none⟩

/-- `transferToken(tokenId, fromId, toId, transaction)`. -/
def transferToken (tokenId fromId toId : String) (transaction : Response (List Row)) :
    Handler (Response TransferDetails) := do
  let transferDetails ← ItemTokenClient.transferToken environment fromId toId tokenId
  recordDelivery environment transaction transferDetails

def getOwnedTokenBalance (entityId : String) : Handler (Response Nat) := do
  let balance ← ItemTokenClient.getBalance entityId
  return ⟨200, "Balance Retrieved", balance, none⟩

/-- `getMetadata(tokenId, true)`: the Swarm service is asked without the `0x`. -/
def getMetadata (tokenId : String) : Handler (Option Metadata) :=
  match tokenId.toList with
  | '0' :: 'x' :: hash => wait .swarm (.swarmGet (String.ofList hash))
  | _ => wait .swarm (.swarmGet tokenId)

/-- `getMetadata(tokenId, useSwarm)`. An error of the second branch is caught and
returned in the place of the metadata. -/
def getMetadataBy (useSwarm : Bool) (tokenId : String) :
    Handler (Except Failure (Option Metadata)) :=
  Program.attempt
    (if useSwarm then getMetadata tokenId
    else do
      let metadata ← ItemTokenClient.getMetadata environment tokenId
      return some (mapTokenData tokenId metadata))

def retrieveMetadata (tokenId : String) : Handler (Response (Option Metadata)) := do
  let metadata ← getMetadata tokenId
  return ⟨200, "Token Metadata Retrieved", metadata, none⟩

end Controller

/-! ## Routes -/

inductive Request
  | getTransactions (filter : String)
  | getTransaction (id filter : String)
  | getSupplierTransactions (supplierId filter : String)
  | postPurchaseOrder (items : List PurchaseItem)
  | getPurchaseOrder (poId : String)
  | getPurchaseOrders
  | postInvoice (poId : String) (itemPrice : Option String)
  | getInvoice (invoiceId : String)
  | getInvoices
  | getInvoiceDetails
  | getBalance (entityId : String)
  | paySupplier (invoiceId payerId supplierId : String)
  | makeTokens (invoiceId : String)
  | transferToken (tokenId supplierId payerId : String)
  | getTokenBalance (entityId : String)

/-- The data of a response. -/
inductive Data
  | empty
  | transactions (details : List TransactionDetails)
  | purchaseOrders (transactionId : String) (poIds : List String)
  | po (po : Option PoData)
  | invoice (invoice : Option InvoiceData)
  | invoiceId (id : String)
  | ids (ids : List Nat)
  | invoices (invoices : List (Option InvoiceData))
  | balance (amount : Nat)
  | receipt (receipt : Option Receipt)
  | file (path : String)
  | metadata (metadata : Option Metadata)

open Controller in
/-- The body of the `try` block of each route. -/
def handle (environment : Environment) : Request → Handler (Response Data)
  | .getTransactions filter => do
      return (← getTransactions environment filter).map .transactions
  | .getTransaction id filter => do
      return (← getTransactionById environment id filter).map .transactions
  | .getSupplierTransactions supplierId filter => do
      return (← getTransactionBySupplierId environment supplierId filter).map .transactions
  | .postPurchaseOrder items => do
      return (← issuePO environment items).map fun data => .purchaseOrders data.1 data.2
  | .getPurchaseOrder poId => do
      return (← getPOById environment poId).map .po
  | .getPurchaseOrders => do
      return (← getPOList).map .ids
  | .postInvoice poId itemPrice => do
      let poDataRes ← ackPO environment poId
      return (← issueInvoice environment poDataRes.data itemPrice).map .invoiceId
  | .getInvoice invoiceId => do
      return (← getInvoiceById invoiceId (environment.encodeUint invoiceId)).map .invoice
  | .getInvoices => do
      return (← getInvoiceList).map .ids
  | .getInvoiceDetails => do
      return (← getInvoiceDetailsList).map .invoices
  | .getBalance entityId => do
      return (← getBalance entityId).map .balance
  | .paySupplier invoiceId payerId supplierId => do
      return (← payment environment invoiceId payerId supplierId).map .receipt
  | .makeTokens invoiceId => do
      let response ← makeTokens environment invoiceId
      return (generateQRCode environment response.data.2).map .file
  | .transferToken tokenId supplierId payerId => do
      let transaction ← getTransactionByTokenId tokenId
      let _ ← transferToken environment tokenId supplierId payerId transaction
      return (← retrieveMetadata tokenId).map .metadata
  | .getTokenBalance entityId => do
      return (← getOwnedTokenBalance entityId).map .balance

/-- The message with which each route answers a rejection. -/
def errorMessage : Request → String
  | .getTransactions _ => "Error in Get Transactions"
  | .getTransaction _ _ => "Error in Get Transaction by Id"
  | .getSupplierTransactions _ _ => "Error in Get Transaction by Supplier Id"
  | .postPurchaseOrder _ => "Error in Issue PO"
  | .getPurchaseOrder _ => "Error in getting PO by ID"
  | .getPurchaseOrders => "Error in retrieving list of PO Ids"
  | .postInvoice _ _ => "Error in Issue Invoice"
  | .getInvoice _ => "Error in retrieving Invoice"
  | .getInvoices => "Error in retrieving list of Invoice ids"
  | .getInvoiceDetails => "Error in retrieving list of Invoice Details"
  | .getBalance _ => "Error in getting balance"
  | .paySupplier _ _ _ => "Error in Payment"
  | .makeTokens _ => "Error in making tokens"
  | .transferToken _ _ _ => "Error in Transfer Token"
  | .getTokenBalance _ => "Error in getting token balance"

/-- What the client is answered. -/
def answer (request : Request) : Except Failure (Response Data) → Response Data
  | .ok response => response
  | .error failure => ⟨500, errorMessage request, .empty, some (.thrown failure)⟩

/-- The server as a system of requests. With the cell of every request equal all
requests share the undeclared variables, as they do in the process. -/
abbrev api (environment : Environment) (cell : Nat → Nat) : System where
  interface := server
  World := World
  serve := serve environment
  Request := Request
  Result := Response Data
  handler := handle environment
  cell := cell

/-! ## A test run

PizzaCo orders cheese, is sent the invoice 1002 over 5, pays CheeseCo, and the
token is made.
-/

def cheeseOrder : Request :=
  .postPurchaseOrder [⟨some "CHEESECO", some "CHEESE", some 2, some "KG"⟩]

def cheeseInvoice : Request :=
  .postInvoice "1001" (some "5")

def cheesePayment : Request :=
  .paySupplier "1002" "1" "2"

def cheeseToken : Request :=
  .makeTokens "1002"

end PizzaChain.Api
