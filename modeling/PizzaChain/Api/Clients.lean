import PizzaChain.Api.World

/-! # The blockchain clients and the procurement service

`pizzaCoinClient.js`, `itemTokenClient.js`, `procurementClient.js` and
`procurementService.js`. Variables that these files assign without declaring
them are fields of the globals.
-/

namespace PizzaChain.Api

open PizzaChain.Chain

structure TransferDetails where
  transferStatus : Bool
  receipt : Option Receipt

/-! ## pizzaCoinClient -/

namespace PizzaCoinClient

def getBalance (accId : String) : Handler Nat := do
  let accounts ← wait .accounts .getAccounts
  Program.modify fun globals => { globals with acc := accountAt accounts accId }
  let globals ← Program.get
  let balance ← wait .balance (.balanceOf globals.acc)
  return roundToDouble balance

/-- `_transferAmt(fromAcct, toAcct, amount)`, whose arguments are values. -/
def transferAmt (fromAcct toAcct : Option Address) (amount : Nat) : Handler Receipt := do
  let count ← wait .transactionCount (.getTransactionCount fromAcct)
  wait .readFile .readFile
  wait .coinDeployed .coinDeployed
  wait .sendTransaction (.transfer fromAcct toAcct amount (some count))

/-- The part of `transferAmount` that follows the top-up. -/
def payAndReadBack (supplierInitialAccountBalance amount : Nat) : Handler TransferDetails := do
  let globals ← Program.get
  let receipt ← transferAmt globals.userAcc globals.merchantAcct amount
  let globals ← Program.get
  let supplierAccountBalance ← wait .readBack (.balanceOf globals.merchantAcct)
  if roundToDouble supplierInitialAccountBalance + amount =
      roundToDouble supplierAccountBalance then
    return ⟨true, some receipt⟩
  else
    return ⟨false, none⟩

/-- `transferAmount(userAccId, merchantAcctId, amount)`. -/
def transferAmount (environment : Environment) (userAccId merchantAcctId : String) (amount : Nat) :
    Handler TransferDetails := do
  let accounts ← wait .userAccounts .getAccounts
  Program.modify fun globals => { globals with userAcc := accountAt accounts userAccId }
  let accounts ← wait .merchantAccounts .getAccounts
  Program.modify fun globals => { globals with merchantAcct := accountAt accounts merchantAcctId }
  let globals ← Program.get
  let pizzaCoBalance ← wait .payerBalance (.balanceOf globals.userAcc)
  let globals ← Program.get
  let supplierInitialAccountBalance ← wait .payeeBalance (.balanceOf globals.merchantAcct)
  if roundToDouble pizzaCoBalance = 0 then
    let globals ← Program.get
    let _ ← wait .topUp (.transfer environment.coinbase globals.userAcc amount none)
    payAndReadBack supplierInitialAccountBalance amount
  else
    payAndReadBack supplierInitialAccountBalance amount

end PizzaCoinClient

/-! ## itemTokenClient -/

namespace ItemTokenClient

def mintDataToBC (environment : Environment) (metadata : Metadata) : Handler Bool := do
  let _ ← wait .contract (.mintWithItemData (environment.encodeUint metadata.invoiceId)
    (metadata.itemType.bind (itemTypes.lookup ·)) metadata.uom (encodeNumber metadata.qty)
    (encodeNumber metadata.price))
  return true

def mint (environment : Environment) (tokenId : String) : Handler Bool := do
  let _ ← wait .contract (.mint (environment.encodeUint tokenId))
  return true

/-- `transferToken(merchantAcctId, userAccId, tokenId)`. -/
def transferToken (environment : Environment) (merchantAcctId userAccId tokenId : String) :
    Handler TransferDetails := do
  let accounts ← wait .userAccounts .getAccounts
  Program.modify fun globals => { globals with userAcc := accountAt accounts userAccId }
  let accounts ← wait .merchantAccounts .getAccounts
  Program.modify fun globals => { globals with merchantAcct := accountAt accounts merchantAcctId }
  let tokenOwner ← wait .tokenOwner (.ownerOf (environment.encodeUint tokenId))
  let globals ← Program.get
  if globals.userAcc ≠ some tokenOwner then
    let receipt ← wait .tokenTransfer (.transferFrom globals.merchantAcct globals.merchantAcct
      globals.userAcc (environment.encodeUint tokenId))
    let tokenOwner ← wait .tokenOwnerAfter (.ownerOf (environment.encodeUint tokenId))
    let globals ← Program.get
    if globals.userAcc = some tokenOwner then
      return ⟨true, some receipt⟩
    else
      return ⟨false, none⟩
  else
    return ⟨false, none⟩

/-- `transfer(fromAccId, toAccId, tokenId)`, sent by the admin. -/
def transfer (environment : Environment) (fromAccId toAccId : Option Nat) (tokenId : String) :
    Handler Receipt := do
  let accounts ← wait .fromAccounts .getAccounts
  Program.modify fun globals => { globals with fromAddress := fromAccId.bind (accounts[·]?) }
  let accounts ← wait .toAccounts .getAccounts
  Program.modify fun globals => { globals with toAddress := toAccId.bind (accounts[·]?) }
  let globals ← Program.get
  wait .mintedTransfer (.transferFrom environment.coinbase globals.fromAddress globals.toAddress
    (environment.encodeUint tokenId))

def getBalance (accId : String) : Handler Nat := do
  let accounts ← wait .accounts .getAccounts
  Program.modify fun globals => { globals with acc := accountAt accounts accId }
  let globals ← Program.get
  let balance ← wait .balance (.tokenBalanceOf globals.acc)
  return roundToDouble balance

def getMetadata (environment : Environment) (tokenId : String) :
    Handler (Nat × Nat × String × Nat) :=
  wait .contract (.getMetadata (environment.encodeUint tokenId))

end ItemTokenClient

/-! ## procurementClient -/

/-- An item of a purchase order request, with `none` for a missing field. The
quantity is the `uint` that web3 reads, if it reads one. -/
structure PurchaseItem where
  supplierId : Option String
  itemType : Option String
  qty : Option Nat
  uom : Option String

structure PoData where
  poId : String
  supplierId : String
  itemType : Option String
  qty : Nat
  uom : String
  status : String

structure InvoiceData where
  invoiceId : String
  poId : Nat
  supplierId : String
  itemType : Option String
  qty : Nat
  uom : String
  price : Nat
  status : String

namespace ProcurementClient

variable (environment : Environment)

def createPO (processId : String) (status : PoStatus) (item : PurchaseItem) : Handler Receipt :=
  wait .contract (.issuePO (environment.encodeUint processId) item.supplierId
    (item.itemType.bind (itemTypes.lookup ·)) item.qty item.uom status.text)

def createInvoice (processId : String) (status : InvoiceStatus) (itemPrice : Option String)
    (po : PoData) : Handler Receipt :=
  wait .contract (.issueInvoice (environment.encodeUint processId)
    (environment.encodeUint po.poId) po.supplierId (po.itemType.bind (itemTypes.lookup ·))
    (encodeNumber po.qty) po.uom (itemPrice.bind environment.encodeUint) status.text)

/-- The id is the `uint` that web3 makes of the argument, which is a string in
some places and a number of the chain in others. -/
def updatePOStatus (processId : Option Nat) (status : String) : Handler Receipt :=
  wait .contract (.updatePOStatus processId status)

def updateInvoiceStatus (processId : Option Nat) (status : String) : Handler Receipt :=
  wait .contract (.updateInvoiceStatus processId status)

def getPOById (processId : Option Nat) : Handler (String × Nat × Nat × String × String) :=
  wait .contract (.getPOById processId)

def getPOList : Handler (List Nat) :=
  wait .contract .getPOList

def getInvoiceById (processId : Option Nat) :
    Handler (Nat × String × Nat × Nat × String × Nat × String) :=
  wait .contract (.getInvoiceById processId)

def getInvoiceList : Handler (List Nat) :=
  wait .contract .getInvoiceList

end ProcurementClient

/-! ## procurementService -/

namespace ProcurementService

def createProcurement (row : Row) : Handler Unit :=
  wait .database (.saveRow row)

def getProcurements : Handler (List Row) :=
  wait .database (.findRows .all)

def getProcurementById (transactionId : String) : Handler (List Row) :=
  wait .database (.findRows (.transactionId transactionId))

def getProcurementBySupplierId (supplierId : String) : Handler (List Row) :=
  wait .database (.findRows (.supplierId supplierId))

def getProcurementByTokenId (tokenId : String) : Handler (List Row) :=
  wait .database (.findRows (.tokenId tokenId))

/-- The price that is also written to the row is not read anywhere, but has to be a
number. -/
def updateInvoice (poId invoiceId : String) (itemPrice : Option String) : Handler Unit :=
  wait .database (.updateInvoice poId invoiceId itemPrice)

def updateTokenId (invoiceId tokenId : String) : Handler Unit :=
  wait .database (.updateTokenId invoiceId tokenId)

end ProcurementService

end PizzaChain.Api
