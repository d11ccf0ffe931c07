import PizzaChain.Api.TableIntegrity
import PizzaChain.Api.TokenMetadata
import PizzaChain.Api.Listing
import PizzaChain.Api.PaymentAlone
import PizzaChain.Api.Delivery
import PizzaChain.Assets.Asset
import PizzaChain.Semantics.Agreement

/-! # A purchase from the order to the delivery

PizzaCo orders an item, is billed and pays, the token of the item is made, and the code
that is printed for it is scanned at the delivery. The five requests are made one after
another, in any state that other requests have left.
-/

namespace PizzaChain.Api

open PizzaChain.Chain
open PizzaChain.Assets (Json Runtime inheritedNames)

/-! ## The code -/

/-- The text in the code that `generateQRCode(supplierId, tokenId)` draws. -/
def qrText (runtime : Runtime) (supplierId tokenId : String) : String :=
  runtime.stringify (.object [("supplierId", .string supplierId), ("tokenId", .string tokenId)])

/-- A property of a value that was read, in a text. -/
def propertyText : Option Json → Option String
  | none => some "undefined"
  | some value => value.asText

/-- The parts of a URL that `QrScan.js` posts to. -/
structure ScanUrl where
  tokenId : String
  supplierAccountId : String
  pizzaCoAccountId : String

/-- A part that stands for itself in a URL. -/
def isPlain (text : String) : Bool :=
  text != "" && text.toList.all Char.isAlphanum

/-- The request of a URL whose parts stand for themselves. -/
def ScanUrl.request (url : ScanUrl) : Option Request :=
  if isPlain url.tokenId && isPlain url.supplierAccountId && isPlain url.pizzaCoAccountId then
    some (.transferToken url.tokenId url.supplierAccountId url.pizzaCoAccountId)
  else none

section Scan

variable (runtime : Runtime) (inherited : String → String)

/-- The text of `accounts[id]` of the constants, given those of the properties that every
object inherits. -/
def accountText (id : String) : String :=
  match accountNumbers.lookup id with
  | some index => toString index
  | none => if id ∈ inheritedNames then inherited id else "undefined"

/-- Where the code with a value is posted to. There is nothing to read from `null`. -/
def scanUrl (value : Json) : Option ScanUrl :=
  match value with
  | .null => none
  | value => do
      let supplierId ← propertyText (value.field "supplierId")
      let tokenId ← propertyText (value.field "tokenId")
      return ⟨tokenId, accountText inherited supplierId, accountText inherited "PIZZACO"⟩

-- Codes that the server does not draw: what is not a text is converted, and `accounts` inherits
-- from `Object.prototype`.
example : scanUrl inherited (.bool true) = some ⟨"undefined", "undefined", "1"⟩ ∧
    scanUrl inherited (.object [("supplierId", .string "constructor"),
      ("tokenId", .array [.bool true, .null])]) =
        some ⟨"true,", inherited "constructor", "1"⟩ :=
  ⟨rfl, rfl⟩

/-- `handleScan(data)` of `QrScan.js`: what is posted to, unless there is nothing to read or
an exception is thrown. -/
def handleScan (data : String) : Option ScanUrl :=
  if data = "" then none else (runtime.parse data).bind (scanUrl inherited)

variable {runtime}

theorem handleScan_qrText (roundTrip : runtime.RoundTrip) (unreadable : runtime.parse "" = none)
    (supplierId tokenId : String) :
    handleScan runtime inherited (qrText runtime supplierId tokenId) =
      some ⟨tokenId, accountText inherited supplierId, accountText inherited "PIZZACO"⟩ := by
  have value : Json.object [("supplierId", .string supplierId), ("tokenId", .string tokenId)] ∈
      runtime.values := by
    have ordered : ["supplierId", "tokenId"].Pairwise (Json.inOrder · ·) := by decide
    refine .object ordered fun field member => ?_
    simp only [List.mem_cons, List.not_mem_nil, or_false] at member
    rcases member with rfl | rfl <;> exact .string _
  have read := roundTrip _ value
  have nonempty : qrText runtime supplierId tokenId ≠ "" := by
    intro empty
    rw [qrText] at empty
    rw [empty, unreadable] at read
    cases read
  rw [handleScan, if_neg nonempty, qrText, read]
  rfl

theorem accountText_of_listed {id : String} {index : Nat}
    (listed : accountNumbers.lookup id = some index) :
    accountText inherited id = toString index := by
  rw [accountText, listed]

theorem isPlain_accountText {id : String} {index : Nat}
    (listed : accountNumbers.lookup id = some index) :
    isPlain (accountText inherited id) = true := by
  have table : ∀ entry ∈ accountNumbers, isPlain (toString entry.2) = true := by decide
  rcases List.lookup_eq_some_iff.mp listed with ⟨before, after, listing, _⟩
  rw [accountText_of_listed inherited listed]
  exact table (id, index) (by rw [listing]; simp)

theorem isPlain_tokenId {hash : String} (plain : isPlain hash = true) :
    isPlain ("0x" ++ hash) = true := by
  rw [isPlain, Bool.and_eq_true] at plain ⊢
  refine ⟨?_, ?_⟩
  · rw [bne_iff_ne, ne_eq, String.append_eq_empty_iff]
    exact fun empty => absurd empty.1 (by decide)
  · rw [String.toList_append, List.all_append, plain.2]
    decide

end Scan

theorem accountAt_toString (accounts : List Address) (index : Nat) :
    accountAt accounts (toString index) = accounts[index]? := by
  have same : ∀ other : Nat, (toString other == toString index) = (other == index) := by
    intro other
    rw [Bool.eq_iff_iff, beq_iff_eq, beq_iff_eq]
    refine ⟨fun equal => ?_, fun equal => by rw [equal]⟩
    have read := congrArg readUint equal
    rw [readUint_toString, readUint_toString] at read
    exact Option.some.inj read
  simp only [accountAt, same]
  rcases Nat.lt_or_ge index accounts.length with inside | outside
  · have found : (List.range accounts.length).find? (fun other => other == index) = some index := by
      rw [List.find?_range_eq_some]
      refine ⟨beq_self_eq_true index, List.mem_range.mpr inside, fun other smaller => ?_⟩
      simp [Nat.ne_of_lt smaller]
    rw [found, Option.bind_some]
  · have missing : (List.range accounts.length).find? (fun other => other == index) = none := by
      rw [List.find?_eq_none]
      intro other member equal
      have small := List.mem_range.mp member
      rw [beq_iff_eq] at equal
      omega
    rw [missing, List.getElem?_eq_none outside]
    rfl

theorem accountAt_accountText {environment : Environment} (inherited : String → String)
    {id : String} {account : Address} (known : supplierAccount environment id = some account) :
    accountAt environment.accounts (accountText inherited id) = some account := by
  rcases Option.bind_eq_some_iff.mp known with ⟨index, listed, found⟩
  rw [accountText_of_listed inherited listed]
  exact (accountAt_toString environment.accounts index).trans found

/-! ## What is bought -/

/-- An item with a price. The texts are read by web3, the price is a number for the table as
well, and the supplier and PizzaCo have accounts of their own. -/
structure Purchase (environment : Environment) where
  supplierId : String
  itemType : String
  itemNumber : Nat
  qty : Nat
  uom : String
  itemPrice : String
  price : Nat
  supplier : Address
  payer : Address
  typed : itemTypes.lookup itemType = some itemNumber
  counted : qty < 2 ^ 53
  priced : environment.encodeUint itemPrice = some price
  castable : environment.isNumber itemPrice = true
  supplies : supplierAccount environment supplierId = some supplier
  pays : supplierAccount environment "PIZZACO" = some payer
  different : payer ≠ supplier

namespace Purchase

variable {environment : Environment} (purchase : Purchase environment)

def item : PurchaseItem :=
  ⟨some purchase.supplierId, some purchase.itemType, some purchase.qty, some purchase.uom⟩

def terms : OrderTerms :=
  ⟨purchase.supplierId, purchase.itemNumber, purchase.qty, purchase.uom⟩

def invoiceTerms (poNumber : Nat) : InvoiceTerms :=
  ⟨poNumber, purchase.supplierId, purchase.itemNumber, purchase.qty, purchase.uom, purchase.price⟩

def metadata (invoiceId : String) : Metadata :=
  ⟨invoiceId, some purchase.itemType, purchase.uom, purchase.qty, purchase.price⟩

theorem item_terms : purchase.item.terms = some purchase.terms := by
  rw [PurchaseItem.terms_eq_some_iff]
  exact ⟨rfl, purchase.typed, rfl, rfl⟩

theorem named : getKeyByValue itemTypes purchase.itemNumber = some purchase.itemType := by
  have found := getKeyByValue_of_lookup purchase.typed
  rw [roundToDouble_of_lt found.2] at found
  exact found.1

theorem billed_eq {po : PO} (ordered : po.terms = purchase.terms) (poNumber : Nat) :
    billed environment poNumber po (some purchase.itemPrice) =
      some (purchase.invoiceTerms poNumber) := by
  rcases po with ⟨supplierId, itemType, qty, uom, status⟩
  cases ordered
  rw [billed, Option.bind_some, purchase.priced]
  simp only
  rw [if_pos ⟨by rw [purchase.named]; rfl, purchase.counted⟩]
  rfl

/-- What is posted for the invoice has the numbers of the order. -/
theorem metadataOf_eq {invoice : Invoice} {poNumber : Nat} (invoiceId : String)
    (bills : invoice.terms = purchase.invoiceTerms poNumber) (payable : purchase.price ≤ supply) :
    metadataOf invoiceId invoice = purchase.metadata invoiceId := by
  rcases invoice with ⟨poId, supplierId, itemType, qty, uom, price, status⟩
  cases bills
  have exactPrice : roundToDouble purchase.price = purchase.price :=
    roundToDouble_of_lt (Nat.lt_of_le_of_lt payable (by decide))
  simp only [metadataOf, metadata, roundToDouble_of_lt purchase.counted, exactPrice,
    (getKeyByValue_of_lookup purchase.typed).1]

end Purchase

/-! ## A token that is made and delivered -/

section Token

variable {environment : Environment} {cell : Nat → Nat} {invoiceId : String} {invoice : Nat}
  {view : View (api environment cell)}

/-- The call leaves the coins and the Swarm service alone. -/
def OnChainOrTable (call : Call) : Prop :=
  call.changes ≠ some .swarm ∧ call.changes ≠ some .coin

theorem onChainOrTable_of_reads {call : Call} (reads : call.reads = true) :
    OnChainOrTable call := by
  rw [Call.reads, Option.isNone_iff_eq_none] at reads
  simp [OnChainOrTable, reads]

theorem onChainOrTable_of_changes {call : Call} {part : Part} (changes : call.changes = some part)
    (other : part ≠ .swarm ∧ part ≠ .coin) : OnChainOrTable call := by
  simp [OnChainOrTable, changes, other]

theorem ensures_stored {program : Handler α} (calls : program.Calls OnChainOrTable) :
    program.Ensures view fun _ after =>
      after.world.swarm = view.world.swarm ∧ after.world.coin = view.world.coin := by
  refine Program.alone_invariant view
    (fun world : World => world.swarm = view.world.swarm ∧ world.coin = view.world.coin)
    (fun call world allowed before => ?_) calls ⟨rfl, rfl⟩
  have framed := serve_framed environment call world
  exact ⟨(framed.swarm allowed.1).trans before.1, (framed.coin allowed.2).trans before.2⟩

/-- The description stays where the token's id points to. -/
theorem makeTokens_stores {hash : String}
    (encoded : environment.encodeUint invoiceId = some invoice)
    (hashes : environment.rootHash
      (metadataOf invoiceId (view.world.procurement.invoices invoice)) = some hash) :
    (Controller.makeTokens environment invoiceId).Ensures view fun _ after =>
      after.world.swarm = (hash, metadataOf invoiceId (view.world.procurement.invoices invoice)) ::
          view.world.swarm ∧
        after.world.coin = view.world.coin := by
  let metadata := metadataOf invoiceId (view.world.procurement.invoices invoice)
  have served : serve environment (.swarmPost metadata) view.world =
      (.ok (some hash), { view.world with swarm := (hash, metadata) :: view.world.swarm }) := by
    simp [serve, metadata, hashes]
  simp only [Controller.makeTokens, Controller.mintItemToken, ProcurementClient.getInvoiceById,
    Program.bind_assoc]
  rw [encoded]
  apply Program.ensures_ok rfl
  apply Program.ensures_ok served
  -- All that follows is done on the chain and in the table.
  apply ensures_stored
  refine Program.Calls.bind ?_ fun tokenId => ?_
  · refine Program.Calls.bind ?_ fun _ => trivial
    exact (Program.Calls.call _ (onChainOrTable_of_changes rfl (by decide))).bind fun _ => trivial
  refine Program.Calls.bind ?_ fun _ => ?_
  · apply transfer_calls environment fun _ => onChainOrTable_of_reads
    exact fun _ _ => onChainOrTable_of_changes rfl (by decide)
  refine Program.Calls.bind ?_ fun _ => ?_
  · refine (Program.Calls.call _ (onChainOrTable_of_reads rfl)).bind fun _ => ?_
    exact (Program.Calls.call _ (onChainOrTable_of_changes rfl (by decide))).bind fun _ => trivial
  exact (Program.Calls.call _ (onChainOrTable_of_changes rfl (by decide))).bind fun _ => trivial

/-- With a new token and a known supplier, the token is made. -/
theorem TokenOutcome.of_possible {before after : World} {hash : String} {token : Nat}
    {supplier : Address} {outcome : Except Failure (Response (String × String))}
    (result : TokenOutcome environment invoiceId before outcome after)
    (encoded : environment.encodeUint invoiceId = some invoice)
    (hashes : environment.rootHash
      (metadataOf invoiceId (before.procurement.invoices invoice)) = some hash)
    (named : environment.encodeUint ("0x" ++ hash) = some token)
    (unowned : before.token.tokenOwner token = 0)
    (known : supplierAccount environment (before.procurement.invoices invoice).supplierId =
      some supplier) :
    outcome = .ok ⟨200, "Tokens transferred to Supplier",
        ((before.procurement.invoices invoice).supplierId, "0x" ++ hash), none⟩ ∧
      after.token.tokenOwner = Function.update before.token.tokenOwner token supplier ∧
      after.procurement = before.procurement.updatePOStatus
        (before.procurement.invoices invoice).poId PoStatus.pendingDelivery.text ∧
      after.rows = updateFirst (fun row => row.invoiceId == some invoiceId)
        (fun row => { row with tokenId := some ("0x" ++ hash) }) before.rows := by
  have hashed : tokenNumber environment invoiceId (before.procurement.invoices invoice) =
      some token := by
    rw [tokenNumber, hashes]
    exact named
  cases result with
  | unread unencoded => cases encoded.symm.trans unencoded
  | unminted other refuses =>
      cases encoded.symm.trans other
      exact absurd unowned (refuses token hashed)
  | stranded other _ _ unknown =>
      cases encoded.symm.trans other
      cases known.symm.trans unknown
  | made other otherHash otherName _ otherSupplier owners procurement rows =>
      cases encoded.symm.trans other
      cases hashes.symm.trans otherHash
      cases named.symm.trans otherName
      cases known.symm.trans otherSupplier
      exact ⟨rfl, owners, procurement, rows⟩

theorem serve_updatePOStatus_of_some (environment : Environment) {argument : Option Nat}
    {poNumber : Nat} (given : argument = some poNumber) (status : String) (world : World) :
    serve environment (.updatePOStatus argument status) world =
      (.ok world.transactions.length, { world with
        procurement := world.procurement.updatePOStatus poNumber status
        transactions := world.transactions ++ [environment.admin] }) := by
  subst given
  rfl

/-- A delivery whose token is in one row, with what it tells the client. -/
theorem transferToken_delivered {hash supplierId payerId : String} {supplier payer : Address}
    {token poNumber : Nat} {row : Row} {others : List Row} {metadata : Metadata}
    (named : environment.encodeUint ("0x" ++ hash) = some token)
    (supplying : accountAt environment.accounts supplierId = some supplier)
    (paying : accountAt environment.accounts payerId = some payer)
    (owned : view.world.token.tokenOwner token = supplier) (different : payer ≠ supplier)
    (found : view.world.rows.filter (Query.tokenId ("0x" ++ hash)).matches = row :: others)
    (ordered : row.poId.bind environment.encodeUint = some poNumber)
    (billed : row.invoiceId.bind environment.encodeUint = some invoice)
    (stored : view.world.swarm.lookup hash = some metadata) :
    (handle environment (.transferToken ("0x" ++ hash) supplierId payerId)).Ensures view
      fun outcome after =>
        outcome = .ok ⟨200, "Token Metadata Retrieved", .metadata (some metadata), none⟩ ∧
        after.world.token.tokenOwner =
          Function.update view.world.token.tokenOwner token payer ∧
        after.world.procurement = (view.world.procurement.updatePOStatus poNumber
          PoStatus.delivered.text).updatePOStatus invoice InvoiceStatus.completed.text ∧
        after.world.rows = view.world.rows ∧ after.world.coin = view.world.coin := by
  have moves : delivers environment view.world.token ("0x" ++ hash) supplierId payerId = true :=
    delivers_iff.mpr ⟨token, supplier, payer, named, supplying, paying, owned, different⟩
  simp only [handle, Controller.getTransactionByTokenId, Controller.transferToken,
    ProcurementService.getProcurementByTokenId, Program.bind_assoc, Program.pure_eq_done,
    Program.done_bind]
  apply Program.ensures_ok rfl
  apply ensures_transferToken_of_delivers
  · exact moves
  intro number account next receipt transactions globals trace encoded names _ owners
  cases named.symm.trans encoded
  cases paying.symm.trans names
  rw [Controller.recordDelivery, if_pos rfl, found]
  simp only [ProcurementClient.updatePOStatus, Program.bind_assoc, Program.pure_eq_done,
    Program.done_bind]
  apply Program.ensures_ok (serve_updatePOStatus_of_some environment ordered _ _)
  apply Program.ensures_ok (serve_updatePOStatus_of_some environment billed _ _)
  rw [Controller.retrieveMetadata, getMetadata_of_hash]
  simp only [Program.bind_assoc, Program.pure_eq_done, Program.done_bind]
  apply Program.ensures_ok rfl
  refine ⟨?_, owners, rfl, rfl, rfl⟩
  simp only [Response.map, stored]
  rfl

end Token

/-! ## One request after another -/

/-- The request is answered with the response, and leaves the next state. -/
def Answers {environment : Environment} (sequence : Sequence (sharedApi environment))
    (exchange : Request × Response Data) (next : Sequence (sharedApi environment)) : Prop :=
  (sequence.ended exchange.1).1 = .ok exchange.2 ∧ next = sequence.next exchange.1

/-- The text of the code that `POST /makeTokens/:invoiceId` draws. -/
def qrCode {environment : Environment} (runtime : Runtime) (invoiceId : String)
    (sequence : Sequence (sharedApi environment)) : Option String :=
  match ((Controller.makeTokens environment invoiceId).alone sequence.view).1 with
  | .ok response => some (qrText runtime response.data.1 response.data.2)
  | .error _ => none

section Stages

variable {environment : Environment} {number : Nat → Nat} (purchase : Purchase environment)
  (sequence : Sequence (sharedApi environment))

theorem order_answered (numeric : NumericIds environment number)
    (fits : environment.affords sequence.world.procurement
      (orderCall (number (sequence.globals.ids + 1)) purchase.terms) = true) :
    ∃ next, Answers sequence (.postPurchaseOrder [purchase.item],
        ⟨201, "PO Issued", .purchaseOrders (environment.uniqueId sequence.globals.ids)
          [environment.uniqueId (sequence.globals.ids + 1)], none⟩) next ∧
      next.world = sequence.world.place environment number
        ⟨environment.uniqueId sequence.globals.ids, sequence.globals.ids + 1, purchase.terms⟩ ∧
      next.globals.ids = sequence.globals.ids + 2 := by
  have orders : purchase.item.order environment sequence.view.world.procurement
      (number (sequence.view.globals.ids + 1)) = some purchase.terms :=
    PurchaseItem.order_eq_some_iff.mpr ⟨purchase.item_terms, fits⟩
  have accepts : accepted environment number [purchase.item] sequence.view.world.procurement
      (sequence.view.globals.ids + 1) = [purchase.terms] := by
    rw [accepted, orders]
    rfl
  rcases (issuePO_alone numeric [purchase.item] sequence.view).1 ⟨_, orders, trivial⟩ with
    ⟨outcome, world, globals⟩
  rw [accepts] at world
  exact ⟨_, ⟨outcome, rfl⟩, world, congrArg Globals.ids globals⟩

theorem invoice_answered (numeric : NumericIds environment number) {poId : String}
    {poNumber : Nat} (encoded : environment.encodeUint poId = some poNumber)
    (ordered : (sequence.world.procurement.pos poNumber).terms = purchase.terms)
    (fits : environment.affords (sequence.world.acknowledge environment poNumber).procurement
      (invoiceCall (number sequence.globals.ids) (purchase.invoiceTerms poNumber)) = true) :
    ∃ next, Answers sequence (.postInvoice poId (some purchase.itemPrice),
        ⟨201, "Invoice Issued", .invoiceId (environment.uniqueId sequence.globals.ids), none⟩)
          next ∧
      next.world = (sequence.world.acknowledge environment poNumber).invoice environment poId
        (environment.uniqueId sequence.globals.ids) (number sequence.globals.ids)
        (purchase.invoiceTerms poNumber) := by
  have ends := (postInvoice_alone numeric poId (some purchase.itemPrice) sequence.view).1
  have answered : ∃ outcome world,
      (sequence.ended (.postInvoice poId (some purchase.itemPrice))).1 = outcome ∧
      (sequence.next (.postInvoice poId (some purchase.itemPrice))).world = world ∧
      InvoiceOutcome environment number poId (some purchase.itemPrice) sequence.world
        sequence.globals.ids outcome world := ⟨_, _, rfl, rfl, ends⟩
  rcases answered with ⟨outcome, world, ended, left, result⟩
  have bills : sequence.world.billable environment poNumber (number sequence.globals.ids)
      (some purchase.itemPrice) = some (purchase.invoiceTerms poNumber) :=
    Option.filter_eq_some_iff.mpr ⟨purchase.billed_eq ordered poNumber, fits⟩
  cases result with
  | unread unencoded => cases encoded.symm.trans unencoded
  | refused other refuses =>
      cases encoded.symm.trans other
      cases bills.symm.trans refuses
  | unlinked _ _ uncast =>
      rw [Option.all_some, purchase.castable] at uncast
      cases uncast
  | issued other billing =>
      cases encoded.symm.trans other
      cases bills.symm.trans billing
      exact ⟨_, ⟨ended, rfl⟩, left⟩

theorem payment_answered (inherited : String → String) {invoiceId : String} {invoice : Nat}
    (encoded : environment.encodeUint invoiceId = some invoice)
    (priced : priceOf sequence.world invoice = purchase.price)
    (settled : settles environment sequence.world.coin purchase.payer purchase.supplier
      purchase.price = true) :
    ∃ next receipt coin transactions,
      Answers sequence
        (.paySupplier invoiceId (accountText inherited "PIZZACO")
          (accountText inherited purchase.supplierId),
          ⟨200, "Payment done", .receipt (some receipt), none⟩) next ∧
      coin.balanceOf purchase.supplier =
        sequence.world.coin.balanceOf purchase.supplier + purchase.price ∧
      next.world = { sequence.world with
        coin := coin
        procurement := sequence.world.procurement.updateInvoiceStatus invoice
          InvoiceStatus.paymentReceived.text
        transactions := transactions } := by
  rw [← priced] at settled ⊢
  have ends := paySupplier_alone encoded (accountAt_accountText inherited purchase.pays)
    (accountAt_accountText inherited purchase.supplies) sequence.view
  rw [Program.Ensures, PaymentEnds, if_pos (show settles environment sequence.view.world.coin _ _
    (priceOf sequence.view.world invoice) = true from settled)] at ends
  rcases ends with ⟨receipt, _, coin, transactions, outcome, balance, world, _⟩
  exact ⟨_, receipt, coin, transactions, ⟨outcome, rfl⟩, balance, world⟩

theorem token_answered (runtime : Runtime) {invoiceId hash : String} {invoice token : Nat}
    (encoded : environment.encodeUint invoiceId = some invoice)
    (described : metadataOf invoiceId (sequence.world.procurement.invoices invoice) =
      purchase.metadata invoiceId)
    (supplies : (sequence.world.procurement.invoices invoice).supplierId = purchase.supplierId)
    (hashes : environment.rootHash (purchase.metadata invoiceId) = some hash)
    (named : environment.encodeUint ("0x" ++ hash) = some token)
    (unowned : sequence.world.token.tokenOwner token = 0) :
    ∃ next, Answers sequence (.makeTokens invoiceId,
        ⟨200, "QR Code generated", .file (environment.qrCodePath ++ ("0x" ++ hash) ++ ".svg"),
          none⟩) next ∧
      qrCode runtime invoiceId sequence =
        some (qrText runtime purchase.supplierId ("0x" ++ hash)) ∧
      next.world.token.tokenOwner =
        Function.update sequence.world.token.tokenOwner token purchase.supplier ∧
      next.world.procurement = sequence.world.procurement.updatePOStatus
        (sequence.world.procurement.invoices invoice).poId PoStatus.pendingDelivery.text ∧
      next.world.rows = updateFirst (fun row => row.invoiceId == some invoiceId)
        (fun row => { row with tokenId := some ("0x" ++ hash) }) sequence.world.rows ∧
      next.world.swarm.lookup hash = some (purchase.metadata invoiceId) ∧
      next.world.coin = sequence.world.coin := by
  rw [← described] at hashes ⊢
  have ends := makeTokens_alone environment invoiceId sequence.view
  have stores := @makeTokens_stores environment _ invoiceId invoice sequence.view hash encoded
    hashes
  rw [Program.Ensures] at ends stores
  have known := purchase.supplies
  rw [← supplies] at known
  rcases ends.of_possible encoded hashes named unowned known with
    ⟨outcome, owners, procurement, rows⟩
  have answered : (handle environment (.makeTokens invoiceId)).alone sequence.view =
      (.ok ⟨200, "QR Code generated",
          .file (environment.qrCodePath ++ ("0x" ++ hash) ++ ".svg"), none⟩,
        ((Controller.makeTokens environment invoiceId).alone sequence.view).2) := by
    exact Program.alone_bind_of_ok outcome
  have left : (sequence.next (.makeTokens invoiceId)).world =
      ((Controller.makeTokens environment invoiceId).alone sequence.view).2.world :=
    congrArg (fun ended => ended.2.world) answered
  refine ⟨sequence.next (.makeTokens invoiceId), ⟨congrArg Prod.fst answered, rfl⟩, ?_, ?_⟩
  · rw [qrCode, outcome, ← supplies]
    rfl
  · rw [left]
    refine ⟨owners, procurement, rows, ?_, stores.2⟩
    rw [stores.1]
    exact List.lookup_cons_self

/-- The row of the purchase is the only one that names its token. -/
theorem delivery_answered (inherited : String → String) {invoiceId hash : String}
    {token poNumber invoice : Nat} {row : Row} {others : List Row}
    (named : environment.encodeUint ("0x" ++ hash) = some token)
    (owned : sequence.world.token.tokenOwner token = purchase.supplier)
    (found : sequence.world.rows.filter (Query.tokenId ("0x" ++ hash)).matches = row :: others)
    (ordered : row.poId.bind environment.encodeUint = some poNumber)
    (billed : row.invoiceId.bind environment.encodeUint = some invoice)
    (stored : sequence.world.swarm.lookup hash = some (purchase.metadata invoiceId)) :
    ∃ next, Answers sequence
        (.transferToken ("0x" ++ hash) (accountText inherited purchase.supplierId)
          (accountText inherited "PIZZACO"),
          ⟨200, "Token Metadata Retrieved", .metadata (some (purchase.metadata invoiceId)), none⟩)
          next ∧
      next.world.token.tokenOwner =
        Function.update sequence.world.token.tokenOwner token purchase.payer ∧
      next.world.procurement = (sequence.world.procurement.updatePOStatus poNumber
        PoStatus.delivered.text).updatePOStatus invoice InvoiceStatus.completed.text ∧
      next.world.rows = sequence.world.rows ∧ next.world.coin = sequence.world.coin := by
  have ends := @transferToken_delivered environment (fun _ => 0) invoice sequence.view hash _ _ _ _
    token poNumber row others _ named (accountAt_accountText inherited purchase.supplies)
    (accountAt_accountText inherited purchase.pays) owned purchase.different found ordered billed
    stored
  exact ⟨_, ⟨ends.1, rfl⟩, ends.2⟩

end Stages

/-! ## The rows of other purchases -/

theorem updateFirst_append_singleton {condition : Row → Bool} {change : Row → Row}
    {rows : List Row} {row : Row} (others : ∀ other ∈ rows, condition other = false)
    (meets : condition row = true) :
    updateFirst condition change (rows ++ [row]) = rows ++ [change row] := by
  induction rows with
  | nil => simp [updateFirst, meets]
  | cons first rows induction =>
      have rest := induction fun other member => others other (List.mem_cons_of_mem _ member)
      simp [updateFirst, others first List.mem_cons_self, rest]

section Rows

variable {environment : Environment} {number : Nat → Nat} {globals : Nat → Globals}
  {actions : List (Action (sharedApi environment))} {pool : Pool (sharedApi environment)}

theorem unlisted_of_drawn (fresh : FreshIds environment number)
    (run : ServerRun environment globals actions pool) {drawn : Nat}
    (later : (pool.globals 0).ids ≤ drawn) :
    number drawn ∉ pool.world.procurement.poArray ∧
      number drawn ∉ pool.world.procurement.invoiceArray := by
  have unstamped : number drawn ∉ (idTickets fresh).stamped pool.log := by
    intro stamped
    rcases (ids_unique fresh run).drawn _ stamped with ⟨other, _, early, same⟩
    have equal : drawn = other := fresh.injective same
    have smaller : other < (pool.globals 0).ids := early
    omega
  exact ⟨fun listed => unstamped (mem_stamped_of_listed fresh run (.inl listed)),
    fun listed => unstamped (mem_stamped_of_listed fresh run (.inr listed))⟩

variable {row : Row} (intact : Intact environment pool.world) (member : row ∈ pool.world.rows)

include intact member

theorem poId_ne_of_unlisted {poId : String} {poNumber : Nat}
    (encoded : environment.encodeUint poId = some poNumber)
    (unlisted : poNumber ∉ pool.world.procurement.poArray) : row.poId ≠ some poId := by
  rcases intact.rows row member with ⟨other, kept⟩
  intro same
  have named := kept.named
  rw [Row.order, same, Option.bind_some, encoded] at named
  cases named
  exact unlisted kept.ordered

theorem invoiceId_ne_of_unlisted {invoiceId : String} {invoice : Nat}
    (encoded : environment.encodeUint invoiceId = some invoice)
    (unlisted : invoice ∉ pool.world.procurement.invoiceArray) :
    row.invoiceId ≠ some invoiceId := by
  rcases intact.rows row member with ⟨poNumber, kept⟩
  intro same
  rcases kept.invoiced invoiceId same with ⟨other, named, listed, _⟩
  cases encoded.symm.trans named
  exact unlisted listed

theorem tokenId_ne_of_unowned {tokenId : String} {token : Nat}
    (encoded : environment.encodeUint tokenId = some token)
    (unowned : pool.world.token.tokenOwner token = 0) : row.tokenId ≠ some tokenId := by
  rcases intact.rows row member with ⟨poNumber, kept⟩
  intro same
  rcases kept.linked tokenId same with ⟨invoiceId, _, invoice, hash, other, _, _, _, named, owned⟩
  cases encoded.symm.trans named
  exact owned unowned

end Rows

/-! ## The purchase -/

namespace Purchase

variable {environment : Environment} (purchase : Purchase environment)

/-- The documents of a purchase that the supplier has acknowledged. -/
def ordered (state : Procurement) (poNumber : Nat) : Procurement :=
  (state.apply (orderCall poNumber purchase.terms)).updatePOStatus poNumber
    PoStatus.acknowledged.text

/-- The documents of a purchase that is paid. -/
def documents (state : Procurement) (poNumber invoice : Nat) : Procurement :=
  ((purchase.ordered state poNumber).apply
    (invoiceCall invoice (purchase.invoiceTerms poNumber))).updateInvoiceStatus invoice
      InvoiceStatus.paymentReceived.text

/-- The gas is enough for the order and for the invoice, PizzaCo can pay, and the description
of the item has a hash of letters and digits that names no token. -/
structure Possible (world : World) (poNumber invoice : Nat) (invoiceId hash : String)
    (token : Nat) : Prop where
  orderFits : environment.affords world.procurement (orderCall poNumber purchase.terms) = true
  invoiceFits : environment.affords (purchase.ordered world.procurement poNumber)
    (invoiceCall invoice (purchase.invoiceTerms poNumber)) = true
  settles : settles environment world.coin purchase.payer purchase.supplier purchase.price = true
  hashes : environment.rootHash (purchase.metadata invoiceId) = some hash
  plain : isPlain hash = true
  named : environment.encodeUint ("0x" ++ hash) = some token
  unowned : world.token.tokenOwner token = 0

/-- The item is paid and delivered, and its row is the only one that is new. -/
structure Fulfilled (before after : World) (transactionId poId invoiceId tokenId : String) :
    Prop where
  documents : ∃ poNumber invoice, environment.encodeUint poId = some poNumber ∧
    environment.encodeUint invoiceId = some invoice ∧
    (after.procurement.pos poNumber).terms = purchase.terms ∧
    (after.procurement.pos poNumber).status = PoStatus.delivered.text ∧
    (after.procurement.invoices invoice).terms = purchase.invoiceTerms poNumber ∧
    (after.procurement.invoices invoice).status = InvoiceStatus.paymentReceived.text
  token : ∃ token, environment.encodeUint tokenId = some token ∧
    after.token.ownerOf token = some purchase.payer
  payment : after.coin.balanceOf purchase.supplier =
    before.coin.balanceOf purchase.supplier + purchase.price
  rows : after.rows = before.rows ++ [⟨some transactionId, some purchase.supplierId, some poId,
    some invoiceId, some tokenId⟩]

theorem payable {coin : PizzaCoin}
    (settled : settles environment coin purchase.payer purchase.supplier purchase.price = true) :
    purchase.price ≤ supply := by
  by_cases zero : coin.balanceOf purchase.payer = 0
  · exact ((settles_iff_of_zero zero).mp settled).1.trans (coin.balance_le _)
  · exact ((settles_iff_of_nonzero zero).mp settled).1.trans (coin.balance_le _)

end Purchase

section Carried

variable {environment : Environment} {number : Nat → Nat} {globals : Nat → Globals}
  {actions : List (Action (sharedApi environment))} {pool : Pool (sharedApi environment)}
  (purchase : Purchase environment)

theorem Purchase.pos_documents (state : Procurement) (poNumber invoice : Nat) :
    (purchase.documents state poNumber invoice).pos poNumber = ⟨purchase.supplierId,
      purchase.itemNumber, purchase.qty, purchase.uom, PoStatus.acknowledged.text⟩ := by
  simp [Purchase.documents, Purchase.ordered, Purchase.terms, Purchase.invoiceTerms, orderCall,
    invoiceCall, Procurement.apply, Procurement.issuePO, Procurement.issueInvoice,
    Procurement.updatePOStatus, Procurement.updateInvoiceStatus]

theorem Purchase.invoices_documents (state : Procurement) (poNumber invoice : Nat) :
    (purchase.documents state poNumber invoice).invoices invoice = ⟨poNumber, purchase.supplierId,
      purchase.itemNumber, purchase.qty, purchase.uom, purchase.price,
      InvoiceStatus.paymentReceived.text⟩ := by
  simp [Purchase.documents, Purchase.ordered, Purchase.terms, Purchase.invoiceTerms, orderCall,
    invoiceCall, Procurement.apply, Procurement.issuePO, Procurement.issueInvoice,
    Procurement.updatePOStatus, Procurement.updateInvoiceStatus]

theorem Purchase.scanUrl_request (inherited : String → String) {hash : String}
    (plain : isPlain hash = true) :
    (⟨"0x" ++ hash, accountText inherited purchase.supplierId, accountText inherited "PIZZACO"⟩ :
      ScanUrl).request = some (.transferToken ("0x" ++ hash)
        (accountText inherited purchase.supplierId) (accountText inherited "PIZZACO")) := by
  rcases Option.bind_eq_some_iff.mp purchase.supplies with ⟨index, listed, _⟩
  have supplier := isPlain_accountText inherited listed
  have pizzaCo := isPlain_accountText inherited
    (show accountNumbers.lookup "PIZZACO" = some 1 from rfl)
  rw [ScanUrl.request, isPlain_tokenId plain, supplier, pizzaCo]
  rfl

/-- The first three requests. -/
theorem purchase_paid (fresh : FreshIds environment number) (inherited : String → String)
    (run : ServerRun environment globals actions pool) {ids token : Nat} {hash : String}
    (drawn : (pool.globals 0).ids = ids)
    (possible : purchase.Possible pool.world (number (ids + 1)) (number (ids + 2))
      (environment.uniqueId (ids + 2)) hash token) :
    ∃ receipt coin transactions paid,
      Transitions Answers (.initial pool.world (pool.globals 0))
        [(.postPurchaseOrder [purchase.item], ⟨201, "PO Issued",
            .purchaseOrders (environment.uniqueId ids) [environment.uniqueId (ids + 1)], none⟩),
          (.postInvoice (environment.uniqueId (ids + 1)) (some purchase.itemPrice),
            ⟨201, "Invoice Issued", .invoiceId (environment.uniqueId (ids + 2)), none⟩),
          (.paySupplier (environment.uniqueId (ids + 2)) (accountText inherited "PIZZACO")
            (accountText inherited purchase.supplierId),
            ⟨200, "Payment done", .receipt (some receipt), none⟩)] paid ∧
      coin.balanceOf purchase.supplier =
        pool.world.coin.balanceOf purchase.supplier + purchase.price ∧
      paid.world = { pool.world with
        coin := coin
        procurement := purchase.documents pool.world.procurement (number (ids + 1))
          (number (ids + 2))
        rows := pool.world.rows ++ [⟨some (environment.uniqueId ids), some purchase.supplierId,
          some (environment.uniqueId (ids + 1)), some (environment.uniqueId (ids + 2)), none⟩]
        transactions := transactions } := by
  subst drawn
  have intact := (kept_and_intact fresh run).2.2
  have newOrder := (@unlisted_of_drawn _ _ _ _ _ fresh run ((pool.globals 0).ids + 1) (by omega)).1
  have orderId := fresh.encoded ((pool.globals 0).ids + 1)
  rcases order_answered purchase (.initial pool.world (pool.globals 0)) fresh.encoded
    possible.orderFits with ⟨ordered, orders, orderedWorld, ids⟩
  have stored : (ordered.world.procurement.pos (number ((pool.globals 0).ids + 1))).terms =
      purchase.terms := by
    rw [orderedWorld]
    simp [World.place, orderCall, Procurement.apply, Procurement.issuePO, Sequence.initial,
      PO.terms, Purchase.terms]
  have fits : environment.affords (ordered.world.acknowledge environment
      (number ((pool.globals 0).ids + 1))).procurement (invoiceCall (number ordered.globals.ids)
        (purchase.invoiceTerms (number ((pool.globals 0).ids + 1)))) = true := by
    rw [orderedWorld, ids]
    exact possible.invoiceFits
  rcases invoice_answered purchase ordered fresh.encoded orderId stored fits with
    ⟨billed, bills, billedWorld⟩
  rw [ids] at bills billedWorld
  have rows : billed.world.rows = pool.world.rows ++ [⟨some (environment.uniqueId
      (pool.globals 0).ids), some purchase.supplierId, some (environment.uniqueId
      ((pool.globals 0).ids + 1)), some (environment.uniqueId ((pool.globals 0).ids + 2)),
      none⟩] := by
    rw [billedWorld, orderedWorld]
    apply updateFirst_append_singleton
    · intro row member
      have other := poId_ne_of_unlisted intact member orderId newOrder
      simpa using other
    · exact beq_self_eq_true _
  have priced : priceOf billed.world (number ((pool.globals 0).ids + 2)) = purchase.price := by
    rw [billedWorld]
    simp [priceOf, World.invoice, World.bill, Procurement.issueInvoice, Purchase.invoiceTerms,
      Sequence.initial]
  have coins : billed.world.coin = pool.world.coin := by
    rw [billedWorld, orderedWorld]
    rfl
  have settled := possible.settles
  rw [← coins] at settled
  rcases payment_answered purchase billed inherited (fresh.encoded _) priced settled with
    ⟨paid, receipt, coin, transactions, pays, balance, paidWorld⟩
  refine ⟨receipt, coin, transactions, paid, .cons orders (.cons bills (.cons pays (.nil _))),
    ?_, ?_⟩
  · rw [balance, coins]
  · rw [paidWorld]
    simp only [rows]
    rw [billedWorld, orderedWorld]
    rfl

/-- The last two requests. The code names the supplier of the invoice. -/
theorem purchase_delivered (runtime : Runtime) (inherited : String → String)
    (roundTrip : runtime.RoundTrip) (unreadable : runtime.parse "" = none)
    (paid : Sequence (sharedApi environment))
    {before : List Row} {state : Procurement} {transactionId poId invoiceId hash : String}
    {poNumber invoice token : Nat} (ordered : environment.encodeUint poId = some poNumber)
    (billed : environment.encodeUint invoiceId = some invoice) (apart : poNumber ≠ invoice)
    (payable : purchase.price ≤ supply)
    (documents : paid.world.procurement = purchase.documents state poNumber invoice)
    (rows : paid.world.rows = before ++ [⟨some transactionId, some purchase.supplierId, some poId,
      some invoiceId, none⟩])
    (otherInvoices : ∀ row ∈ before, row.invoiceId ≠ some invoiceId)
    (otherTokens : ∀ row ∈ before, row.tokenId ≠ some ("0x" ++ hash))
    (hashes : environment.rootHash (purchase.metadata invoiceId) = some hash)
    (plain : isPlain hash = true) (named : environment.encodeUint ("0x" ++ hash) = some token)
    (unowned : paid.world.token.tokenOwner token = 0) :
    ∃ code url scan final,
      qrCode runtime invoiceId paid = some code ∧
      handleScan runtime inherited code = some url ∧ url.request = some scan ∧
      Transitions Answers paid
        [(.makeTokens invoiceId, ⟨200, "QR Code generated",
            .file (environment.qrCodePath ++ ("0x" ++ hash) ++ ".svg"), none⟩),
          (scan, ⟨200, "Token Metadata Retrieved",
            .metadata (some (purchase.metadata invoiceId)), none⟩)] final ∧
      (final.world.procurement.pos poNumber).terms = purchase.terms ∧
      (final.world.procurement.pos poNumber).status = PoStatus.delivered.text ∧
      final.world.procurement.invoices = paid.world.procurement.invoices ∧
      final.world.token.ownerOf token = some purchase.payer ∧
      final.world.coin = paid.world.coin ∧
      final.world.rows = before ++ [⟨some transactionId, some purchase.supplierId, some poId,
        some invoiceId, some ("0x" ++ hash)⟩] := by
  have bill := purchase.invoices_documents state poNumber invoice
  rw [← documents] at bill
  have terms : (paid.world.procurement.invoices invoice).terms =
      purchase.invoiceTerms poNumber := by
    rw [bill]
    rfl
  rcases token_answered purchase paid runtime billed (purchase.metadataOf_eq _ terms payable)
    (by rw [bill]) hashes named unowned with
    ⟨made, makes, code, owners, madeDocuments, madeRows, stored, madeCoin⟩
  rw [bill] at madeDocuments
  have linked : made.world.rows = before ++ [⟨some transactionId, some purchase.supplierId,
      some poId, some invoiceId, some ("0x" ++ hash)⟩] := by
    rw [madeRows, rows]
    apply updateFirst_append_singleton
    · intro row member
      simpa using otherInvoices row member
    · exact beq_self_eq_true (some invoiceId)
  have found : made.world.rows.filter (Query.tokenId ("0x" ++ hash)).matches =
      [⟨some transactionId, some purchase.supplierId, some poId, some invoiceId,
        some ("0x" ++ hash)⟩] := by
    have none_before : before.filter (Query.tokenId ("0x" ++ hash)).matches = [] := by
      rw [List.filter_eq_nil_iff]
      intro row member
      simpa [Query.matches] using otherTokens row member
    rw [linked, List.filter_append, none_before]
    simp [Query.matches]
  have owned : made.world.token.tokenOwner token = purchase.supplier := by
    rw [owners, Function.update_self]
  rcases delivery_answered purchase made inherited named owned found ordered billed stored with
    ⟨final, delivers, finalOwners, finalDocuments, finalRows, finalCoin⟩
  -- The second update is of the order that has the number of the invoice.
  have order : final.world.procurement.pos poNumber = ⟨purchase.supplierId, purchase.itemNumber,
      purchase.qty, purchase.uom, PoStatus.delivered.text⟩ := by
    rw [finalDocuments, madeDocuments, documents]
    simp only [Procurement.updatePOStatus, Function.update_self, Function.update_of_ne apart,
      purchase.pos_documents]
  have invoices : final.world.procurement.invoices = paid.world.procurement.invoices := by
    rw [finalDocuments, madeDocuments]
    rfl
  have payerNonzero := supplierAccount_ne_zero purchase.pays
  have owner : final.world.token.ownerOf token = some purchase.payer := by
    apply ItemToken.ownerOf_of_owner _ payerNonzero
    rw [finalOwners, Function.update_self]
  refine ⟨_, _, _, final, code, handleScan_qrText inherited roundTrip unreadable _ _,
    purchase.scanUrl_request inherited plain, .cons makes (.cons delivers (.nil _)), ?_, ?_,
    invoices, owner, finalCoin.trans madeCoin, finalRows.trans linked⟩
  · rw [order]
    rfl
  · rw [order]

end Carried

/-- Compact JSON texts, with one hash for all. -/
def plainRuntime : Runtime :=
  .compact fun _ => ⟨List.replicate 32 0, by decide⟩

/-- The cheese of the test network. -/
def cheesePurchase : Purchase testNetwork where
  supplierId := "CHEESECO"
  itemType := "CHEESE"
  itemNumber := 1
  qty := 2
  uom := "KG"
  itemPrice := "5"
  price := 5
  supplier := 3
  payer := 2
  typed := by decide
  counted := by decide
  priced := by decide
  castable := by decide
  supplies := by decide
  pays := by decide
  different := by decide

end PizzaChain.Api
