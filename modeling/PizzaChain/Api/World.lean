import PizzaChain.Chain.Tokens
import PizzaChain.Chain.ProcurementCalls
import PizzaChain.Foundation.Double
import PizzaChain.Semantics.Program

/-! # The world of the API server

The contracts, the procurement table and the Swarm service as the API server
sees them, and the calls that it awaits.
-/

namespace PizzaChain.Api

open PizzaChain.Chain

/-! ## Constants -/

/-- `itemTypes` of `pizzaChainConstants.js`. -/
def itemTypes : List (String × Nat) :=
  [("CHEESE", 1), ("DOUGH", 2), ("SAUCE", 3), ("TOPPINGS", 4)]

/-- `accounts` of `pizzaChainConstants.js`. -/
def accountNumbers : List (String × Nat) :=
  [("ADMIN", 0), ("PIZZACO", 1), ("CHEESECO", 2), ("DOUGHCO", 3)]

/-- `Object.keys(object).find(key => object[key] === value)`. -/
def getKeyByValue (table : List (String × Nat)) (value : Nat) : Option String :=
  (table.find? fun entry => entry.2 == value).map Prod.fst

inductive PoStatus
  | issued
  | acknowledged
  | pendingDelivery
  | delivered
  deriving DecidableEq

def PoStatus.text : PoStatus → String
  | .issued => "ISSUED"
  | .acknowledged => "ACKNOWLEDGED"
  | .pendingDelivery => "PENDING DELIVERY"
  | .delivered => "DELIVERED"

inductive InvoiceStatus
  | issued
  | paymentReceived
  | completed
  deriving DecidableEq

def InvoiceStatus.text : InvoiceStatus → String
  | .issued => "ISSUED"
  | .paymentReceived => "PAYMENT RECEIVED"
  | .completed => "COMPLETED"

/-! ## The environment -/

/-- The JSON body that is posted to the Swarm service for a token. -/
structure Metadata where
  invoiceId : String
  itemType : Option String
  uom : String
  qty : Nat
  price : Nat
  deriving DecidableEq

/-- The node's accounts with the admin first, the gas that a call of the Procurement
contract takes, the reading of a string as a `uint` by web3, whether `Number(text)` is a
number, as mongoose asks of a price, the ids that `fnGetUniqueID` draws, the root hash with
which the Swarm service answers, if it does, upper case, and the directory of the QR codes. -/
structure Environment where
  admin : Address
  others : List Address
  nonzero : ∀ account ∈ admin :: others, account ≠ 0
  gas : Procurement → ProcurementCall → Nat
  encodeUint : String → Option Nat
  isNumber : String → Bool
  uniqueId : Nat → String
  rootHash : Metadata → Option String
  toUpperCase : String → String
  qrCodePath : String

namespace Environment

/-- What `web3.eth.getAccounts()` returns. -/
def accounts (environment : Environment) : List Address :=
  environment.admin :: environment.others

def coinbase (environment : Environment) : Option Address :=
  some environment.admin

/-- The call runs within the gas that `procurementClient.js` gives it. An update of a
status, which is one of the constants, always does. -/
def affords (environment : Environment) (state : Procurement) (call : ProcurementCall) : Bool :=
  match call with
  | .updatePOStatus _ _ | .updateInvoiceStatus _ _ => true
  | _ => decide (environment.gas state call ≤ 999999)

end Environment

/-- `accounts[key]` with a key from a URL. Keys other than the decimal index of
an account give no address. -/
def accountAt (accounts : List Address) (key : String) : Option Address :=
  ((List.range accounts.length).find? fun index => toString index == key).bind (accounts[·]?)

theorem mem_of_accountAt {accounts : List Address} {key : String} {account : Address}
    (found : accountAt accounts key = some account) : account ∈ accounts := by
  rw [accountAt, Option.bind_eq_some_iff] at found
  rcases found with ⟨index, _, at_index⟩
  exact List.mem_of_getElem? at_index

theorem Environment.accountAt_ne_zero (environment : Environment) {key : String}
    {account : Address} (found : accountAt environment.accounts key = some account) :
    account ≠ 0 :=
  environment.nonzero account (mem_of_accountAt found)

/-- The account that `accounts[supplierId]` of the constants stands for. -/
def supplierAccount (environment : Environment) (supplierId : String) : Option Address :=
  (accountNumbers.lookup supplierId).bind (environment.accounts[·]?)

theorem supplierAccount_ne_zero {environment : Environment} {supplierId : String}
    {supplier : Address} (found : supplierAccount environment supplierId = some supplier) :
    supplier ≠ 0 := by
  rcases Option.bind_eq_some_iff.mp found with ⟨index, _, at_index⟩
  exact environment.nonzero supplier (List.mem_of_getElem? at_index)

/-- A JavaScript number as a `uint` argument: web3 refuses unsafe integers. -/
def encodeNumber (value : Nat) : Option Nat :=
  if value < 2 ^ 53 then some value else none

/-! ## The procurement table -/

structure Row where
  transactionId : Option String
  supplierId : Option String
  poId : Option String
  invoiceId : Option String
  tokenId : Option String
  deriving DecidableEq

inductive Query
  | all
  | transactionId (value : String)
  | supplierId (value : String)
  | tokenId (value : String)

def Query.matches : Query → Row → Bool
  | .all, _ => true
  | .transactionId value, row => row.transactionId == some value
  | .supplierId value, row => row.supplierId == some value
  | .tokenId value, row => row.tokenId == some value

/-- `model.update(condition, change)`: the first row that matches is changed. -/
def updateFirst (condition : Row → Bool) (change : Row → Row) : List Row → List Row
  | [] => []
  | row :: rows =>
      if condition row then change row :: rows
      else row :: updateFirst condition change rows

/-- Where no two rows match, the first is the only one. -/
theorem updateFirst_eq_map {condition : Row → Bool} (change : Row → Row) {rows : List Row}
    (once : rows.Pairwise fun first second => ¬(condition first = true ∧ condition second = true)) :
    updateFirst condition change rows =
      rows.map fun row => if condition row then change row else row := by
  induction rows with
  | nil => rfl
  | cons row rows induction =>
      rw [List.pairwise_cons] at once
      by_cases met : condition row = true
      · have others : ∀ other ∈ rows,
            (if condition other then change other else other) = other := by
          intro other member
          rw [if_neg fun matched => once.1 other member ⟨met, matched⟩]
        simp only [updateFirst, met, if_true, List.map_cons, List.map_congr_left others,
          List.map_id']
      · simp only [updateFirst, met, Bool.false_eq_true, if_false, List.map_cons,
          induction once.2]

theorem find?_updateFirst {condition : Row → Bool} {change : Row → Row}
    (keeps : ∀ row, condition (change row) = condition row) (rows : List Row) :
    (updateFirst condition change rows).find? condition =
      (rows.find? condition).map change := by
  induction rows with
  | nil => rfl
  | cons row rows induction =>
      by_cases met : condition row = true
      · simp [updateFirst, met, keeps]
      · simp [updateFirst, met, induction]

theorem exists_find?_iff {key : Row → Option String} {text : String} {rows : List Row} :
    (∃ row, rows.find? (fun row => key row == some text) = some row) ↔
      ∃ row ∈ rows, key row = some text := by
  rw [← Option.isSome_iff_exists, List.find?_isSome]
  simp only [beq_iff_eq]

/-! ## Calls -/

/-- The transactions are the accounts that sent those in the chain, whether they took
effect or not. -/
structure World where
  coin : PizzaCoin
  token : ItemToken
  procurement : Procurement
  rows : List Row
  swarm : List (String × Metadata)
  transactions : List Address

/-- The state after the migrations. -/
def World.deployed (environment : Environment) : World where
  coin := PizzaCoin.deployed environment.admin
  token := ItemToken.deployed
  procurement := Procurement.deployed
  rows := []
  swarm := []
  transactions := []

/-- Why a promise is rejected: web3 cannot encode an argument, the node refuses the nonce
of a transaction, the contract reverts or runs out of gas, mongoose cannot cast a value, or
a property of `undefined` is read. -/
inductive Failure
  | invalidArgument
  | wrongNonce
  | reverted
  | uncastable
  | undefinedProperty
  deriving DecidableEq

/-- A transaction, by its place among all transactions. -/
abbrev Receipt := Nat

/-- What the server awaits. An argument that is `none` is one that web3 cannot
encode; a nonce that is `none` is left to the node. -/
inductive Call
  | getAccounts
  | balanceOf (account : Option Address)
  | transfer (sender recipient : Option Address) (amount : Nat) (nonce : Option Nat)
  | getTransactionCount (account : Option Address)
  | readFile
  | coinDeployed
  | ownerOf (tokenId : Option Nat)
  | transferFrom (caller sender recipient : Option Address) (tokenId : Option Nat)
  | mint (tokenId : Option Nat)
  | mintWithItemData (tokenId itemType : Option Nat) (uom : String) (qty price : Option Nat)
  | getMetadata (tokenId : Option Nat)
  | tokenBalanceOf (account : Option Address)
  | issuePO (poId : Option Nat) (supplierId : Option String) (itemType qty : Option Nat)
      (uom : Option String) (status : String)
  | issueInvoice (invoiceId poId : Option Nat) (supplierId : String) (itemType qty : Option Nat)
      (uom : String) (price : Option Nat) (status : String)
  | updatePOStatus (poId : Option Nat) (status : String)
  | updateInvoiceStatus (invoiceId : Option Nat) (status : String)
  | getPOById (poId : Option Nat)
  | getInvoiceById (invoiceId : Option Nat)
  | getPOList
  | getInvoiceList
  | saveRow (row : Row)
  | findRows (query : Query)
  | updateInvoice (poId invoiceId : String) (itemPrice : Option String)
  | updateTokenId (invoiceId tokenId : String)
  | swarmPost (metadata : Metadata)
  | swarmGet (hash : String)

abbrev Call.Answer : Call → Type
  | .getAccounts => List Address
  | .balanceOf _ => Nat
  | .transfer _ _ _ _ => Receipt
  | .getTransactionCount _ => Nat
  | .readFile => Unit
  | .coinDeployed => Unit
  | .ownerOf _ => Address
  | .transferFrom _ _ _ _ => Receipt
  | .mint _ => Receipt
  | .mintWithItemData _ _ _ _ _ => Receipt
  | .getMetadata _ => Nat × Nat × String × Nat
  | .tokenBalanceOf _ => Nat
  | .issuePO _ _ _ _ _ _ => Receipt
  | .issueInvoice _ _ _ _ _ _ _ _ => Receipt
  | .updatePOStatus _ _ => Receipt
  | .updateInvoiceStatus _ _ => Receipt
  | .getPOById _ => String × Nat × Nat × String × String
  | .getInvoiceById _ => Nat × String × Nat × Nat × String × Nat × String
  | .getPOList => List Nat
  | .getInvoiceList => List Nat
  | .saveRow _ => Unit
  | .findRows _ => List Row
  | .updateInvoice _ _ _ => Unit
  | .updateTokenId _ _ => Unit
  | .swarmPost _ => Option String
  | .swarmGet _ => Option Metadata

namespace World

/-- A call that reads the chain. -/
def ask (world : World) (argument : Option β) (read : β → Option α) : Except Failure α × World :=
  match argument with
  | none => (.error .invalidArgument, world)
  | some value =>
      match read value with
      | none => (.error .reverted, world)
      | some answer => (.ok answer, world)

/-- `web3.eth.getTransactionCount(account)`. -/
def transactionCount (world : World) (account : Address) : Nat :=
  world.transactions.count account

/-- The world with one more transaction of the account. -/
def mined (world : World) (sender : Address) : World :=
  { world with transactions := world.transactions ++ [sender] }

/-- A transaction, which commits or reverts without effect. One whose nonce is not the next
one of its sender is refused by the node. -/
def send (world : World) (sender : β → Address) (nonce : Option Nat) (argument : Option β)
    (run : β → Option World) : Except Failure Receipt × World :=
  match argument with
  | none => (.error .invalidArgument, world)
  | some value =>
      if nonce.any (· != world.transactionCount (sender value)) then (.error .wrongNonce, world)
      else
        match run value with
        | none => (.error .reverted, world.mined (sender value))
        | some next => (.ok world.transactions.length, next.mined (sender value))

/-- A transaction of the Procurement contract. -/
def procure (environment : Environment) (world : World) (call : Option ProcurementCall) :
    Except Failure Receipt × World :=
  world.send (fun _ => environment.admin) none call fun call =>
    if environment.affords world.procurement call then
      some { world with procurement := world.procurement.apply call }
    else none

end World

def serve (environment : Environment) : (call : Call) → World → Except Failure call.Answer × World
  | .getAccounts, world => (.ok environment.accounts, world)
  | .balanceOf account, world =>
      world.ask account fun account => some (world.coin.balanceOf account)
  | .transfer sender recipient amount nonce, world =>
      world.send Prod.fst nonce (do return (← sender, ← recipient, ← encodeNumber amount))
        fun (sender, recipient, amount) =>
          (world.coin.transfer sender recipient amount).map fun coin => { world with coin := coin }
  | .getTransactionCount account, world =>
      world.ask account fun account => some (world.transactionCount account)
  | .readFile, world => (.ok (), world)
  | .coinDeployed, world => (.ok (), world)
  | .ownerOf tokenId, world => world.ask tokenId world.token.ownerOf
  | .transferFrom caller sender recipient tokenId, world =>
      world.send Prod.fst none (do return (← caller, ← sender, ← recipient, ← tokenId))
        fun (caller, sender, recipient, tokenId) =>
          (world.token.transferFrom caller sender recipient tokenId).map fun token =>
            { world with token := token }
  | .mint tokenId, world =>
      world.send (fun _ => environment.admin) none tokenId fun tokenId =>
        (world.token.mint environment.admin tokenId).map fun token => { world with token := token }
  | .mintWithItemData tokenId itemType uom qty price, world =>
      world.send (fun _ => environment.admin) none
        (do return (← tokenId, ← itemType, ← qty, ← price))
        fun (tokenId, itemType, qty, price) =>
          (world.token.mintWithItemData environment.admin tokenId itemType uom qty price).map
            fun token => { world with token := token }
  | .getMetadata tokenId, world =>
      world.ask tokenId fun tokenId => some (world.token.getMetadata tokenId)
  | .tokenBalanceOf account, world => world.ask account world.token.balanceOf
  | .issuePO poId supplierId itemType qty uom status, world =>
      world.procure environment do
        return .issuePO (← poId) (← supplierId) (← itemType) (← qty) (← uom) status
  | .issueInvoice invoiceId poId supplierId itemType qty uom price status, world =>
      world.procure environment do
        return .issueInvoice (← invoiceId) (← poId) supplierId (← itemType) (← qty) uom (← price)
          status
  | .updatePOStatus poId status, world =>
      world.procure environment (poId.map (.updatePOStatus · status))
  | .updateInvoiceStatus invoiceId status, world =>
      world.procure environment (invoiceId.map (.updateInvoiceStatus · status))
  | .getPOById poId, world =>
      world.ask poId fun poId => some (world.procurement.getPOById poId)
  | .getInvoiceById invoiceId, world =>
      world.ask invoiceId fun invoiceId => some (world.procurement.getInvoiceById invoiceId)
  | .getPOList, world => (.ok world.procurement.getPOList, world)
  | .getInvoiceList, world => (.ok world.procurement.getInvoiceList, world)
  | .saveRow row, world => (.ok (), { world with rows := world.rows ++ [row] })
  | .findRows query, world => (.ok (world.rows.filter query.matches), world)
  | .updateInvoice poId invoiceId itemPrice, world =>
      if itemPrice.all environment.isNumber then
        (.ok (), { world with
          rows := updateFirst (fun row => row.poId == some poId)
            (fun row => { row with invoiceId := some invoiceId }) world.rows })
      else (.error .uncastable, world)
  | .updateTokenId invoiceId tokenId, world => (.ok (), { world with
      rows := updateFirst (fun row => row.invoiceId == some invoiceId)
        (fun row => { row with tokenId := some tokenId }) world.rows })
  | .swarmPost metadata, world =>
      match environment.rootHash metadata with
      | none => (.ok none, world)
      | some hash => (.ok (some hash), { world with swarm := (hash, metadata) :: world.swarm })
  | .swarmGet hash, world => (.ok (world.swarm.lookup hash), world)

/-! ## Programs of the server -/

/-- The places where the server awaits. -/
inductive Point
  | userAccounts
  | merchantAccounts
  | payerBalance
  | payeeBalance
  | topUp
  | transactionCount
  | readFile
  | coinDeployed
  | sendTransaction
  | readBack
  | tokenOwner
  | tokenTransfer
  | tokenOwnerAfter
  | fromAccounts
  | toAccounts
  | mintedTransfer
  | accounts
  | balance
  | contract
  | database
  | swarm
  deriving DecidableEq

/-- The undeclared variables, which all requests share, and the number of ids
drawn so far. -/
structure Globals where
  userAcc : Option Address
  merchantAcct : Option Address
  fromAddress : Option Address
  toAddress : Option Address
  acc : Option Address
  ids : Nat

abbrev server : Interface where
  Point := Point
  Call := Call
  Answer := Call.Answer
  Globals := Globals
  Error := Failure

abbrev Handler := Program server

/-- `await call` at a point of the server. -/
abbrev wait (point : Point) (call : Call) : Handler call.Answer :=
  @Program.call server point call

/-! ## A test network -/

/-- Decimal and `0x` spellings of a number. -/
def readUint (text : String) : Option Nat :=
  let digits (base : Nat) (chars : List Char) : Option Nat :=
    chars.foldlM (fun value char =>
      let digit := if char.isDigit then char.toNat - 48 else char.toNat - 87
      if char.isAlphanum && digit < base then some (value * base + digit) else none) 0
  match text.toList with
  | [] => none
  | '0' :: 'x' :: chars => digits 16 chars
  | chars => digits 10 chars

theorem foldlM_digits {chars : List Char} (digits : ∀ char ∈ chars, char.isDigit = true)
    (value : Nat) :
    chars.foldlM (fun value char =>
      let digit := if char.isDigit then char.toNat - 48 else char.toNat - 87
      if char.isAlphanum && digit < 10 then some (value * 10 + digit) else none) value =
      some (Nat.ofDigitChars 10 chars value) := by
  induction chars generalizing value with
  | nil => rfl
  | cons char chars induction =>
      have digit : char.isDigit = true := digits char List.mem_cons_self
      have small : char.toNat - 48 < 10 := by
        simp only [Char.isDigit, Bool.and_eq_true, decide_eq_true_eq] at digit
        have upper : char.toNat ≤ 57 := digit.2
        omega
      rw [List.foldlM_cons, Nat.ofDigitChars_cons, Nat.mul_comm 10]
      simp only [digit, Char.isAlphanum, Bool.or_true, small, decide_true, Bool.and_self, if_true,
        Option.bind_eq_bind, Option.bind_some]
      exact induction (fun later member => digits later (List.mem_cons_of_mem _ member)) _

/-- A decimal text is read as its number. -/
theorem readUint_toString (number : Nat) : readUint (toString number) = some number := by
  have digits : ∀ char ∈ Nat.toDigits 10 number, char.isDigit = true :=
    fun char member => Nat.isDigit_of_mem_toDigits (by decide) (by decide) member
  have value : Nat.ofDigitChars 10 (Nat.toDigits 10 number) 0 = number :=
    Nat.ofDigitChars_ten_toDigits
  have chars : (toString number).toList = Nat.toDigits 10 number := by
    rw [Nat.toString_eq_ofList_toDigits, String.toList_ofList]
  rw [readUint, chars]
  split
  · rename_i none
    exact absurd none Nat.toDigits_ne_nil
  · rename_i rest hex
    rw [hex] at digits
    exact absurd (digits 'x' (by simp)) (by decide)
  · exact (foldlM_digits digits 0).trans (congrArg some value)

/-- A node with the four accounts of the constants. -/
def testNetwork : Environment where
  admin := 1
  others := [2, 3, 4]
  nonzero := by
    simp only [List.mem_cons, List.not_mem_nil, or_false, forall_eq_or_imp, forall_eq, ne_eq,
      Fin.reduceEq, not_false_eq_true, and_self]
  gas := fun _ call => 250000 + 20000 * (call.textLength / 32)
  encodeUint := readUint
  isNumber := fun text => text != "0x" && (readUint text).isSome
  uniqueId := fun drawn => toString (1000 + drawn)
  rootHash := fun metadata => some metadata.invoiceId
  toUpperCase := String.toUpper
  qrCodePath := "images/"

def Globals.initial : Globals :=
  ⟨none, none, none, none, none, 0⟩

end PizzaChain.Api
