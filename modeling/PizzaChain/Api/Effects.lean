import PizzaChain.Api.World

/-! # What a call does to the world

Calls that read leave the world as it is. A transaction commits or is rejected with no
effect but that it may count as one of its sender, and each contract is changed by its own
transactions only.
-/

namespace PizzaChain.Api

open PizzaChain.Chain

namespace World

theorem ask_world (world : World) (argument : Option β) (read : β → Option α) :
    (world.ask argument read).2 = world := by
  cases argument with
  | none => rfl
  | some value =>
      simp only [ask]
      split <;> rfl

/-- A transaction either is rejected, and then may count as one of its sender, or
commits. -/
theorem send_cases (world : World) (sender : β → Address) (nonce : Option Nat)
    (argument : Option β) (run : β → Option World) :
    (∃ failure, world.send sender nonce argument run = (.error failure, world)) ∨
    (∃ value, argument = some value ∧ run value = none ∧
      world.send sender nonce argument run = (.error .reverted, world.mined (sender value))) ∨
    ∃ value next, argument = some value ∧ run value = some next ∧
      world.send sender nonce argument run =
        (.ok world.transactions.length, next.mined (sender value)) := by
  cases argument with
  | none => exact .inl ⟨_, rfl⟩
  | some value =>
      by_cases refused : nonce.any (· != world.transactionCount (sender value)) = true
      · exact .inl ⟨.wrongNonce, by simp only [send, refused, if_true]⟩
      · cases outcome : run value with
        | none =>
            exact .inr (.inl ⟨value, rfl, outcome, by
              simp only [send, refused, Bool.false_eq_true, if_false, outcome]⟩)
        | some next =>
            exact .inr (.inr ⟨value, next, rfl, outcome, by
              simp only [send, refused, Bool.false_eq_true, if_false, outcome]⟩)

/-- What does not depend on the transactions holds after a transaction if it held before and
the run of the transaction keeps it. -/
theorem holds_send {holds : World → Prop}
    (counted : ∀ world sender, holds world → holds (world.mined sender)) {world : World}
    {sender : β → Address} {nonce : Option Nat} {argument : Option β} {run : β → Option World}
    (before : holds world)
    (committed : ∀ value next, argument = some value → run value = some next → holds next) :
    holds (world.send sender nonce argument run).2 := by
  rcases world.send_cases sender nonce argument run with
    ⟨failure, refused⟩ | ⟨value, _, _, reverted⟩ | ⟨value, next, given, ran, commits⟩
  · rw [refused]
    exact before
  · rw [reverted]
    exact counted world _ before
  · rw [commits]
    exact counted next _ (committed value next given ran)

/-! ### Worlds that differ in a part that a call does not look at -/

/-- A change of the world that leaves the transactions alone. -/
structure Reshaping (change : World → World) : Prop where
  transactions : ∀ world, (change world).transactions = world.transactions
  mined : ∀ world sender, (change world).mined sender = change (world.mined sender)

theorem ask_reshaped (change : World → World) (world : World) (argument : Option β)
    (read : β → Option α) :
    (change world).ask argument read =
      ((world.ask argument read).1, change (world.ask argument read).2) := by
  cases argument with
  | none => rfl
  | some value =>
      simp only [ask]
      cases read value <;> rfl

theorem Reshaping.send {change : World → World} (reshaping : Reshaping change) (world : World)
    (sender : β → Address) (nonce : Option Nat) (argument : Option β)
    {run other : β → Option World}
    (same : ∀ value, argument = some value → other value = (run value).map change) :
    (change world).send sender nonce argument other =
      ((world.send sender nonce argument run).1,
        change (world.send sender nonce argument run).2) := by
  cases argument with
  | none => rfl
  | some value =>
      have count : (change world).transactionCount (sender value) =
          world.transactionCount (sender value) :=
        congrArg (List.count (sender value)) (reshaping.transactions world)
      simp only [World.send, count, same value rfl, reshaping.transactions, reshaping.mined]
      by_cases refused : nonce.any (· != world.transactionCount (sender value)) = true
      · simp only [refused, if_true]
      · simp only [refused, Bool.false_eq_true, if_false]
        cases run value with
        | none => rfl
        | some next => simp only [Option.map_some, reshaping.mined]

theorem Reshaping.procure {change : World → World} (reshaping : Reshaping change)
    (environment : Environment) (world : World) (call : Option ProcurementCall)
    (alike : ∀ given, call = some given →
      environment.affords (change world).procurement given =
        environment.affords world.procurement given ∧
      ({ change world with procurement := (change world).procurement.apply given } : World) =
        change { world with procurement := world.procurement.apply given }) :
    (change world).procure environment call =
      ((world.procure environment call).1, change (world.procure environment call).2) := by
  apply reshaping.send
  intro given found
  rw [(alike given found).1, (alike given found).2]
  split <;> rfl

end World

variable (environment : Environment)

/-! ## The part of the world that a call can change -/

inductive Part
  | coin
  | token
  | procurement
  | rows
  | swarm
  deriving DecidableEq

def Call.changes : Call → Option Part
  | .transfer _ _ _ _ => some .coin
  | .transferFrom _ _ _ _ | .mint _ | .mintWithItemData _ _ _ _ _ => some .token
  | .issuePO _ _ _ _ _ _ | .issueInvoice _ _ _ _ _ _ _ _ | .updatePOStatus _ _
  | .updateInvoiceStatus _ _ => some .procurement
  | .saveRow _ | .updateInvoice _ _ _ | .updateTokenId _ _ => some .rows
  | .swarmPost _ => some .swarm
  | .getAccounts | .balanceOf _ | .getTransactionCount _ | .readFile | .coinDeployed | .ownerOf _
  | .getMetadata _ | .tokenBalanceOf _ | .getPOById _ | .getInvoiceById _ | .getPOList
  | .getInvoiceList | .findRows _ | .swarmGet _ => none

def Call.reads (call : Call) : Bool :=
  call.changes.isNone

def Call.movesCoins (call : Call) : Bool :=
  call.changes == some .coin

theorem movesCoins_of_reads {call : Call} (reads : call.reads = true) :
    call.movesCoins = false := by
  rw [Call.reads, Option.isNone_iff_eq_none] at reads
  rw [Call.movesCoins, reads]
  rfl

theorem serve_of_reads {call : Call} (reads : call.reads = true) (world : World) :
    (serve environment call world).2 = world := by
  cases call <;> first
    | rfl
    | exact World.ask_world world _ _
    | cases reads

theorem world_of_reads {call : Call} (reads : call.reads = true) {world next : World}
    {outcome : Except Failure call.Answer}
    (served : serve environment call world = (outcome, next)) : next = world := by
  have same := serve_of_reads environment reads world
  rw [served] at same
  exact same

/-- All parts but the one that the call can change are as before. -/
structure Framed (call : Call) (before after : World) : Prop where
  coin : call.changes ≠ some .coin → after.coin = before.coin
  token : call.changes ≠ some .token → after.token = before.token
  procurement : call.changes ≠ some .procurement → after.procurement = before.procurement
  rows : call.changes ≠ some .rows → after.rows = before.rows
  swarm : call.changes ≠ some .swarm → after.swarm = before.swarm

theorem Framed.send {call : Call} {world : World} {sender : β → Address} {nonce : Option Nat}
    {argument : Option β} {run : β → Option World}
    (committed : ∀ value next, run value = some next → Framed call world next) :
    Framed call world (world.send sender nonce argument run).2 := by
  refine World.holds_send ?_ ?_ fun value next _ => committed value next
  · rintro next sender ⟨coin, token, procurement, rows, swarm⟩
    exact ⟨coin, token, procurement, rows, swarm⟩
  · exact ⟨fun _ => rfl, fun _ => rfl, fun _ => rfl, fun _ => rfl, fun _ => rfl⟩

theorem Framed.procure {call : Call} (changes : call.changes = some .procurement) (world : World)
    (sent : Option ProcurementCall) :
    Framed call world (world.procure environment sent).2 := by
  apply Framed.send
  intro value next ran
  rcases Option.ite_none_right_eq_some.mp ran with ⟨_, ⟨⟩⟩
  constructor <;> simp [changes]

theorem serve_framed (call : Call) (world : World) :
    Framed call world (serve environment call world).2 := by
  cases call with
  | transfer sender recipient amount nonce =>
      apply Framed.send
      intro value next ran
      rcases Option.map_eq_some_iff.mp ran with ⟨coin, _, rfl⟩
      constructor <;> simp [Call.changes]
  | transferFrom caller sender recipient tokenId =>
      apply Framed.send
      intro value next ran
      rcases Option.map_eq_some_iff.mp ran with ⟨token, _, rfl⟩
      constructor <;> simp [Call.changes]
  | mint tokenId =>
      apply Framed.send
      intro value next ran
      rcases Option.map_eq_some_iff.mp ran with ⟨token, _, rfl⟩
      constructor <;> simp [Call.changes]
  | mintWithItemData tokenId itemType uom qty price =>
      apply Framed.send
      intro value next ran
      rcases Option.map_eq_some_iff.mp ran with ⟨token, _, rfl⟩
      constructor <;> simp [Call.changes]
  | issuePO poId supplierId itemType qty uom status => exact .procure environment rfl world _
  | issueInvoice invoiceId poId supplierId itemType qty uom price status =>
      exact .procure environment rfl world _
  | updatePOStatus poId status => exact .procure environment rfl world _
  | updateInvoiceStatus invoiceId status => exact .procure environment rfl world _
  | swarmPost metadata =>
      simp only [serve]
      split <;> constructor <;> simp [Call.changes]
  | saveRow row => constructor <;> simp [Call.changes, serve]
  | updateInvoice poId invoiceId itemPrice =>
      simp only [serve]
      split <;> constructor <;> simp [Call.changes]
  | updateTokenId invoiceId tokenId => constructor <;> simp [Call.changes, serve]
  | _ =>
      rw [serve_of_reads environment rfl]
      exact ⟨fun _ => rfl, fun _ => rfl, fun _ => rfl, fun _ => rfl, fun _ => rfl⟩

/-! ## Transfers of coins -/

/-- The node takes the transaction: its nonce is the next one of its sender. -/
def World.takes (world : World) (sender : Address) (nonce : Option Nat) : Prop :=
  ∀ count ∈ nonce, count = world.transactionCount sender

theorem World.takes_none (world : World) (sender : Address) : world.takes sender none := by
  rintro count ⟨⟩

theorem World.takes_count (world : World) (sender : Address) :
    world.takes sender (some (world.transactionCount sender)) := by
  rintro count ⟨⟩
  rfl

theorem World.refused_iff {world : World} {sender : Address} {nonce : Option Nat} :
    nonce.any (· != world.transactionCount sender) = true ↔ ¬world.takes sender nonce := by
  cases nonce with
  | none => simp [World.takes]
  | some count => simp [World.takes]

theorem World.transfer_cases (world : World) (payer payee : Address) (amount : Nat)
    (nonce : Option Nat) :
    (world.takes payer nonce ∧ ∃ coin, world.coin.transfer payer payee amount = some coin) ∨
      (world.takes payer nonce → world.coin.transfer payer payee amount = none) := by
  cases world.coin.transfer payer payee amount with
  | none => exact .inr fun _ => rfl
  | some coin =>
      by_cases takes : world.takes payer nonce
      · exact .inl ⟨takes, coin, rfl⟩
      · exact .inr fun taken => absurd taken takes

/-- Amounts that can be transferred are safe integers. -/
theorem encodeNumber_of_transfer {coin next : PizzaCoin} {payer payee : Address} {amount : Nat}
    (transfers : coin.transfer payer payee amount = some next) :
    encodeNumber amount = some amount := by
  have affordable := PizzaCoin.amount_le_supply transfers
  have scarce : supply < 2 ^ 53 := by decide
  exact if_pos (by omega)

theorem serve_transfer_of_some {world : World} {payer payee : Address} {amount : Nat}
    {nonce : Option Nat} {coin : PizzaCoin} (takes : world.takes payer nonce)
    (transfers : world.coin.transfer payer payee amount = some coin) :
    serve environment (.transfer (some payer) (some payee) amount nonce) world =
      (.ok world.transactions.length, { world with coin := coin }.mined payer) := by
  simp [serve, World.send, encodeNumber_of_transfer transfers, World.refused_iff, takes, transfers]

/-- A transfer that the node or the contract rejects changes nothing but perhaps the count of
the sender. -/
theorem serve_transfer_of_none {world : World} {payer payee : Address} {amount : Nat}
    {nonce : Option Nat}
    (rejected : world.takes payer nonce → world.coin.transfer payer payee amount = none) :
    ∃ failure transactions,
      serve environment (.transfer (some payer) (some payee) amount nonce) world =
        (.error failure, { world with transactions := transactions }) := by
  cases encoded : encodeNumber amount with
  | none => exact ⟨.invalidArgument, world.transactions, by simp [serve, World.send, encoded]⟩
  | some value =>
      by_cases takes : world.takes payer nonce
      · have same : value = amount := by
          rw [encodeNumber] at encoded
          exact ((Option.ite_none_right_eq_some.mp encoded).2 |> Option.some.inj).symm
        subst same
        exact ⟨.reverted, world.transactions ++ [payer], by
          simp [serve, World.send, World.mined, encoded, World.refused_iff, takes,
            rejected takes]⟩
      · exact ⟨.wrongNonce, world.transactions, by
          simp [serve, World.send, encoded, World.refused_iff, takes]⟩

/-- A transfer is rejected, and then the coins stay where they are, or is made. -/
theorem serve_transfer (world : World) (sender recipient : Option Address) (amount : Nat)
    (nonce : Option Nat) :
    (∃ failure after, serve environment (.transfer sender recipient amount nonce) world =
        (.error failure, after) ∧ after.coin = world.coin) ∨
      ∃ payer payee coin, sender = some payer ∧ recipient = some payee ∧
        world.coin.transfer payer payee amount = some coin ∧
        serve environment (.transfer sender recipient amount nonce) world =
          (.ok world.transactions.length, { world with coin := coin }.mined payer) := by
  cases sender with
  | none => exact .inl ⟨_, world, rfl, rfl⟩
  | some payer =>
      cases recipient with
      | none => exact .inl ⟨_, world, rfl, rfl⟩
      | some payee =>
          rcases world.transfer_cases payer payee amount nonce with
            ⟨takes, coin, transfers⟩ | rejected
          · exact .inr ⟨payer, payee, coin, rfl, rfl, transfers,
              serve_transfer_of_some environment takes transfers⟩
          · rcases serve_transfer_of_none environment rejected with
              ⟨failure, transactions, served⟩
            exact .inl ⟨failure, _, served, rfl⟩

/-- A transfer that was made moves no more than there is. -/
theorem amount_le_supply_of_transfer {world : World} {sender recipient : Option Address}
    {amount : Nat} {nonce : Option Nat} {receipt : Receipt}
    (made : (serve environment (.transfer sender recipient amount nonce) world).1 =
      .ok receipt) : amount ≤ supply := by
  rcases serve_transfer environment world sender recipient amount nonce with
    ⟨failure, after, rejected, _⟩ | ⟨payer, payee, coin, _, _, transfers, _⟩
  · rw [rejected] at made
    cases made
  · exact PizzaCoin.amount_le_supply transfers

/-- Amounts that can be transferred are exact as doubles. -/
theorem roundToDouble_of_le_supply {value : Nat} (affordable : roundToDouble value ≤ supply) :
    roundToDouble value = value := by
  rcases Nat.lt_or_ge value (2 ^ 53) with small | large
  · exact roundToDouble_of_lt small
  · have rounded := le_roundToDouble large
    have scarce : supply < 2 ^ 53 := by decide
    omega

theorem roundToDouble_balanceOf (coin : PizzaCoin) (account : Address) :
    roundToDouble (coin.balanceOf account) = coin.balanceOf account := by
  apply roundToDouble_of_lt
  have bounded : coin.balanceOf account ≤ supply := coin.balance_le account
  have scarce : supply < 2 ^ 53 := by decide
  omega

/-- A balance that shows an amount shows it in doubles. -/
theorem roundToDouble_add_eq {coin : PizzaCoin} {account : Address} {initial amount : Nat}
    (shown : coin.balanceOf account = initial + amount) :
    roundToDouble initial + amount = roundToDouble (coin.balanceOf account) := by
  have bounded : coin.balanceOf account ≤ supply := coin.balance_le account
  have scarce : supply < 2 ^ 53 := by decide
  rw [roundToDouble_of_lt (show initial < 2 ^ 53 by omega), roundToDouble_balanceOf, shown]

/-- An amount is affordable if its double is. -/
theorem roundToDouble_le_balanceOf_iff (coin : PizzaCoin) (account : Address) (amount : Nat) :
    roundToDouble amount ≤ coin.balanceOf account ↔ amount ≤ coin.balanceOf account := by
  have bounded : coin.balanceOf account ≤ supply := coin.balance_le account
  have scarce : supply < 2 ^ 53 := by decide
  rcases Nat.lt_or_ge amount (2 ^ 53) with small | large
  · rw [roundToDouble_of_lt small]
  · have rounded := le_roundToDouble large
    constructor <;> intro <;> omega

/-! ## The transfers of a request -/

/-- A transfer that was made. -/
structure Transfer where
  point : Point
  sender : Option Address
  recipient : Option Address
  amount : Nat
  deriving DecidableEq

def transferredBy : Event server → Option Transfer
  | ⟨point, .transfer sender recipient amount _, .ok _⟩ => some ⟨point, sender, recipient, amount⟩
  | _ => none

/-- The transfers among the calls of a request. -/
def transferred (trace : List (Event server)) : List Transfer :=
  trace.filterMap transferredBy

theorem transferred_append (trace : List (Event server)) (event : Event server) :
    transferred (trace ++ [event]) = transferred trace ++ (transferredBy event).toList := by
  rw [transferred, List.filterMap_append]
  cases made : transferredBy event with
  | none => simp [made, transferred]
  | some transfer => simp [made, transferred]

theorem transferredBy_other {point : Point} {call : Call} (other : call.movesCoins = false)
    (answer : Except Failure call.Answer) : transferredBy ⟨point, call, answer⟩ = none := by
  cases call with
  | transfer sender recipient amount nonce => cases other
  | _ => rfl

theorem transferred_append_silent {trace : List (Event server)} {event : Event server}
    (silent : transferredBy event = none) : transferred (trace ++ [event]) = transferred trace := by
  rw [transferred_append, silent]
  exact List.append_nil _

theorem transferred_append_other {trace : List (Event server)} {point : Point} {call : Call}
    (other : call.movesCoins = false) {answer : Except Failure call.Answer} :
    transferred (trace ++ [⟨point, call, answer⟩]) = transferred trace :=
  transferred_append_silent (transferredBy_other other answer)

/-! ## Transactions of the Procurement contract -/

/-- The transaction that a call sends to the contract, if web3 encodes its
arguments. -/
def Call.procurementCall : Call → Option ProcurementCall
  | .issuePO poId supplierId itemType qty uom status => do
      return .issuePO (← poId) (← supplierId) (← itemType) (← qty) (← uom) status
  | .issueInvoice invoiceId poId supplierId itemType qty uom price status => do
      return .issueInvoice (← invoiceId) (← poId) supplierId (← itemType) (← qty) uom (← price)
        status
  | .updatePOStatus poId status => poId.map (.updatePOStatus · status)
  | .updateInvoiceStatus invoiceId status => invoiceId.map (.updateInvoiceStatus · status)
  | _ => none

theorem procurementCall_of_changes {call : Call} (other : call.changes ≠ some .procurement) :
    call.procurementCall = none := by
  cases call <;> first
    | rfl
    | exact absurd rfl other

/-- The transaction of a call that the contract runs. -/
def Call.applied (state : Procurement) (call : Call) : Option ProcurementCall :=
  call.procurementCall.filter (environment.affords state)

theorem procurementCall_of_applied {environment : Environment} {state : Procurement} {call : Call}
    {sent : ProcurementCall} (applied : call.applied environment state = some sent) :
    call.procurementCall = some sent :=
  (Option.filter_eq_some_iff.mp applied).1

theorem procure_procurement (world : World) (sent : Option ProcurementCall) :
    (world.procure environment sent).2.procurement =
      (sent.filter (environment.affords world.procurement)).toList.foldl Procurement.apply
        world.procurement := by
  cases sent with
  | none => rfl
  | some call =>
      by_cases affords : environment.affords world.procurement call = true
      · simp [World.procure, World.send, World.mined, Option.filter, affords]
      · simp [World.procure, World.send, World.mined, Option.filter, affords]

/-- The contract runs the transactions that it is sent. -/
theorem serve_procurement (call : Call) (world : World) :
    (serve environment call world).2.procurement =
      (call.applied environment world.procurement).toList.foldl Procurement.apply
        world.procurement := by
  by_cases changes : call.changes = some .procurement
  · cases call with
    | issuePO poId supplierId itemType qty uom status => exact procure_procurement _ _ _
    | issueInvoice invoiceId poId supplierId itemType qty uom price status =>
        exact procure_procurement _ _ _
    | updatePOStatus poId status => exact procure_procurement _ _ _
    | updateInvoiceStatus invoiceId status => exact procure_procurement _ _ _
    | _ => simp [Call.changes] at changes
  · rw [(serve_framed environment call world).procurement changes, Call.applied,
      procurementCall_of_changes changes]
    rfl

/-- The transaction of the contract that a call has run. -/
def ranBy : Event server → Option ProcurementCall
  | ⟨_, call, .ok _⟩ => call.procurementCall
  | _ => none

theorem procurementCall_of_ranBy {event : Event server} {sent : ProcurementCall}
    (ran : ranBy event = some sent) : event.call.procurementCall = some sent := by
  rcases event with ⟨point, call, answer | answer⟩
  · cases ran
  · exact ran

theorem ranBy_other {point : Point} {call : Call} (other : call.changes ≠ some .procurement)
    (answer : Except Failure call.Answer) : ranBy ⟨point, call, answer⟩ = none := by
  cases answer with
  | ok answer => exact procurementCall_of_changes other
  | error failure => rfl

theorem procure_ran (world : World) (sent : Option ProcurementCall) :
    sent.filter (environment.affords world.procurement) =
      if (world.procure environment sent).1.isOk then sent else none := by
  cases sent with
  | none => rfl
  | some call =>
      by_cases affords : environment.affords world.procurement call = true
      · simp [World.procure, World.send, Option.filter, affords, Except.isOk, Except.toBool]
      · simp [World.procure, World.send, Option.filter, affords, Except.isOk, Except.toBool]

theorem ranBy_serve (point : Point) (call : Call) (world : World) :
    ranBy ⟨point, call, (serve environment call world).1⟩ =
      call.applied environment world.procurement := by
  have answered : ranBy ⟨point, call, (serve environment call world).1⟩ =
      if (serve environment call world).1.isOk then call.procurementCall else none := by
    cases (serve environment call world).1 <;> rfl
  by_cases changes : call.changes = some .procurement
  · rw [answered, Call.applied]
    cases call with
    | issuePO poId supplierId itemType qty uom status => exact (procure_ran _ _ _).symm
    | issueInvoice invoiceId poId supplierId itemType qty uom price status =>
        exact (procure_ran _ _ _).symm
    | updatePOStatus poId status => exact (procure_ran _ _ _).symm
    | updateInvoiceStatus invoiceId status => exact (procure_ran _ _ _).symm
    | _ => simp [Call.changes] at changes
  · rw [ranBy_other changes, Call.applied, procurementCall_of_changes changes]
    rfl

theorem serve_ran (point : Point) (call : Call) (world : World) :
    (serve environment call world).2.procurement =
      (ranBy ⟨point, call, (serve environment call world).1⟩).toList.foldl Procurement.apply
        world.procurement := by
  rw [ranBy_serve, serve_procurement]

/-- A transaction of the contract that gets a receipt has run. -/
theorem procure_of_ok {environment : Environment} {world next : World}
    {sent : Option ProcurementCall} {receipt : Receipt}
    (ran : world.procure environment sent = (.ok receipt, next)) :
    ∃ call, sent = some call ∧ next.procurement = world.procurement.apply call := by
  cases sent with
  | none => cases ran
  | some call =>
      by_cases affords : environment.affords world.procurement call = true
      · simp only [World.procure, World.send, affords] at ran
        cases ran
        exact ⟨call, rfl, rfl⟩
      · simp [World.procure, World.send, affords] at ran

/-! ## Invoices -/

def priceOf (world : World) (invoice : Nat) : Nat :=
  (world.procurement.invoices invoice).price

/-- How a call can change the invoices. -/
inductive InvoiceEffect (before : Procurement) : Call → Procurement → Prop
  | same {call after} (invoices : after.invoices = before.invoices)
      (issued : after.invoiceArray = before.invoiceArray) : InvoiceEffect before call after
  | issue {invoiceId poId supplierId itemType qty uom price status} :
      InvoiceEffect before
        (.issueInvoice (some invoiceId) (some poId) supplierId (some itemType) (some qty) uom
          (some price) status)
        (before.issueInvoice invoiceId poId supplierId itemType qty uom price status)
  | update {invoiceId status} :
      InvoiceEffect before (.updateInvoiceStatus (some invoiceId) status)
        (before.updateInvoiceStatus invoiceId status)

theorem invoices_updatePOStatus (poId : Option Nat) (status : String) (world : World) :
    (serve environment (.updatePOStatus poId status) world).2.procurement.invoices =
      world.procurement.invoices := by
  cases poId <;> rfl

theorem invoice_effect (call : Call) (world : World) :
    InvoiceEffect world.procurement call (serve environment call world).2.procurement := by
  rw [serve_procurement]
  cases sent : call.applied environment world.procurement with
  | none => exact .same rfl rfl
  | some applied =>
      have given := procurementCall_of_applied sent
      cases call with
      | issueInvoice invoiceId poId supplierId itemType qty uom price status =>
          simp only [Call.procurementCall, Option.bind_eq_bind, Option.bind_eq_some_iff] at given
          rcases given with ⟨_, rfl, _, rfl, _, rfl, _, rfl, _, rfl, ⟨⟩⟩
          exact .issue
      | updateInvoiceStatus invoiceId status =>
          rcases Option.map_eq_some_iff.mp given with ⟨_, rfl, rfl⟩
          exact .update
      | issuePO poId supplierId itemType qty uom status =>
          simp only [Call.procurementCall, Option.bind_eq_bind, Option.bind_eq_some_iff] at given
          rcases given with ⟨_, rfl, _, rfl, _, rfl, _, rfl, _, rfl, ⟨⟩⟩
          exact .same rfl rfl
      | updatePOStatus poId status =>
          rcases Option.map_eq_some_iff.mp given with ⟨_, rfl, rfl⟩
          exact .same rfl rfl
      | _ => cases given

end PizzaChain.Api
