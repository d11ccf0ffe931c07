import PizzaChain.Api.Reads
import PizzaChain.Semantics.SharedVariables

/-! # Accounts that take no part

A request may find the accounts of another one in the shared variables, and then move the
coins or the token of somebody it does not name. The accounts in these variables are
always those of some request, and only the admin acts otherwise.
-/

namespace PizzaChain.Api

open PizzaChain.Chain

variable (environment : Environment) (payers suppliers : Address → Prop)

/-- The payer and the supplier that the request names are among the given accounts. -/
def Request.Involves : Request → Prop
  | .paySupplier _ payerId supplierId | .transferToken _ supplierId payerId =>
      (∀ account, accountAt environment.accounts payerId = some account → payers account) ∧
      ∀ account, accountAt environment.accounts supplierId = some account → suppliers account
  | _ => True

/-- The accounts that are found in the variables. -/
structure OnlyInvolved (globals : Globals) : Prop where
  userAcc : ∀ account, globals.userAcc = some account → payers account
  merchantAcct : ∀ account, globals.merchantAcct = some account → suppliers account
  fromAddress : ∀ account, globals.fromAddress = some account → account = environment.admin

/-- Coins are taken from the admin or a payer, and tokens from the admin or a supplier. -/
def Call.TakesFrom : Call → Prop
  | .transfer sender _ _ _ =>
      ∀ account, sender = some account → account = environment.admin ∨ payers account
  | .transferFrom _ sender _ _ =>
      ∀ account, sender = some account → account = environment.admin ∨ suppliers account
  | _ => True

def Call.moves : Call → Bool
  | .transfer _ _ _ _ | .transferFrom _ _ _ _ => true
  | _ => false

theorem takesFrom_of_still {call : Call} (still : call.moves = false) :
    call.TakesFrom environment payers suppliers := by
  cases call <;> trivial

/-! ## The handlers -/

abbrev Respectful (handler : Handler α) : Prop :=
  @Program.Respects (sharedApi environment) (OnlyInvolved environment payers suppliers)
    (Call.TakesFrom environment payers suppliers) α handler

section Handlers

variable {environment payers suppliers}

theorem send_respects (point : Point) {call : Call}
    (takes : call.TakesFrom environment payers suppliers) :
    Respectful environment payers suppliers (wait point call) := by
  refine ⟨takes, fun world => ?_⟩
  cases (serve environment call world).1 <;> trivial

theorem wait_respects (point : Point) {call : Call} (still : call.moves = false) :
    Respectful environment payers suppliers (wait point call) :=
  send_respects point (takesFrom_of_still environment payers suppliers still)

theorem getPOById_respects (poId : String) :
    Respectful environment payers suppliers (Controller.getPOById environment poId) := by
  apply (wait_respects _ rfl).bind
  intro po
  split <;> trivial

theorem getInvoiceById_respects (invoiceId : String) (encoded : Option Nat) :
    Respectful environment payers suppliers (Controller.getInvoiceById invoiceId encoded) := by
  apply (wait_respects _ rfl).bind
  intro invoice
  split <;> trivial

theorem invoiceDetails_respects (invoiceIds : List Nat) :
    Respectful environment payers suppliers (Controller.invoiceDetails invoiceIds) := by
  induction invoiceIds with
  | nil => trivial
  | cons invoiceId invoiceIds induction =>
      apply (getInvoiceById_respects _ _).bind
      intro response
      exact induction.bind fun rest => trivial

theorem rowPO_respects (row : Row) (filter : String) :
    Respectful environment payers suppliers (Controller.rowPO environment row filter) := by
  rw [Controller.rowPO]
  split
  · trivial
  · split
    · trivial
    · exact (getPOById_respects _).bind fun poData => trivial

theorem rowInvoice_respects (row : Row) (filter : String) :
    Respectful environment payers suppliers (Controller.rowInvoice environment row filter) := by
  rw [Controller.rowInvoice]
  split
  · trivial
  · split
    · trivial
    · exact (getInvoiceById_respects _ _).bind fun invoiceData => trivial

theorem getTransactionDetails_respects (filter : String) (rows : List Row) :
    Respectful environment payers suppliers
      (Controller.getTransactionDetails environment filter rows) := by
  induction rows with
  | nil => trivial
  | cons row rows induction =>
      apply (rowPO_respects row filter).bind
      intro po
      apply (rowInvoice_respects row filter).bind
      intro invoice
      apply induction.bind
      intro rest
      split <;> trivial

/-- The three listings differ in the rows that they ask for. -/
theorem rowsDetails_respects (query : Query) (filter : String)
    {continuation : List TransactionDetails → Handler α}
    (continues : ∀ details, Respectful environment payers suppliers (continuation details)) :
    Respectful environment payers suppliers (do
      let rows ← wait .database (.findRows query)
      let details ← Controller.getTransactionDetails environment filter rows
      continuation details) := by
  apply (wait_respects _ rfl).bind
  intro rows
  exact (getTransactionDetails_respects filter rows).bind continues

/-- The variable `acc` is none of those that a transfer reads. -/
theorem balance_respects {ask : Option Address → Call} (entityId : String)
    (asks : ∀ account, (ask account).moves = false)
    {continuation : (globals : Globals) → (ask globals.acc).Answer → Handler α}
    (continues : ∀ globals balance,
      Respectful environment payers suppliers (continuation globals balance)) :
    Respectful environment payers suppliers (do
      let accounts ← wait .accounts .getAccounts
      Program.modify fun globals => { globals with acc := accountAt accounts entityId }
      let globals ← Program.get
      let balance ← wait .balance (ask globals.acc)
      continuation globals balance) := by
  apply (wait_respects _ rfl).bind
  intro accounts
  apply Program.respects_modify
  · exact fun globals found => ⟨found.userAcc, found.merchantAcct, found.fromAddress⟩
  apply Program.respects_get
  intro globals _
  exact (wait_respects _ (asks _)).bind (continues globals)

theorem uniqueId_respects {continuation : String → Handler α}
    (continues : ∀ id, Respectful environment payers suppliers (continuation id)) :
    Respectful environment payers suppliers
      (Controller.uniqueId environment >>= continuation) := by
  refine fun globals found later same => ⟨?_, continues _⟩
  exact ⟨same.userAcc, same.merchantAcct, same.fromAddress⟩

theorem issueItems_respects (transactionId : String) (items : List PurchaseItem) :
    Respectful environment payers suppliers
      (Controller.issueItems environment transactionId items) := by
  induction items with
  | nil => trivial
  | cons item items induction =>
      apply uniqueId_respects
      intro processId
      apply (wait_respects _ rfl).bind
      intro _
      apply (wait_respects _ rfl).bind
      intro _
      exact induction.bind fun poIds => trivial

theorem issueInvoice_respects (poData : PoData) (itemPrice : Option String) :
    Respectful environment payers suppliers
      (Controller.issueInvoice environment poData itemPrice) := by
  apply uniqueId_respects
  intro processId
  apply (wait_respects _ rfl).bind
  intro _
  exact (wait_respects _ rfl).bind fun _ => trivial

/-- The two assignments that precede every transfer between named accounts. -/
theorem accounts_respects {payerId supplierId : String}
    (payer : ∀ account, accountAt environment.accounts payerId = some account → payers account)
    (supplier : ∀ account,
      accountAt environment.accounts supplierId = some account → suppliers account)
    {continuation : Handler α} (continues : Respectful environment payers suppliers continuation) :
    Respectful environment payers suppliers (do
      let accounts ← wait .userAccounts .getAccounts
      Program.modify fun globals => { globals with userAcc := accountAt accounts payerId }
      let accounts ← wait .merchantAccounts .getAccounts
      Program.modify fun globals => { globals with merchantAcct := accountAt accounts supplierId }
      continuation) := by
  apply Program.respects_call trivial
  rintro world accounts ⟨⟩
  apply Program.respects_modify
  · exact fun globals found => ⟨payer, found.merchantAcct, found.fromAddress⟩
  apply Program.respects_call trivial
  rintro world accounts ⟨⟩
  apply Program.respects_modify
  · exact fun globals found => ⟨found.userAcc, supplier, found.fromAddress⟩
  exact continues

theorem payAndReadBack_respects (initial amount : Nat) :
    Respectful environment payers suppliers
      (PizzaCoinClient.payAndReadBack initial amount) := by
  apply Program.respects_get
  intro globals found
  refine Program.Respects.bind ?_ fun receipt => ?_
  · apply (wait_respects _ rfl).bind
    intro _
    apply (wait_respects _ rfl).bind
    intro _
    apply (wait_respects _ rfl).bind
    intro _
    exact send_respects _ fun account sender => .inr (found.userAcc account sender)
  apply Program.respects_get
  intro globals _
  apply (wait_respects _ rfl).bind
  intro balance
  split <;> trivial

theorem transferAmount_respects {payerId supplierId : String}
    (payer : ∀ account, accountAt environment.accounts payerId = some account → payers account)
    (supplier : ∀ account,
      accountAt environment.accounts supplierId = some account → suppliers account)
    (amount : Nat) :
    Respectful environment payers suppliers
      (PizzaCoinClient.transferAmount environment payerId supplierId amount) := by
  apply accounts_respects payer supplier
  apply Program.respects_get
  intro globals _
  apply (wait_respects _ rfl).bind
  intro payerBalance
  apply Program.respects_get
  intro globals _
  apply (wait_respects _ rfl).bind
  intro payeeBalance
  split
  · apply Program.respects_get
    intro globals _
    -- The top-up comes from the admin.
    apply Program.respects_call
    · exact fun account sender => .inl (Option.some.inj sender).symm
    · exact fun _ _ _ => payAndReadBack_respects _ _
  · exact payAndReadBack_respects _ _

theorem payment_respects {invoiceId payerId supplierId : String}
    (payer : ∀ account, accountAt environment.accounts payerId = some account → payers account)
    (supplier : ∀ account,
      accountAt environment.accounts supplierId = some account → suppliers account) :
    Respectful environment payers suppliers
      (Controller.payment environment invoiceId payerId supplierId) := by
  apply (wait_respects _ rfl).bind
  intro invoice
  apply (transferAmount_respects payer supplier _).bind
  intro details
  rw [Controller.recordPayment]
  split
  · exact (wait_respects _ rfl).bind fun _ => trivial
  · trivial

theorem tokenTransfer_respects {payerId supplierId : String} (tokenId : String)
    (payer : ∀ account, accountAt environment.accounts payerId = some account → payers account)
    (supplier : ∀ account,
      accountAt environment.accounts supplierId = some account → suppliers account) :
    Respectful environment payers suppliers
      (ItemTokenClient.transferToken environment supplierId payerId tokenId) := by
  apply accounts_respects payer supplier
  apply (wait_respects _ rfl).bind
  intro tokenOwner
  apply Program.respects_get
  intro globals found
  split
  · apply Program.respects_call
    · exact fun account sender => .inr (found.merchantAcct account sender)
    intro world receipt _
    apply (wait_respects _ rfl).bind
    intro tokenOwner
    apply Program.respects_get
    intro globals _
    split <;> trivial
  · trivial

theorem recordDelivery_respects (transaction : Response (List Row)) (details : TransferDetails) :
    Respectful environment payers suppliers
      (Controller.recordDelivery environment transaction details) := by
  rw [Controller.recordDelivery]
  split
  · split
    · trivial
    · apply (wait_respects _ rfl).bind
      intro _
      exact (wait_respects _ rfl).bind fun _ => trivial
  · trivial

theorem retrieveMetadata_respects (tokenId : String) :
    Respectful environment payers suppliers (Controller.retrieveMetadata tokenId) := by
  refine Program.Respects.bind ?_ fun metadata => trivial
  rw [Controller.getMetadata]
  split
  · exact wait_respects _ rfl
  · exact wait_respects _ rfl

/-- The token that was made is sent from the account that is assigned last. -/
theorem mintedTransfer_respects (toAccId : Option Nat) (tokenId : String) :
    Respectful environment payers suppliers
      (ItemTokenClient.transfer environment (accountNumbers.lookup "ADMIN") toAccId tokenId) := by
  apply Program.respects_call trivial
  rintro world accounts ⟨⟩
  apply Program.respects_modify
  · exact fun globals found =>
      ⟨found.userAcc, found.merchantAcct, fun account admin => (Option.some.inj admin).symm⟩
  apply (wait_respects _ rfl).bind
  intro accounts
  apply Program.respects_modify
  · exact fun globals found => ⟨found.userAcc, found.merchantAcct, found.fromAddress⟩
  apply Program.respects_get
  intro globals found
  exact send_respects _ fun account sender => .inl (found.fromAddress account sender)

theorem makeTokens_respects (invoiceId : String) :
    Respectful environment payers suppliers (Controller.makeTokens environment invoiceId) := by
  apply (wait_respects _ rfl).bind
  intro invoice
  refine Program.Respects.bind ?_ fun tokenId => ?_
  · apply (wait_respects _ rfl).bind
    intro rootHash
    cases rootHash with
    | none => trivial
    | some rootHash =>
        refine Program.Respects.bind ?_ fun _ => trivial
        exact (wait_respects _ rfl).bind fun _ => trivial
  apply (mintedTransfer_respects _ tokenId).bind
  intro _
  refine Program.Respects.bind ?_ fun _ => ?_
  · apply (wait_respects _ rfl).bind
    intro _
    exact (wait_respects _ rfl).bind fun _ => trivial
  exact (wait_respects _ rfl).bind fun _ => trivial

theorem handle_respects {request : Request}
    (involves : request.Involves environment payers suppliers) :
    Respectful environment payers suppliers (handle environment request) := by
  cases request with
  | getTransactions filter =>
      refine Program.Respects.bind ?_ fun _ => trivial
      exact rowsDetails_respects _ _ fun _ => trivial
  | getTransaction id filter =>
      refine Program.Respects.bind ?_ fun _ => trivial
      exact rowsDetails_respects _ _ fun _ => trivial
  | getSupplierTransactions supplierId filter =>
      refine Program.Respects.bind ?_ fun _ => trivial
      exact rowsDetails_respects _ _ fun _ => trivial
  | postPurchaseOrder items =>
      refine Program.Respects.bind ?_ fun _ => trivial
      apply uniqueId_respects
      intro transactionId
      exact (issueItems_respects transactionId items).bind fun _ => trivial
  | getPurchaseOrder poId => exact (getPOById_respects poId).bind fun _ => trivial
  | getPurchaseOrders =>
      refine Program.Respects.bind ?_ fun _ => trivial
      exact (wait_respects _ rfl).bind fun _ => trivial
  | postInvoice poId itemPrice =>
      refine Program.Respects.bind ?_ fun poDataRes => ?_
      · apply (wait_respects _ rfl).bind
        intro po
        exact (wait_respects _ rfl).bind fun _ => trivial
      exact (issueInvoice_respects _ itemPrice).bind fun _ => trivial
  | getInvoice invoiceId => exact (getInvoiceById_respects invoiceId _).bind fun _ => trivial
  | getInvoices =>
      refine Program.Respects.bind ?_ fun _ => trivial
      exact (wait_respects _ rfl).bind fun _ => trivial
  | getInvoiceDetails =>
      refine Program.Respects.bind ?_ fun _ => trivial
      refine Program.Respects.bind ?_ fun response => ?_
      · exact (wait_respects _ rfl).bind fun _ => trivial
      exact (invoiceDetails_respects _).bind fun _ => trivial
  | getBalance entityId =>
      refine Program.Respects.bind ?_ fun _ => trivial
      refine Program.Respects.bind ?_ fun _ => trivial
      exact balance_respects entityId (fun _ => rfl) fun _ _ => trivial
  | paySupplier invoiceId payerId supplierId =>
      exact (payment_respects involves.1 involves.2).bind fun _ => trivial
  | makeTokens invoiceId => exact (makeTokens_respects invoiceId).bind fun _ => trivial
  | transferToken tokenId supplierId payerId =>
      refine Program.Respects.bind ?_ fun transaction => ?_
      · exact (wait_respects _ rfl).bind fun _ => trivial
      refine Program.Respects.bind ?_ fun _ => ?_
      · apply (tokenTransfer_respects tokenId involves.1 involves.2).bind
        intro details
        exact recordDelivery_respects transaction details
      exact (retrieveMetadata_respects tokenId).bind fun _ => trivial
  | getTokenBalance entityId =>
      refine Program.Respects.bind ?_ fun _ => trivial
      refine Program.Respects.bind ?_ fun _ => trivial
      exact balance_respects entityId (fun _ => rfl) fun _ _ => trivial

end Handlers

/-! ## What bystanders keep -/

section Effects

variable {environment payers suppliers}

theorem balanceOf_served {call : Call} (takes : call.TakesFrom environment payers suppliers)
    {account : Address} (notAdmin : account ≠ environment.admin) (notPayer : ¬payers account)
    (world : World) :
    world.coin.balanceOf account ≤ (serve environment call world).2.coin.balanceOf account := by
  by_cases moves : call.changes = some .coin
  · cases call with
    | transfer sender recipient amount nonce =>
        rcases serve_transfer environment world sender recipient amount nonce with
          ⟨failure, after, rejected, same⟩ | ⟨payer, payee, coin, rfl, _, transfers, served⟩
        · rw [rejected, same]
        · rw [served, World.mined]
          have moved := PizzaCoin.balanceOf_transfer transfers account
          have other : account ≠ payer := by
            rintro rfl
            exact (takes account rfl).elim notAdmin notPayer
          rw [if_neg other] at moved
          simp only
          omega
    | _ => cases moves
  · rw [(serve_framed environment call world).coin moves]

theorem ownerOf_transferFrom {token next : ItemToken} {caller sender recipient account : Address}
    {moved tokenId : Nat} (transfers : token.transferFrom caller sender recipient moved = some next)
    (other : account ≠ sender) (owns : token.ownerOf tokenId = some account) :
    next.ownerOf tokenId = some account := by
  have different : tokenId ≠ moved := by
    rintro rfl
    rw [ItemToken.ownerOf] at owns
    split at owns
    · cases owns
    · rw [ItemToken.transferFrom_of_not_owner (by rw [Option.some.inj owns]; exact other)]
        at transfers
      cases transfers
  rw [ItemToken.ownerOf, (ItemToken.tokenOwner_transferFrom transfers).2,
    Function.update_of_ne different]
  exact owns

theorem ownerOf_mint {token next : ItemToken} {sender account : Address} {minted tokenId : Nat}
    (mints : token.mint sender minted = some next) (owns : token.ownerOf tokenId = some account) :
    next.ownerOf tokenId = some account := by
  simp only [ItemToken.mint, Option.ite_none_left_eq_some, Option.some.injEq] at mints
  rcases mints with ⟨_, unowned, rfl⟩
  have different : tokenId ≠ minted := by
    rintro rfl
    rw [ItemToken.ownerOf, if_pos (not_not.mp unowned)] at owns
    cases owns
  simp only [ItemToken.ownerOf, Function.update_of_ne different]
  exact owns

theorem ownerOf_send {world : World} {sender : β → Address} {nonce : Option Nat}
    {argument : Option β} {run : β → Option World} {tokenId : Nat} {account : Address}
    (owns : world.token.ownerOf tokenId = some account)
    (keeps : ∀ value next, argument = some value → run value = some next →
      next.token.ownerOf tokenId = some account) :
    (world.send sender nonce argument run).2.token.ownerOf tokenId = some account :=
  @World.holds_send _ (fun world => world.token.ownerOf tokenId = some account)
    (fun _ _ owns => owns) _ _ _ _ _ owns keeps

theorem ownerOf_served {call : Call} (takes : call.TakesFrom environment payers suppliers)
    {account : Address} (notAdmin : account ≠ environment.admin)
    (notSupplier : ¬suppliers account) {tokenId : Nat} {world : World}
    (owns : world.token.ownerOf tokenId = some account) :
    (serve environment call world).2.token.ownerOf tokenId = some account := by
  by_cases moves : call.changes = some .token
  · cases call with
    | transferFrom caller sender recipient moved =>
        apply ownerOf_send owns
        rintro ⟨caller, owner, recipient, moved⟩ next given ran
        rcases Option.map_eq_some_iff.mp ran with ⟨token, transfers, rfl⟩
        apply ownerOf_transferFrom transfers _ owns
        rintro rfl
        have sent : sender = some account := by
          simp only [Option.pure_def, Option.bind_eq_bind, Option.bind_eq_some_iff] at given
          rcases given with ⟨_, _, _, sent, _, _, _, _, same⟩
          cases same
          exact sent
        exact (takes account sent).elim notAdmin notSupplier
    | mint minted =>
        apply ownerOf_send owns
        intro number next _ ran
        rcases Option.map_eq_some_iff.mp ran with ⟨token, mints, rfl⟩
        exact ownerOf_mint mints owns
    | mintWithItemData minted itemType uom qty price =>
        apply ownerOf_send owns
        intro arguments next _ ran
        rcases Option.map_eq_some_iff.mp ran with ⟨token, mints, rfl⟩
        rw [ItemToken.mintWithItemData] at mints
        split at mints
        · cases mints
        · rename_i minted made
          cases mints
          have kept := ownerOf_mint made owns
          exact kept
    | _ => cases moves
  · rw [(serve_framed environment call world).token moves]
    exact owns

end Effects

/-- Whatever is done at once, an account other than the admin's loses coins only if some
request names it as the payer, and tokens only if some request names it as the supplier. -/
theorem bystanders_keep (environment : Environment) (payers suppliers : Address → Prop)
    (world : World) (globals : Nat → Globals)
    (unused : ∀ cell, OnlyInvolved environment payers suppliers (globals cell))
    (middle final : Pool (sharedApi environment))
    (early : (Pool.initial world globals).Reaches
      (OnlyStarts (Request.Involves environment payers suppliers)) middle)
    (late : middle.Reaches (OnlyStarts (Request.Involves environment payers suppliers)) final)
    (account : Address) (notAdmin : account ≠ environment.admin) :
    (¬payers account →
      middle.world.coin.balanceOf account ≤ final.world.coin.balanceOf account) ∧
    (¬suppliers account → ∀ tokenId, middle.world.token.ownerOf tokenId = some account →
      final.world.token.ownerOf tokenId = some account) := by
  rcases early with ⟨actions, early⟩
  rcases late with ⟨more, late⟩
  have handlers := fun request => @handle_respects environment payers suppliers request
  have respects := (Pool.Respects.run handlers (fun _ => True) (fun _ _ _ _ => trivial) early
    (@Pool.respects_initial (sharedApi environment) _ _ world globals unused) trivial).1
  constructor
  · intro notPayer
    refine (Pool.Respects.run handlers
      (fun world : World => middle.world.coin.balanceOf account ≤ world.coin.balanceOf account)
      (fun call world takes before => ?_) late respects le_rfl).2
    exact before.trans (balanceOf_served takes notAdmin notPayer world)
  · intro notSupplier tokenId owns
    refine (Pool.Respects.run handlers
      (fun world : World => world.token.ownerOf tokenId = some account)
      (fun call world takes before => ?_) late respects owns).2
    exact ownerOf_served takes notAdmin notSupplier before

theorem onlyInvolved_initial (environment : Environment) (payers suppliers : Address → Prop) :
    OnlyInvolved environment payers suppliers Globals.initial := by
  constructor <;> rintro account ⟨⟩

/-- The cheese is paid and its token made. -/
def cheesePaid : List (Action (sharedApi testNetwork)) :=
  Action.alone 0 cheeseOrder 2 ++ Action.alone 1 cheeseInvoice 4 ++
    Action.alone 2 cheesePayment 12 ++ Action.alone 3 cheeseToken 9

/-- The same amount for another supplier. -/
def otherPayment : Request :=
  .paySupplier "1002" "1" "3"

/-- CheeseCo keeps its coins and its token while another supplier is paid. -/
theorem cheesePaid_kept :
    ∃ (world : World) (final : Pool (sharedApi testNetwork)),
      (Pool.initial world fun _ => Globals.initial).Reaches
        (OnlyStarts (Request.Involves testNetwork (· = 2) (· = 4))) final ∧
      (world.coin.balanceOf 3 = 5 ∧ 5 ≤ final.world.coin.balanceOf 3) ∧
      world.token.ownerOf 4098 = some 3 ∧ final.world.token.ownerOf 4098 = some 3 := by
  have ran : ((Pool.initial (World.deployed testNetwork) fun _ => Globals.initial :
      Pool (sharedApi testNetwork)).run (fun _ _ => true) cheesePaid).bind (fun paid =>
        ((Pool.initial paid.world fun _ => Globals.initial : Pool (sharedApi testNetwork)).run
          (fun _ _ => true) (Action.alone 0 otherPayment 12)).map fun _ =>
            (paid.world.coin.balanceOf 3, paid.world.token.ownerOf 4098)) = some (5, some 3) := by
    decide +kernel
  rcases Option.bind_eq_some_iff.mp ran with ⟨paid, pays, rest⟩
  rcases Option.map_eq_some_iff.mp rest with ⟨final, again, holds⟩
  have balance := congrArg Prod.fst holds
  have owner := congrArg Prod.snd holds
  have late : (Pool.initial paid.world fun _ => Globals.initial).Reaches
      (OnlyStarts (Request.Involves testNetwork (· = 2) (· = 4))) final := by
    apply reaches_of_actions (Pool.transitions_of_free_run again)
    intro request member
    rw [eq_of_start_mem member]
    have payer : accountAt testNetwork.accounts "1" = some 2 := by decide +kernel
    have supplier : accountAt testNetwork.accounts "3" = some 4 := by decide +kernel
    refine ⟨fun account named => ?_, fun account named => ?_⟩
    · exact Option.some.inj (named.symm.trans payer)
    · exact Option.some.inj (named.symm.trans supplier)
  have keep := bystanders_keep testNetwork (· = 2) (· = 4) paid.world _
    (fun _ => onlyInvolved_initial _ _ _) _ final (.refl _) late 3 (by decide)
  have coins := keep.1 (by decide)
  rw [show (Pool.initial paid.world fun _ => Globals.initial).world.coin.balanceOf 3 = 5 from
    balance] at coins
  exact ⟨paid.world, final, late, ⟨balance, coins⟩, owner, keep.2 (by decide) 4098 owner⟩

end PizzaChain.Api
