import PizzaChain.Api.Ordering

/-! # Making the token of an invoice

`makeTokens` posts the invoice to the Swarm service, mints the token that the hash
names, and only then looks up the account of the supplier.
-/

namespace PizzaChain.Api

open PizzaChain.Chain

/-! ## The token of an invoice -/

/-- The body that is posted for an invoice, under the text that it was asked by. -/
def metadataOf (invoiceId : String) (invoice : Invoice) : Metadata where
  invoiceId := invoiceId
  itemType := getKeyByValue itemTypes (roundToDouble invoice.itemType)
  uom := invoice.uom
  qty := roundToDouble invoice.qty
  price := roundToDouble invoice.price

/-- The id that is minted for an invoice, if the Swarm service gives a hash and web3
reads it. -/
def tokenNumber (environment : Environment) (invoiceId : String) (invoice : Invoice) : Option Nat :=
  (environment.rootHash (metadataOf invoiceId invoice)).bind fun hash =>
    environment.encodeUint ("0x" ++ hash)

theorem adminAccount (environment : Environment) :
    (accountNumbers.lookup "ADMIN").bind (environment.accounts[·]?) = some environment.admin := by
  rw [show accountNumbers.lookup "ADMIN" = some 0 by decide]
  rfl

/-! ## The request -/

section Request

variable {environment : Environment} {cell : Nat → Nat}

/-- How `makeTokens` ends: nothing is minted, or the token is minted and stays with
the admin, or it is delivered to the supplier and recorded. -/
inductive TokenOutcome (environment : Environment) (invoiceId : String) (before : World) :
    Except Failure (Response (String × String)) → World → Prop
  | unread {after error} (encoded : environment.encodeUint invoiceId = none)
      (token : after.token = before.token) (procurement : after.procurement = before.procurement)
      (rows : after.rows = before.rows) :
      TokenOutcome environment invoiceId before (.error error) after
  | unminted {after error invoice} (encoded : environment.encodeUint invoiceId = some invoice)
      (refuses : ∀ number, tokenNumber environment invoiceId
        (before.procurement.invoices invoice) = some number → before.token.tokenOwner number ≠ 0)
      (token : after.token = before.token) (procurement : after.procurement = before.procurement)
      (rows : after.rows = before.rows) :
      TokenOutcome environment invoiceId before (.error error) after
  | stranded {after error invoice number}
      (encoded : environment.encodeUint invoiceId = some invoice)
      (hashed : tokenNumber environment invoiceId (before.procurement.invoices invoice) =
        some number)
      (unowned : before.token.tokenOwner number = 0)
      (unknown : supplierAccount environment
        (before.procurement.invoices invoice).supplierId = none)
      (owners : after.token.tokenOwner =
        Function.update before.token.tokenOwner number environment.admin) :
      TokenOutcome environment invoiceId before (.error error) after
  | made {after invoice hash number supplier}
      (encoded : environment.encodeUint invoiceId = some invoice)
      (hashes : environment.rootHash
        (metadataOf invoiceId (before.procurement.invoices invoice)) = some hash)
      (named : environment.encodeUint ("0x" ++ hash) = some number)
      (unowned : before.token.tokenOwner number = 0)
      (known : supplierAccount environment
        (before.procurement.invoices invoice).supplierId = some supplier)
      (owners : after.token.tokenOwner =
        Function.update before.token.tokenOwner number supplier)
      (procurement : after.procurement = before.procurement.updatePOStatus
        (before.procurement.invoices invoice).poId PoStatus.pendingDelivery.text)
      (rows : after.rows = updateFirst (fun row => row.invoiceId == some invoiceId)
        (fun row => { row with tokenId := some ("0x" ++ hash) }) before.rows) :
      TokenOutcome environment invoiceId before
        (.ok ⟨200, "Tokens transferred to Supplier",
          ((before.procurement.invoices invoice).supplierId, "0x" ++ hash), none⟩) after

variable {invoiceId : String} {invoice : Nat} {hash : String} {number : Nat}
  {view : View (api environment cell)}

/-- The part of `makeTokens` that follows the minting. -/
theorem ensures_minted {minted : ItemToken} {world : World}
    (encoded : environment.encodeUint invoiceId = some invoice)
    (hashes : environment.rootHash
      (metadataOf invoiceId (world.procurement.invoices invoice)) = some hash)
    (named : environment.encodeUint ("0x" ++ hash) = some number)
    (unowned : world.token.tokenOwner number = 0)
    (owners : minted.tokenOwner =
      Function.update world.token.tokenOwner number environment.admin)
    (token : view.world.token = minted)
    (procurement : view.world.procurement = world.procurement)
    (rows : view.world.rows = world.rows) :
    (do
      let _ ← ItemTokenClient.transfer environment (accountNumbers.lookup "ADMIN")
        (accountNumbers.lookup (world.procurement.invoices invoice).supplierId) ("0x" ++ hash)
      Controller.updatedPOStatus (world.procurement.invoices invoice).poId .pendingDelivery
      ProcurementService.updateTokenId invoiceId ("0x" ++ hash)
      return (⟨200, "Tokens transferred to Supplier",
        ((world.procurement.invoices invoice).supplierId, "0x" ++ hash), none⟩ :
          Response (String × String)) : Handler (Response (String × String))).Ensures view
      fun outcome after => TokenOutcome environment invoiceId world outcome after.world := by
  simp only [ItemTokenClient.transfer, Controller.updatedPOStatus, ProcurementClient.getPOById,
    ProcurementClient.updatePOStatus, ProcurementService.updateTokenId, Program.bind_assoc,
    Program.pure_eq_done, Program.done_bind]
  apply Program.ensures_ok rfl
  apply Program.ensures_modify
  apply Program.ensures_ok rfl
  apply Program.ensures_modify
  apply Program.ensures_get
  rw [adminAccount]
  have tokenId : tokenNumber environment invoiceId (world.procurement.invoices invoice) =
      some number := by
    rw [tokenNumber, hashes]
    exact named
  cases known : supplierAccount environment (world.procurement.invoices invoice).supplierId with
  | none =>
      rw [show (accountNumbers.lookup (world.procurement.invoices invoice).supplierId).bind
        (environment.accounts[·]?) = none from known]
      refine Program.ensures_error rfl ?_
      exact .stranded encoded tokenId unowned known (token ▸ owners)
  | some supplier =>
      have owns : minted.tokenOwner number = environment.admin := by
        rw [owners, Function.update_self]
      have adminNonzero := environment.nonzero environment.admin List.mem_cons_self
      rcases ItemToken.transferFrom_of_owner owns adminNonzero (supplierAccount_ne_zero known) with
        ⟨delivered, transfers, moved⟩
      have final : delivered.tokenOwner =
          Function.update world.token.tokenOwner number supplier := by
        rw [moved, owners, Function.update_idem]
      have pending : view.world.procurement.updatePOStatus
          (world.procurement.invoices invoice).poId PoStatus.pendingDelivery.text =
            world.procurement.updatePOStatus (world.procurement.invoices invoice).poId
              PoStatus.pendingDelivery.text := by
        rw [procurement]
      have recorded : updateFirst (fun row => row.invoiceId == some invoiceId)
          (fun row => { row with tokenId := some ("0x" ++ hash) }) view.world.rows =
            updateFirst (fun row => row.invoiceId == some invoiceId)
              (fun row => { row with tokenId := some ("0x" ++ hash) }) world.rows := by
        rw [rows]
      have served : serve environment (.transferFrom (some environment.admin)
          (some environment.admin) (some supplier) (some number)) view.world =
            (.ok view.world.transactions.length,
              { view.world with token := delivered }.mined environment.admin) := by
        simp [serve, World.send, token, transfers]
      rw [show (accountNumbers.lookup (world.procurement.invoices invoice).supplierId).bind
        (environment.accounts[·]?) = some supplier from known, named]
      apply Program.ensures_ok served
      apply Program.ensures_ok rfl
      apply Program.ensures_ok rfl
      apply Program.ensures_ok rfl
      exact .made encoded hashes named unowned known final pending recorded

theorem makeTokens_alone (environment : Environment) (invoiceId : String)
    (view : View (api environment cell)) :
    (Controller.makeTokens environment invoiceId).Ensures view fun outcome after =>
      TokenOutcome environment invoiceId view.world outcome after.world := by
  simp only [Controller.makeTokens, Controller.mintItemToken, ProcurementClient.getInvoiceById,
    Program.bind_assoc]
  cases encoded : environment.encodeUint invoiceId with
  | none => exact Program.ensures_error rfl (.unread encoded rfl rfl rfl)
  | some invoice =>
      let metadata := metadataOf invoiceId (view.world.procurement.invoices invoice)
      apply Program.ensures_ok rfl
      cases hashes : environment.rootHash metadata with
      | none =>
          have served : serve environment (.swarmPost metadata) view.world =
              (.ok none, view.world) := by
            simp [serve, hashes]
          apply Program.ensures_ok served
          refine TokenOutcome.unminted encoded (fun number hashed => ?_) rfl rfl rfl
          rw [tokenNumber, hashes] at hashed
          cases hashed
      | some hash =>
          have served : serve environment (.swarmPost metadata) view.world =
              (.ok (some hash), { view.world with
                swarm := (hash, metadata) :: view.world.swarm }) := by
            simp [serve, hashes]
          apply Program.ensures_ok served
          simp only [ItemTokenClient.mint, Program.bind_assoc, Program.pure_eq_done,
            Program.done_bind]
          cases named : environment.encodeUint ("0x" ++ hash) with
          | none =>
              refine Program.ensures_error rfl ?_
              refine .unminted encoded (fun number hashed => ?_) rfl rfl rfl
              rw [tokenNumber, hashes, Option.bind_some, named] at hashed
              cases hashed
          | some number =>
              by_cases unowned : view.world.token.tokenOwner number = 0
              · have adminNonzero := environment.nonzero environment.admin List.mem_cons_self
                rcases ItemToken.mint_of_unowned unowned adminNonzero with ⟨minted, mints, owners⟩
                have sent : serve environment (.mint (some number)) { view.world with
                    swarm := (hash, metadata) :: view.world.swarm } =
                      (.ok view.world.transactions.length, { view.world with
                        swarm := (hash, metadata) :: view.world.swarm
                        token := minted }.mined environment.admin) := by
                  simp [serve, World.send, mints]
                apply Program.ensures_ok sent
                exact ensures_minted encoded hashes named unowned owners rfl rfl rfl
              · have reverts : serve environment (.mint (some number)) { view.world with
                    swarm := (hash, metadata) :: view.world.swarm } =
                      (.error .reverted, { view.world with
                        swarm := (hash, metadata) :: view.world.swarm }.mined
                          environment.admin) := by
                  simp [serve, World.send, ItemToken.mint_of_owned unowned]
                refine Program.ensures_error reverts ?_
                refine .unminted encoded (fun other hashed => ?_) rfl rfl rfl
                rw [tokenNumber, hashes, Option.bind_some, named] at hashed
                rw [← Option.some.inj hashed]
                exact unowned

end Request

/-! ## All or nothing -/

/-- There is one new token, which the supplier's account owns, the purchase order is
pending delivery, and the token is in the row of the invoice. -/
def TokensMade (environment : Environment) (invoiceId : String) (before after : World) : Prop :=
  ∃ invoice tokenId number supplier row,
    environment.encodeUint invoiceId = some invoice ∧
    environment.encodeUint tokenId = some number ∧
    supplierAccount environment (before.procurement.invoices invoice).supplierId =
      some supplier ∧
    before.token.tokenOwner number = 0 ∧
    after.token.tokenOwner = Function.update before.token.tokenOwner number supplier ∧
    (after.procurement.pos (before.procurement.invoices invoice).poId).status =
      PoStatus.pendingDelivery.text ∧
    after.rows.find? (fun row => row.invoiceId == some invoiceId) = some row ∧
    row.tokenId = some tokenId

def TokensAllOrNothing (environment : Environment) (invoiceId : String) (before after : World)
    (outcome : Except Failure (Response (String × String))) : Prop :=
  ((∃ response, outcome = .ok response ∧ response.code = 200) ∧
      TokensMade environment invoiceId before after) ∨
    ((∃ error, outcome = .error error) ∧
      after.token.tokenOwner = before.token.tokenOwner ∧
      after.procurement.storage = before.procurement.storage ∧ after.rows = before.rows)

section AllOrNothing

variable {environment : Environment} {invoiceId : String} {before after : World}

theorem tokensAllOrNothing_of_unchanged {error : Failure} (token : after.token = before.token)
    (procurement : after.procurement = before.procurement) (rows : after.rows = before.rows) :
    TokensAllOrNothing environment invoiceId before after (.error error) := by
  refine .inr ⟨⟨error, rfl⟩, ?_, ?_, rows⟩
  · rw [token]
  · rw [procurement]

/-- A token that stays with the admin is there after a failure. -/
theorem not_tokensAllOrNothing_of_stranded {number : Nat} {error : Failure}
    (unowned : before.token.tokenOwner number = 0)
    (owners : after.token.tokenOwner =
      Function.update before.token.tokenOwner number environment.admin) :
    ¬TokensAllOrNothing environment invoiceId before after (.error error) := by
  rintro (⟨⟨_, succeeds, _⟩, _⟩ | ⟨_, same, _⟩)
  · cases succeeds
  · have owner := congrFun same number
    rw [owners, Function.update_self, unowned] at owner
    exact environment.nonzero environment.admin List.mem_cons_self owner

/-- A token that was delivered is complete exactly if the invoice has a row. -/
theorem tokensMade_iff {invoice number : Nat} {hash : String} {supplier : Address}
    (encoded : environment.encodeUint invoiceId = some invoice)
    (named : environment.encodeUint ("0x" ++ hash) = some number)
    (unowned : before.token.tokenOwner number = 0)
    (known : supplierAccount environment
      (before.procurement.invoices invoice).supplierId = some supplier)
    (owners : after.token.tokenOwner = Function.update before.token.tokenOwner number supplier)
    (procurement : after.procurement = before.procurement.updatePOStatus
      (before.procurement.invoices invoice).poId PoStatus.pendingDelivery.text)
    (rows : after.rows = updateFirst (fun row => row.invoiceId == some invoiceId)
      (fun row => { row with tokenId := some ("0x" ++ hash) }) before.rows) :
    TokensMade environment invoiceId before after ↔
      ∃ row ∈ before.rows, row.invoiceId = some invoiceId := by
  have found : after.rows.find? (fun row => row.invoiceId == some invoiceId) =
      (before.rows.find? fun row => row.invoiceId == some invoiceId).map
        fun row => { row with tokenId := some ("0x" ++ hash) } := by
    rw [rows]
    apply find?_updateFirst
    exact fun _ => rfl
  rw [← exists_find?_iff]
  constructor
  · rintro ⟨_, _, _, _, _, _, _, _, _, _, _, looked, _⟩
    rw [found, Option.map_eq_some_iff] at looked
    rcases looked with ⟨row, first, _⟩
    exact ⟨row, first⟩
  · rintro ⟨row, first⟩
    rw [first] at found
    refine ⟨invoice, "0x" ++ hash, number, supplier, _, encoded, named, known, unowned, owners, ?_,
      found, rfl⟩
    simp [procurement, Procurement.updatePOStatus]

/-- `makeTokens` that runs alone is all or nothing exactly if the id is no number,
or nothing is minted since there is no hash or the token has an owner, or the
supplier has an account and the invoice a row. -/
theorem makeTokens_allOrNothing_iff (environment : Environment) (cell : Nat → Nat)
    (view : View (api environment cell)) (invoiceId : String) :
    TokensAllOrNothing environment invoiceId view.world
        ((Controller.makeTokens environment invoiceId).alone view).2.world
        ((Controller.makeTokens environment invoiceId).alone view).1 ↔
      environment.encodeUint invoiceId = none ∨
        ∃ invoice, environment.encodeUint invoiceId = some invoice ∧
          ((∀ number, tokenNumber environment invoiceId
                (view.world.procurement.invoices invoice) = some number →
              view.world.token.tokenOwner number ≠ 0) ∨
            ((supplierAccount environment
                (view.world.procurement.invoices invoice).supplierId).isSome ∧
              ∃ row ∈ view.world.rows, row.invoiceId = some invoiceId)) := by
  have ends := makeTokens_alone environment invoiceId view
  rw [Program.Ensures] at ends
  generalize ((Controller.makeTokens environment invoiceId).alone view).1 = outcome at ends ⊢
  generalize ((Controller.makeTokens environment invoiceId).alone view).2.world = after at ends ⊢
  cases ends with
  | unread encoded token procurement rows =>
      exact iff_of_true (tokensAllOrNothing_of_unchanged token procurement rows) (.inl encoded)
  | unminted encoded refuses token procurement rows =>
      exact iff_of_true (tokensAllOrNothing_of_unchanged token procurement rows)
        (.inr ⟨_, encoded, .inl refuses⟩)
  | @stranded _ _ invoice number encoded hashed unowned unknown owners =>
      refine iff_of_false (not_tokensAllOrNothing_of_stranded unowned owners) ?_
      simp only [encoded, reduceCtorEq, Option.some.injEq, exists_eq_left', false_or, unknown,
        Option.isSome_none, Bool.false_eq_true, false_and, or_false]
      exact fun refuses => refuses number hashed unowned
  | @made _ invoice hash number supplier encoded hashes named unowned known owners procurement
      rows =>
      have hashed : tokenNumber environment invoiceId
          (view.world.procurement.invoices invoice) = some number := by
        rw [tokenNumber, hashes]
        exact named
      have complete := tokensMade_iff encoded named unowned known owners procurement rows
      simp [TokensAllOrNothing, complete, encoded, hashed, unowned, known]

end AllOrNothing

/-- The token of the invoice 1002 goes to CheeseCo. -/
theorem cheeseInvoice_tokensAllOrNothing :
    TokensAllOrNothing testNetwork "1002" ((newNetwork.next cheeseOrder).next cheeseInvoice).world
      ((Controller.makeTokens testNetwork "1002").alone
        ((newNetwork.next cheeseOrder).next cheeseInvoice).view).2.world
      ((Controller.makeTokens testNetwork "1002").alone
        ((newNetwork.next cheeseOrder).next cheeseInvoice).view).1 := by
  apply (makeTokens_allOrNothing_iff testNetwork _
    ((newNetwork.next cheeseOrder).next cheeseInvoice).view "1002").mpr
  refine .inr ⟨1002, by decide +kernel, .inr ⟨by decide +kernel, ?_⟩⟩
  exact ⟨⟨some "1000", some "CHEESECO", some "1001", some "1002", none⟩, by decide +kernel, rfl⟩

/-- The invoice 7 was never issued, and its token stays with the admin. -/
theorem unissuedInvoice_not_tokensAllOrNothing :
    ¬TokensAllOrNothing testNetwork "7" newNetwork.world
      ((Controller.makeTokens testNetwork "7").alone newNetwork.view).2.world
      ((Controller.makeTokens testNetwork "7").alone newNetwork.view).1 := by
  rintro (⟨⟨_, succeeds, _⟩, _⟩ | ⟨_, owners, _⟩)
  · cases succeeds
  · exact absurd (congrFun owners 7) (by decide +kernel)

end PizzaChain.Api
