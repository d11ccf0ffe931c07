import PizzaChain.Api.Listing

/-! # Metadata in Swarm and on the chain

A token is minted with its metadata in Swarm, under the hash that becomes its id,
or on the chain, under the id of the invoice. Only the first way is switched on;
both give back the fields of the invoice.
-/

namespace PizzaChain.Api

open PizzaChain.Chain

/-- The fields of an invoice that its token carries. -/
def InvoiceData.metadata (invoice : InvoiceData) : Metadata :=
  ⟨invoice.invoiceId, invoice.itemType, invoice.uom, invoice.qty, invoice.price⟩

/-- `mintItemToken` followed by `getMetadata` of the token it returned. -/
def mintAndGetMetadata (environment : Environment) (useSwarm : Bool) (invoice : InvoiceData) :
    Handler (Except Failure (Option Metadata)) := do
  let tokenId ← Controller.mintItemTokenBy environment useSwarm invoice
  Controller.getMetadataBy environment useSwarm tokenId

/-- The token of an invoice can be minted in both ways: the item type is in the
table, the numbers are safe integers, and neither the invoice id nor the hash
with which the Swarm service answers names a token. -/
structure Mintable (environment : Environment) (world : World) (invoice : InvoiceData) : Prop where
  itemType : ∃ itemType number, invoice.itemType = some itemType ∧
    itemTypes.lookup itemType = some number
  qty : invoice.qty < 2 ^ 53
  price : invoice.price < 2 ^ 53
  invoiceId : ∃ number, environment.encodeUint invoice.invoiceId = some number ∧
    world.token.tokenOwner number = 0
  rootHash : ∃ hash number, environment.rootHash invoice.metadata = some hash ∧
    environment.encodeUint ("0x" ++ hash) = some number ∧ world.token.tokenOwner number = 0

section Paths

variable {environment : Environment} {cell : Nat → Nat} {invoice : InvoiceData}

theorem getMetadata_of_hash (hash : String) :
    Controller.getMetadata ("0x" ++ hash) = wait .swarm (.swarmGet hash) := by
  have chars : ("0x" ++ hash).toList = '0' :: 'x' :: hash.toList := by
    rw [String.toList_append]
    rfl
  rw [Controller.getMetadata, chars]
  change wait .swarm (.swarmGet (String.ofList hash.toList)) = _
  rw [String.ofList_toList]

theorem swarm_metadata (view : View (api environment cell))
    (mintable : Mintable environment view.world invoice) :
    ((mintAndGetMetadata environment true invoice).alone view).1 =
      .ok (.ok (some invoice.metadata)) := by
  rcases mintable.rootHash with ⟨hash, number, hashes, named, unowned⟩
  have adminNonzero := environment.nonzero environment.admin List.mem_cons_self
  rcases ItemToken.mint_of_unowned unowned adminNonzero with ⟨minted, mints, _⟩
  have posted : serve environment (.swarmPost invoice.metadata) view.world =
      (.ok (some hash), { view.world with
        swarm := (hash, invoice.metadata) :: view.world.swarm }) := by
    simp [serve, hashes]
  have sent : serve environment (.mint (environment.encodeUint ("0x" ++ hash))) { view.world with
      swarm := (hash, invoice.metadata) :: view.world.swarm } =
        (.ok view.world.transactions.length, { view.world with
          swarm := (hash, invoice.metadata) :: view.world.swarm
          token := minted }.mined environment.admin) := by
    simp [named, serve, World.send, mints]
  have ensured : (mintAndGetMetadata environment true invoice).Ensures view
      fun outcome _ => outcome = .ok (.ok (some invoice.metadata)) := by
    simp only [mintAndGetMetadata, Controller.mintItemTokenBy, Controller.mintItemToken, if_true,
      Program.bind_assoc]
    apply Program.ensures_ok posted
    simp only [ItemTokenClient.mint, Program.bind_assoc, Program.pure_eq_done, Program.done_bind]
    apply Program.ensures_ok sent
    simp only [Controller.getMetadataBy, if_true, getMetadata_of_hash]
    apply Program.ensures_attempt
    simp [Program.Ensures, Program.call, Program.alone, serve, World.mined]
  exact ensured

theorem chain_metadata (view : View (api environment cell))
    (mintable : Mintable environment view.world invoice) :
    ((mintAndGetMetadata environment false invoice).alone view).1 =
      .ok (.ok (some invoice.metadata)) := by
  rcases mintable.itemType with ⟨itemType, typeNumber, typed, known⟩
  rcases mintable.invoiceId with ⟨number, named, unowned⟩
  have adminNonzero := environment.nonzero environment.admin List.mem_cons_self
  rcases ItemToken.mint_of_unowned unowned adminNonzero with ⟨minted, mints, _⟩
  let item : Item := ⟨typeNumber, invoice.uom, invoice.qty, invoice.price⟩
  let token : ItemToken := { minted with
    itemMetadata := Function.update minted.itemMetadata number item }
  have sent : serve environment (.mintWithItemData (environment.encodeUint invoice.invoiceId)
      (invoice.itemType.bind (itemTypes.lookup ·)) invoice.uom (encodeNumber invoice.qty)
      (encodeNumber invoice.price)) view.world =
        (.ok view.world.transactions.length,
          { view.world with token := token }.mined environment.admin) := by
    have qtyEncoded : encodeNumber invoice.qty = some invoice.qty := if_pos mintable.qty
    have priceEncoded : encodeNumber invoice.price = some invoice.price := if_pos mintable.price
    simp [named, typed, known, qtyEncoded, priceEncoded, serve, World.send,
      ItemToken.mintWithItemData, mints, token, item]
  have mapped : Controller.mapTokenData invoice.invoiceId (token.getMetadata number) =
      invoice.metadata := by
    have typeName := (getKeyByValue_of_lookup known).1
    simp [Controller.mapTokenData, ItemToken.getMetadata, token, item, typeName, typed,
      InvoiceData.metadata, roundToDouble_of_lt mintable.qty, roundToDouble_of_lt mintable.price]
  have asked : serve environment (.getMetadata (environment.encodeUint invoice.invoiceId))
      ({ view.world with token := token }.mined environment.admin) =
        (.ok (token.getMetadata number),
          { view.world with token := token }.mined environment.admin) := by
    simp [named, serve, World.ask, World.mined]
  have ensured : (mintAndGetMetadata environment false invoice).Ensures view
      fun outcome _ => outcome = .ok (.ok (some invoice.metadata)) := by
    simp only [mintAndGetMetadata, Controller.mintItemTokenBy, ItemTokenClient.mintDataToBC,
      Bool.false_eq_true, if_false, Program.bind_assoc, Program.pure_eq_done, Program.done_bind]
    apply Program.ensures_ok sent
    simp only [Controller.getMetadataBy, Bool.false_eq_true, if_false, ItemTokenClient.getMetadata]
    apply Program.ensures_attempt
    apply Program.ensures_ok asked
    rw [mapped]
    rfl
  exact ensured

/-- Both ways of minting a token give back the fields of the invoice. -/
theorem metadata_paths_agree (view : View (api environment cell))
    (mintable : Mintable environment view.world invoice) :
    ((mintAndGetMetadata environment true invoice).alone view).1 =
        ((mintAndGetMetadata environment false invoice).alone view).1 ∧
      ((mintAndGetMetadata environment true invoice).alone view).1 =
        .ok (.ok (some invoice.metadata)) := by
  rw [swarm_metadata view mintable, chain_metadata view mintable]
  exact ⟨rfl, rfl⟩

end Paths

/-- The invoice of the test run. -/
def cheeseInvoiceData : InvoiceData :=
  ⟨"1002", 1001, "CHEESECO", some "CHEESE", 2, "KG", 5, InvoiceStatus.issued.text⟩

theorem cheeseInvoiceData_mintable :
    Mintable testNetwork (World.deployed testNetwork) cheeseInvoiceData where
  itemType := ⟨"CHEESE", 1, rfl, rfl⟩
  qty := by decide
  price := by decide
  invoiceId := ⟨1002, readUint_toString 1002, rfl⟩
  rootHash := ⟨"1002", 0x1002, rfl, by decide, rfl⟩

theorem metadata_paths_agree_cheese :
    let view : View (api testNetwork id) := ⟨World.deployed testNetwork, Globals.initial, []⟩
    ((mintAndGetMetadata testNetwork true cheeseInvoiceData).alone view).1 =
        ((mintAndGetMetadata testNetwork false cheeseInvoiceData).alone view).1 ∧
      ((mintAndGetMetadata testNetwork true cheeseInvoiceData).alone view).1 =
        .ok (.ok (some cheeseInvoiceData.metadata)) :=
  metadata_paths_agree _ cheeseInvoiceData_mintable

end PizzaChain.Api
