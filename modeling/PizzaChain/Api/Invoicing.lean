import PizzaChain.Api.Ordering

/-! # Issuing an invoice

`POST /invoice/:poId` acknowledges the purchase order and only then finds out
whether web3 accepts the arguments of the invoice and whether the gas is enough for it, and
only after that whether the price is a number for the procurement table.
-/

namespace PizzaChain.Api

open PizzaChain.Chain

/-! ## What web3 makes of a purchase order -/

theorem getKeyByValue_itemTypes_of_ge {itemType : Nat} (large : 5 ≤ itemType) :
    getKeyByValue itemTypes itemType = none := by
  rw [getKeyByValue, Option.map_eq_none_iff, List.find?_eq_none]
  intro entry member
  simp only [itemTypes, List.mem_cons, List.not_mem_nil, or_false] at member
  simp only [beq_iff_eq]
  rcases member with rfl | rfl | rfl | rfl <;> simp <;> omega

/-- The number of an item type is read, named and encoded as it was. -/
theorem encoded_itemType (itemType : Nat) :
    (getKeyByValue itemTypes (roundToDouble itemType)).bind (itemTypes.lookup ·) =
      if (getKeyByValue itemTypes itemType).isSome then some itemType else none := by
  have table : ∀ small < 5, (getKeyByValue itemTypes small).bind (itemTypes.lookup ·) =
      if (getKeyByValue itemTypes small).isSome then some small else none := by decide
  rcases Nat.lt_or_ge itemType 5 with small | large
  · rw [roundToDouble_of_lt (by omega)]
    exact table itemType small
  · have rounded : 5 ≤ roundToDouble itemType := by
      rcases Nat.lt_or_ge itemType (2 ^ 53) with exact_ | beyond
      · rw [roundToDouble_of_lt exact_]
        exact large
      · have bound := le_roundToDouble beyond
        omega
    rw [getKeyByValue_itemTypes_of_ge rounded, getKeyByValue_itemTypes_of_ge large]
    rfl

theorem encodeNumber_roundToDouble (qty : Nat) :
    encodeNumber (roundToDouble qty) = if qty < 2 ^ 53 then some qty else none := by
  rw [encodeNumber]
  rcases Nat.lt_or_ge qty (2 ^ 53) with small | large
  · rw [roundToDouble_of_lt small]
  · have rounded := le_roundToDouble large
    rw [if_neg (by omega), if_neg (by omega)]

/-- The terms of the invoice for a purchase order, if web3 accepts all of them:
the item type has a name, the quantity is a safe integer and the price is a
number. -/
def billed (environment : Environment) (poNumber : Nat) (po : PO) (itemPrice : Option String) :
    Option InvoiceTerms :=
  match itemPrice.bind environment.encodeUint with
  | none => none
  | some price =>
      if (getKeyByValue itemTypes po.itemType).isSome ∧ po.qty < 2 ^ 53 then
        some ⟨poNumber, po.supplierId, po.itemType, po.qty, po.uom, price⟩
      else none

theorem encodedFields_of_billed {environment : Environment} {poNumber : Nat} {po : PO}
    {itemPrice : Option String} {terms : InvoiceTerms}
    (bills : billed environment poNumber po itemPrice = some terms) :
    (getKeyByValue itemTypes (roundToDouble po.itemType)).bind (itemTypes.lookup ·) =
        some po.itemType ∧
      encodeNumber (roundToDouble po.qty) = some po.qty ∧
      itemPrice.bind environment.encodeUint = some terms.price ∧
      terms = ⟨poNumber, po.supplierId, po.itemType, po.qty, po.uom, terms.price⟩ := by
  rw [billed] at bills
  split at bills
  · cases bills
  · rename_i price priced
    split at bills
    · rename_i accepts
      cases bills
      rw [encoded_itemType, encodeNumber_roundToDouble, if_pos accepts.1, if_pos accepts.2]
      exact ⟨rfl, rfl, priced, rfl⟩
    · cases bills

/-- The transaction that issues an invoice. -/
def invoiceCall (invoiceNumber : Nat) (terms : InvoiceTerms) : ProcurementCall :=
  .issueInvoice invoiceNumber terms.poId terms.supplierId terms.itemType terms.qty terms.uom
    terms.price InvoiceStatus.issued.text

namespace World

variable (environment : Environment) (world : World)

/-- The world with a purchase order acknowledged. -/
def acknowledge (poNumber : Nat) : World := { world with
  procurement := world.procurement.updatePOStatus poNumber PoStatus.acknowledged.text
  transactions := world.transactions ++ [environment.admin] }

/-- The world with an invoice issued. -/
def bill (invoiceNumber : Nat) (terms : InvoiceTerms) : World := { world with
  procurement := world.procurement.issueInvoice invoiceNumber terms.poId terms.supplierId
    terms.itemType terms.qty terms.uom terms.price InvoiceStatus.issued.text
  transactions := world.transactions ++ [environment.admin] }

/-- The world with an invoice issued and written to the first row of the purchase
order's id. -/
def invoice (poId invoiceId : String) (invoiceNumber : Nat) (terms : InvoiceTerms) : World :=
  { world.bill environment invoiceNumber terms with
    rows := updateFirst (fun row => row.poId == some poId)
      (fun row => { row with invoiceId := some invoiceId }) world.rows }

/-- The terms of the invoice that the contract issues after the acknowledgement, if web3
accepts them and the gas is enough. -/
def billable (poNumber invoiceNumber : Nat) (itemPrice : Option String) : Option InvoiceTerms :=
  (billed environment poNumber (world.procurement.pos poNumber) itemPrice).filter fun terms =>
    environment.affords (world.acknowledge environment poNumber).procurement
      (invoiceCall invoiceNumber terms)

end World

/-! ## The request -/

section Request

variable {environment : Environment} {number : Nat → Nat} {cell : Nat → Nat}

theorem serve_issueInvoice_of_billed {poNumber : Nat} {po : PO} {itemPrice : Option String}
    {terms : InvoiceTerms} (bills : billed environment poNumber po itemPrice = some terms)
    {invoiceNumber : Nat} {world : World}
    (affords : environment.affords world.procurement (invoiceCall invoiceNumber terms) = true) :
    serve environment (.issueInvoice (some invoiceNumber) (some poNumber) po.supplierId
        ((getKeyByValue itemTypes (roundToDouble po.itemType)).bind (itemTypes.lookup ·))
        (encodeNumber (roundToDouble po.qty)) po.uom (itemPrice.bind environment.encodeUint)
        InvoiceStatus.issued.text) world =
      (.ok world.transactions.length, world.bill environment invoiceNumber terms) := by
  rcases encodedFields_of_billed bills with ⟨typed, counted, priced, same⟩
  rw [typed, counted, priced]
  rw [same, invoiceCall] at affords
  rw [same]
  simp [serve, World.procure, World.send, World.mined, World.bill, affords, Procurement.apply]

/-- A refused invoice changes nothing but perhaps the count of the admin's transactions. -/
theorem serve_issueInvoice_of_none {poNumber : Nat} {po : PO} {itemPrice : Option String}
    {invoiceNumber : Nat} {world : World}
    (refuses : (billed environment poNumber po itemPrice).filter (fun terms =>
      environment.affords world.procurement (invoiceCall invoiceNumber terms)) = none) :
    ∃ failure transactions,
      serve environment (.issueInvoice (some invoiceNumber) (some poNumber) po.supplierId
        ((getKeyByValue itemTypes (roundToDouble po.itemType)).bind (itemTypes.lookup ·))
        (encodeNumber (roundToDouble po.qty)) po.uom (itemPrice.bind environment.encodeUint)
        InvoiceStatus.issued.text) world =
      (.error failure, { world with transactions := transactions }) := by
  cases bills : billed environment poNumber po itemPrice with
  | some terms =>
      rcases encodedFields_of_billed bills with ⟨typed, counted, priced, same⟩
      have short : ¬environment.affords world.procurement (invoiceCall invoiceNumber terms) =
          true := by
        simpa [bills, Option.filter_eq_none_iff] using refuses
      rw [same, invoiceCall] at short
      refine ⟨.reverted, world.transactions ++ [environment.admin], ?_⟩
      rw [typed, counted, priced]
      simp [serve, World.procure, World.send, World.mined, short]
  | none =>
      refine ⟨.invalidArgument, world.transactions, ?_⟩
      rw [encoded_itemType, encodeNumber_roundToDouble]
      rw [billed] at bills
      revert bills
      cases itemPrice.bind environment.encodeUint with
      | none =>
          intro _
          generalize (if (getKeyByValue itemTypes po.itemType).isSome then some po.itemType
            else none) = itemType
          generalize (if po.qty < 2 ^ 53 then some po.qty else none) = qty
          cases itemType <;> cases qty <;> rfl
      | some price =>
          intro bills
          by_cases typed : (getKeyByValue itemTypes po.itemType).isSome
          · by_cases counted : po.qty < 2 ^ 53
            · simp only [typed, counted, and_self, if_true] at bills
              cases bills
            · rw [if_pos typed, if_neg counted]
              rfl
          · rw [if_neg typed]
            rfl

/-- How `POST /invoice/:poId` ends: the id is no number, or the purchase order is
acknowledged and the invoice refused, or the invoice is issued and the price refused by the
table, or all is written. -/
inductive InvoiceOutcome (environment : Environment) (number : Nat → Nat) (poId : String)
    (itemPrice : Option String) (world : World) (drawn : Nat) :
    Except Failure (Response Data) → World → Prop
  | unread (encoded : environment.encodeUint poId = none) (error) :
      InvoiceOutcome environment number poId itemPrice world drawn (.error error) world
  | refused {poNumber} (encoded : environment.encodeUint poId = some poNumber)
      (refuses : world.billable environment poNumber (number drawn) itemPrice = none)
      (error transactions) :
      InvoiceOutcome environment number poId itemPrice world drawn (.error error)
        { world.acknowledge environment poNumber with transactions := transactions }
  | unlinked {poNumber terms} (encoded : environment.encodeUint poId = some poNumber)
      (bills : world.billable environment poNumber (number drawn) itemPrice = some terms)
      (uncast : itemPrice.all environment.isNumber = false) (error) :
      InvoiceOutcome environment number poId itemPrice world drawn (.error error)
        ((world.acknowledge environment poNumber).bill environment (number drawn) terms)
  | issued {poNumber terms} (encoded : environment.encodeUint poId = some poNumber)
      (bills : world.billable environment poNumber (number drawn) itemPrice = some terms)
      (cast : itemPrice.all environment.isNumber = true) :
      InvoiceOutcome environment number poId itemPrice world drawn
        (.ok ⟨201, "Invoice Issued", .invoiceId (environment.uniqueId drawn), none⟩)
        ((world.acknowledge environment poNumber).invoice environment poId
          (environment.uniqueId drawn) (number drawn) terms)

theorem postInvoice_alone (numeric : NumericIds environment number) (poId : String)
    (itemPrice : Option String) (view : View (api environment cell)) :
    (handle environment (.postInvoice poId itemPrice)).Ensures view fun outcome after =>
      InvoiceOutcome environment number poId itemPrice view.world view.globals.ids outcome
        after.world ∧
      ((∃ response, outcome = .ok response) → after.globals.ids = view.globals.ids + 1) := by
  simp only [handle, Controller.ackPO, Controller.issueInvoice, Controller.uniqueId,
    Controller.mapPOData, ProcurementClient.getPOById, ProcurementClient.updatePOStatus,
    ProcurementClient.createInvoice, ProcurementService.updateInvoice, Program.bind_assoc,
    Program.pure_eq_done, Program.done_bind]
  cases encoded : environment.encodeUint poId with
  | none =>
      refine Program.ensures_error rfl ⟨.unread encoded _, ?_⟩
      rintro ⟨response, succeeds⟩
      cases succeeds
  | some poNumber =>
      have acknowledged : serve environment (.updatePOStatus (some poNumber)
          PoStatus.acknowledged.text) view.world =
            (.ok view.world.transactions.length, view.world.acknowledge environment poNumber) :=
        rfl
      apply Program.ensures_ok rfl
      apply Program.ensures_ok acknowledged
      apply Program.ensures_get
      apply Program.ensures_modify
      rw [numeric]
      cases bills : view.world.billable environment poNumber (number view.globals.ids)
          itemPrice with
      | none =>
          rcases serve_issueInvoice_of_none bills with ⟨failure, transactions, served⟩
          refine Program.ensures_error served ⟨.refused encoded bills _ transactions, ?_⟩
          rintro ⟨response, succeeds⟩
          cases succeeds
      | some terms =>
          rcases Option.filter_eq_some_iff.mp bills with ⟨given, affords⟩
          refine Program.ensures_ok (serve_issueInvoice_of_billed given affords) ?_
          cases cast : itemPrice.all environment.isNumber with
          | false =>
              refine Program.ensures_error (by simp only [serve, cast]; rfl)
                ⟨.unlinked encoded bills cast .uncastable, ?_⟩
              rintro ⟨response, succeeds⟩
              cases succeeds
          | true =>
              refine Program.ensures_ok (by simp only [serve, cast, if_true]; rfl) ?_
              exact ⟨.issued encoded bills cast, fun _ => rfl⟩

/-- A request of a sequence that succeeds has written both. -/
theorem next_of_invoiced (numeric : NumericIds environment number)
    {sequence : Sequence (api environment cell)} {poId : String} {itemPrice : Option String}
    {response : Response Data}
    (succeeds : (sequence.ended (.postInvoice poId itemPrice)).1 = .ok response) :
    ∃ poNumber terms, environment.encodeUint poId = some poNumber ∧
      billed environment poNumber (sequence.world.procurement.pos poNumber) itemPrice =
        some terms ∧
      response = ⟨201, "Invoice Issued",
        .invoiceId (environment.uniqueId sequence.globals.ids), none⟩ ∧
      (sequence.next (.postInvoice poId itemPrice)).world =
        (sequence.world.acknowledge environment poNumber).invoice environment poId
          (environment.uniqueId sequence.globals.ids) (number sequence.globals.ids) terms ∧
      (sequence.next (.postInvoice poId itemPrice)).globals.ids = sequence.globals.ids + 1 := by
  rcases postInvoice_alone numeric poId itemPrice sequence.view with ⟨outcome, ids⟩
  have ids : (sequence.next (.postInvoice poId itemPrice)).globals.ids =
      sequence.globals.ids + 1 := ids ⟨response, succeeds⟩
  have outcome : InvoiceOutcome environment number poId itemPrice sequence.world
      sequence.globals.ids (sequence.ended (.postInvoice poId itemPrice)).1
      (sequence.next (.postInvoice poId itemPrice)).world := outcome
  rw [succeeds] at outcome
  generalize (sequence.next (.postInvoice poId itemPrice)).world = world at outcome ⊢
  cases outcome with
  | issued encoded bills cast =>
      exact ⟨_, _, encoded, (Option.filter_eq_some_iff.mp bills).1, rfl, rfl, ids⟩

end Request

/-! ## All or nothing -/

/-- The purchase order is acknowledged, there is one new invoice, which has its
terms and the price, and the order's row is linked to it. -/
def Invoiced (environment : Environment) (poId : String) (itemPrice : Option String)
    (before after : World) : Prop :=
  ∃ poNumber invoiceId invoiceNumber price row,
    environment.encodeUint poId = some poNumber ∧
    environment.encodeUint invoiceId = some invoiceNumber ∧
    itemPrice.bind environment.encodeUint = some price ∧
    (after.procurement.pos poNumber).status = PoStatus.acknowledged.text ∧
    invoiceNumber ∉ before.procurement.invoiceArray ∧
    after.procurement.invoiceArray = before.procurement.invoiceArray ++ [invoiceNumber] ∧
    (after.procurement.invoices invoiceNumber).terms =
      ⟨poNumber, (before.procurement.pos poNumber).supplierId,
        (before.procurement.pos poNumber).itemType, (before.procurement.pos poNumber).qty,
        (before.procurement.pos poNumber).uom, price⟩ ∧
    (∀ other, other ≠ invoiceNumber →
      after.procurement.invoices other = before.procurement.invoices other) ∧
    after.rows.find? (fun row => row.poId == some poId) = some row ∧
    row.invoiceId = some invoiceId

/-- The request succeeds and all is written, or it fails and nothing is changed. -/
def InvoiceAllOrNothing (environment : Environment) (poId : String) (itemPrice : Option String)
    (before after : World) (outcome : Except Failure (Response Data)) : Prop :=
  ((∃ response, outcome = .ok response) ∧ Invoiced environment poId itemPrice before after) ∨
    ((∃ error, outcome = .error error) ∧
      after.procurement.storage = before.procurement.storage ∧ after.rows = before.rows)

section AllOrNothing

variable {environment : Environment} {number : Nat → Nat} {poId : String}
  {itemPrice : Option String} {world : World} {poNumber drawn : Nat}

theorem storage_acknowledge_eq_iff :
    (world.acknowledge environment poNumber).procurement.storage = world.procurement.storage ↔
      (world.procurement.pos poNumber).status = PoStatus.acknowledged.text := by
  constructor
  · intro same
    have record := congrFun (congrArg ProcurementStorage.pos same) poNumber
    have updated : (world.acknowledge environment poNumber).procurement.pos poNumber =
        { world.procurement.pos poNumber with status := PoStatus.acknowledged.text } :=
      Function.update_self _ _ _
    have record : (world.acknowledge environment poNumber).procurement.pos poNumber =
        world.procurement.pos poNumber := record
    rw [← record, updated]
  · intro acknowledged
    have same : Function.update world.procurement.pos poNumber
        { world.procurement.pos poNumber with status := PoStatus.acknowledged.text } =
          world.procurement.pos := by
      rw [← acknowledged]
      exact Function.update_eq_self _ _
    exact congrArg (fun pos => (⟨pos, _, _, _⟩ : ProcurementStorage)) same

/-- An invoice that was issued is complete exactly if its id is new and the purchase
order has a row. -/
theorem invoiced_iff (numeric : NumericIds environment number) {terms : InvoiceTerms}
    (encoded : environment.encodeUint poId = some poNumber)
    (bills : billed environment poNumber (world.procurement.pos poNumber) itemPrice =
      some terms) :
    Invoiced environment poId itemPrice world
        ((world.acknowledge environment poNumber).invoice environment poId
          (environment.uniqueId drawn) (number drawn) terms) ↔
      number drawn ∉ world.procurement.invoiceArray ∧
        ∃ row ∈ world.rows, row.poId = some poId := by
  have found : ((world.acknowledge environment poNumber).invoice environment poId
      (environment.uniqueId drawn) (number drawn) terms).rows.find?
        (fun row => row.poId == some poId) =
        (world.rows.find? fun row => row.poId == some poId).map
          fun row => { row with invoiceId := some (environment.uniqueId drawn) } := by
    apply find?_updateFirst
    exact fun _ => rfl
  rcases encodedFields_of_billed bills with ⟨_, _, priced, same⟩
  rw [← exists_find?_iff]
  constructor
  · rintro ⟨_, _, invoiceNumber, _, _, _, _, _, _, unused, grows, _, _, looked, _⟩
    rw [found, Option.map_eq_some_iff] at looked
    rcases looked with ⟨row, first, _⟩
    have issued : world.procurement.invoiceArray ++ [number drawn] =
        world.procurement.invoiceArray ++ [invoiceNumber] := grows
    cases List.append_cancel_left issued
    exact ⟨unused, row, first⟩
  · rintro ⟨unused, row, first⟩
    rw [first] at found
    refine ⟨poNumber, environment.uniqueId drawn, number drawn, terms.price, _, encoded,
      numeric drawn, priced, ?_, unused, rfl, ?_, ?_, found, rfl⟩
    · have updated : ((world.acknowledge environment poNumber).procurement.pos poNumber) =
          { world.procurement.pos poNumber with status := PoStatus.acknowledged.text } :=
        Function.update_self _ _ _
      exact congrArg PO.status updated
    · rw [same]
      simp only [World.invoice, World.bill, Procurement.invoices_issueInvoice_self,
        Invoice.terms]
    · intro other different
      exact Function.update_of_ne different _ _

/-- `POST /invoice/:poId` that runs alone is all or nothing exactly if the id is no
number, or the invoice is issued, the price is a number for the table, the id is new and the
order has a row, or the invoice is refused and the order was acknowledged before. -/
theorem postInvoice_allOrNothing_iff (environment : Environment) (cell : Nat → Nat)
    (number : Nat → Nat) (numeric : NumericIds environment number)
    (view : View (api environment cell)) (poId : String) (itemPrice : Option String) :
    InvoiceAllOrNothing environment poId itemPrice view.world
        ((handle environment (.postInvoice poId itemPrice)).alone view).2.world
        ((handle environment (.postInvoice poId itemPrice)).alone view).1 ↔
      environment.encodeUint poId = none ∨
        ∃ poNumber, environment.encodeUint poId = some poNumber ∧
          (((view.world.billable environment poNumber (number view.globals.ids)
                itemPrice).isSome ∧
              itemPrice.all environment.isNumber = true ∧
              number view.globals.ids ∉ view.world.procurement.invoiceArray ∧
              ∃ row ∈ view.world.rows, row.poId = some poId) ∨
            (view.world.billable environment poNumber (number view.globals.ids) itemPrice =
                none ∧
              (view.world.procurement.pos poNumber).status = PoStatus.acknowledged.text)) := by
  have ends := (postInvoice_alone numeric poId itemPrice view).1
  generalize ((handle environment (.postInvoice poId itemPrice)).alone view).1 = outcome at ends ⊢
  generalize ((handle environment (.postInvoice poId itemPrice)).alone view).2.world = after
    at ends ⊢
  rw [InvoiceAllOrNothing]
  cases ends with
  | unread encoded error =>
      exact iff_of_true (.inr ⟨⟨error, rfl⟩, rfl, rfl⟩) (.inl encoded)
  | @refused poNumber encoded refuses error transactions =>
      have nothing := @storage_acknowledge_eq_iff environment view.world poNumber
      simp only [reduceCtorEq, exists_false, false_and, false_or, encoded, Option.some.injEq,
        exists_eq_left', refuses, Option.isSome_none, Bool.false_eq_true, true_and]
      exact ⟨fun ⟨_, storage, _⟩ => nothing.mp storage,
        fun status => ⟨⟨error, rfl⟩, nothing.mpr status, rfl⟩⟩
  | @unlinked poNumber terms encoded bills uncast error =>
      simp only [reduceCtorEq, exists_false, false_and, false_or, encoded, Option.some.injEq,
        exists_eq_left', bills, uncast, Bool.false_eq_true, and_false, or_false, iff_false]
      rintro ⟨_, storage, _⟩
      have lengths := congrArg (fun storage => storage.invoiceArray.length) storage
      simp [World.bill, World.acknowledge, Procurement.storage, Procurement.issueInvoice,
        Procurement.updatePOStatus] at lengths
  | @issued poNumber terms encoded bills cast =>
      have given := (Option.filter_eq_some_iff.mp bills).1
      rw [invoiced_iff numeric encoded given]
      simp [encoded, bills, cast]

end AllOrNothing

/-- The order 1001 is invoiced over 5. -/
theorem cheeseInvoice_allOrNothing :
    InvoiceAllOrNothing testNetwork "1001" (some "5") (newNetwork.next cheeseOrder).world
      ((newNetwork.next cheeseOrder).ended cheeseInvoice).2.world
      ((newNetwork.next cheeseOrder).ended cheeseInvoice).1 := by
  apply (postInvoice_allOrNothing_iff testNetwork _ _ testNetwork_fresh.encoded
    (newNetwork.next cheeseOrder).view "1001" (some "5")).mpr
  refine .inr ⟨1001, by decide +kernel, .inl ⟨by decide +kernel, by decide +kernel,
    by decide +kernel, ?_⟩⟩
  exact ⟨⟨some "1000", some "CHEESECO", some "1001", none, none⟩, by decide +kernel, rfl⟩

/-- The order 7, which was never issued, is acknowledged. -/
theorem unissuedOrder_not_allOrNothing :
    ¬InvoiceAllOrNothing testNetwork "7" (some "5") newNetwork.world
      (newNetwork.ended (.postInvoice "7" (some "5"))).2.world
      (newNetwork.ended (.postInvoice "7" (some "5"))).1 := by
  rintro (⟨_, _, _, _, _, _, _, _, _, _, _, grows, _⟩ | ⟨_, storage, _⟩)
  · have lengths := congrArg List.length grows
    rw [List.length_append, List.length_singleton] at lengths
    exact absurd lengths (by decide +kernel)
  · have status := congrArg (fun storage => (storage.pos 7).status) storage
    exact absurd status (by decide +kernel)

end PizzaChain.Api
