import PizzaChain.Api.Ordering
import Mathlib.Data.List.Forall2

/-! # Listing what was ordered

After any sequence of successful `POST /purchase-order` requests, the three
listings of `controller.js` return one entry for each item that was ordered.
-/

namespace PizzaChain.Api

open PizzaChain.Chain

/-! ## What was ordered -/

/-- An item with the ids under which its request was answered. -/
structure IssuedItem where
  transactionId : String
  poId : String
  item : PurchaseItem

section Items

variable {environment : Environment} {cell : Nat → Nat}

def issuedItems : Record (api environment cell) → List IssuedItem
  | ⟨.postPurchaseOrder items, .ok ⟨_, _, .purchaseOrders transactionId poIds, _⟩, _⟩ =>
      (items.zip poIds).map fun entry => ⟨transactionId, entry.2, entry.1⟩
  | _ => []

/-- The request was answered with an id for each of its items. -/
def AnsweredInFull (record : Record (api environment cell)) : Prop :=
  ∃ items transactionId poIds, record.request = .postPurchaseOrder items ∧
    record.outcome = .ok ⟨201, "PO Issued", .purchaseOrders transactionId poIds, none⟩ ∧
    poIds.length = items.length

/-- All items that the requests of a sequence have ordered. -/
def allItems (sequence : Sequence (api environment cell)) : List IssuedItem :=
  sequence.history.flatMap issuedItems

end Items

/-- The supplier is named, the item type is in the table and the quantity is a
safe integer. -/
def PurchaseItem.Ordinary (item : PurchaseItem) : Prop :=
  (∃ supplierId, item.supplierId = some supplierId ∧ supplierId ≠ "") ∧
    (∃ itemType number, item.itemType = some itemType ∧ itemTypes.lookup itemType = some number) ∧
    ∃ qty, item.qty = some qty ∧ qty < 2 ^ 53

/-- The entry shows the transaction and the order of the item, and nothing else. -/
def Lists (issued : IssuedItem) (details : TransactionDetails) : Prop :=
  details.transactionId = some issued.transactionId ∧ details.invoice = [] ∧
    details.tokenId = none ∧
    ∃ po, details.po = [⟨200, "PO Retrieved", some po, none⟩] ∧ po.poId = issued.poId ∧
      some po.supplierId = issued.item.supplierId ∧ po.itemType = issued.item.itemType ∧
      some po.qty = issued.item.qty ∧ some po.uom = issued.item.uom ∧
      po.status = PoStatus.issued.text

/-! ## The names of item types -/

theorem getKeyByValue_of_lookup {itemType : String} {number : Nat}
    (found : itemTypes.lookup itemType = some number) :
    getKeyByValue itemTypes (roundToDouble number) = some itemType ∧ number < 2 ^ 53 := by
  have member : (itemType, number) ∈ itemTypes := by
    rcases List.lookup_eq_some_iff.mp found with ⟨front, back, table, _⟩
    rw [table]
    simp
  simp only [itemTypes, List.mem_cons, Prod.mk.injEq, List.not_mem_nil, or_false] at member
  rcases member with ⟨rfl, rfl⟩ | ⟨rfl, rfl⟩ | ⟨rfl, rfl⟩ | ⟨rfl, rfl⟩ <;> decide

/-! ## The sequence of requests -/

section Sequences

variable {environment : Environment} {number : Nat → Nat} {cell : Nat → Nat}

/-- A purchase order request for ordinary items that succeeds. -/
def IssuesOrders (sequence : Sequence (api environment cell)) (request : Request) : Prop :=
  ∃ items, request = .postPurchaseOrder items ∧ (∀ item ∈ items, item.Ordinary) ∧
    ∃ response, (sequence.ended request).1 = .ok response

/-- The order that was placed for an item. -/
def PlacedFor (environment : Environment) (issued : IssuedItem) (order : PlacedOrder) : Prop :=
  issued.item.Ordinary ∧ issued.item.terms = some order.terms ∧
    issued.poId = environment.uniqueId order.drawn ∧
    issued.transactionId = order.transactionId ∧ order.transactionId ≠ ""

/-- The world is the deployed one with an order placed for each item. -/
def Ordered (number : Nat → Nat) (sequence : Sequence (api environment cell)) : Prop :=
  ∃ orders : List PlacedOrder,
    sequence.world = (World.deployed environment).placeAll environment number orders ∧
    (orders.map fun order => number order.drawn).Nodup ∧
    (∀ order ∈ orders, order.drawn < sequence.globals.ids) ∧
    List.Forall₂ (PlacedFor environment) (allItems sequence) orders

theorem Ordered.next (fresh : FreshIds environment number)
    {sequence : Sequence (api environment cell)} (ordered : Ordered number sequence)
    {request : Request} (issues : IssuesOrders sequence request) :
    Ordered number (sequence.next request) := by
  rcases issues with ⟨items, rfl, ordinary, response, succeeds⟩
  rcases ordered with ⟨orders, world, distinct, drawn, items_orders⟩
  rcases next_of_ordered fresh.encoded succeeds with ⟨all, rfl, placedWorld, ids⟩
  let transactionId := environment.uniqueId sequence.globals.ids
  let terms := accepted environment number items sequence.world.procurement
    (sequence.globals.ids + 1)
  refine ⟨orders ++ placed transactionId terms (sequence.globals.ids + 1), ?_, ?_, ?_, ?_⟩
  · rw [placedWorld, placeAll_append, ← world]
  · rw [List.map_append, List.nodup_append]
    refine ⟨distinct, nodup_placed fresh.injective _ _ _, ?_⟩
    intro earlier earlierMember later laterMember
    rcases List.mem_map.mp earlierMember with ⟨order, member, rfl⟩
    rcases List.mem_map.mp laterMember with ⟨other, otherMember, rfl⟩
    intro same
    have before := drawn order member
    have after := (mem_placed otherMember).2.1
    have equal := fresh.injective same
    omega
  · intro order member
    rw [ids]
    rcases List.mem_append.mp member with old | new
    · have before := drawn order old
      omega
    · have bounds := (mem_placed new).2.2
      rw [length_accepted all] at bounds
      exact bounds
  · have answered : allItems (sequence.next (.postPurchaseOrder items)) = allItems sequence ++
        (items.zip (drawnIds environment (sequence.globals.ids + 1) items.length)).map fun entry =>
          ⟨transactionId, entry.2, entry.1⟩ := by
      simp only [allItems, Sequence.next, succeeds, List.flatMap_append, List.flatMap_singleton]
      rfl
    rw [answered]
    refine List.rel_append items_orders (List.forall₂_map_left_iff.mpr ?_)
    have pairs := forall₂_placed environment transactionId all
    rw [List.forall₂_iff_zip] at pairs ⊢
    refine ⟨pairs.1, fun {entry order} member => ?_⟩
    have placedMember := (List.of_mem_zip member).2
    have entryMember := (List.of_mem_zip member).1
    have same := (mem_placed placedMember).1
    refine ⟨ordinary _ (List.of_mem_zip entryMember).1, (pairs.2 member).1, (pairs.2 member).2,
      same.symm, ?_⟩
    rw [same]
    exact fresh.nonempty _

theorem ordered_of_run (fresh : FreshIds environment number) {globals : Globals}
    {requests : List Request} {final : Sequence (api environment cell)}
    (run : Transitions (Sequence.Step IssuesOrders)
      (.initial (World.deployed environment) globals) requests final) : Ordered number final := by
  apply run.invariant (Ordered number) _ ⟨[], rfl, List.nodup_nil, by simp, .nil⟩
  intro sequence request next ordered step
  rw [step.1]
  exact ordered.next fresh step.2

theorem answeredInFull_of_run (numeric : NumericIds environment number) {globals : Globals}
    {requests : List Request} {final : Sequence (api environment cell)}
    (run : Transitions (Sequence.Step IssuesOrders)
      (.initial (World.deployed environment) globals) requests final) :
    ∀ record ∈ final.history, AnsweredInFull record := by
  apply run.invariant (fun sequence => ∀ record ∈ sequence.history, AnsweredInFull record)
  · intro sequence request next answered step
    rcases step with ⟨rfl, items, rfl, _, response, succeeds⟩
    intro record member
    rcases List.mem_append.mp member with old | new
    · exact answered record old
    · rcases next_of_ordered numeric succeeds with ⟨_, rfl, _, _⟩
      rw [List.mem_singleton.mp new]
      exact ⟨items, _, _, rfl, succeeds, length_drawnIds _ _ _⟩
  · simp [Sequence.initial]

end Sequences

/-! ## The listings -/

/-- The entry of an order. -/
def PlacedOrder.details (environment : Environment) (order : PlacedOrder) : TransactionDetails where
  transactionId := some order.transactionId
  po := [⟨200, "PO Retrieved", some (Controller.mapPOData (environment.uniqueId order.drawn)
    (order.terms.supplierId, order.terms.itemType, order.terms.qty, order.terms.uom,
      PoStatus.issued.text)), none⟩]
  invoice := []
  tokenId := none

section Listings

variable {environment : Environment} {number : Nat → Nat} {cell : Nat → Nat}

theorem truthy_of_ne {text : String} (nonempty : text ≠ "") :
    Controller.truthy (some text) = some text := by
  simp [Controller.truthy, nonempty]

/-- The rows of orders are listed one by one. -/
theorem ensures_getTransactionDetails (fresh : FreshIds environment number) {filter : String}
    (shows : filter ≠ "INVOICE") {orders : List PlacedOrder}
    {continuation : List TransactionDetails → Handler β} {view : View (api environment cell)}
    {post : Except Failure β → View (api environment cell) → Prop}
    (stored : ∀ order ∈ orders, view.world.procurement.pos (number order.drawn) = order.po ∧
      order.terms.supplierId ≠ "" ∧ order.transactionId ≠ "")
    (continues : ∀ trace, (continuation (orders.map (PlacedOrder.details environment))).Ensures
      (⟨view.world, view.globals, trace⟩ : View (api environment cell)) post) :
    (Controller.getTransactionDetails environment filter
      (orders.map (PlacedOrder.row environment)) >>= continuation).Ensures view post := by
  induction orders generalizing view continuation with
  | nil => exact continues view.trace
  | cons order orders induction =>
      rcases stored order List.mem_cons_self with ⟨po, supplied, transaction⟩
      have served : serve environment (.getPOById (some (number order.drawn))) view.world =
          (.ok (order.terms.supplierId, order.terms.itemType, order.terms.qty, order.terms.uom,
            PoStatus.issued.text), view.world) := by
        simp [serve, World.ask, Procurement.getPOById, po, PlacedOrder.po]
      simp only [List.map_cons, Controller.getTransactionDetails, Controller.rowPO,
        Controller.rowInvoice, PlacedOrder.row, truthy_of_ne (fresh.nonempty _),
        truthy_of_ne transaction, if_neg shows, Controller.getPOById,
        ProcurementClient.getPOById, Program.bind_assoc]
      rw [fresh.encoded]
      apply Program.ensures_ok served
      rw [if_neg supplied]
      simp only [Controller.truthy, Option.filter_none, Program.pure_eq_done, Program.done_bind,
        if_true, List.isEmpty_cons, Bool.false_and, Option.isNone_some, Bool.or_self,
        Bool.false_eq_true, if_false]
      apply induction
      · exact fun later member => stored later (List.mem_cons_of_mem _ member)
      · exact fun trace => continues trace

theorem rowPO_invoice (row : Row) : Controller.rowPO environment row "INVOICE" = .done [] := by
  rw [Controller.rowPO]
  split <;> rfl

/-- No row of an order is listed among the invoices. -/
theorem ensures_getTransactionDetails_invoice {orders : List PlacedOrder}
    {continuation : List TransactionDetails → Handler β} {view : View (api environment cell)}
    {post : Except Failure β → View (api environment cell) → Prop}
    (continues : (continuation []).Ensures view post) :
    (Controller.getTransactionDetails environment "INVOICE"
      (orders.map (PlacedOrder.row environment)) >>= continuation).Ensures view post := by
  induction orders generalizing continuation with
  | nil => exact continues
  | cons order orders induction =>
      simp only [List.map_cons, Controller.getTransactionDetails, rowPO_invoice,
        Program.bind_assoc, Program.done_bind]
      exact induction continues

theorem PlacedFor.lists {issued : IssuedItem} {order : PlacedOrder}
    (placedFor : PlacedFor environment issued order) :
    Lists issued (order.details environment) := by
  rcases placedFor with ⟨⟨_, ⟨itemType, code, typed, found⟩, qty, counted, small⟩, accepts, poId,
    transaction, _⟩
  rcases PurchaseItem.terms_eq_some_iff.mp accepts with ⟨supplied, coded, quantity, measured⟩
  rw [typed, Option.bind_some, found] at coded
  rw [counted] at quantity
  have code_eq := Option.some.inj coded
  have qty_eq := Option.some.inj quantity
  refine ⟨congrArg some transaction.symm, rfl, rfl, _, rfl, poId.symm, supplied.symm, ?_, ?_,
    measured.symm, rfl⟩
  · rw [typed, Controller.mapPOData, ← code_eq]
    exact (getKeyByValue_of_lookup found).1
  · rw [counted, Controller.mapPOData, ← qty_eq]
    exact congrArg some (roundToDouble_of_lt small)

/-- What a function of the controller returns after a sequence of requests. -/
def returned (sequence : Sequence (api environment cell)) (function : Handler α) :
    Except Failure α :=
  (@Program.alone (api environment cell) _ function sequence.view).1

/-- A listing of the rows that match a query, which the three listings are. -/
def listing (environment : Environment) (query : Query) (message filter : String) :
    Handler (Response (List TransactionDetails)) := do
  let rows ← wait .database (.findRows query)
  let details ← Controller.getTransactionDetails environment filter rows
  return ⟨200, message, details, none⟩

theorem Ordered.rows {sequence : Sequence (api environment cell)} {orders : List PlacedOrder}
    (world : sequence.world = (World.deployed environment).placeAll environment number orders)
    (query : Query) :
    sequence.world.rows.filter query.matches =
      (orders.filter fun order => query.matches (order.row environment)).map
        (PlacedOrder.row environment) := by
  rw [world, rows_placeAll]
  exact List.filter_map

/-- A listing has an entry for each item that its query selects. -/
theorem Ordered.lists (fresh : FreshIds environment number)
    {sequence : Sequence (api environment cell)} (ordered : Ordered number sequence)
    {query : Query} {selects : IssuedItem → Bool}
    (agrees : ∀ issued order, PlacedFor environment issued order →
      selects issued = query.matches (order.row environment))
    (message : String) {filter : String} (shows : filter ≠ "INVOICE") :
    ∃ details, returned sequence (listing environment query message filter) =
        .ok ⟨200, message, details, none⟩ ∧
      List.Forall₂ Lists ((allItems sequence).filter selects) details := by
  rcases ordered with ⟨orders, world, distinct, _, items⟩
  refine ⟨(orders.filter fun order => query.matches (order.row environment)).map
    (PlacedOrder.details environment), ?_, ?_⟩
  · have stored : ∀ order ∈ orders,
        sequence.world.procurement.pos (number order.drawn) = order.po ∧
          order.terms.supplierId ≠ "" ∧ order.transactionId ≠ "" := by
      intro order member
      rcases exists_related items.flip member with ⟨issued, _, ordinary, accepts, _, _, transaction⟩
      rcases ordinary.1 with ⟨supplierId, named, nonempty⟩
      have supplied := (PurchaseItem.terms_eq_some_iff.mp accepts).1
      rw [named] at supplied
      refine ⟨?_, Option.some.inj supplied ▸ nonempty, transaction⟩
      rw [world]
      exact pos_placeAll _ (toldApart_of_nodup distinct) member
    show (listing environment query message filter).Ensures sequence.view fun outcome _ =>
      outcome = _
    refine Program.ensures_ok rfl ?_
    rw [show sequence.view.world.rows.filter query.matches = _ from Ordered.rows world query]
    apply ensures_getTransactionDetails fresh shows
    · intro order member
      exact stored order (List.mem_filter.mp member).1
    · exact fun trace => rfl
  · rw [List.forall₂_map_right_iff]
    have filtered : List.Forall₂ (PlacedFor environment) ((allItems sequence).filter selects)
        (orders.filter fun order => query.matches (order.row environment)) := by
      apply List.rel_filter _ items
      intro issued order placedFor
      exact iff_of_eq (congrArg (· = true) (agrees issued order placedFor))
    exact filtered.imp fun issued order placedFor => placedFor.lists

theorem Ordered.lists_invoice {sequence : Sequence (api environment cell)}
    (ordered : Ordered number sequence) (query : Query) (message : String) :
    returned sequence (listing environment query message "INVOICE") =
      .ok ⟨200, message, [], none⟩ := by
  rcases ordered with ⟨orders, world, _⟩
  show (listing environment query message "INVOICE").Ensures sequence.view fun outcome _ =>
    outcome = _
  refine Program.ensures_ok rfl ?_
  rw [show sequence.view.world.rows.filter query.matches = _ from Ordered.rows world query]
  exact ensures_getTransactionDetails_invoice rfl

end Listings

/-- After any sequence of successful requests for ordinary items, each answered with an id
for each of its items, the listings have exactly one entry for each item, for each item of a
transaction, and for each item of a supplier, and none when they are asked for invoices. -/
theorem listings_show_orders (environment : Environment) (number : Nat → Nat)
    (fresh : FreshIds environment number) (cell : Nat → Nat) (globals : Globals)
    (requests : List Request) (final : Sequence (api environment cell))
    (run : Transitions (Sequence.Step IssuesOrders)
      (.initial (World.deployed environment) globals) requests final) (filter : String) :
    (∀ record ∈ final.history, AnsweredInFull record) ∧
    (environment.toUpperCase filter ≠ "INVOICE" →
      (∃ details, returned final (Controller.getTransactions environment filter) =
          .ok ⟨200, "Transactions", details, none⟩ ∧
        List.Forall₂ Lists (allItems final) details) ∧
      (∀ transactionId, ∃ details,
        returned final (Controller.getTransactionById environment transactionId filter) =
          .ok ⟨200, "Procurement Transaction Retrieved", details, none⟩ ∧
        List.Forall₂ Lists
          ((allItems final).filter fun issued => issued.transactionId == transactionId) details) ∧
      ∀ supplierId, ∃ details,
        returned final (Controller.getTransactionBySupplierId environment supplierId filter) =
          .ok ⟨200, "Procurement Transactions By Supplier Retrieved", details, none⟩ ∧
        List.Forall₂ Lists
          ((allItems final).filter fun issued => issued.item.supplierId == some supplierId)
          details) ∧
    (environment.toUpperCase filter = "INVOICE" →
      returned final (Controller.getTransactions environment filter) =
        .ok ⟨200, "Transactions", [], none⟩ ∧
      (∀ transactionId,
        returned final (Controller.getTransactionById environment transactionId filter) =
          .ok ⟨200, "Procurement Transaction Retrieved", [], none⟩) ∧
      ∀ supplierId,
        returned final (Controller.getTransactionBySupplierId environment supplierId filter) =
          .ok ⟨200, "Procurement Transactions By Supplier Retrieved", [], none⟩) := by
  have ordered := ordered_of_run fresh run
  refine ⟨answeredInFull_of_run fresh.encoded run, ?_, ?_⟩
  · intro shows
    refine ⟨?_, fun transactionId => ?_, fun supplierId => ?_⟩
    · have listed := @Ordered.lists _ _ _ fresh _ ordered .all (fun _ => true)
        (fun _ _ _ => rfl) "Transactions" _ shows
      rw [List.filter_true] at listed
      exact listed
    · apply ordered.lists fresh _ _ shows
      rintro issued order ⟨_, _, _, same, _⟩
      simp [Query.matches, PlacedOrder.row, same]
    · apply ordered.lists fresh _ _ shows
      rintro issued order ⟨_, accepts, _⟩
      rw [(PurchaseItem.terms_eq_some_iff.mp accepts).1]
      rfl
  · intro invoices
    simp only [Controller.getTransactions, Controller.getTransactionById,
      Controller.getTransactionBySupplierId, invoices]
    exact ⟨ordered.lists_invoice _ _, fun _ => ordered.lists_invoice _ _,
      fun _ => ordered.lists_invoice _ _⟩

theorem dough_ordinary : dough.Ordinary :=
  ⟨⟨"DOUGHCO", rfl, by decide⟩, ⟨"DOUGH", 2, rfl, by decide⟩, 50, rfl, by decide⟩

/-- Two items of dough are ordered and listed. -/
theorem doughTwice_listed :
    ∃ final : Sequence (api testNetwork fun _ => 0),
      Transitions (Sequence.Step IssuesOrders) newNetwork [.postPurchaseOrder [dough, dough]]
        final ∧
      (allItems final).length = 2 ∧
      (∀ record ∈ final.history, AnsweredInFull record) ∧
      ∃ details, returned final (Controller.getTransactions testNetwork "po") =
          .ok ⟨200, "Transactions", details, none⟩ ∧
        List.Forall₂ Lists (allItems final) details := by
  have run : Transitions (Sequence.Step IssuesOrders) newNetwork
      [.postPurchaseOrder [dough, dough]]
      (newNetwork.next (.postPurchaseOrder [dough, dough])) := by
    refine .cons ⟨rfl, _, rfl, ?_, _, rfl⟩ (.nil _)
    intro item member
    simp only [List.mem_cons, List.not_mem_nil, or_false, or_self] at member
    rw [member]
    exact dough_ordinary
  have listed := listings_show_orders testNetwork _ testNetwork_fresh _ _ _ _ run "po"
  exact ⟨_, run, rfl, listed.1, (listed.2.1 (by decide +kernel)).1⟩

end PizzaChain.Api
