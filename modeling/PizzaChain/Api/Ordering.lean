import PizzaChain.Api.Controller
import PizzaChain.Chain.ProcurementCalls
import PizzaChain.Foundation.Lists
import PizzaChain.Semantics.Sequence

/-! # Issuing purchase orders

`issuePO` commits the items of a request one by one, each to the chain and to the
procurement table, up to the first that web3 refuses or that runs out of gas.
-/

namespace PizzaChain.Api

open PizzaChain.Chain

/-- What `fnGetUniqueID` returns is digits, which web3 reads as a number. -/
def NumericIds (environment : Environment) (number : Nat → Nat) : Prop :=
  ∀ drawn, environment.encodeUint (environment.uniqueId drawn) = some (number drawn)

/-- What is assumed of `fnGetUniqueID`: the ids are texts of numbers other than 0,
and no two draws give the same number. -/
structure FreshIds (environment : Environment) (number : Nat → Nat) : Prop where
  nonempty : ∀ drawn, environment.uniqueId drawn ≠ ""
  encoded : ∀ drawn, environment.encodeUint (environment.uniqueId drawn) = some (number drawn)
  nonzero : ∀ drawn, number drawn ≠ 0
  injective : Function.Injective number

theorem testNetwork_fresh : FreshIds testNetwork fun drawn => 1000 + drawn where
  nonempty := by
    intro drawn empty
    have read := readUint_toString (1000 + drawn)
    rw [show toString (1000 + drawn) = "" from empty] at read
    cases read
  encoded := fun drawn => readUint_toString (1000 + drawn)
  nonzero := fun drawn => by simp
  injective := fun first second same => Nat.add_left_cancel same

/-! ## Orders -/

/-- The arguments that web3 makes of an item, if it accepts all of them. -/
def PurchaseItem.terms (item : PurchaseItem) : Option OrderTerms := do
  let supplierId ← item.supplierId
  let itemType ← item.itemType.bind (itemTypes.lookup ·)
  let qty ← item.qty
  let uom ← item.uom
  return ⟨supplierId, itemType, qty, uom⟩

theorem PurchaseItem.terms_eq_some_iff {item : PurchaseItem} {terms : OrderTerms} :
    item.terms = some terms ↔ item.supplierId = some terms.supplierId ∧
      item.itemType.bind (itemTypes.lookup ·) = some terms.itemType ∧
      item.qty = some terms.qty ∧ item.uom = some terms.uom := by
  rcases terms with ⟨supplierId, itemType, qty, uom⟩
  rw [PurchaseItem.terms]
  generalize item.itemType.bind (itemTypes.lookup ·) = number
  cases item.supplierId <;> cases number <;> cases item.qty <;> cases item.uom <;> simp

/-- The transaction that issues an order. -/
def orderCall (poId : Nat) (terms : OrderTerms) : ProcurementCall :=
  .issuePO poId terms.supplierId terms.itemType terms.qty terms.uom PoStatus.issued.text

/-- The order that the contract issues for an item, if web3 accepts the arguments and the gas
is enough. -/
def PurchaseItem.order (environment : Environment) (state : Procurement) (poId : Nat)
    (item : PurchaseItem) : Option OrderTerms :=
  item.terms.filter fun terms => environment.affords state (orderCall poId terms)

theorem PurchaseItem.order_eq_some_iff {environment : Environment} {state : Procurement}
    {poId : Nat} {item : PurchaseItem} {terms : OrderTerms} :
    item.order environment state poId = some terms ↔
      item.terms = some terms ∧ environment.affords state (orderCall poId terms) = true :=
  Option.filter_eq_some_iff

/-- An item that was committed: its transaction, the draw of its id, its terms. -/
structure PlacedOrder where
  transactionId : String
  drawn : Nat
  terms : OrderTerms

namespace PlacedOrder

variable (environment : Environment) (order : PlacedOrder)

def row : Row :=
  ⟨some order.transactionId, some order.terms.supplierId, some (environment.uniqueId order.drawn),
    none, none⟩

def po : PO :=
  ⟨order.terms.supplierId, order.terms.itemType, order.terms.qty, order.terms.uom,
    PoStatus.issued.text⟩

end PlacedOrder

section Accepted

variable (environment : Environment) (number : Nat → Nat)

/-- The items that are committed, up to the first that is refused, in a state of the contract
and with ids from a draw on. -/
def accepted : List PurchaseItem → Procurement → Nat → List OrderTerms
  | [], _, _ => []
  | item :: items, state, drawn =>
      match item.order environment state (number drawn) with
      | none => []
      | some terms =>
          terms :: accepted items (state.apply (orderCall (number drawn) terms)) (drawn + 1)

/-- No item is refused in the state that the earlier ones leave. -/
def AllAccepted : List PurchaseItem → Procurement → Nat → Prop
  | [], _, _ => True
  | item :: items, state, drawn =>
      ∃ terms, item.order environment state (number drawn) = some terms ∧
        AllAccepted items (state.apply (orderCall (number drawn) terms)) (drawn + 1)

variable {environment number}

theorem length_accepted {items : List PurchaseItem} {state : Procurement} {drawn : Nat}
    (all : AllAccepted environment number items state drawn) :
    (accepted environment number items state drawn).length = items.length := by
  induction items generalizing state drawn with
  | nil => rfl
  | cons item items induction =>
      rcases all with ⟨terms, accepts, rest⟩
      simp only [accepted, accepts, List.length_cons, induction rest]

theorem accepted_eq_nil_iff {items : List PurchaseItem} {state : Procurement} {drawn : Nat} :
    accepted environment number items state drawn = [] ↔
      ∀ item, items.head? = some item → item.order environment state (number drawn) = none := by
  cases items with
  | nil => simp [accepted]
  | cons item items =>
      cases accepts : item.order environment state (number drawn) with
      | none => simp [accepted, accepts]
      | some terms => simp [accepted, accepts]

end Accepted

/-- The orders of a transaction, with ids from a draw on. -/
def placed (transactionId : String) : List OrderTerms → Nat → List PlacedOrder
  | [], _ => []
  | terms :: rest, drawn => ⟨transactionId, drawn, terms⟩ :: placed transactionId rest (drawn + 1)

namespace World

variable (environment : Environment) (number : Nat → Nat)

def place (world : World) (order : PlacedOrder) : World := { world with
  procurement := world.procurement.apply (orderCall (number order.drawn) order.terms)
  rows := world.rows ++ [order.row environment]
  transactions := world.transactions ++ [environment.admin] }

def placeAll (world : World) (orders : List PlacedOrder) : World :=
  orders.foldl (place environment number) world

end World

section Place

variable {environment : Environment} {number : Nat → Nat}

theorem placeAll_append (world : World) (orders more : List PlacedOrder) :
    world.placeAll environment number (orders ++ more) =
      (world.placeAll environment number orders).placeAll environment number more :=
  List.foldl_append

theorem rows_placeAll (world : World) (orders : List PlacedOrder) :
    (world.placeAll environment number orders).rows =
      world.rows ++ orders.map (PlacedOrder.row environment) := by
  induction orders generalizing world with
  | nil => simp [World.placeAll]
  | cons order orders induction =>
      have rest := induction (world.place environment number order)
      simpa [World.placeAll, World.place] using rest

theorem poArray_placeAll (world : World) (orders : List PlacedOrder) :
    (world.placeAll environment number orders).procurement.poArray =
      world.procurement.poArray ++ orders.map fun order => number order.drawn := by
  induction orders generalizing world with
  | nil => simp [World.placeAll]
  | cons order orders induction =>
      have rest := induction (world.place environment number order)
      simpa [World.placeAll, World.place, orderCall, Procurement.apply, Procurement.issuePO]
        using rest

/-- No two orders with different terms are given one id. -/
def ToldApart (number : Nat → Nat) (orders : List PlacedOrder) : Prop :=
  ∀ first ∈ orders, ∀ second ∈ orders, number first.drawn = number second.drawn →
    first.terms = second.terms

theorem toldApart_of_nodup {orders : List PlacedOrder}
    (distinct : (orders.map fun order => number order.drawn).Nodup) : ToldApart number orders :=
  fun _ member _ otherMember same =>
    congrArg PlacedOrder.terms (List.inj_on_of_nodup_map distinct member otherMember same)

/-- An order is on the chain if the later ones do not hide it. -/
theorem pos_placeAll {order : PlacedOrder} (world : World) {orders : List PlacedOrder}
    (apart : ToldApart number orders) (member : order ∈ orders) :
    (world.placeAll environment number orders).procurement.pos (number order.drawn) =
      order.po := by
  induction orders using List.reverseRecOn with
  | nil => cases member
  | append_singleton earlier last induction =>
      have placedLast : ((world.placeAll environment number (earlier ++ [last])).procurement.pos
          (number order.drawn)) = Function.update
            (world.placeAll environment number earlier).procurement.pos (number last.drawn)
            last.po (number order.drawn) := by
        rw [placeAll_append]
        rfl
      rw [placedLast]
      by_cases same : number order.drawn = number last.drawn
      · rw [same, Function.update_self, PlacedOrder.po, PlacedOrder.po,
          apart order member last (by simp) same]
      · rw [Function.update_of_ne same]
        rcases List.mem_append.mp member with early | late
        · exact induction (fun first firstMember second secondMember =>
            apart first (List.mem_append_left _ firstMember) second
              (List.mem_append_left _ secondMember)) early
        · rw [List.mem_singleton.mp late] at same
          exact absurd rfl same

/-- All orders are on the chain exactly if their ids tell them apart. -/
theorem forall_pos_placeAll_iff (world : World) (orders : List PlacedOrder) :
    (∀ order ∈ orders, (world.placeAll environment number orders).procurement.pos
      (number order.drawn) = order.po) ↔ ToldApart number orders := by
  constructor
  · intro stored first firstMember second secondMember same
    have equal : first.po = second.po := by
      rw [← stored first firstMember, ← stored second secondMember, same]
    exact congrArg PO.terms equal
  · exact fun apart order member => pos_placeAll world apart member

/-- The draws of a transaction's orders are consecutive. -/
theorem mem_placed {transactionId : String} {terms : List OrderTerms} {drawn : Nat}
    {order : PlacedOrder} (member : order ∈ placed transactionId terms drawn) :
    order.transactionId = transactionId ∧ drawn ≤ order.drawn ∧
      order.drawn < drawn + terms.length := by
  induction terms generalizing drawn with
  | nil => cases member
  | cons first rest induction =>
      rw [List.length_cons]
      rcases List.mem_cons.mp member with rfl | later
      · exact ⟨rfl, Nat.le_refl _, by simp⟩
      · have bounds := induction later
        exact ⟨bounds.1, by omega, by omega⟩

theorem nodup_placed (injective : Function.Injective number) (transactionId : String)
    (terms : List OrderTerms) (drawn : Nat) :
    ((placed transactionId terms drawn).map fun order => number order.drawn).Nodup := by
  induction terms generalizing drawn with
  | nil => exact List.nodup_nil
  | cons first rest induction =>
      refine List.nodup_cons.mpr ⟨fun repeated => ?_, induction (drawn + 1)⟩
      rcases List.mem_map.mp repeated with ⟨order, member, same⟩
      have later := (mem_placed member).2.1
      have equal : order.drawn = drawn := injective same
      omega

end Place

/-! ## The loop -/

section Loop

variable {environment : Environment} {number : Nat → Nat} {cell : Nat → Nat}

theorem serve_issuePO_of_some (environment : Environment) {item : PurchaseItem}
    {terms : OrderTerms} {poId : Nat} {world : World}
    (accepts : item.order environment world.procurement poId = some terms) :
    serve environment (.issuePO (some poId) item.supplierId
        (item.itemType.bind (itemTypes.lookup ·)) item.qty item.uom PoStatus.issued.text) world =
      (.ok world.transactions.length, { world with
        procurement := world.procurement.apply (orderCall poId terms)
        transactions := world.transactions ++ [environment.admin] }) := by
  rcases PurchaseItem.order_eq_some_iff.mp accepts with ⟨given, affords⟩
  rcases PurchaseItem.terms_eq_some_iff.mp given with ⟨supplied, typed, counted, measured⟩
  rw [orderCall] at affords
  rw [supplied, typed, counted, measured]
  simp [serve, World.procure, World.send, World.mined, orderCall, affords]

/-- A refused item changes nothing but perhaps the count of the admin's transactions. -/
theorem serve_issuePO_of_none (environment : Environment) {item : PurchaseItem} {poId : Nat}
    {world : World} (refuses : item.order environment world.procurement poId = none) :
    ∃ failure transactions, serve environment (.issuePO (some poId) item.supplierId
        (item.itemType.bind (itemTypes.lookup ·)) item.qty item.uom PoStatus.issued.text) world =
      (.error failure, { world with transactions := transactions }) := by
  cases given : item.terms with
  | none =>
      refine ⟨.invalidArgument, world.transactions, ?_⟩
      rw [PurchaseItem.terms] at given
      revert given
      generalize item.itemType.bind (itemTypes.lookup ·) = itemType
      generalize item.supplierId = supplierId
      generalize item.qty = qty
      generalize item.uom = uom
      intro given
      cases supplierId <;> cases itemType <;> cases qty <;> cases uom <;> first
        | rfl
        | cases given
  | some terms =>
      rcases PurchaseItem.terms_eq_some_iff.mp given with ⟨supplied, typed, counted, measured⟩
      have short : ¬environment.affords world.procurement (orderCall poId terms) = true := by
        intro affords
        rw [PurchaseItem.order_eq_some_iff.mpr ⟨given, affords⟩] at refuses
        cases refuses
      rw [orderCall] at short
      refine ⟨.reverted, world.transactions ++ [environment.admin], ?_⟩
      rw [supplied, typed, counted, measured]
      simp [serve, World.procure, World.send, World.mined, short]

/-- What the contract has done when the order of an item gets a receipt. -/
theorem order_of_served {environment : Environment} {item : PurchaseItem} {poId : Nat}
    {world next : World} {receipt : Receipt}
    (served : serve environment (.issuePO (some poId) item.supplierId
      (item.itemType.bind (itemTypes.lookup ·)) item.qty item.uom PoStatus.issued.text) world =
        (.ok receipt, next)) :
    ∃ terms, item.terms = some terms ∧ next.rows = world.rows ∧
      next.procurement = world.procurement.apply (orderCall poId terms) := by
  cases accepts : item.order environment world.procurement poId with
  | none =>
      rcases serve_issuePO_of_none environment accepts with ⟨_, _, refused⟩
      cases refused.symm.trans served
  | some terms =>
      cases (serve_issuePO_of_some environment accepts).symm.trans served
      exact ⟨terms, (PurchaseItem.order_eq_some_iff.mp accepts).1, rfl, rfl⟩

/-- The ids of so many draws. -/
def drawnIds (environment : Environment) : Nat → Nat → List String
  | _, 0 => []
  | drawn, count + 1 => environment.uniqueId drawn :: drawnIds environment (drawn + 1) count

/-- The loop commits what it accepts. It ends with the ids of the items if all of
them are accepted, and is rejected otherwise. -/
theorem ensures_issueItems (numeric : NumericIds environment number) (transactionId : String)
    {items : List PurchaseItem} {continuation : List String → Handler β}
    {view : View (api environment cell)}
    {post : Except Failure β → View (api environment cell) → Prop}
    (succeeds : AllAccepted environment number items view.world.procurement view.globals.ids →
      ∀ trace, (continuation (drawnIds environment view.globals.ids items.length)).Ensures
        (⟨view.world.placeAll environment number (placed transactionId
            (accepted environment number items view.world.procurement view.globals.ids)
            view.globals.ids),
          { view.globals with ids := view.globals.ids + items.length }, trace⟩ :
            View (api environment cell)) post)
    (fails : ¬AllAccepted environment number items view.world.procurement view.globals.ids →
      ∀ error transactions globals trace, post (.error error)
        ⟨{ view.world.placeAll environment number (placed transactionId
            (accepted environment number items view.world.procurement view.globals.ids)
            view.globals.ids) with transactions := transactions }, globals, trace⟩) :
    (Controller.issueItems environment transactionId items >>= continuation).Ensures view post := by
  induction items generalizing view continuation with
  | nil => exact succeeds trivial view.trace
  | cons item items induction =>
      simp only [Controller.issueItems, Controller.uniqueId, Program.bind_assoc,
        ProcurementClient.createPO, ProcurementService.createProcurement, Program.pure_eq_done,
        Program.done_bind]
      apply Program.ensures_get
      apply Program.ensures_modify
      rw [numeric]
      cases accepts : item.order environment view.world.procurement
          (number view.globals.ids) with
      | none =>
          rcases serve_issuePO_of_none environment accepts with ⟨failure, transactions, served⟩
          refine Program.ensures_error served ?_
          have result := fails (by simp [AllAccepted, accepts]) failure transactions
          simp only [accepted, accepts] at result
          exact result _ _
      | some terms =>
          have given := (PurchaseItem.order_eq_some_iff.mp accepts).1
          have supplied := (PurchaseItem.terms_eq_some_iff.mp given).1
          refine Program.ensures_ok (serve_issuePO_of_some environment accepts) ?_
          refine Program.ensures_ok rfl ?_
          rw [supplied]
          apply induction
          · intro all trace
            have result := succeeds ⟨terms, accepts, all⟩ trace
            simp only [accepted, accepts, List.length_cons] at result
            rw [← Nat.add_assoc, Nat.add_right_comm] at result
            exact result
          · intro refused error transactions globals trace
            have result := fails (by simpa [AllAccepted, accepts] using refused) error
              transactions globals trace
            simp only [accepted, accepts] at result
            exact result

/-- What `POST /purchase-order` answers and leaves. -/
theorem issuePO_alone (numeric : NumericIds environment number) (items : List PurchaseItem)
    (view : View (api environment cell)) :
    (handle environment (.postPurchaseOrder items)).Ensures view fun outcome after =>
      let orders := placed (environment.uniqueId view.globals.ids)
        (accepted environment number items view.world.procurement (view.globals.ids + 1))
        (view.globals.ids + 1)
      (AllAccepted environment number items view.world.procurement (view.globals.ids + 1) →
        outcome = .ok ⟨201, "PO Issued", .purchaseOrders (environment.uniqueId view.globals.ids)
          (drawnIds environment (view.globals.ids + 1) items.length), none⟩ ∧
        after.world = view.world.placeAll environment number orders ∧
        after.globals = { view.globals with ids := view.globals.ids + 1 + items.length }) ∧
      (¬AllAccepted environment number items view.world.procurement (view.globals.ids + 1) →
        ∃ error transactions, outcome = .error error ∧
          after.world = { view.world.placeAll environment number orders with
            transactions := transactions }) := by
  simp only [handle, Controller.issuePO, Controller.uniqueId, Program.bind_assoc,
    Program.pure_eq_done, Program.done_bind]
  apply Program.ensures_get
  apply Program.ensures_modify
  apply ensures_issueItems numeric
  · intro all trace
    exact ⟨fun _ => ⟨rfl, rfl, rfl⟩, fun refused => absurd all refused⟩
  · intro refused error transactions globals trace
    exact ⟨fun all => absurd all refused, fun _ => ⟨error, transactions, rfl, rfl⟩⟩

/-- A request of a sequence that succeeds has placed an order for each item. -/
theorem next_of_ordered (numeric : NumericIds environment number)
    {sequence : Sequence (api environment cell)} {items : List PurchaseItem}
    {response : Response Data}
    (succeeds : (sequence.ended (.postPurchaseOrder items)).1 = .ok response) :
    AllAccepted environment number items sequence.world.procurement (sequence.globals.ids + 1) ∧
      response = ⟨201, "PO Issued", .purchaseOrders (environment.uniqueId sequence.globals.ids)
        (drawnIds environment (sequence.globals.ids + 1) items.length), none⟩ ∧
      (sequence.next (.postPurchaseOrder items)).world =
        sequence.world.placeAll environment number
          (placed (environment.uniqueId sequence.globals.ids)
            (accepted environment number items sequence.world.procurement
              (sequence.globals.ids + 1))
            (sequence.globals.ids + 1)) ∧
      (sequence.next (.postPurchaseOrder items)).globals.ids =
        sequence.globals.ids + 1 + items.length := by
  rcases issuePO_alone numeric items sequence.view with ⟨succeeded, fails⟩
  have all : AllAccepted environment number items sequence.world.procurement
      (sequence.globals.ids + 1) := by
    by_contra refused
    rcases fails refused with ⟨error, _, failed, _⟩
    cases succeeds.symm.trans failed
  rcases succeeded all with ⟨outcome, world, globals⟩
  exact ⟨all, Except.ok.inj (succeeds.symm.trans outcome), world, congrArg Globals.ids globals⟩

end Loop

/-! ## Batches -/

/-- The order of an item is on the chain and in the procurement table. -/
def Stored (environment : Environment) (transactionId : String) (world : World)
    (item : PurchaseItem) (poId : String) : Prop :=
  ∃ poNumber terms, environment.encodeUint poId = some poNumber ∧ item.terms = some terms ∧
    poNumber ∈ world.procurement.poArray ∧
    world.procurement.pos poNumber =
      ⟨terms.supplierId, terms.itemType, terms.qty, terms.uom, PoStatus.issued.text⟩ ∧
    ⟨some transactionId, item.supplierId, some poId, none, none⟩ ∈ world.rows

/-- The request answers 201 with an id for each item, whose order is stored, or
fails and changes nothing. -/
def BatchAllOrNothing (environment : Environment) (items : List PurchaseItem)
    (before after : World) : Except Failure (Response Data) → Prop
  | .ok response => response.code = 201 ∧
      ∃ transactionId poIds, response.data = .purchaseOrders transactionId poIds ∧
        List.Forall₂ (Stored environment transactionId after) items poIds
  | .error _ =>
      after.procurement.storage = before.procurement.storage ∧ after.rows = before.rows

section Batch

variable {environment : Environment} {number : Nat → Nat}

theorem length_drawnIds (environment : Environment) (drawn count : Nat) :
    (drawnIds environment drawn count).length = count := by
  induction count generalizing drawn with
  | zero => rfl
  | succ count induction => exact congrArg Nat.succ (induction (drawn + 1))

/-- If all items are accepted, they are placed under the ids that are answered. -/
theorem forall₂_placed (environment : Environment) (transactionId : String)
    {items : List PurchaseItem} {state : Procurement} {drawn : Nat}
    (all : AllAccepted environment number items state drawn) :
    List.Forall₂ (fun entry order => entry.1.terms = some order.terms ∧
        entry.2 = environment.uniqueId order.drawn)
      (items.zip (drawnIds environment drawn items.length))
      (placed transactionId (accepted environment number items state drawn) drawn) := by
  induction items generalizing state drawn with
  | nil => exact .nil
  | cons item items induction =>
      rcases all with ⟨terms, accepts, rest⟩
      simp only [accepted, accepts, placed, drawnIds, List.length_cons, List.zip_cons_cons]
      exact .cons ⟨(PurchaseItem.order_eq_some_iff.mp accepts).1, rfl⟩ (induction rest)

/-- An order that was placed is stored if it is on the chain. -/
theorem stored_iff (numeric : NumericIds environment number) (world : World)
    {orders : List PlacedOrder} {order : PlacedOrder} (member : order ∈ orders)
    {transactionId : String} (transaction : order.transactionId = transactionId)
    {item : PurchaseItem} (accepts : item.terms = some order.terms) :
    Stored environment transactionId (world.placeAll environment number orders) item
        (environment.uniqueId order.drawn) ↔
      (world.placeAll environment number orders).procurement.pos (number order.drawn) =
        order.po := by
  constructor
  · rintro ⟨poNumber, terms, encoded, accepted, _, onChain, _⟩
    cases (numeric order.drawn).symm.trans encoded
    cases accepts.symm.trans accepted
    exact onChain
  · intro onChain
    refine ⟨number order.drawn, order.terms, numeric _, accepts, ?_, onChain, ?_⟩
    · rw [poArray_placeAll]
      exact List.mem_append_right _ (List.mem_map.mpr ⟨order, member, rfl⟩)
    · rw [rows_placeAll, (PurchaseItem.terms_eq_some_iff.mp accepts).1, ← transaction]
      exact List.mem_append_right _ (List.mem_map.mpr ⟨order, member, rfl⟩)

/-- If all items are accepted, all are stored exactly if their ids tell them apart. -/
theorem forall₂_stored_iff (numeric : NumericIds environment number) (world : World)
    (transactionId : String) {items : List PurchaseItem} {state : Procurement} {drawn : Nat}
    (all : AllAccepted environment number items state drawn) :
    List.Forall₂ (Stored environment transactionId (world.placeAll environment number
        (placed transactionId (accepted environment number items state drawn) drawn)))
        items (drawnIds environment drawn items.length) ↔
      ToldApart number
        (placed transactionId (accepted environment number items state drawn) drawn) := by
  have pairs := forall₂_placed environment transactionId all
  rw [← forall_pos_placeAll_iff world, List.forall₂_iff_zip]
  constructor
  · rintro ⟨_, stored⟩ order member
    rcases exists_related pairs.flip member with ⟨⟨item, poId⟩, entry, accepts, rfl⟩
    exact (stored_iff numeric world member (mem_placed member).1 accepts).mp (stored entry)
  · intro onChain
    refine ⟨(length_drawnIds _ _ _).symm, fun {item poId} entry => ?_⟩
    rcases exists_related pairs entry with ⟨order, member, accepts, rfl⟩
    exact (stored_iff numeric world member (mem_placed member).1 accepts).mpr
      (onChain order member)

/-- A batch that runs alone is all or nothing exactly if all its items are accepted
and told apart by their ids, or the first is not accepted. -/
theorem issuePO_allOrNothing_iff (environment : Environment) (cell : Nat → Nat)
    (number : Nat → Nat) (numeric : NumericIds environment number)
    (view : View (api environment cell)) (items : List PurchaseItem) :
    BatchAllOrNothing environment items view.world
        ((handle environment (.postPurchaseOrder items)).alone view).2.world
        ((handle environment (.postPurchaseOrder items)).alone view).1 ↔
      (AllAccepted environment number items view.world.procurement (view.globals.ids + 1) ∧
        ToldApart number (placed (environment.uniqueId view.globals.ids)
          (accepted environment number items view.world.procurement (view.globals.ids + 1))
          (view.globals.ids + 1))) ∨
        ∀ item, items.head? = some item →
          item.order environment view.world.procurement (number (view.globals.ids + 1)) =
            none := by
  rcases issuePO_alone numeric items view with ⟨succeeds, fails⟩
  rw [← accepted_eq_nil_iff]
  by_cases all : AllAccepted environment number items view.world.procurement
      (view.globals.ids + 1)
  · rcases succeeds all with ⟨answered, world, _⟩
    rw [answered, world]
    have stored := forall₂_stored_iff numeric view.world
      (environment.uniqueId view.globals.ids) all
    constructor
    · rintro ⟨_, transactionId, poIds, data, each⟩
      cases data
      exact .inl ⟨all, stored.mp each⟩
    · rintro (⟨_, apart⟩ | none)
      · exact ⟨rfl, _, _, rfl, stored.mpr apart⟩
      · refine ⟨rfl, _, _, rfl, stored.mpr ?_⟩
        rw [none]
        intro first member
        cases member
  · rcases fails all with ⟨error, transactions, failed, world⟩
    rw [failed, world]
    constructor
    · rintro ⟨_, rows⟩
      have rows : (view.world.placeAll environment number _).rows = view.world.rows := rows
      rw [rows_placeAll, List.append_right_eq_self, List.map_eq_nil_iff] at rows
      refine .inr ?_
      cases taken : accepted environment number items view.world.procurement
          (view.globals.ids + 1) with
      | nil => rfl
      | cons terms rest => simp [taken, placed] at rows
    · rintro (complete | none)
      · exact absurd complete.1 all
      · rw [none]
        exact ⟨rfl, rfl⟩

end Batch

/-! ### A batch with an item that is refused -/

/-- The items of the negative test of the API, which has the first without a
supplier. -/
def cheeseWithoutSupplier : PurchaseItem :=
  ⟨none, some "CHEESE", some 20, some "kg"⟩

def dough : PurchaseItem :=
  ⟨some "DOUGHCO", some "DOUGH", some 50, some "kg"⟩

/-- The test network after the migrations. -/
def newNetwork : Sequence (api testNetwork fun _ => 0) :=
  .initial (World.deployed testNetwork) Globals.initial

theorem cheeseWithoutSupplier_allOrNothing :
    cheeseWithoutSupplier.order testNetwork newNetwork.world.procurement 1001 = none ∧
    BatchAllOrNothing testNetwork [cheeseWithoutSupplier, dough] newNetwork.world
      (newNetwork.ended (.postPurchaseOrder [cheeseWithoutSupplier, dough])).2.world
      (newNetwork.ended (.postPurchaseOrder [cheeseWithoutSupplier, dough])).1 := by
  refine ⟨rfl, (issuePO_allOrNothing_iff testNetwork _ _ testNetwork_fresh.encoded
    newNetwork.view _).mpr (.inr ?_)⟩
  intro item first
  cases first
  rfl

/-- In the other order, the order of the dough stays. -/
theorem doughBeforeCheese_not_allOrNothing :
    ¬BatchAllOrNothing testNetwork [dough, cheeseWithoutSupplier] newNetwork.world
      (newNetwork.ended (.postPurchaseOrder [dough, cheeseWithoutSupplier])).2.world
      (newNetwork.ended (.postPurchaseOrder [dough, cheeseWithoutSupplier])).1 := by
  rintro ⟨_, rows⟩
  exact absurd (congrArg List.length rows) (by decide +kernel)

end PizzaChain.Api
