import PizzaChain.Api.Ordering
import PizzaChain.Api.Routes
import PizzaChain.Semantics.RelyGuarantee

/-! # Lookups by id

`getPOById` takes an order for absent when its supplier id is empty, and
`getInvoiceById` an invoice when its PO id is zero. The first test is right as
long as no order is placed with an empty supplier id; the second always, since
the order 0 is never issued and an order that was not issued has no item type.
-/

namespace PizzaChain.Api

open PizzaChain.Chain

/-! ## Transactions that can be found again -/

/-- The record that the transaction issues passes the test of its lookup. -/
def Findable : ProcurementCall → Prop
  | .issuePO poId supplierId _ _ _ _ => poId ≠ 0 ∧ supplierId ≠ ""
  | .issueInvoice _ poId _ _ _ _ _ _ => poId ≠ 0
  | .updatePOStatus _ _ | .updateInvoiceStatus _ _ => True

/-- Records pass the tests exactly if they are listed as issued, and the order 0
is none of them. -/
structure Found (state : Procurement) : Prop where
  orders : ∀ poId, (state.pos poId).supplierId ≠ "" ↔ poId ∈ state.poArray
  invoices : ∀ invoiceId, (state.invoices invoiceId).poId ≠ 0 ↔ invoiceId ∈ state.invoiceArray
  zero : (state.pos 0).itemType = 0

theorem found_deployed : Found .deployed where
  orders := by simp [Procurement.deployed, default]
  invoices := by simp [Procurement.deployed, default]
  zero := rfl

theorem Found.apply {state : Procurement} (found : Found state) {call : ProcurementCall}
    (findable : Findable call) : Found (state.apply call) := by
  cases call with
  | issuePO poId supplierId itemType qty uom status =>
      refine ⟨fun other => ?_, found.invoices, ?_⟩
      · have before := found.orders other
        by_cases same : other = poId
        · simp [Procurement.apply, Procurement.issuePO, same, findable.2]
        · simpa [Procurement.apply, Procurement.issuePO, same] using before
      · simpa [Procurement.apply, Procurement.issuePO, Ne.symm findable.1] using found.zero
  | issueInvoice invoiceId poId supplierId itemType qty uom price status =>
      refine ⟨found.orders, fun other => ?_, found.zero⟩
      have before := found.invoices other
      by_cases same : other = invoiceId
      · have nonzero : poId ≠ 0 := findable
        simp [Procurement.apply, Procurement.issueInvoice, same, nonzero]
      · simpa [Procurement.apply, Procurement.issueInvoice, same] using before
  | updatePOStatus poId status =>
      have kept : ∀ other, ((state.apply (.updatePOStatus poId status)).pos other).supplierId =
            (state.pos other).supplierId ∧
          ((state.apply (.updatePOStatus poId status)).pos other).itemType =
            (state.pos other).itemType := by
        intro other
        by_cases same : other = poId
        · simp [Procurement.apply, Procurement.updatePOStatus, same]
        · simp [Procurement.apply, Procurement.updatePOStatus, same]
      refine ⟨fun other => ?_, found.invoices, ?_⟩
      · rw [(kept other).1]
        exact found.orders other
      · rw [(kept 0).2]
        exact found.zero
  | updateInvoiceStatus invoiceId status =>
      refine ⟨found.orders, fun other => ?_, found.zero⟩
      have before := found.invoices other
      by_cases same : other = invoiceId
      · simpa [Procurement.apply, Procurement.updateInvoiceStatus, same] using before
      · simpa [Procurement.apply, Procurement.updateInvoiceStatus, same] using before

/-- The call sends nothing that its lookup would not find. -/
def Call.SendsFindable (call : Call) : Prop :=
  ∀ sent, call.procurementCall = some sent → Findable sent

variable {environment : Environment} {number cell : Nat → Nat}

theorem Found.serve {world : World} (found : Found world.procurement) {call : Call}
    (findable : call.SendsFindable) : Found (serve environment call world).2.procurement := by
  rw [serve_procurement]
  cases applied : call.applied environment world.procurement with
  | none => exact found
  | some transaction =>
      exact found.apply (findable transaction (procurementCall_of_applied applied))

/-! ## What the requests send -/

/-- What a request orders. -/
def Request.items : Request → List PurchaseItem
  | .postPurchaseOrder items => items
  | _ => []

/-- No item that the request orders has the empty supplier id. -/
def Request.NamesSuppliers (request : Request) : Prop :=
  ∀ item ∈ request.items, item.supplierId ≠ some ""

instance Request.decidableNamesSuppliers (request : Request) :
    Decidable request.NamesSuppliers :=
  inferInstanceAs (Decidable (∀ item ∈ request.items, item.supplierId ≠ some ""))

theorem issuePO_sendsFindable (fresh : FreshIds environment number) (drawn : Nat)
    {item : PurchaseItem} (named : item.supplierId ≠ some "") (status : String) :
    (Call.issuePO (environment.encodeUint (environment.uniqueId drawn)) item.supplierId
      (item.itemType.bind (itemTypes.lookup ·)) item.qty item.uom status).SendsFindable := by
  intro sent sends
  rw [fresh.encoded] at sends
  simp only [Call.procurementCall, Option.bind_eq_bind, Option.bind_some,
    Option.bind_eq_some_iff] at sends
  rcases sends with ⟨supplierId, supplied, itemType, _, qty, _, uom, _, equal⟩
  cases equal
  refine ⟨fresh.nonzero drawn, ?_⟩
  rintro rfl
  exact named supplied

/-- Apart from invoices, every request sends what can be found again. -/
theorem handle_sendsFindable (fresh : FreshIds environment number) (request : Request)
    (named : request.NamesSuppliers)
    (other : ∀ poId itemPrice, request ≠ .postInvoice poId itemPrice) :
    (handle environment request).Calls fun call : Call => call.SendsFindable := by
  cases request with
  | postPurchaseOrder items =>
      refine (issuePO_calls environment ?_ ?_).bind fun _ => trivial
      · exact fun drawn item member => issuePO_sendsFindable fresh drawn (named item member) _
      · intro row sent sends
        cases sends
  | postInvoice poId itemPrice => exact absurd rfl (other poId itemPrice)
  | _ =>
      apply (handle_mayCall environment _).mono
      intro call may sent sends
      cases call with
      | issuePO poId supplierId itemType qty uom status =>
          rcases may with ⟨⟨items, equal⟩, _⟩
          cases equal
      | issueInvoice invoiceId poId supplierId itemType qty uom price status =>
          rcases may with ⟨⟨poId, itemPrice, equal⟩, _⟩
          cases equal
      | updatePOStatus poId status =>
          rcases Option.map_eq_some_iff.mp sends with ⟨_, _, rfl⟩
          trivial
      | updateInvoiceStatus invoiceId status =>
          rcases Option.map_eq_some_iff.mp sends with ⟨_, _, rfl⟩
          trivial
      | _ => cases sends

/-! ## Interleaved requests -/

/-- The order 0 has no item type whenever a call takes effect; what a request
awaits sends only what can be found again. -/
def findability (environment : Environment) (cell : Nat → Nat) :
    Discipline (api environment cell) where
  assumes := fun _ _ _ view => (view.world.procurement.pos 0).itemType = 0
  rely := fun _ _ _ _ => True
  rely_refl := fun _ _ _ => trivial
  rely_trans := fun _ _ _ _ _ _ _ => trivial
  holds := fun _ moment _ =>
    match moment with
    | .waiting _ call => Call.SendsFindable call
    | _ => True
  changes := fun _ _ _ _ => True

/-- The invoice names the order that was read; had that been the order 0, it would
have no item type, and web3 would not accept the invoice. -/
theorem createInvoice_sendsFindable {state : Procurement} (zero : (state.pos 0).itemType = 0)
    {poId : String} {order : Nat} (encoded : environment.encodeUint poId = some order)
    (invoiceId price : Option Nat) (status : String) :
    let po := Controller.mapPOData poId (state.getPOById order)
    (Call.issueInvoice invoiceId (environment.encodeUint po.poId) po.supplierId
      (po.itemType.bind (itemTypes.lookup ·)) (encodeNumber po.qty) po.uom price
      status).SendsFindable := by
  intro po sent sends
  have named : environment.encodeUint po.poId = some order := encoded
  rw [named] at sends
  simp only [Call.procurementCall, Option.bind_eq_bind, Option.bind_some,
    Option.bind_eq_some_iff] at sends
  rcases sends with ⟨_, _, itemType, typed, qty, _, value, _, equal⟩
  cases equal
  intro isZero
  subst isZero
  have untyped : po.itemType = none := by
    simp only [po, Controller.mapPOData, Procurement.getPOById, zero]
    decide
  simp [untyped] at typed

theorem robust_postInvoice (poId : String) (itemPrice : Option String)
    (origin : Option Point) (before : Globals) (view : View (api environment cell)) :
    (findability environment cell).Robust (.postInvoice poId itemPrice) origin before
      (handle environment (.postInvoice poId itemPrice)) view := by
  simp only [handle, Controller.ackPO, ProcurementClient.getPOById, Program.bind_assoc,
    Program.pure_eq_done, Program.done_bind]
  apply Discipline.robust_call trivial
  intro later _
  refine ⟨fun sent sends => (by cases sends), ?_⟩
  intro zero outcome next served resumed _
  refine ⟨trivial, ?_, fun _ _ => ⟨trivial, fun _ _ => trivial⟩⟩
  intro po answered
  cases encoded : environment.encodeUint poId with
  | none =>
      rw [answered] at served
      simp [serve, encoded, World.ask] at served
  | some order =>
      have read : po = later.world.procurement.getPOById order := by
        rw [answered] at served
        simp only [serve, encoded, World.ask, Prod.mk.injEq, Except.ok.injEq] at served
        exact served.1.symm
      -- What is called from here on depends on what was read and on nothing else.
      apply Discipline.robust_of_calls (fun _ _ _ findable => findable) (fun _ _ => trivial)
        (fun _ _ => trivial) (fun _ _ _ => trivial)
      refine Program.Calls.bind (Program.Calls.call _ ?_) fun _ => ?_
      · intro sent sends
        rcases Option.map_eq_some_iff.mp sends with ⟨_, _, rfl⟩
        trivial
      · refine (issueInvoice_calls environment _ _ ?_ ?_).bind fun _ => trivial
        · intro drawn
          rw [read]
          exact createInvoice_sendsFindable zero encoded _ _ _
        · intro text invoiceId price sent sends
          cases sends

theorem robust_handle (fresh : FreshIds environment number) (request : Request)
    (named : request.NamesSuppliers) (origin : Option Point) (before : Globals)
    (view : View (api environment cell)) :
    (findability environment cell).Robust request origin before (handle environment request)
      view := by
  by_cases invoice : ∃ poId itemPrice, request = .postInvoice poId itemPrice
  · rcases invoice with ⟨poId, itemPrice, rfl⟩
    exact robust_postInvoice poId itemPrice origin before view
  · apply Discipline.robust_of_calls (fun _ _ _ findable => findable) (fun _ _ => trivial)
      (fun _ _ => trivial) (fun _ _ _ => trivial)
    apply handle_sendsFindable fresh request named
    intro poId itemPrice equal
    exact invoice ⟨poId, itemPrice, equal⟩

/-- The step starts no purchase order for an empty supplier id. -/
def NamedSuppliers (_ : Pool (api environment cell)) : Action (api environment cell) → Prop
  | .start request => Request.NamesSuppliers request
  | _ => True

instance decidableNamedSuppliers (pool : Pool (api environment cell))
    (action : Action (api environment cell)) : Decidable (NamedSuppliers pool action) :=
  match action with
  | .start request => Request.decidableNamesSuppliers request
  | .serve _ | .resume _ => inferInstanceAs (Decidable True)

theorem findability_respected (fresh : FreshIds environment number) :
    (findability environment cell).Respected fun pool action =>
      NamedSuppliers pool action ∧ Found pool.world.procurement where
  assumed := fun _ _ _ _ _ _ _ meets => meets.2.zero
  serve := fun _ _ _ _ _ _ _ _ _ _ _ _ _ => trivial
  resume := fun _ _ _ _ _ _ _ _ _ _ _ _ _ _ => trivial
  start := fun _ _ _ _ _ _ _ _ _ => trivial
  handlers := fun _ request meets _ => robust_handle fresh request meets.1 _ _ _

/-- In every run in which no order is placed with an empty supplier id, records
pass the tests of the lookups exactly if they are listed. -/
theorem found_of_run (fresh : FreshIds environment number) {globals : Nat → Globals}
    {actions : List (Action (api environment cell))} {pool : Pool (api environment cell)}
    (run : Transitions (Pool.Step NamedSuppliers)
      (Pool.initial (World.deployed environment) globals) actions pool) :
    Found pool.world.procurement := by
  refine ((findability_respected fresh).sound_along ?_ run
    (Discipline.kept_initial _ _ _) found_deployed).2
  intro current action next kept found step
  cases Pool.step_cases step.1 with
  | start request => exact found
  | @serve index request point call rest waiting =>
      exact Found.serve found (kept.tasks index _ waiting).holds
  | resume waiting => exact found

/-! ## The answers of the lookups -/

/-- The transactions that the Procurement contract has run, in order. -/
def ranIn (pool : Pool (api environment cell)) : List ProcurementCall :=
  pool.log.filterMap fun entry => ranBy entry.2

theorem procurement_of_run {condition : Pool (api environment cell) →
      Action (api environment cell) → Prop} {globals : Nat → Globals}
    {actions : List (Action (api environment cell))} {pool : Pool (api environment cell)}
    (run : Transitions (Pool.Step condition)
      (Pool.initial (World.deployed environment) globals) actions pool) :
    pool.world.procurement = Procurement.after (ranIn pool) :=
  Pool.part_of_log (serve_ran environment) run

/-- A purchase order with this id was issued. -/
def OrderIssued (pool : Pool (api environment cell)) (poId : Nat) : Prop :=
  ∃ supplierId itemType qty uom status,
    .issuePO poId supplierId itemType qty uom status ∈ ranIn pool

/-- An invoice with this id was issued. -/
def InvoiceIssued (pool : Pool (api environment cell)) (invoiceId : Nat) : Prop :=
  ∃ poId supplierId itemType qty uom price status,
    .issueInvoice invoiceId poId supplierId itemType qty uom price status ∈ ranIn pool

/-- Asked for an id that web3 reads as a number, the lookups answer 200 if a record
with that id was issued and 404 if not. -/
structure LookupsExact (environment : Environment) (pool : Pool (api environment cell)) :
    Prop where
  orders : ∀ poId number, environment.encodeUint poId = some number → ∃ response,
    ((Controller.getPOById environment poId).alone (pool.view pool.tasks.length)).1 =
        .ok response ∧
      (OrderIssued pool number → response.code = 200) ∧
      (¬OrderIssued pool number → response.code = 404)
  invoices : ∀ invoiceId number, environment.encodeUint invoiceId = some number → ∃ response,
    ((Controller.getInvoiceById invoiceId (environment.encodeUint invoiceId)).alone
        (pool.view pool.tasks.length)).1 = .ok response ∧
      (InvoiceIssued pool number → response.code = 200) ∧
      (¬InvoiceIssued pool number → response.code = 404)

theorem getPOById_alone (view : View (api environment cell)) {poId : String} {order : Nat}
    (encoded : environment.encodeUint poId = some order) :
    ∃ response, ((Controller.getPOById environment poId).alone view).1 = .ok response ∧
      response.code =
        if (view.world.procurement.pos order).supplierId = "" then 404 else 200 := by
  have served : serve environment (.getPOById (environment.encodeUint poId)) view.world =
      (.ok (view.world.procurement.getPOById order), view.world) := by
    simp [encoded, serve, World.ask]
  have ensured : (Controller.getPOById environment poId).Ensures view fun outcome _ =>
      ∃ response, outcome = .ok response ∧ response.code =
        if (view.world.procurement.pos order).supplierId = "" then 404 else 200 := by
    apply Program.ensures_ok served
    by_cases empty : (view.world.procurement.pos order).supplierId = ""
    · rw [if_pos empty, if_pos (show (view.world.procurement.getPOById order).1 = "" from empty)]
      exact ⟨_, rfl, rfl⟩
    · rw [if_neg empty, if_neg (show (view.world.procurement.getPOById order).1 ≠ "" from empty)]
      exact ⟨_, rfl, rfl⟩
  exact ensured

theorem getInvoiceById_alone (view : View (api environment cell)) (invoiceId : String)
    (invoice : Nat) :
    ∃ response, ((Controller.getInvoiceById invoiceId (some invoice)).alone view).1 =
        .ok response ∧
      response.code = if (view.world.procurement.invoices invoice).poId = 0 then 404 else 200 := by
  have ensured : (Controller.getInvoiceById invoiceId (some invoice)).Ensures view
      fun outcome _ => ∃ response, outcome = .ok response ∧ response.code =
        if (view.world.procurement.invoices invoice).poId = 0 then 404 else 200 := by
    apply Program.ensures_ok rfl
    by_cases zero : (view.world.procurement.invoices invoice).poId = 0
    · rw [if_pos zero,
        if_pos (show (view.world.procurement.getInvoiceById invoice).1 = 0 from zero)]
      exact ⟨_, rfl, rfl⟩
    · rw [if_neg zero,
        if_neg (show (view.world.procurement.getInvoiceById invoice).1 ≠ 0 from zero)]
      exact ⟨_, rfl, rfl⟩
  exact ensured

/-- In every interleaving of any requests that place no order with an empty
supplier id, the lookups answer 200 exactly for the issued ids. -/
theorem lookups_exact (fresh : FreshIds environment number) {globals : Nat → Globals}
    {actions : List (Action (api environment cell))} {pool : Pool (api environment cell)}
    (run : Transitions (Pool.Step NamedSuppliers)
      (Pool.initial (World.deployed environment) globals) actions pool) :
    LookupsExact environment pool := by
  have found := found_of_run fresh run
  have orders := found.orders
  have invoices := found.invoices
  rw [procurement_of_run run] at orders invoices
  constructor
  · intro poId order encoded
    rcases getPOById_alone (pool.view pool.tasks.length) encoded with ⟨response, answered, code⟩
    have issued := (orders order).trans (Procurement.mem_poArray_after (ranIn pool) order)
    rw [Pool.view, procurement_of_run run] at code
    refine ⟨response, answered, fun wasIssued => ?_, fun notIssued => ?_⟩
    · rw [code, if_neg (issued.mpr wasIssued)]
    · rw [code, if_pos (not_not.mp (mt issued.mp notIssued))]
  · intro invoiceId invoice encoded
    rw [encoded]
    rcases getInvoiceById_alone (pool.view pool.tasks.length) invoiceId invoice with
      ⟨response, answered, code⟩
    have issued := (invoices invoice).trans
      (Procurement.mem_invoiceArray_after (ranIn pool) invoice)
    rw [Pool.view, procurement_of_run run] at code
    refine ⟨response, answered, fun wasIssued => ?_, fun notIssued => ?_⟩
    · rw [code, if_neg (issued.mpr wasIssued)]
    · rw [code, if_pos (not_not.mp (mt issued.mp notIssued))]

/-- An order and its invoice are found again under the ids that were drawn. -/
def orderedAndInvoiced : List (Action (api testNetwork fun _ => 0)) :=
  Action.alone 0 cheeseOrder 2 ++ Action.alone 1 cheeseInvoice 4

theorem lookups_exact_ordered_and_invoiced :
    ∃ final, Transitions (Pool.Step NamedSuppliers)
        (Pool.initial (World.deployed testNetwork) fun _ => Globals.initial)
        orderedAndInvoiced final ∧
      final.world.procurement.poArray = [1001] ∧
      final.world.procurement.invoiceArray = [1002] ∧
      LookupsExact testNetwork final := by
  have ran : ((Pool.initial (World.deployed testNetwork) fun _ => Globals.initial).run
        (fun pool action => decide (NamedSuppliers pool action)) orderedAndInvoiced).map
          (fun final => (final.world.procurement.poArray, final.world.procurement.invoiceArray)) =
      some ([1001], [1002]) := by decide +kernel
  rcases Option.map_eq_some_iff.mp ran with ⟨final, runs, issued⟩
  have run : Transitions (Pool.Step NamedSuppliers) _ _ final :=
    (Pool.transitions_of_run runs).mono fun _ _ _ step => ⟨step.1, of_decide_eq_true step.2⟩
  exact ⟨final, run, congrArg Prod.fst issued, congrArg Prod.snd issued,
    lookups_exact testNetwork_fresh run⟩

/-- Two kilos of cheese from a supplier whose id is the empty text. -/
def unnamedOrder : Request :=
  .postPurchaseOrder [⟨some "", some "CHEESE", some 2, some "KG"⟩]

/-- The order is issued, and the lookup answers that there is no such order. -/
theorem unnamedOrder_not_found :
    ∃ final, Transitions (Pool.Step fun _ _ => True)
        (Pool.initial (World.deployed testNetwork) fun _ => Globals.initial)
        (Action.alone 0 unnamedOrder 2 : List (Action (api testNetwork fun _ => 0))) final ∧
      OrderIssued final 1001 ∧ testNetwork.encodeUint "1001" = some 1001 ∧
      ∃ response, ((Controller.getPOById testNetwork "1001").alone
          (final.view final.tasks.length)).1 = .ok response ∧ response.code = 404 := by
  have ran : ((Pool.initial (World.deployed testNetwork) fun _ => Globals.initial).run
        (fun _ _ => true)
        (Action.alone 0 unnamedOrder 2 : List (Action (api testNetwork fun _ => 0)))).map
          (fun final => (ranIn final, (final.world.procurement.pos 1001).supplierId)) =
      some ([.issuePO 1001 "" 1 2 "KG" PoStatus.issued.text], "") := by rfl
  rcases Option.map_eq_some_iff.mp ran with ⟨final, runs, reached⟩
  rcases Prod.mk.inj reached with ⟨sent, unnamed⟩
  have encoded : testNetwork.encodeUint "1001" = some 1001 := readUint_toString 1001
  rcases getPOById_alone (final.view final.tasks.length) encoded with ⟨response, answered, code⟩
  refine ⟨final, Pool.transitions_of_free_run runs, ?_, encoded, response, answered, ?_⟩
  · rw [OrderIssued, sent]
    exact ⟨_, _, _, _, _, List.mem_singleton.mpr rfl⟩
  · exact code.trans (if_pos unnamed)

end PizzaChain.Api
