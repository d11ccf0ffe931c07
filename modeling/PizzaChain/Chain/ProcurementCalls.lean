import PizzaChain.Chain.Procurement
import PizzaChain.Foundation.Registry

/-! # Sequences of Procurement calls

The contract's storage after any calls of its four transactions, as two
registries, and as what a reader of its events rebuilds.
-/

namespace PizzaChain.Chain

/-- A transaction of the contract with its arguments. -/
inductive ProcurementCall
  | issuePO (poId : Nat) (supplierId : String) (itemType qty : Nat) (uom status : String)
  | issueInvoice (invoiceId poId : Nat) (supplierId : String) (itemType qty : Nat) (uom : String)
      (price : Nat) (status : String)
  | updatePOStatus (poId : Nat) (status : String)
  | updateInvoiceStatus (invoiceId : Nat) (status : String)

/-- The number of characters in the texts of a call. -/
def ProcurementCall.textLength : ProcurementCall → Nat
  | .issuePO _ supplierId _ _ uom status => supplierId.length + uom.length + status.length
  | .issueInvoice _ _ supplierId _ _ uom _ status =>
      supplierId.length + uom.length + status.length
  | .updatePOStatus _ status | .updateInvoiceStatus _ status => status.length

namespace Procurement

def apply (state : Procurement) : ProcurementCall → Procurement
  | .issuePO poId supplierId itemType qty uom status =>
      state.issuePO poId supplierId itemType qty uom status
  | .issueInvoice invoiceId poId supplierId itemType qty uom price status =>
      state.issueInvoice invoiceId poId supplierId itemType qty uom price status
  | .updatePOStatus poId status => state.updatePOStatus poId status
  | .updateInvoiceStatus invoiceId status => state.updateInvoiceStatus invoiceId status

/-- The contract after a sequence of calls. -/
def after (calls : List ProcurementCall) : Procurement :=
  calls.foldl apply deployed

end Procurement

/-! ## The two registries -/

structure OrderTerms where
  supplierId : String
  itemType : Nat
  qty : Nat
  uom : String
  deriving DecidableEq

structure InvoiceTerms where
  poId : Nat
  supplierId : String
  itemType : Nat
  qty : Nat
  uom : String
  price : Nat
  deriving DecidableEq

instance : Inhabited OrderTerms := ⟨⟨"", 0, 0, ""⟩⟩

instance : Inhabited InvoiceTerms := ⟨⟨0, "", 0, 0, "", 0⟩⟩

/-- All fields of a purchase order but the status. -/
def PO.terms (po : PO) : OrderTerms :=
  ⟨po.supplierId, po.itemType, po.qty, po.uom⟩

/-- All fields of an invoice but the status. -/
def Invoice.terms (invoice : Invoice) : InvoiceTerms :=
  ⟨invoice.poId, invoice.supplierId, invoice.itemType, invoice.qty, invoice.uom, invoice.price⟩

namespace ProcurementCall

/-- What a call does to the purchase orders. -/
def onOrders : ProcurementCall → Option (RegistryCall Nat OrderTerms String)
  | .issuePO poId supplierId itemType qty uom status =>
      some (.issue poId ⟨supplierId, itemType, qty, uom⟩ status)
  | .updatePOStatus poId status => some (.update poId status)
  | .issueInvoice _ _ _ _ _ _ _ _ | .updateInvoiceStatus _ _ => none

/-- What a call does to the invoices. -/
def onInvoices : ProcurementCall → Option (RegistryCall Nat InvoiceTerms String)
  | .issueInvoice invoiceId poId supplierId itemType qty uom price status =>
      some (.issue invoiceId ⟨poId, supplierId, itemType, qty, uom, price⟩ status)
  | .updateInvoiceStatus invoiceId status => some (.update invoiceId status)
  | .issuePO _ _ _ _ _ _ | .updatePOStatus _ _ => none

end ProcurementCall

def orderCalls (calls : List ProcurementCall) : List (RegistryCall Nat OrderTerms String) :=
  calls.filterMap ProcurementCall.onOrders

def invoiceCalls (calls : List ProcurementCall) : List (RegistryCall Nat InvoiceTerms String) :=
  calls.filterMap ProcurementCall.onInvoices

namespace Procurement

def orders (state : Procurement) : Registry Nat OrderTerms String where
  terms := fun poId => (state.pos poId).terms
  status := fun poId => (state.pos poId).status
  listed := state.poArray

def billing (state : Procurement) : Registry Nat InvoiceTerms String where
  terms := fun invoiceId => (state.invoices invoiceId).terms
  status := fun invoiceId => (state.invoices invoiceId).status
  listed := state.invoiceArray

theorem orders_apply (state : Procurement) (call : ProcurementCall) :
    (state.apply call).orders = (call.onOrders.toList).foldl Registry.apply state.orders := by
  cases call with
  | issuePO poId supplierId itemType qty uom status =>
      simp only [apply, issuePO, orders, Function.apply_update fun _ => PO.terms,
        Function.apply_update fun _ => PO.status]
      rfl
  | updatePOStatus poId status =>
      simp only [apply, updatePOStatus, orders, Function.apply_update fun _ => PO.terms,
        Function.apply_update fun _ => PO.status]
      exact congrArg (fun terms => (⟨terms, _, _⟩ : Registry Nat OrderTerms String))
        (Function.update_eq_self poId _)
  | issueInvoice invoiceId poId supplierId itemType qty uom price status => rfl
  | updateInvoiceStatus invoiceId status => rfl

theorem billing_apply (state : Procurement) (call : ProcurementCall) :
    (state.apply call).billing = (call.onInvoices.toList).foldl Registry.apply state.billing := by
  cases call with
  | issueInvoice invoiceId poId supplierId itemType qty uom price status =>
      simp only [apply, issueInvoice, billing, Function.apply_update fun _ => Invoice.terms,
        Function.apply_update fun _ => Invoice.status]
      rfl
  | updateInvoiceStatus invoiceId status =>
      simp only [apply, updateInvoiceStatus, billing, Function.apply_update fun _ => Invoice.terms,
        Function.apply_update fun _ => Invoice.status]
      exact congrArg (fun terms => (⟨terms, _, _⟩ : Registry Nat InvoiceTerms String))
        (Function.update_eq_self invoiceId _)
  | issuePO poId supplierId itemType qty uom status => rfl
  | updatePOStatus poId status => rfl

/-- The purchase orders are a registry of the calls that concern them. -/
theorem orders_after (calls : List ProcurementCall) :
    (after calls).orders = Registry.after (orderCalls calls) :=
  foldl_view orders_apply calls deployed

theorem billing_after (calls : List ProcurementCall) :
    (after calls).billing = Registry.after (invoiceCalls calls) :=
  foldl_view billing_apply calls deployed

theorem mem_poArray_after (calls : List ProcurementCall) (poId : Nat) :
    poId ∈ (after calls).poArray ↔ ∃ supplierId itemType qty uom status,
      ProcurementCall.issuePO poId supplierId itemType qty uom status ∈ calls := by
  have listed := (Registry.accounted_after (orderCalls calls)).listed
  rw [← orders_after] at listed
  rw [show (after calls).poArray = _ from listed, Registry.mem_issuedIds_iff]
  constructor
  · intro issued
    rcases issued with ⟨terms, status, member⟩
    rcases List.mem_filterMap.mp member with ⟨call, callMember, issues⟩
    cases call <;> cases issues
    exact ⟨_, _, _, _, _, callMember⟩
  · intro issued
    rcases issued with ⟨supplierId, itemType, qty, uom, status, member⟩
    exact ⟨_, _, List.mem_filterMap.mpr ⟨_, member, rfl⟩⟩

theorem mem_invoiceArray_after (calls : List ProcurementCall) (invoiceId : Nat) :
    invoiceId ∈ (after calls).invoiceArray ↔ ∃ poId supplierId itemType qty uom price status,
      ProcurementCall.issueInvoice invoiceId poId supplierId itemType qty uom price status ∈
        calls := by
  have listed := (Registry.accounted_after (invoiceCalls calls)).listed
  rw [← billing_after] at listed
  rw [show (after calls).invoiceArray = _ from listed, Registry.mem_issuedIds_iff]
  constructor
  · intro issued
    rcases issued with ⟨terms, status, member⟩
    rcases List.mem_filterMap.mp member with ⟨call, callMember, issues⟩
    cases call <;> cases issues
    exact ⟨_, _, _, _, _, _, _, callMember⟩
  · intro issued
    rcases issued with ⟨poId, supplierId, itemType, qty, uom, price, status, member⟩
    exact ⟨_, _, List.mem_filterMap.mpr ⟨_, member, rfl⟩⟩

/-- After any calls the arrays list the issued ids in the order of the calls, the
terms are those of the last issue and the status is the last that was written.
The arrays are in step with the mappings exactly if no id was issued twice and
no id that was never issued was left with a status. -/
theorem registries_accounted (calls : List ProcurementCall) :
    (after calls).orders.Accounted (orderCalls calls) ∧
    (after calls).billing.Accounted (invoiceCalls calls) ∧
    ((after calls).orders.InStep (orderCalls calls) ↔ Registry.Proper (orderCalls calls)) ∧
    ((after calls).billing.InStep (invoiceCalls calls) ↔ Registry.Proper (invoiceCalls calls)) := by
  rw [orders_after, billing_after]
  have orders := Registry.accounted_after (orderCalls calls)
  have invoices := Registry.accounted_after (invoiceCalls calls)
  exact ⟨orders, invoices, orders.inStep_iff, invoices.inStep_iff⟩

/-- Order 7 is issued to CheeseCo and again to DoughCo. -/
theorem orderIssuedTwice_not_inStep :
    ¬(after [.issuePO 7 "CHEESECO" 1 20 "kg" "ISSUED",
        .issuePO 7 "DOUGHCO" 2 50 "kg" "ISSUED"]).orders.InStep
      (orderCalls [.issuePO 7 "CHEESECO" 1 20 "kg" "ISSUED",
        .issuePO 7 "DOUGHCO" 2 50 "kg" "ISSUED"]) := by
  intro inStep
  exact absurd inStep.once (by decide)

end Procurement

/-! ## The event log -/

/-- The storage of the contract, which its events do not belong to. -/
structure ProcurementStorage where
  pos : Nat → PO
  invoices : Nat → Invoice
  poArray : List Nat
  invoiceArray : List Nat

namespace ProcurementStorage

def empty : ProcurementStorage where
  pos := fun _ => default
  invoices := fun _ => default
  poArray := []
  invoiceArray := []

/-- What a reader of the log makes of an event. -/
def replay (storage : ProcurementStorage) : ProcurementEvent → ProcurementStorage
  | .issuedPO poId supplierId itemType qty uom status => { storage with
      pos := Function.update storage.pos poId ⟨supplierId, itemType, qty, uom, status⟩
      poArray := storage.poArray ++ [poId] }
  | .issuedInvoice invoiceId poId supplierId itemType qty uom price status => { storage with
      invoices := Function.update storage.invoices invoiceId
        ⟨poId, supplierId, itemType, qty, uom, price, status⟩
      invoiceArray := storage.invoiceArray ++ [invoiceId] }
  | .updatePOStatus poId status => { storage with
      pos := Function.update storage.pos poId { storage.pos poId with status := status } }
  | .updateInvoiceStatus invoiceId status => { storage with
      invoices := Function.update storage.invoices invoiceId
        { storage.invoices invoiceId with status := status } }

/-- A contract with this storage and no events of its own. -/
def contract (storage : ProcurementStorage) : Procurement where
  pos := storage.pos
  invoices := storage.invoices
  poArray := storage.poArray
  invoiceArray := storage.invoiceArray
  events := []

end ProcurementStorage

namespace Procurement

def storage (state : Procurement) : ProcurementStorage where
  pos := state.pos
  invoices := state.invoices
  poArray := state.poArray
  invoiceArray := state.invoiceArray

/-- The storage that the log of a contract describes. -/
def replayed (state : Procurement) : ProcurementStorage :=
  state.events.foldl ProcurementStorage.replay ProcurementStorage.empty

/-- Every call logs one event, which says what it does to the storage. -/
theorem apply_logs (state : Procurement) (call : ProcurementCall) :
    ∃ event, (state.apply call).events = state.events ++ [event] ∧
      (state.apply call).storage = state.storage.replay event := by
  cases call <;> exact ⟨_, rfl, rfl⟩

theorem replayed_apply {state : Procurement} (rebuilt : state.replayed = state.storage)
    (call : ProcurementCall) : (state.apply call).replayed = (state.apply call).storage := by
  rcases state.apply_logs call with ⟨event, logged, stored⟩
  rw [replayed, logged, List.foldl_concat, stored, ← rebuilt]
  rfl

theorem replayed_foldl {state : Procurement} (rebuilt : state.replayed = state.storage)
    (calls : List ProcurementCall) :
    (calls.foldl apply state).replayed = (calls.foldl apply state).storage := by
  induction calls generalizing state with
  | nil => exact rebuilt
  | cons call calls induction => exact induction (replayed_apply rebuilt call)

/-- Replaying the log rebuilds the storage, so that it answers as the contract
does. -/
theorem events_determine_storage (calls : List ProcurementCall) :
    (after calls).replayed = (after calls).storage ∧
    (∀ poId, (after calls).replayed.contract.getPOById poId = (after calls).getPOById poId) ∧
    (∀ invoiceId, (after calls).replayed.contract.getInvoiceById invoiceId =
      (after calls).getInvoiceById invoiceId) ∧
    (after calls).replayed.contract.getPOList = (after calls).getPOList ∧
    (after calls).replayed.contract.getInvoiceList = (after calls).getInvoiceList := by
  have rebuilt : (after calls).replayed = (after calls).storage := replayed_foldl rfl calls
  rw [rebuilt]
  exact ⟨rfl, fun _ => rfl, fun _ => rfl, rfl, rfl⟩

end Procurement

end PizzaChain.Chain
