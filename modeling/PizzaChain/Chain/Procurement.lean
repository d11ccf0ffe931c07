import Mathlib.Logic.Function.Basic

/-! # The Procurement contract

`Procurement.sol`: purchase orders and invoices by id, the lists of issued ids,
and the events. A record that was never written has default fields.
-/

namespace PizzaChain.Chain

structure PO where
  supplierId : String
  itemType : Nat
  qty : Nat
  uom : String
  status : String
  deriving DecidableEq

structure Invoice where
  poId : Nat
  supplierId : String
  itemType : Nat
  qty : Nat
  uom : String
  price : Nat
  status : String
  deriving DecidableEq

instance : Inhabited PO := ⟨⟨"", 0, 0, "", ""⟩⟩

instance : Inhabited Invoice := ⟨⟨0, "", 0, 0, "", 0, ""⟩⟩

inductive ProcurementEvent
  | issuedPO (poId : Nat) (supplierId : String) (itemType qty : Nat) (uom status : String)
  | issuedInvoice (invoiceId poId : Nat) (supplierId : String) (itemType qty : Nat) (uom : String)
      (price : Nat) (status : String)
  | updatePOStatus (poId : Nat) (status : String)
  | updateInvoiceStatus (invoiceId : Nat) (status : String)

structure Procurement where
  pos : Nat → PO
  invoices : Nat → Invoice
  poArray : List Nat
  invoiceArray : List Nat
  events : List ProcurementEvent

namespace Procurement

def deployed : Procurement where
  pos := fun _ => default
  invoices := fun _ => default
  poArray := []
  invoiceArray := []
  events := []

def issuePO (state : Procurement) (poId : Nat) (supplierId : String) (itemType qty : Nat)
    (uom status : String) : Procurement := { state with
  pos := Function.update state.pos poId ⟨supplierId, itemType, qty, uom, status⟩
  poArray := state.poArray ++ [poId]
  events := state.events ++ [.issuedPO poId supplierId itemType qty uom status] }

def issueInvoice (state : Procurement) (invoiceId poId : Nat) (supplierId : String)
    (itemType qty : Nat) (uom : String) (price : Nat) (status : String) : Procurement :=
  { state with
    invoices := Function.update state.invoices invoiceId
      ⟨poId, supplierId, itemType, qty, uom, price, status⟩
    invoiceArray := state.invoiceArray ++ [invoiceId]
    events := state.events ++
      [.issuedInvoice invoiceId poId supplierId itemType qty uom price status] }

def updatePOStatus (state : Procurement) (poId : Nat) (status : String) : Procurement :=
  { state with
    pos := Function.update state.pos poId { state.pos poId with status := status }
    events := state.events ++ [.updatePOStatus poId status] }

def updateInvoiceStatus (state : Procurement) (invoiceId : Nat) (status : String) : Procurement :=
  { state with
    invoices := Function.update state.invoices invoiceId
      { state.invoices invoiceId with status := status }
    events := state.events ++ [.updateInvoiceStatus invoiceId status] }

/-- The fields of a purchase order in the order in which they are returned. -/
def getPOById (state : Procurement) (poId : Nat) : String × Nat × Nat × String × String :=
  let po := state.pos poId
  (po.supplierId, po.itemType, po.qty, po.uom, po.status)

/-- The fields of an invoice in the order in which they are returned. -/
def getInvoiceById (state : Procurement) (invoiceId : Nat) :
    Nat × String × Nat × Nat × String × Nat × String :=
  let invoice := state.invoices invoiceId
  (invoice.poId, invoice.supplierId, invoice.itemType, invoice.qty, invoice.uom, invoice.price,
    invoice.status)

def getPOList (state : Procurement) : List Nat :=
  state.poArray

def getInvoiceList (state : Procurement) : List Nat :=
  state.invoiceArray

section Invoices

variable (state : Procurement) (invoiceId poId : Nat) (supplierId : String) (itemType qty : Nat)
  (uom : String) (price : Nat) (status : String) {number : Nat}

@[simp] theorem invoices_issueInvoice_self :
    (state.issueInvoice invoiceId poId supplierId itemType qty uom price status).invoices
      invoiceId = ⟨poId, supplierId, itemType, qty, uom, price, status⟩ :=
  Function.update_self _ _ _

theorem invoices_issueInvoice_of_ne (other : number ≠ invoiceId) :
    (state.issueInvoice invoiceId poId supplierId itemType qty uom price status).invoices number =
      state.invoices number :=
  Function.update_of_ne other _ _

@[simp] theorem invoices_updateInvoiceStatus_self :
    (state.updateInvoiceStatus invoiceId status).invoices invoiceId =
      { state.invoices invoiceId with status := status } :=
  Function.update_self _ _ _

theorem invoices_updateInvoiceStatus_of_ne (other : number ≠ invoiceId) :
    (state.updateInvoiceStatus invoiceId status).invoices number = state.invoices number :=
  Function.update_of_ne other _ _

end Invoices

end Procurement

end PizzaChain.Chain
