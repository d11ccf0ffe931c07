import PizzaChain.Api.Reads
import PizzaChain.Api.TableIntegrity
import PizzaChain.Semantics.Agreement

/-! # Listings among other requests

A listing reads the table or the list of invoices first, and then each order and invoice
on its own, while other requests go on. What it reads first refers to what was issued
by then, and this keeps its terms. So a listing is a picture of the moment of its first
call, apart from the statuses in it.
-/

namespace PizzaChain.Api

open PizzaChain.Chain

/-! ## Data without statuses -/

def PoData.withoutStatus (po : PoData) : PoData :=
  { po with status := "" }

def InvoiceData.withoutStatus (invoice : InvoiceData) : InvoiceData :=
  { invoice with status := "" }

def TransactionDetails.withoutStatus (details : TransactionDetails) : TransactionDetails :=
  { details with
    po := details.po.map (Response.map (Option.map PoData.withoutStatus))
    invoice := details.invoice.map (Response.map (Option.map InvoiceData.withoutStatus)) }

def Data.withoutStatus : Data → Data
  | .transactions details => .transactions (details.map TransactionDetails.withoutStatus)
  | .po order => .po (order.map PoData.withoutStatus)
  | .invoice bill => .invoice (bill.map InvoiceData.withoutStatus)
  | .invoices bills => .invoices (bills.map (Option.map InvoiceData.withoutStatus))
  | data => data

/-- Equal once a function is applied. -/
abbrev Alike (form : α → β) (value other : α) : Prop :=
  form value = form other

/-- The answers of `getPOById` of the contract agree in all but the status. -/
def SameOrder (po other : String × Nat × Nat × String × String) : Prop :=
  po.1 = other.1 ∧ po.2.1 = other.2.1 ∧ po.2.2.1 = other.2.2.1 ∧ po.2.2.2.1 = other.2.2.2.1

def SameInvoice (invoice other : Nat × String × Nat × Nat × String × Nat × String) : Prop :=
  invoice.1 = other.1 ∧ invoice.2.1 = other.2.1 ∧ invoice.2.2.1 = other.2.2.1 ∧
    invoice.2.2.2.1 = other.2.2.2.1 ∧ invoice.2.2.2.2.1 = other.2.2.2.2.1 ∧
    invoice.2.2.2.2.2.1 = other.2.2.2.2.2.1

theorem mapPOData_alike (poId : String) {po other : String × Nat × Nat × String × String}
    (same : SameOrder po other) :
    Alike PoData.withoutStatus (Controller.mapPOData poId po)
      (Controller.mapPOData poId other) := by
  rcases po with ⟨supplierId, itemType, qty, uom, status⟩
  rcases other with ⟨_, _, _, _, other⟩
  rcases same with ⟨rfl, rfl, rfl, rfl⟩
  rfl

theorem mapInvoiceData_alike (invoiceId : String)
    {invoice other : Nat × String × Nat × Nat × String × Nat × String}
    (same : SameInvoice invoice other) :
    Alike InvoiceData.withoutStatus (Controller.mapInvoiceData invoiceId invoice)
      (Controller.mapInvoiceData invoiceId other) := by
  rcases invoice with ⟨poId, supplierId, itemType, qty, uom, price, status⟩
  rcases other with ⟨_, _, _, _, _, _, other⟩
  rcases same with ⟨rfl, rfl, rfl, rfl, rfl, rfl⟩
  rfl

/-! ## What is read later agrees with the moment -/

/-- What was stored at the moment stays. -/
def Lasts {environment : Environment} (moment : Pool (sharedApi environment)) : Prop :=
  ∀ later, Later moment later → Extends moment.world later.world

abbrev AgreesFrom {environment : Environment} (index : Nat)
    (moment : Pool (sharedApi environment)) (related : α → β → Prop) (program : Handler α)
    (other : Handler β) : Prop :=
  @Program.Agrees (sharedApi environment) (fun _ _ => True) index α β moment related program other

section Agreement

variable {environment : Environment} {index : Nat} {moment : Pool (sharedApi environment)}

theorem onlyReads {program : Handler α} (reads : ReadsOnly program) :
    @Program.OnlyReads (sharedApi environment) α program :=
  Program.onlyReads_of_calls (fun _ world only => serve_of_reads environment only world) reads

theorem order_agrees (lasts : Lasts moment) {poNumber : Nat}
    (listed : poNumber ∈ moment.world.procurement.poArray) :
    AgreesFrom index moment SameOrder (wait .contract (.getPOById (some poNumber)))
      (wait .contract (.getPOById (some poNumber))) := by
  apply Program.agrees_call
  intro later reaches
  have terms := (lasts later reaches).procurement.orderTerms poNumber listed
  simp only [PO.terms, OrderTerms.mk.injEq] at terms
  exact ⟨terms.1, terms.2.1, terms.2.2.1, terms.2.2.2⟩

theorem invoice_agrees (lasts : Lasts moment) {invoice : Nat}
    (listed : invoice ∈ moment.world.procurement.invoiceArray) :
    AgreesFrom index moment SameInvoice (wait .contract (.getInvoiceById (some invoice)))
      (wait .contract (.getInvoiceById (some invoice))) := by
  apply Program.agrees_call
  intro later reaches
  have terms := (lasts later reaches).procurement.invoiceTerms invoice listed
  simp only [Invoice.terms, InvoiceTerms.mk.injEq] at terms
  exact ⟨terms.1, terms.2.1, terms.2.2.1, terms.2.2.2.1, terms.2.2.2.2.1, terms.2.2.2.2.2⟩

abbrev orderForm (response : Response (Option PoData)) : Response (Option PoData) :=
  response.map (Option.map PoData.withoutStatus)

abbrev invoiceForm (response : Response (Option InvoiceData)) : Response (Option InvoiceData) :=
  response.map (Option.map InvoiceData.withoutStatus)

theorem getPOById_agrees (lasts : Lasts moment) {poId : String} {poNumber : Nat}
    (encoded : environment.encodeUint poId = some poNumber)
    (listed : poNumber ∈ moment.world.procurement.poArray) :
    AgreesFrom index moment (Alike orderForm) (Controller.getPOById environment poId)
      (Controller.getPOById environment poId) := by
  rw [Controller.getPOById, encoded]
  apply (order_agrees lasts listed).bind (onlyReads (wait_reads _ rfl))
  intro po other same
  rw [same.1]
  split
  · exact Program.agrees_pure rfl
  · have alike := mapPOData_alike poId same
    apply Program.agrees_pure
    exact congrArg (fun data => (⟨200, "PO Retrieved", some data, none⟩ :
      Response (Option PoData))) alike

theorem getInvoiceById_agrees (lasts : Lasts moment) (invoiceId : String) {invoice : Nat}
    (listed : invoice ∈ moment.world.procurement.invoiceArray) :
    AgreesFrom index moment (Alike invoiceForm)
      (Controller.getInvoiceById invoiceId (some invoice))
      (Controller.getInvoiceById invoiceId (some invoice)) := by
  apply (invoice_agrees lasts listed).bind (onlyReads (wait_reads _ rfl))
  intro invoice other same
  rw [same.1]
  split
  · exact Program.agrees_pure rfl
  · have alike := mapInvoiceData_alike invoiceId same
    apply Program.agrees_pure
    exact congrArg (fun data => (⟨200, "Invoice Retrieved", some data, none⟩ :
      Response (Option InvoiceData))) alike

/-- Invoices that were listed at the moment, read one by one. -/
theorem invoiceDetails_agrees (lasts : Lasts moment) {invoiceIds : List Nat}
    (listed : ∀ invoice ∈ invoiceIds, invoice ∈ moment.world.procurement.invoiceArray) :
    AgreesFrom index moment (Alike (List.map (Option.map InvoiceData.withoutStatus)))
      (Controller.invoiceDetails invoiceIds) (Controller.invoiceDetails invoiceIds) := by
  induction invoiceIds with
  | nil => exact Program.agrees_pure rfl
  | cons invoice invoiceIds induction =>
      have first := listed invoice List.mem_cons_self
      apply (getInvoiceById_agrees lasts _ first).bind (onlyReads (getInvoiceById_reads _ _))
      intro response other same
      apply (induction fun id member => listed id (List.mem_cons_of_mem _ member)).bind
        (onlyReads (invoiceDetails_reads _))
      intro rest others sameRest
      apply Program.agrees_pure
      have data := congrArg Response.data same
      exact congrArg₂ List.cons data sameRest

theorem code_of_alike {form : α → β} {response other : Response α}
    (same : Alike (Response.map form) response other) : response.code = other.code := by
  have codes := congrArg Response.code same
  exact codes

theorem rowPO_agrees (lasts : Lasts moment) (intact : Intact environment moment.world) {row : Row}
    (member : row ∈ moment.world.rows) (filter : String) :
    AgreesFrom index moment (Alike (List.map orderForm))
      (Controller.rowPO environment row filter) (Controller.rowPO environment row filter) := by
  rcases intact.rows row member with ⟨poNumber, rowIntact⟩
  rw [Controller.rowPO]
  split
  · exact Program.agrees_pure rfl
  · rename_i poId named
    split
    · exact Program.agrees_pure rfl
    · have encoded : environment.encodeUint poId = some poNumber := by
        have text := (Option.filter_eq_some_iff.mp named).1
        simpa [Row.order, text] using rowIntact.named
      apply (getPOById_agrees lasts encoded rowIntact.ordered).bind
        (onlyReads (getPOById_reads environment poId))
      intro response other same
      have code := code_of_alike same
      apply Program.agrees_pure
      rw [Alike, code]
      split
      · exact congrArg (fun response => [response]) same
      · rfl

theorem rowInvoice_agrees (lasts : Lasts moment) (intact : Intact environment moment.world)
    {row : Row} (member : row ∈ moment.world.rows) (filter : String) :
    AgreesFrom index moment (Alike (List.map invoiceForm))
      (Controller.rowInvoice environment row filter)
      (Controller.rowInvoice environment row filter) := by
  rcases intact.rows row member with ⟨poNumber, rowIntact⟩
  rw [Controller.rowInvoice]
  split
  · exact Program.agrees_pure rfl
  · rename_i invoiceId named
    split
    · exact Program.agrees_pure rfl
    · rcases rowIntact.invoiced invoiceId (Option.filter_eq_some_iff.mp named).1 with
        ⟨invoice, encoded, listed, _⟩
      rw [encoded]
      apply (getInvoiceById_agrees lasts invoiceId listed).bind
        (onlyReads (getInvoiceById_reads _ _))
      intro response other same
      have code := code_of_alike same
      apply Program.agrees_pure
      rw [Alike, code]
      split
      · exact congrArg (fun response => [response]) same
      · rfl

theorem isEmpty_of_alike {form : α → β} {values others : List α}
    (same : Alike (List.map form) values others) : values.isEmpty = others.isEmpty := by
  have lengths := congrArg List.isEmpty same
  rwa [List.isEmpty_map, List.isEmpty_map] at lengths

/-- Rows of the moment, with their orders and invoices read one by one. -/
theorem getTransactionDetails_agrees (lasts : Lasts moment)
    (intact : Intact environment moment.world) (filter : String) {rows : List Row}
    (members : ∀ row ∈ rows, row ∈ moment.world.rows) :
    AgreesFrom index moment (Alike (List.map TransactionDetails.withoutStatus))
      (Controller.getTransactionDetails environment filter rows)
      (Controller.getTransactionDetails environment filter rows) := by
  induction rows with
  | nil => exact Program.agrees_pure rfl
  | cons row rows induction =>
      have member := members row List.mem_cons_self
      apply (rowPO_agrees lasts intact member filter).bind
        (onlyReads (rowPO_reads environment row filter))
      intro po otherPO samePO
      apply (rowInvoice_agrees lasts intact member filter).bind
        (onlyReads (rowInvoice_reads environment row filter))
      intro invoice otherInvoice sameInvoice
      have rest := induction fun later lateMember =>
        members later (List.mem_cons_of_mem _ lateMember)
      apply rest.bind (onlyReads (getTransactionDetails_reads environment filter rows))
      intro rest otherRest sameRest
      rw [isEmpty_of_alike samePO, isEmpty_of_alike sameInvoice]
      split
      · exact Program.agrees_pure sameRest
      · apply Program.agrees_pure
        simp only [Alike, List.map_cons, TransactionDetails.withoutStatus]
        rw [samePO, sameInvoice, sameRest]

end Agreement

/-! ## Runs -/

def Request.Lists : Request → Prop
  | .getTransactions _ | .getTransaction _ _ | .getSupplierTransactions _ _
  | .getInvoiceDetails => True
  | _ => False

section Runs

variable {environment : Environment} {number : Nat → Nat} {globals : Nat → Globals}

theorem lasts_of_reached (fresh : FreshIds environment number)
    {moment : Pool (sharedApi environment)}
    (reached : Later (Pool.initial (World.deployed environment) globals) moment) :
    Lasts moment := by
  rcases reached with ⟨actions, run⟩
  rintro later ⟨more, rest⟩
  exact (reached_and_extends fresh run rest).2

theorem intact_of_reached (fresh : FreshIds environment number)
    {moment : Pool (sharedApi environment)}
    (reached : Later (Pool.initial (World.deployed environment) globals) moment) :
    Intact environment moment.world := by
  rcases reached with ⟨actions, run⟩
  exact (kept_and_intact fresh run).2.2

/-- The response without the statuses in its data. -/
abbrev responseForm (response : Response Data) : Response Data :=
  response.map Data.withoutStatus

/-- The program ends with a picture of one moment on its way. -/
def PicturesMoment (index : Nat) (start : Pool (sharedApi environment))
    (program : Handler (Response Data)) : Prop :=
  ∀ shared, @Program.Secures (sharedApi environment) (fun _ _ => True) index _ program shared start
    fun outcome _ ended => ∃ moment, Later start moment ∧ Later moment ended ∧
      ∀ view : View (sharedApi environment), view.world = moment.world →
        OutcomesRelated (Alike responseForm) outcome (program.alone view).1

variable {index : Nat} {start : Pool (sharedApi environment)}

/-- The three listings of transactions differ in their queries and messages. -/
theorem transactions_picture (fresh : FreshIds environment number)
    (reached : Later (Pool.initial (World.deployed environment) globals) start) (query : Query)
    (filter message : String) :
    PicturesMoment index start (do
      let rows ← wait .database (.findRows query)
      let details ← Controller.getTransactionDetails environment filter rows
      return ⟨200, message, .transactions details, none⟩) := by
  intro shared
  apply Program.secures_first (fun _ => rfl)
  intro moment rows begun found
  cases found
  have lasts := lasts_of_reached fresh (reached.trans begun)
  have intact := intact_of_reached fresh (reached.trans begun)
  have members : ∀ row ∈ moment.world.rows.filter query.matches, row ∈ moment.world.rows :=
    fun row member => (List.mem_filter.mp member).1
  apply (getTransactionDetails_agrees lasts intact filter members).bind
    (onlyReads (getTransactionDetails_reads environment filter _))
  intro details other same
  apply Program.agrees_pure
  exact congrArg (fun details => (⟨200, message, .transactions details, none⟩ : Response Data)) same

theorem getInvoiceDetails_picture (fresh : FreshIds environment number)
    (reached : Later (Pool.initial (World.deployed environment) globals) start) :
    PicturesMoment index start (handle environment .getInvoiceDetails) := by
  intro shared
  simp only [handle, Controller.getInvoiceDetailsList, Controller.getInvoiceList,
    Program.bind_assoc]
  apply Program.secures_first (fun _ => rfl)
  intro moment invoiceIds begun found
  cases found
  have lasts := lasts_of_reached fresh (reached.trans begun)
  have agrees := @invoiceDetails_agrees environment index moment lasts
    moment.world.procurement.invoiceArray fun _ member => member
  apply agrees.bind (onlyReads (invoiceDetails_reads _))
  intro invoices other same
  apply Program.agrees_pure
  exact congrArg (fun invoices =>
    (⟨200, "Invoice Details List Retrieved", .invoices invoices, none⟩ : Response Data)) same

theorem handle_pictures (fresh : FreshIds environment number)
    (reached : Later (Pool.initial (World.deployed environment) globals) start)
    {request : Request} (lists : request.Lists) :
    PicturesMoment index start (handle environment request) := by
  cases request with
  | getTransactions filter =>
      have picture := @transactions_picture environment number globals index start fresh reached
        .all (environment.toUpperCase filter) "Transactions"
      simp only [handle, Controller.getTransactions, Program.bind_assoc]
      exact picture
  | getTransaction id filter =>
      have picture := @transactions_picture environment number globals index start fresh reached
        (.transactionId id) (environment.toUpperCase filter) "Procurement Transaction Retrieved"
      simp only [handle, Controller.getTransactionById, Program.bind_assoc]
      exact picture
  | getSupplierTransactions supplierId filter =>
      have picture := @transactions_picture environment number globals index start fresh reached
        (.supplierId supplierId) (environment.toUpperCase filter)
        "Procurement Transactions By Supplier Retrieved"
      simp only [handle, Controller.getTransactionBySupplierId, Program.bind_assoc]
      exact picture
  | getInvoiceDetails => exact getInvoiceDetails_picture fresh reached
  | _ => exact absurd lists id

theorem map_eq_of_related {form : α → β} {outcome other : Except ε α}
    (related : OutcomesRelated (Alike form) outcome other) : outcome.map form = other.map form := by
  cases outcome with
  | ok value =>
      cases other with
      | ok other => exact congrArg Except.ok related
      | error error => exact related.elim
  | error error =>
      cases other with
      | ok other => exact related.elim
      | error other => exact congrArg Except.error related

theorem settle_lists {request : Request} (lists : request.Lists) (globals : Globals) :
    ((handle environment request).settle globals).1.hasEnded = false := by
  cases request with
  | getTransactions | getTransaction | getSupplierTransactions | getInvoiceDetails => rfl
  | _ => exact absurd lists id

end Runs

/-- Between the two calls of a listing, the order is acknowledged and billed. -/
def billedMeanwhile : List (Action (sharedApi testNetwork)) :=
  Action.alone 0 cheeseOrder 2 ++ [.start (Request.getTransactions "all"), .serve 1, .resume 1] ++
    Action.alone 2 cheeseInvoice 4 ++ [.serve 1, .resume 1]

end PizzaChain.Api
