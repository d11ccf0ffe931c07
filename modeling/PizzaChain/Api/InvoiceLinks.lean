import PizzaChain.Api.Invoicing

/-! # Invoices on the chain and in the procurement table

Every `POST /invoice/:poId` that succeeds adds an invoice to the chain, and
overwrites the invoice id of the row whose `po_id` is the text it was given.
-/

namespace PizzaChain.Api

open PizzaChain.Chain

/-- An invoice request that succeeded: the text it named the purchase order by, and
the invoice id it was answered. -/
structure Invoicing where
  poId : String
  invoiceId : String
  deriving DecidableEq

section History

variable {environment : Environment} {cell : Nat → Nat}

def invoicing : Record (api environment cell) → Option Invoicing
  | ⟨.postInvoice poId _, .ok ⟨_, _, .invoiceId invoiceId, _⟩, _⟩ => some ⟨poId, invoiceId⟩
  | _ => none

def invoicings (sequence : Sequence (api environment cell)) : List Invoicing :=
  sequence.history.filterMap invoicing

/-- The last invoice that was issued for a text. -/
def lastInvoice (made : List Invoicing) (poId : String) : Option String :=
  (made.reverse.find? fun invoicing => invoicing.poId == poId).map Invoicing.invoiceId

theorem lastInvoice_append (made : List Invoicing) (latest : Invoicing) (poId : String) :
    lastInvoice (made ++ [latest]) poId =
      if latest.poId = poId then some latest.invoiceId else lastInvoice made poId := by
  rw [lastInvoice, List.reverse_concat, List.find?_cons]
  by_cases same : latest.poId = poId
  · simp [same]
  · rw [if_neg same, beq_false_of_ne same]
    rfl

theorem mem_of_lastInvoice {made : List Invoicing} {poId invoiceId : String}
    (last : lastInvoice made poId = some invoiceId) : ⟨poId, invoiceId⟩ ∈ made := by
  rcases Option.map_eq_some_iff.mp last with ⟨⟨named, answered⟩, found, rfl⟩
  have same : named = poId := by simpa using List.find?_some found
  rw [← same]
  exact List.mem_reverse.mp (List.mem_of_find?_eq_some found)

theorem lastInvoice_eq_none {made : List Invoicing} {poId : String}
    (unnamed : ∀ invoicing ∈ made, invoicing.poId ≠ poId) : lastInvoice made poId = none := by
  rw [lastInvoice, Option.map_eq_none_iff, List.find?_eq_none]
  intro invoicing member
  simpa using unnamed invoicing (List.mem_reverse.mp member)

theorem lastInvoice_of_unique {made : List Invoicing} {invoicing : Invoicing}
    (member : invoicing ∈ made)
    (unique : ∀ other ∈ made, other.poId = invoicing.poId → other = invoicing) :
    lastInvoice made invoicing.poId = some invoicing.invoiceId := by
  cases last : lastInvoice made invoicing.poId with
  | none =>
      rw [lastInvoice, Option.map_eq_none_iff, List.find?_eq_none] at last
      have absent := last invoicing (List.mem_reverse.mpr member)
      simp at absent
  | some invoiceId => rw [← unique _ (mem_of_lastInvoice last) rfl]

/-- A purchase order or invoice request that ends without an error. -/
def OrdersOrInvoices (sequence : Sequence (api environment cell)) (request : Request) : Prop :=
  ((∃ items, request = .postPurchaseOrder items) ∨
      ∃ poId itemPrice, request = .postInvoice poId itemPrice) ∧
    ∃ response, (sequence.ended request).1 = .ok response

end History

/-! ## The books -/

/-- What chain and table hold after some draws of ids and some invoices. -/
structure Books (environment : Environment) (number : Nat → Nat) (ids : Nat)
    (made : List Invoicing) (world : World) : Prop where
  ordered : ∀ poNumber, (world.procurement.pos poNumber).itemType ≠ 0 →
    ∃ drawn < ids, poNumber = number drawn
  rows : ∀ row ∈ world.rows, ∃ drawn < ids, row.poId = some (environment.uniqueId drawn)
  distinct : (world.rows.map Row.poId).Nodup
  linked : ∀ row ∈ world.rows, ∀ poId, row.poId = some poId →
    row.invoiceId = lastInvoice made poId
  issued : world.procurement.invoiceArray.map some =
    made.map fun invoicing => environment.encodeUint invoicing.invoiceId
  drawn : ∀ invoicing ∈ made, ∃ drawn < ids,
    invoicing.invoiceId = environment.uniqueId drawn ∧
    environment.encodeUint invoicing.poId =
      some (world.procurement.invoices (number drawn)).poId
  named : ∀ invoicing ∈ made, ∃ drawn < ids,
    environment.encodeUint invoicing.poId = some (number drawn)
  once : (made.map Invoicing.invoiceId).Nodup

section Books

variable {environment : Environment} {number : Nat → Nat} {ids : Nat} {made : List Invoicing}
  {world : World}

theorem FreshIds.uniqueId_injective (fresh : FreshIds environment number) {first second : Nat}
    (same : environment.uniqueId first = environment.uniqueId second) : first = second := by
  have numbers := congrArg environment.encodeUint same
  rw [fresh.encoded, fresh.encoded] at numbers
  exact fresh.injective (Option.some.inj numbers)

theorem books_deployed (environment : Environment) (number : Nat → Nat) (ids : Nat) :
    Books environment number ids [] (World.deployed environment) where
  ordered := fun _ nonzero => absurd rfl nonzero
  rows := by simp [World.deployed]
  distinct := List.nodup_nil
  linked := by simp [World.deployed]
  issued := rfl
  drawn := by simp
  named := by simp
  once := List.nodup_nil

theorem exists_drawn_of_le {property : Nat → Prop} {later : Nat} (le : ids ≤ later)
    (exists_drawn : ∃ drawn < ids, property drawn) : ∃ drawn < later, property drawn := by
  rcases exists_drawn with ⟨drawn, early, holds⟩
  exact ⟨drawn, Nat.lt_of_lt_of_le early le, holds⟩

theorem Books.mono (books : Books environment number ids made world) {later : Nat}
    (le : ids ≤ later) : Books environment number later made world where
  ordered := fun poNumber nonzero => exists_drawn_of_le le (books.ordered poNumber nonzero)
  rows := fun row member => exists_drawn_of_le le (books.rows row member)
  distinct := books.distinct
  linked := books.linked
  issued := books.issued
  drawn := fun invoicing member => exists_drawn_of_le le (books.drawn invoicing member)
  named := fun invoicing member => exists_drawn_of_le le (books.named invoicing member)
  once := books.once

/-- An order with the next id. -/
theorem Books.place (fresh : FreshIds environment number)
    (books : Books environment number ids made world) {order : PlacedOrder}
    (next : order.drawn = ids) :
    Books environment number (ids + 1) made (world.place environment number order) := by
  have later := books.mono (Nat.le_succ ids)
  refine { later with ordered := ?_, rows := ?_, distinct := ?_, linked := ?_ }
  · intro poNumber nonzero
    by_cases same : poNumber = number order.drawn
    · exact ⟨order.drawn, by omega, same⟩
    · have kept : (world.place environment number order).procurement.pos poNumber =
          world.procurement.pos poNumber := Function.update_of_ne same _ _
      rw [kept] at nonzero
      exact later.ordered poNumber nonzero
  · intro row member
    rcases List.mem_append.mp member with old | new
    · exact later.rows row old
    · rw [List.mem_singleton.mp new]
      exact ⟨order.drawn, by omega, rfl⟩
  · have absent : some (environment.uniqueId order.drawn) ∉ world.rows.map Row.poId := by
      intro present
      rcases List.mem_map.mp present with ⟨row, member, named⟩
      rcases books.rows row member with ⟨drawn, early, same⟩
      rw [same] at named
      have equal := fresh.uniqueId_injective (Option.some.inj named)
      omega
    simp only [World.place, List.map_append, List.map_cons, List.map_nil]
    rw [← List.concat_eq_append]
    exact books.distinct.concat absent
  · intro row member poId named
    rcases List.mem_append.mp member with old | new
    · exact books.linked row old poId named
    · rw [List.mem_singleton.mp new] at named ⊢
      refine (lastInvoice_eq_none fun invoicing invoicingMember same => ?_).symm
      -- An invoice for this text would have been refused before the order existed.
      rcases books.named invoicing invoicingMember with ⟨drawn, early, encoded⟩
      rw [same, ← Option.some.inj named, fresh.encoded] at encoded
      have equal := fresh.injective (Option.some.inj encoded)
      omega

theorem Books.placeAll (fresh : FreshIds environment number) (transactionId : String)
    (terms : List OrderTerms) (books : Books environment number ids made world) :
    Books environment number (ids + terms.length) made
      (world.placeAll environment number (placed transactionId terms ids)) := by
  induction terms generalizing ids world with
  | nil => exact books
  | cons first rest induction =>
      have placedFirst := books.place fresh (rfl : (⟨transactionId, ids, first⟩ :
        PlacedOrder).drawn = ids)
      rw [List.length_cons, Nat.add_comm rest.length 1, ← Nat.add_assoc]
      exact induction placedFirst

theorem itemType_acknowledge (environment : Environment) (world : World) (poNumber other : Nat) :
    ((world.acknowledge environment poNumber).procurement.pos other).itemType =
      (world.procurement.pos other).itemType := by
  simp only [World.acknowledge, Procurement.updatePOStatus, Function.update_apply]
  split
  · rename_i same
    rw [same]
  · rfl

/-- An invoice is accepted for an issued order only. -/
theorem Books.ordered_of_billed (books : Books environment number ids made world)
    {poNumber : Nat} {itemPrice : Option String} {terms : InvoiceTerms}
    (bills : billed environment poNumber (world.procurement.pos poNumber) itemPrice =
      some terms) : ∃ drawn < ids, poNumber = number drawn := by
  apply books.ordered
  intro untyped
  have typed := (encodedFields_of_billed bills).1
  rw [encoded_itemType, untyped] at typed
  cases typed

/-- The row of the text gets the id, and no other row does. -/
theorem Books.rows_invoice (books : Books environment number ids made world) (poId : String)
    (invoiceId : String) (poNumber invoiceNumber : Nat) (terms : InvoiceTerms) :
    ((world.acknowledge environment poNumber).invoice environment poId invoiceId invoiceNumber
        terms).rows =
      world.rows.map fun row =>
        if row.poId == some poId then { row with invoiceId := some invoiceId } else row := by
  apply updateFirst_eq_map
  have distinct := books.distinct
  rw [List.Nodup, List.pairwise_map] at distinct
  refine distinct.imp fun {first second} different both => different ?_
  rw [beq_iff_eq.mp both.1, beq_iff_eq.mp both.2]

/-- An invoice with the next id. -/
theorem Books.invoice (fresh : FreshIds environment number)
    (books : Books environment number ids made world) {poId : String} {poNumber : Nat}
    (encoded : environment.encodeUint poId = some poNumber) {itemPrice : Option String}
    {terms : InvoiceTerms}
    (bills : billed environment poNumber (world.procurement.pos poNumber) itemPrice =
      some terms) :
    Books environment number (ids + 1) (made ++ [⟨poId, environment.uniqueId ids⟩])
      ((world.acknowledge environment poNumber).invoice environment poId
        (environment.uniqueId ids) (number ids) terms) := by
  have later := books.mono (Nat.le_succ ids)
  have rows := books.rows_invoice poId (environment.uniqueId ids) poNumber (number ids) terms
  have kept : ∀ row : Row, (if row.poId == some poId then
      { row with invoiceId := some (environment.uniqueId ids) } else row).poId = row.poId := by
    intro row
    split <;> rfl
  have unused : ∀ drawn < ids, number drawn ≠ number ids := by
    intro drawn early same
    have equal := fresh.injective same
    omega
  constructor
  · intro other nonzero
    apply later.ordered
    rw [← itemType_acknowledge environment world poNumber]
    exact nonzero
  · intro row member
    rw [rows] at member
    rcases List.mem_map.mp member with ⟨old, oldMember, rfl⟩
    rw [kept]
    exact later.rows old oldMember
  · rw [rows, List.map_map]
    exact (List.map_congr_left fun row _ => kept row) ▸ books.distinct
  · intro row member named namedBy
    rw [rows] at member
    rcases List.mem_map.mp member with ⟨old, oldMember, rfl⟩
    rw [kept] at namedBy
    rw [lastInvoice_append, namedBy]
    by_cases same : poId = named
    · rw [if_pos same, if_pos (beq_iff_eq.mpr (congrArg some same.symm))]
    · rw [if_neg same, if_neg fun equal => same (Option.some.inj (beq_iff_eq.mp equal)).symm]
      exact books.linked old oldMember named namedBy
  · rw [List.map_append, ← books.issued]
    simp [World.invoice, World.bill, World.acknowledge, Procurement.issueInvoice,
      Procurement.updatePOStatus, fresh.encoded]
  · intro invoicing member
    rcases List.mem_append.mp member with old | new
    · rcases books.drawn invoicing old with ⟨drawn, early, answered, named⟩
      refine ⟨drawn, by omega, answered, named.trans ?_⟩
      rw [World.invoice, World.bill, Procurement.invoices_issueInvoice_of_ne _ _ _ _ _ _ _ _ _
        (unused drawn early)]
      rfl
    · rw [List.mem_singleton.mp new]
      refine ⟨ids, Nat.lt_succ_self ids, rfl, encoded.trans ?_⟩
      rw [World.invoice, World.bill, Procurement.invoices_issueInvoice_self,
        (encodedFields_of_billed bills).2.2.2]
  · intro invoicing member
    rcases List.mem_append.mp member with old | new
    · exact later.named invoicing old
    · rw [List.mem_singleton.mp new]
      rcases books.ordered_of_billed bills with ⟨drawn, early, same⟩
      exact ⟨drawn, by omega, same ▸ encoded⟩
  · have absent : environment.uniqueId ids ∉ made.map Invoicing.invoiceId := by
      intro present
      rcases List.mem_map.mp present with ⟨invoicing, member, same⟩
      rcases books.drawn invoicing member with ⟨drawn, early, answered, _⟩
      have equal := fresh.uniqueId_injective (answered.symm.trans same)
      omega
    rw [List.map_append, List.map_singleton, ← List.concat_eq_append]
    exact books.once.concat absent

end Books

section Runs

variable {environment : Environment} {number : Nat → Nat} {cell : Nat → Nat}

/-- A sequence and its books. -/
def Booked (number : Nat → Nat) (sequence : Sequence (api environment cell)) : Prop :=
  Books environment number sequence.globals.ids (invoicings sequence) sequence.world

theorem Booked.next (fresh : FreshIds environment number)
    {sequence : Sequence (api environment cell)} (booked : Booked number sequence)
    {request : Request} (ends : OrdersOrInvoices sequence request) :
    Booked number (sequence.next request) := by
  rcases ends with ⟨⟨items, rfl⟩ | ⟨poId, itemPrice, rfl⟩, response, succeeds⟩
  · rcases next_of_ordered fresh.encoded succeeds with ⟨all, _, world, ids⟩
    have made : invoicings (sequence.next (.postPurchaseOrder items)) = invoicings sequence := by
      simp [invoicings, Sequence.next, invoicing]
    rw [Booked, made, world, ids, ← length_accepted all]
    exact (booked.mono (Nat.le_succ _)).placeAll fresh _ _
  · rcases next_of_invoiced fresh.encoded succeeds with
      ⟨poNumber, terms, encoded, bills, rfl, world, ids⟩
    have made : invoicings (sequence.next (.postInvoice poId itemPrice)) =
        invoicings sequence ++ [⟨poId, environment.uniqueId sequence.globals.ids⟩] := by
      simp [invoicings, Sequence.next, succeeds, invoicing]
    rw [Booked, made, world, ids]
    exact booked.invoice fresh encoded bills

theorem booked_of_run (fresh : FreshIds environment number) {globals : Globals}
    {requests : List Request} {final : Sequence (api environment cell)}
    (run : Transitions (Sequence.Step OrdersOrInvoices)
      (.initial (World.deployed environment) globals) requests final) : Booked number final := by
  apply run.invariant (Booked number) _ (books_deployed environment number globals.ids)
  intro sequence request next booked step
  rw [step.1]
  exact booked.next fresh step.2

end Runs

/-! ## Links -/

/-- Every invoice of the chain was answered to a request, has the id that the
request named as its `poId`, and every row has the last invoice of its `po_id`. -/
structure InvoicesAccounted (environment : Environment) (made : List Invoicing) (world : World) :
    Prop where
  onChain : world.procurement.invoiceArray.map some =
    made.map fun invoicing => environment.encodeUint invoicing.invoiceId
  once : world.procurement.invoiceArray.Nodup
  poIds : ∀ invoicing ∈ made, ∃ number,
    environment.encodeUint invoicing.invoiceId = some number ∧
    environment.encodeUint invoicing.poId = some (world.procurement.invoices number).poId
  rows : ∀ row ∈ world.rows, ∃ poId, row.poId = some poId ∧
    row.invoiceId = lastInvoice made poId

/-- Every purchase order has at most one invoice, and the invoices of the chain are
those of the rows, each in the row of its purchase order. -/
structure OneInvoiceEach (environment : Environment) (world : World) : Prop where
  once : world.procurement.invoiceArray.Nodup
  single : ∀ first ∈ world.procurement.invoiceArray, ∀ second ∈ world.procurement.invoiceArray,
    (world.procurement.invoices first).poId = (world.procurement.invoices second).poId →
      first = second
  listed : ∀ number, number ∈ world.procurement.invoiceArray ↔
    ∃ row ∈ world.rows, ∃ invoiceId, row.invoiceId = some invoiceId ∧
      environment.encodeUint invoiceId = some number
  linked : ∀ row ∈ world.rows, ∀ invoiceId number, row.invoiceId = some invoiceId →
    environment.encodeUint invoiceId = some number →
      row.poId.bind environment.encodeUint = some (world.procurement.invoices number).poId

section Links

variable {environment : Environment} {number : Nat → Nat} {ids : Nat} {made : List Invoicing}
  {world : World}

theorem Books.mem_invoiceArray_iff (books : Books environment number ids made world)
    {invoice : Nat} : invoice ∈ world.procurement.invoiceArray ↔
      ∃ invoicing ∈ made, environment.encodeUint invoicing.invoiceId = some invoice := by
  have members : some invoice ∈ world.procurement.invoiceArray.map some ↔
      some invoice ∈ made.map fun invoicing => environment.encodeUint invoicing.invoiceId := by
    rw [books.issued]
  simpa using members

theorem Books.eq_of_encoded (fresh : FreshIds environment number)
    (books : Books environment number ids made world) {first second : Invoicing}
    (firstMember : first ∈ made) (secondMember : second ∈ made)
    (same : environment.encodeUint first.invoiceId = environment.encodeUint second.invoiceId) :
    first = second := by
  rcases books.drawn first firstMember with ⟨drawn, _, answered, _⟩
  rcases books.drawn second secondMember with ⟨other, _, otherAnswered, _⟩
  rw [answered, otherAnswered, fresh.encoded, fresh.encoded] at same
  have equal := fresh.injective (Option.some.inj same)
  refine List.inj_on_of_nodup_map books.once firstMember secondMember ?_
  rw [answered, otherAnswered, equal]

theorem Books.poId_of_encoded (fresh : FreshIds environment number)
    (books : Books environment number ids made world) {invoicing : Invoicing} {invoice : Nat}
    (member : invoicing ∈ made)
    (encoded : environment.encodeUint invoicing.invoiceId = some invoice) :
    environment.encodeUint invoicing.poId = some (world.procurement.invoices invoice).poId := by
  rcases books.drawn invoicing member with ⟨drawn, _, answered, named⟩
  rw [answered, fresh.encoded] at encoded
  rw [named, Option.some.inj encoded]

theorem Books.accounted (fresh : FreshIds environment number)
    (books : Books environment number ids made world) :
    InvoicesAccounted environment made world where
  onChain := books.issued
  once := by
    apply List.Nodup.of_map some
    rw [books.issued]
    exact books.once.of_map.map_on fun first firstMember second secondMember same =>
      books.eq_of_encoded fresh firstMember secondMember same
  poIds := by
    intro invoicing member
    rcases books.drawn invoicing member with ⟨drawn, _, answered, named⟩
    exact ⟨number drawn, answered ▸ fresh.encoded drawn, named⟩
  rows := by
    intro row member
    rcases books.rows row member with ⟨drawn, _, named⟩
    exact ⟨_, named, books.linked row member _ named⟩

/-- Chain and table agree exactly if no purchase order was invoiced twice and every
request named its order as the row does. -/
theorem Books.oneInvoiceEach_iff (fresh : FreshIds environment number)
    (books : Books environment number ids made world) :
    OneInvoiceEach environment world ↔
      (made.map fun invoicing => environment.encodeUint invoicing.poId).Nodup ∧
        ∀ invoicing ∈ made, ∃ row ∈ world.rows, row.poId = some invoicing.poId := by
  have accounted := books.accounted fresh
  constructor
  · intro each
    constructor
    · refine books.once.of_map.map_on fun first firstMember second secondMember same => ?_
      rcases accounted.poIds first firstMember with ⟨firstNumber, firstEncoded, firstNamed⟩
      rcases accounted.poIds second secondMember with ⟨secondNumber, secondEncoded, secondNamed⟩
      have equal := each.single firstNumber
        (books.mem_invoiceArray_iff.mpr ⟨first, firstMember, firstEncoded⟩) secondNumber
        (books.mem_invoiceArray_iff.mpr ⟨second, secondMember, secondEncoded⟩)
        (Option.some.inj (firstNamed.symm.trans (same.trans secondNamed)))
      refine books.eq_of_encoded fresh firstMember secondMember ?_
      rw [firstEncoded, secondEncoded, equal]
    · intro invoicing member
      rcases accounted.poIds invoicing member with ⟨invoice, encoded, _⟩
      rcases (each.listed invoice).mp (books.mem_invoiceArray_iff.mpr ⟨invoicing, member, encoded⟩)
        with ⟨row, rowMember, invoiceId, written, rowEncoded⟩
      rcases accounted.rows row rowMember with ⟨poId, named, last⟩
      have latest := mem_of_lastInvoice (last.symm.trans written)
      have same := books.eq_of_encoded fresh latest member (rowEncoded.trans encoded.symm)
      exact ⟨row, rowMember, named.trans (congrArg (fun made => some made.poId) same)⟩
  · rintro ⟨once, spelled⟩
    constructor
    · exact accounted.once
    · intro first firstMember second secondMember same
      rcases books.mem_invoiceArray_iff.mp firstMember with ⟨one, oneMember, oneEncoded⟩
      rcases books.mem_invoiceArray_iff.mp secondMember with ⟨other, otherMember, otherEncoded⟩
      have oneNamed := books.poId_of_encoded fresh oneMember oneEncoded
      have otherNamed := books.poId_of_encoded fresh otherMember otherEncoded
      have equal := List.inj_on_of_nodup_map once oneMember otherMember
        (oneNamed.trans ((congrArg some same).trans otherNamed.symm))
      rw [equal, otherEncoded] at oneEncoded
      exact (Option.some.inj oneEncoded).symm
    · intro invoice
      rw [books.mem_invoiceArray_iff]
      constructor
      · rintro ⟨invoicing, member, encoded⟩
        rcases spelled invoicing member with ⟨row, rowMember, named⟩
        refine ⟨row, rowMember, invoicing.invoiceId, ?_, encoded⟩
        rw [books.linked row rowMember _ named]
        refine lastInvoice_of_unique member fun other otherMember same => ?_
        exact List.inj_on_of_nodup_map once otherMember member
          (congrArg environment.encodeUint same)
      · rintro ⟨row, rowMember, invoiceId, written, encoded⟩
        rcases accounted.rows row rowMember with ⟨poId, _, last⟩
        exact ⟨_, mem_of_lastInvoice (last.symm.trans written), encoded⟩
    · intro row rowMember invoiceId invoice written encoded
      rcases accounted.rows row rowMember with ⟨poId, named, last⟩
      rw [named]
      exact books.poId_of_encoded fresh (mem_of_lastInvoice (last.symm.trans written)) encoded

end Links

/-- In every run of purchase order and invoice requests that end without an error,
the invoices are accounted for, and chain and table agree on one invoice for each
purchase order exactly if none was invoiced twice and every request named its
order as the row does. -/
theorem invoices_accounted (environment : Environment) (number : Nat → Nat)
    (fresh : FreshIds environment number) (cell : Nat → Nat) (globals : Globals)
    (requests : List Request) (final : Sequence (api environment cell))
    (run : Transitions (Sequence.Step OrdersOrInvoices)
      (.initial (World.deployed environment) globals) requests final) :
    InvoicesAccounted environment (invoicings final) final.world ∧
      (OneInvoiceEach environment final.world ↔
        ((invoicings final).map fun invoicing =>
            environment.encodeUint invoicing.poId).Nodup ∧
          ∀ invoicing ∈ invoicings final, ∃ row ∈ final.world.rows,
            row.poId = some invoicing.poId) := by
  have books := booked_of_run fresh run
  exact ⟨books.accounted fresh, books.oneInvoiceEach_iff fresh⟩

/-- An order that is invoiced once. -/
theorem cheeseInvoice_accounted :
    ∃ final : Sequence (api testNetwork fun _ => 0),
      Transitions (Sequence.Step OrdersOrInvoices) newNetwork [cheeseOrder, cheeseInvoice]
        final ∧
      final.world.procurement.invoiceArray = [1002] ∧ OneInvoiceEach testNetwork final.world := by
  have run : Transitions (Sequence.Step OrdersOrInvoices) newNetwork [cheeseOrder, cheeseInvoice]
      ((newNetwork.next cheeseOrder).next cheeseInvoice) :=
    .cons ⟨rfl, .inl ⟨_, rfl⟩, _, rfl⟩ (.cons ⟨rfl, .inr ⟨_, _, rfl⟩, _, rfl⟩ (.nil _))
  refine ⟨_, run, by decide +kernel, ?_⟩
  apply (invoices_accounted testNetwork _ testNetwork_fresh _ _ _ _ run).2.mpr
  have made : invoicings ((newNetwork.next cheeseOrder).next cheeseInvoice) =
      [⟨"1001", "1002"⟩] := by decide +kernel
  rw [made]
  refine ⟨List.nodup_singleton _, fun invoicing member => ?_⟩
  rw [List.mem_singleton.mp member]
  exact ⟨⟨some "1000", some "CHEESECO", some "1001", some "1002", none⟩, by decide +kernel, rfl⟩

/-- The order 1001 is invoiced twice, over 5 and over 6. -/
theorem invoicedTwice_not_oneInvoiceEach :
    ∃ final : Sequence (api testNetwork fun _ => 0),
      Transitions (Sequence.Step OrdersOrInvoices) newNetwork
        [cheeseOrder, cheeseInvoice, .postInvoice "1001" (some "6")] final ∧
      ¬OneInvoiceEach testNetwork final.world := by
  refine ⟨_, .cons ⟨rfl, .inl ⟨_, rfl⟩, _, rfl⟩ (.cons ⟨rfl, .inr ⟨_, _, rfl⟩, _, rfl⟩
    (.cons ⟨rfl, .inr ⟨_, _, rfl⟩, _, rfl⟩ (.nil _))), fun each => ?_⟩
  have same := each.single 1002 (by decide +kernel) 1003 (by decide +kernel) (by decide +kernel)
  exact absurd same (by decide)

end PizzaChain.Api
