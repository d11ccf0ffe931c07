import PizzaChain.Api.ConcurrentTokens
import PizzaChain.Api.Invoicing
import PizzaChain.Api.IssuedTerms

/-! # The procurement table refers to the chain

A row names an order, an invoice and a token by their ids, and nothing but the order
of the calls in the handlers makes these references good. They are good in every state
of every interleaving: a row is written only after what it names is on the chain, and
nothing on the chain goes away.
-/

namespace PizzaChain.Api

open PizzaChain.Chain

/-! ## What chain and table say of each other -/

/-- The terms that an invoice shares with its order. -/
def orderTermsOf (invoice : Invoice) : OrderTerms :=
  ⟨invoice.supplierId, invoice.itemType, invoice.qty, invoice.uom⟩

/-- No id is issued twice, nor to an order and an invoice. What is not issued has no
terms, every invoice bills an issued order on its own terms, and issued records have
the statuses of their kind. -/
structure ChainIntact (state : Procurement) : Prop where
  ordersOnce : state.poArray.Nodup
  invoicesOnce : state.invoiceArray.Nodup
  apart : ∀ id ∈ state.poArray, id ∉ state.invoiceArray
  nonzero : 0 ∉ state.poArray
  unordered : ∀ poId ∉ state.poArray, (state.pos poId).terms = default
  unbilled : ∀ invoiceId ∉ state.invoiceArray, (state.invoices invoiceId).terms = default
  billed : ∀ invoiceId ∈ state.invoiceArray,
    (state.invoices invoiceId).poId ∈ state.poArray ∧
      orderTermsOf (state.invoices invoiceId) =
        (state.pos (state.invoices invoiceId).poId).terms
  orderStatus : ∀ poId ∈ state.poArray, ∃ status : PoStatus,
    (state.pos poId).status = status.text
  invoiceStatus : ∀ invoiceId ∈ state.invoiceArray,
    (state.invoices invoiceId).status = InvoiceStatus.issued.text ∨
      (state.invoices invoiceId).status = InvoiceStatus.paymentReceived.text

section Rows

variable (environment : Environment) (world : World)

/-- The order that the row is of. -/
def Row.order (row : Row) : Option Nat := row.poId.bind environment.encodeUint

/-- The text names an invoice that bills the order. -/
def Bills (invoiceId : String) (poNumber : Nat) : Prop :=
  ∃ invoice, environment.encodeUint invoiceId = some invoice ∧
    invoice ∈ world.procurement.invoiceArray ∧
    (world.procurement.invoices invoice).poId = poNumber

/-- The token has the hash of the invoice's description for its id, and an owner. -/
def Tokenizes (invoiceId tokenId : String) : Prop :=
  ∃ invoice hash token, environment.encodeUint invoiceId = some invoice ∧
    environment.rootHash (metadataOf invoiceId (world.procurement.invoices invoice)) =
      some hash ∧
    tokenId = "0x" ++ hash ∧ environment.encodeUint tokenId = some token ∧
    world.token.tokenOwner token ≠ 0

/-- The row is of an issued order with the row's supplier. Its invoice bills this order,
and its token was made for an invoice that does. -/
structure RowIntact (row : Row) (poNumber : Nat) : Prop where
  transaction : row.transactionId.isSome
  named : row.order environment = some poNumber
  ordered : poNumber ∈ world.procurement.poArray
  supplier : row.supplierId = some (world.procurement.pos poNumber).supplierId
  invoiced : ∀ invoiceId, row.invoiceId = some invoiceId →
    Bills environment world invoiceId poNumber
  linked : ∀ tokenId, row.tokenId = some tokenId → ∃ invoiceId,
    Bills environment world invoiceId poNumber ∧ Tokenizes environment world invoiceId tokenId

structure Intact : Prop where
  chain : ChainIntact world.procurement
  rows : ∀ row ∈ world.rows, ∃ poNumber, RowIntact environment world row poNumber
  distinct : (world.rows.map (Row.order environment)).Nodup

end Rows

theorem chainIntact_deployed : ChainIntact .deployed where
  ordersOnce := List.nodup_nil
  invoicesOnce := List.nodup_nil
  apart := nofun
  nonzero := nofun
  unordered := fun _ _ => rfl
  unbilled := fun _ _ => rfl
  billed := nofun
  orderStatus := nofun
  invoiceStatus := nofun

theorem intact_deployed (environment : Environment) :
    Intact environment (World.deployed environment) where
  chain := chainIntact_deployed
  rows := nofun
  distinct := List.nodup_nil

/-! ### What stays as the world grows -/

section Extends

variable {environment : Environment} {before after : World} (extended : Extends before after)

include extended

theorem Bills.extends {invoiceId : String} {poNumber : Nat}
    (bills : Bills environment before invoiceId poNumber) :
    Bills environment after invoiceId poNumber := by
  rcases bills with ⟨invoice, encoded, member, order⟩
  refine ⟨invoice, encoded, extended.procurement.invoices.subset member, ?_⟩
  have terms := extended.procurement.invoiceTerms invoice member
  exact (congrArg InvoiceTerms.poId terms).trans order

/-- The description of an issued invoice is that of its terms. -/
theorem metadataOf_extends {invoiceId : String} {invoice : Nat}
    (member : invoice ∈ before.procurement.invoiceArray) :
    metadataOf invoiceId (after.procurement.invoices invoice) =
      metadataOf invoiceId (before.procurement.invoices invoice) := by
  have terms := extended.procurement.invoiceTerms invoice member
  simp only [Invoice.terms, InvoiceTerms.mk.injEq] at terms
  simp only [metadataOf, terms]

theorem Tokenizes.extends {invoiceId tokenId : String} {poNumber : Nat}
    (bills : Bills environment before invoiceId poNumber)
    (tokenizes : Tokenizes environment before invoiceId tokenId) :
    Tokenizes environment after invoiceId tokenId := by
  rcases bills with ⟨billed, billedBy, member, _⟩
  rcases tokenizes with ⟨invoice, hash, token, encoded, hashes, named, number, owned⟩
  have same : billed = invoice := Option.some.inj (billedBy.symm.trans encoded)
  subst same
  refine ⟨billed, hash, token, encoded, ?_, named, number, extended.tokens token owned⟩
  rw [metadataOf_extends extended member]
  exact hashes

theorem RowIntact.extends {row : Row} {poNumber : Nat}
    (intact : RowIntact environment before row poNumber) :
    RowIntact environment after row poNumber where
  transaction := intact.transaction
  named := intact.named
  ordered := extended.procurement.orders.subset intact.ordered
  supplier := by
    have terms := extended.procurement.orderTerms poNumber intact.ordered
    rw [intact.supplier]
    exact congrArg some (congrArg OrderTerms.supplierId terms.symm)
  invoiced := fun invoiceId written => (intact.invoiced invoiceId written).extends extended
  linked := by
    intro tokenId written
    rcases intact.linked tokenId written with ⟨invoiceId, bills, tokenizes⟩
    exact ⟨invoiceId, bills.extends extended, tokenizes.extends extended bills⟩

end Extends

/-! ## One transaction -/

/-- What a transaction must respect. -/
def Sound (state : Procurement) : ProcurementCall → Prop
  | .issuePO poId _ _ _ _ status =>
      poId ≠ 0 ∧ (poId ∉ state.poArray ∧ poId ∉ state.invoiceArray) ∧
        status = PoStatus.issued.text
  | .issueInvoice invoiceId poId supplierId itemType qty uom _ status =>
      (invoiceId ∉ state.poArray ∧ invoiceId ∉ state.invoiceArray) ∧
        (poId ∈ state.poArray ∧ (state.pos poId).terms = ⟨supplierId, itemType, qty, uom⟩) ∧
        status = InvoiceStatus.issued.text
  | .updatePOStatus poId status =>
      (∃ known : PoStatus, status = known.text) ∨ poId ∈ state.invoiceArray
  | .updateInvoiceStatus _ status => status = InvoiceStatus.paymentReceived.text

theorem Sound.extends {state : Procurement} {call : ProcurementCall} (sound : Sound state call) :
    ProcurementExtends state (state.apply call) := by
  apply extends_apply
  · intro id issued
    cases call with
    | issuePO poId supplierId itemType qty uom status =>
        cases issued
        exact sound.2.1
    | issueInvoice invoiceId poId supplierId itemType qty uom price status =>
        cases issued
        exact sound.1
    | updatePOStatus poId status => cases issued
    | updateInvoiceStatus invoiceId status => cases issued
  · rintro invoiceId status rfl
    exact sound

section Transaction

variable {state : Procurement} (intact : ChainIntact state)

include intact

theorem ChainIntact.issuePO {poId : Nat} {supplierId : String} {itemType qty : Nat}
    {uom status : String}
    (sound : Sound state (.issuePO poId supplierId itemType qty uom status)) :
    ChainIntact (state.apply (.issuePO poId supplierId itemType qty uom status)) := by
  have extended := sound.extends
  rcases sound with ⟨nonzero, ⟨unordered, unbilled⟩, status_eq⟩
  refine { intact with
    ordersOnce := ?_, apart := ?_, nonzero := ?_, unordered := ?_, billed := ?_,
    orderStatus := ?_ }
  · rw [Procurement.apply, Procurement.issuePO, ← List.concat_eq_append]
    exact intact.ordersOnce.concat unordered
  · intro id member
    rcases List.mem_append.mp member with old | new
    · exact intact.apart id old
    · rw [List.mem_singleton.mp new]
      exact unbilled
  · intro member
    rcases List.mem_append.mp member with old | new
    · exact intact.nonzero old
    · exact nonzero (List.mem_singleton.mp new).symm
  · intro other absent
    have different : other ≠ poId := by
      rintro rfl
      exact absent (List.mem_append_right _ (List.mem_singleton_self _))
    simp only [Procurement.apply, Procurement.issuePO, Function.update_of_ne different]
    exact intact.unordered other fun member => absent (List.mem_append_left _ member)
  · intro invoiceId member
    rcases intact.billed invoiceId member with ⟨ordered, terms⟩
    exact ⟨List.mem_append_left _ ordered, terms.trans (extended.orderTerms _ ordered).symm⟩
  · intro other member
    by_cases same : other = poId
    · refine ⟨.issued, ?_⟩
      simp only [Procurement.apply, Procurement.issuePO, same, Function.update_self]
      exact status_eq
    · simp only [Procurement.apply, Procurement.issuePO, Function.update_of_ne same]
      rcases List.mem_append.mp member with old | new
      · exact intact.orderStatus other old
      · exact absurd (List.mem_singleton.mp new) same

theorem ChainIntact.issueInvoice {invoiceId poId : Nat} {supplierId : String}
    {itemType qty : Nat} {uom : String} {price : Nat} {status : String}
    (sound : Sound state
      (.issueInvoice invoiceId poId supplierId itemType qty uom price status)) :
    ChainIntact
      (state.apply (.issueInvoice invoiceId poId supplierId itemType qty uom price status)) := by
  rcases sound with ⟨⟨unordered, unbilled⟩, ⟨ordered, terms⟩, status_eq⟩
  have kept : ∀ other, other ≠ invoiceId →
      (state.apply (.issueInvoice invoiceId poId supplierId itemType qty uom price
        status)).invoices other = state.invoices other :=
    fun other different => Procurement.invoices_issueInvoice_of_ne _ _ _ _ _ _ _ _ _ different
  have new : (state.apply (.issueInvoice invoiceId poId supplierId itemType qty uom price
      status)).invoices invoiceId = ⟨poId, supplierId, itemType, qty, uom, price, status⟩ :=
    Procurement.invoices_issueInvoice_self _ _ _ _ _ _ _ _ _
  refine { intact with
    invoicesOnce := ?_, apart := ?_, unbilled := ?_, billed := ?_, invoiceStatus := ?_ }
  · rw [Procurement.apply, Procurement.issueInvoice, ← List.concat_eq_append]
    exact intact.invoicesOnce.concat unbilled
  · intro id member listed
    rcases List.mem_append.mp listed with old | last
    · exact intact.apart id member old
    · exact unordered (List.mem_singleton.mp last ▸ member)
  · intro other absent
    have different : other ≠ invoiceId := by
      rintro rfl
      exact absent (List.mem_append_right _ (List.mem_singleton_self _))
    rw [kept other different]
    exact intact.unbilled other fun member => absent (List.mem_append_left _ member)
  · intro other member
    by_cases same : other = invoiceId
    · rw [same, new]
      exact ⟨ordered, terms.symm⟩
    · rw [kept other same]
      rcases List.mem_append.mp member with old | last
      · exact intact.billed other old
      · exact absurd (List.mem_singleton.mp last) same
  · intro other member
    by_cases same : other = invoiceId
    · rw [same, new]
      exact .inl status_eq
    · rw [kept other same]
      rcases List.mem_append.mp member with old | last
      · exact intact.invoiceStatus other old
      · exact absurd (List.mem_singleton.mp last) same

theorem ChainIntact.updatePOStatus {poId : Nat} {status : String}
    (sound : Sound state (.updatePOStatus poId status)) :
    ChainIntact (state.apply (.updatePOStatus poId status)) := by
  have terms : ∀ other, ((state.apply (.updatePOStatus poId status)).pos other).terms =
      (state.pos other).terms := by
    intro other
    by_cases same : other = poId
    · simp only [Procurement.apply, Procurement.updatePOStatus, same, Function.update_self]
      rfl
    · simp only [Procurement.apply, Procurement.updatePOStatus, Function.update_of_ne same]
  refine { intact with unordered := ?_, billed := ?_, orderStatus := ?_ }
  · intro other absent
    rw [terms]
    exact intact.unordered other absent
  · intro invoiceId member
    rcases intact.billed invoiceId member with ⟨ordered, same⟩
    exact ⟨ordered, same.trans (terms _).symm⟩
  · intro other member
    by_cases same : other = poId
    · simp only [Procurement.apply, Procurement.updatePOStatus, same, Function.update_self]
      rcases sound with known | invoice
      · exact known
      · exact absurd invoice (intact.apart poId (same ▸ member))
    · simp only [Procurement.apply, Procurement.updatePOStatus, Function.update_of_ne same]
      exact intact.orderStatus other member

theorem ChainIntact.updateInvoiceStatus {invoiceId : Nat} {status : String}
    (sound : Sound state (.updateInvoiceStatus invoiceId status)) :
    ChainIntact (state.apply (.updateInvoiceStatus invoiceId status)) := by
  have others : ∀ other, other ≠ invoiceId →
      (state.apply (.updateInvoiceStatus invoiceId status)).invoices other =
        state.invoices other :=
    fun other different => Procurement.invoices_updateInvoiceStatus_of_ne _ _ _ different
  have own : (state.apply (.updateInvoiceStatus invoiceId status)).invoices invoiceId =
      { state.invoices invoiceId with status := status } :=
    Procurement.invoices_updateInvoiceStatus_self _ _ _
  refine { intact with unbilled := ?_, billed := ?_, invoiceStatus := ?_ }
  · intro other absent
    by_cases same : other = invoiceId
    · rw [same, own]
      exact intact.unbilled invoiceId (same ▸ absent)
    · rw [others other same]
      exact intact.unbilled other absent
  · intro other member
    by_cases same : other = invoiceId
    · rw [same, own]
      exact intact.billed invoiceId (same ▸ member)
    · rw [others other same]
      exact intact.billed other member
  · intro other member
    by_cases same : other = invoiceId
    · rw [same, own]
      exact .inr sound
    · rw [others other same]
      exact intact.invoiceStatus other member

theorem ChainIntact.apply {call : ProcurementCall} (sound : Sound state call) :
    ChainIntact (state.apply call) := by
  cases call with
  | issuePO poId supplierId itemType qty uom status => exact intact.issuePO sound
  | issueInvoice invoiceId poId supplierId itemType qty uom price status =>
      exact intact.issueInvoice sound
  | updatePOStatus poId status => exact intact.updatePOStatus sound
  | updateInvoiceStatus invoiceId status => exact intact.updateInvoiceStatus sound

end Transaction

/-! ## What a call must rest on -/

theorem mem_updateFirst {condition : Row → Bool} {change : Row → Row} {rows : List Row} {row : Row}
    (member : row ∈ updateFirst condition change rows) :
    row ∈ rows ∨ ∃ old ∈ rows, condition old = true ∧ row = change old := by
  induction rows with
  | nil => cases member
  | cons first rest induction =>
      rw [updateFirst] at member
      split at member
      · rename_i met
        rcases List.mem_cons.mp member with rfl | later
        · exact .inr ⟨first, List.mem_cons_self, met, rfl⟩
        · exact .inl (List.mem_cons_of_mem _ later)
      · rcases List.mem_cons.mp member with rfl | later
        · exact .inl List.mem_cons_self
        · rcases induction later with old | ⟨old, oldMember, met, equal⟩
          · exact .inl (List.mem_cons_of_mem _ old)
          · exact .inr ⟨old, List.mem_cons_of_mem _ oldMember, met, equal⟩

theorem map_updateFirst {condition : Row → Bool} {change : Row → Row} {part : Row → α}
    (keeps : ∀ row, part (change row) = part row) (rows : List Row) :
    (updateFirst condition change rows).map part = rows.map part := by
  induction rows with
  | nil => rfl
  | cons first rest induction =>
      rw [updateFirst]
      split
      · rw [List.map_cons, List.map_cons, keeps]
      · rw [List.map_cons, List.map_cons, induction]

/-- No row is of the order. -/
def Unlisted (environment : Environment) (world : World) (poNumber : Nat) : Prop :=
  ∀ row ∈ world.rows, row.order environment ≠ some poNumber

/-- The id is among those that the calls issued. -/
def HasIssued (trace : List (Event server)) (id : Nat) : Prop :=
  ∃ event ∈ trace, event.call.issues = some id

/-- What the call refers to is there. A row is saved once for an order that the same
request has issued. -/
def Backed (environment : Environment) (world : World) (trace : List (Event server)) :
    Call → Prop
  | .issueInvoice _ poId supplierId itemType qty uom _ _ =>
      ∀ order type quantity, poId = some order → itemType = some type → qty = some quantity →
        order ∈ world.procurement.poArray ∧
          (world.procurement.pos order).terms = ⟨supplierId, type, quantity, uom⟩
  | .updatePOStatus poId status => ∀ order, poId = some order →
      (∃ known : PoStatus, status = known.text) ∨ order ∈ world.procurement.invoiceArray
  | .saveRow row => ∃ transactionId poId poNumber,
      row = ⟨some transactionId, some (world.procurement.pos poNumber).supplierId, some poId,
        none, none⟩ ∧
      environment.encodeUint poId = some poNumber ∧ poNumber ∈ world.procurement.poArray ∧
      HasIssued trace poNumber ∧ Unlisted environment world poNumber
  | .updateInvoice poId invoiceId _ =>
      ∃ poNumber, environment.encodeUint poId = some poNumber ∧
        Bills environment world invoiceId poNumber
  | .updateTokenId invoiceId tokenId =>
      (∃ poNumber, Bills environment world invoiceId poNumber) ∧
        Tokenizes environment world invoiceId tokenId
  | _ => True

/-- The id that the call issues is not taken. -/
def Unused (world : World) (call : Call) : Prop :=
  ∀ id, call.issues = some id →
    id ≠ 0 ∧ id ∉ world.procurement.poArray ∧ id ∉ world.procurement.invoiceArray

section Served

variable {environment : Environment} {world : World} {trace : List (Event server)}

theorem sound_of_backed {request : Request} {call : Call} {sent : ProcurementCall}
    (sends : call.procurementCall = some sent) (unused : Unused world call)
    (backed : Backed environment world trace call)
    (may : request.MayCall environment call) : Sound world.procurement sent := by
  cases call with
  | issuePO poId supplierId itemType qty uom status =>
      have free : ∀ id, issuedBy sent = some id → _ :=
        fun id issued => unused id (issues_of_sent sends issued)
      simp only [Call.procurementCall, Option.bind_eq_bind, Option.bind_eq_some_iff] at sends
      rcases sends with ⟨id, _, _, _, _, _, _, _, _, _, equal⟩
      cases equal
      exact ⟨(free id rfl).1, (free id rfl).2, may.2⟩
  | issueInvoice invoiceId poId supplierId itemType qty uom price status =>
      have free : ∀ id, issuedBy sent = some id → _ :=
        fun id issued => unused id (issues_of_sent sends issued)
      simp only [Call.procurementCall, Option.bind_eq_bind, Option.bind_eq_some_iff] at sends
      rcases sends with ⟨id, _, order, ordered, type, typed, quantity, counted, _, _, equal⟩
      cases equal
      exact ⟨(free id rfl).2, backed order type quantity ordered typed counted, may.2⟩
  | updatePOStatus poId status =>
      rcases Option.map_eq_some_iff.mp sends with ⟨order, encoded, rfl⟩
      exact backed order encoded
  | updateInvoiceStatus invoiceId status =>
      rcases Option.map_eq_some_iff.mp sends with ⟨_, _, rfl⟩
      rcases may with ⟨_, _, _, _, _, paid⟩
      exact paid
  | _ => cases sends

/-- The rows after a call, each with what it was before. -/
theorem rows_serve {call : Call} {row : Row}
    (member : row ∈ (serve environment call world).2.rows) :
    row ∈ world.rows ∨ call = .saveRow row ∨
      (∃ poId invoiceId itemPrice old, call = .updateInvoice poId invoiceId itemPrice ∧
        old ∈ world.rows ∧ old.poId = some poId ∧
        row = { old with invoiceId := some invoiceId }) ∨
      ∃ invoiceId tokenId old, call = .updateTokenId invoiceId tokenId ∧ old ∈ world.rows ∧
        old.invoiceId = some invoiceId ∧ row = { old with tokenId := some tokenId } := by
  by_cases changes : call.changes = some .rows
  · cases call with
    | saveRow saved =>
        rcases List.mem_append.mp member with old | new
        · exact .inl old
        · exact .inr (.inl (congrArg Call.saveRow (List.mem_singleton.mp new).symm))
    | updateInvoice poId invoiceId itemPrice =>
        rw [serve] at member
        split at member
        · rcases mem_updateFirst member with old | ⟨old, oldMember, met, rfl⟩
          · exact .inl old
          · exact .inr (.inr (.inl ⟨poId, invoiceId, itemPrice, old, rfl, oldMember,
              beq_iff_eq.mp met, rfl⟩))
        · exact .inl member
    | updateTokenId invoiceId tokenId =>
        rcases mem_updateFirst member with old | ⟨old, oldMember, met, rfl⟩
        · exact .inl old
        · exact .inr (.inr (.inr ⟨invoiceId, tokenId, old, rfl, oldMember, beq_iff_eq.mp met,
            rfl⟩))
    | _ => simp [Call.changes] at changes
  · rw [(serve_framed environment call world).rows changes] at member
    exact .inl member

/-- No call but the one that saves a row adds an order to the table. -/
theorem orders_serve {call : Call} (other : ∀ row, call ≠ .saveRow row) :
    (serve environment call world).2.rows.map (Row.order environment) =
      world.rows.map (Row.order environment) := by
  by_cases changes : call.changes = some .rows
  · cases call with
    | saveRow row => exact absurd rfl (other row)
    | updateInvoice poId invoiceId itemPrice =>
        rw [serve]
        split
        · apply map_updateFirst
          exact fun _ => rfl
        · rfl
    | updateTokenId invoiceId tokenId =>
        apply map_updateFirst
        exact fun _ => rfl
    | _ => simp [Call.changes] at changes
  · rw [(serve_framed environment call world).rows changes]

theorem extends_of_unused {request : Request} {call : Call} (unused : Unused world call)
    (may : request.MayCall environment call) :
    Extends world (serve environment call world).2 := by
  apply extends_serve
  · exact fun id issues => (unused id issues).2
  · rintro invoiceId status rfl
    rcases may with ⟨_, _, _, _, _, paid⟩
    exact paid

theorem Intact.serve {request : Request} {call : Call} (intact : Intact environment world)
    (unused : Unused world call) (backed : Backed environment world trace call)
    (may : request.MayCall environment call) :
    Intact environment (serve environment call world).2 := by
  have extended := extends_of_unused unused may
  constructor
  · rw [serve_procurement]
    cases runs : call.applied environment world.procurement with
    | none => exact intact.chain
    | some sent =>
        have sends := procurementCall_of_applied runs
        exact intact.chain.apply (sound_of_backed sends unused backed may)
  · intro row member
    suffices ∃ poNumber, RowIntact environment world row poNumber by
      rcases this with ⟨poNumber, rowIntact⟩
      exact ⟨poNumber, rowIntact.extends extended⟩
    rcases rows_serve member with old | rfl |
      ⟨poId, invoiceId, itemPrice, old, rfl, oldMember, named, rfl⟩ |
      ⟨invoiceId, tokenId, old, rfl, oldMember, invoiced, rfl⟩
    · exact intact.rows row old
    · rcases backed with ⟨transactionId, poId, poNumber, rfl, encoded, ordered, _, _⟩
      exact ⟨poNumber, rfl, encoded, ordered, rfl, nofun, nofun⟩
    · rcases intact.rows old oldMember with ⟨poNumber, oldIntact⟩
      rcases backed with ⟨order, encoded, bills⟩
      have same : poNumber = order := by
        have oldNamed := oldIntact.named
        rw [Row.order, named] at oldNamed
        exact Option.some.inj (oldNamed.symm.trans encoded)
      subst same
      refine ⟨poNumber, { oldIntact with invoiced := fun written equal => ?_ }⟩
      cases equal
      exact bills
    · rcases intact.rows old oldMember with ⟨poNumber, oldIntact⟩
      refine ⟨poNumber, { oldIntact with linked := fun written equal => ?_ }⟩
      cases equal
      exact ⟨invoiceId, oldIntact.invoiced invoiceId invoiced, backed.2⟩
  · by_cases saves : ∃ row, call = .saveRow row
    · rcases saves with ⟨row, rfl⟩
      rcases backed with ⟨transactionId, poId, poNumber, rfl, encoded, _, _, unlisted⟩
      have absent : some poNumber ∉ world.rows.map (Row.order environment) := by
        intro present
        rcases List.mem_map.mp present with ⟨other, member, named⟩
        exact unlisted other member named
      simp only [Api.serve, List.map_append, List.map_cons, List.map_nil, Row.order,
        Option.bind_some, encoded]
      rw [← List.concat_eq_append]
      exact intact.distinct.concat absent
    · rw [orders_serve fun row equal => saves ⟨row, equal⟩]
      exact intact.distinct

end Served

/-! ## The discipline -/

section Discipline

variable (environment : Environment) {number : Nat → Nat}

/-- The world only grows, and no other request saves a row for an order that this one
has issued. -/
def backing : Discipline (sharedApi environment) where
  assumes := fun request _ call view => Intact environment view.world ∧
    Unused view.world call ∧ Request.MayCall environment request call
  rely := fun _ _ view later => later.trace = view.trace ∧ Extends view.world later.world ∧
    ∀ poNumber, HasIssued view.trace poNumber → Unlisted environment view.world poNumber →
      Unlisted environment later.world poNumber
  rely_refl := fun _ _ view => ⟨rfl, .refl _, fun _ _ unlisted => unlisted⟩
  rely_trans := by
    rintro _ _ first second third ⟨sameTrace, early, unlisted⟩ ⟨laterTrace, late, still⟩
    refine ⟨laterTrace.trans sameTrace, early.trans late, fun poNumber issued free => ?_⟩
    apply still poNumber
    · rw [sameTrace]
      exact issued
    · exact unlisted poNumber issued free
  holds := fun _ moment view =>
    match moment with
    | .waiting _ call => Backed environment view.world view.trace call
    | _ => True
  changes := fun _ _ _ _ => True

variable {environment} {request : Request} {origin : Option Point} {before : Globals}
  {view : View (sharedApi environment)} {point : Point}

/-- A call of a request that knows how the world was at an earlier moment. -/
theorem backing_call {start : World} {call : Call}
    {continuation : call.Answer → Handler (Response Data)} (known : Extends start view.world)
    (backed : ∀ world, Extends start world → Backed environment world view.trace call)
    (continues : ∀ world next answer (resumed : View (sharedApi environment)),
      Intact environment world → Unused world call → Extends start world →
      serve environment call world = (.ok answer, next) → Extends start next →
      Extends next resumed.world →
      (backing environment).Robust request (some point) resumed.globals (continuation answer)
        resumed) :
    (backing environment).Robust request origin before (wait point call >>= continuation)
      view := by
  apply Discipline.robust_call trivial
  rintro later ⟨sameTrace, grown, _⟩
  have knownLater := known.trans grown
  refine ⟨?_, ?_⟩
  · have supported := backed later.world knownLater
    rw [← sameTrace] at supported
    exact supported
  · rintro ⟨intact, unused, may⟩ outcome next served resumed ⟨_, grows, _⟩
    refine ⟨trivial, ?_, fun _ _ => ⟨trivial, fun _ _ => trivial⟩⟩
    rintro answer rfl
    have own : Extends later.world next := by
      have extended := extends_of_unused unused may
      rw [show serve environment call later.world = (.ok answer, next) from served] at extended
      exact extended
    exact continues later.world next answer resumed intact unused knownLater served
      (knownLater.trans own) grows

/-- What only makes calls that need no support, or that are supported by what was
known before. -/
theorem backing_of_calls {start : World} (known : Extends start view.world)
    {program : Handler (Response Data)}
    (calls : program.Calls fun call => ∀ world trace, Extends start world →
      Backed environment world trace call) :
    (backing environment).Robust request origin before program view := by
  induction program generalizing origin before view with
  | done result => exact ⟨trivial, fun _ _ => trivial⟩
  | fail error => exact ⟨trivial, fun _ _ => trivial⟩
  | read next induction => exact induction view.globals known (calls _)
  | write globals next induction =>
      exact @induction origin before { view with globals := globals } known calls
  | await point call next induction =>
      refine ⟨trivial, fun later grown => ?_⟩
      have knownLater := known.trans grown.2.1
      refine ⟨calls.1 _ _ knownLater, ?_⟩
      rintro ⟨_, unused, may⟩ resumed ⟨_, grows, _⟩
      refine ⟨trivial, induction _ ?_ (calls.2 _)⟩
      exact (knownLater.trans (extends_of_unused unused may)).trans grows

/-! ### Purchase orders -/

/-- An order that the contract accepts is listed with its supplier, and no row is of it
yet. -/
theorem issued_of_served {world next : World} {item : PurchaseItem} {poId : String}
    {poNumber : Nat} {receipt : Receipt} (intact : Intact environment world)
    (encoded : environment.encodeUint poId = some poNumber)
    (unused : poNumber ∉ world.procurement.poArray)
    (served : serve environment (.issuePO (environment.encodeUint poId) item.supplierId
      (item.itemType.bind (itemTypes.lookup ·)) item.qty item.uom PoStatus.issued.text) world =
        (.ok receipt, next)) :
    ∃ supplierId, item.supplierId = some supplierId ∧
      poNumber ∈ next.procurement.poArray ∧
      (next.procurement.pos poNumber).supplierId = supplierId ∧
      Unlisted environment next poNumber := by
  rw [encoded] at served
  rcases order_of_served served with ⟨terms, accepts, rows, ordered⟩
  refine ⟨terms.supplierId, (PurchaseItem.terms_eq_some_iff.mp accepts).1, ?_, ?_, ?_⟩
  · rw [ordered]
    exact List.mem_append_right _ (List.mem_singleton_self _)
  · rw [ordered]
    simp only [orderCall, Procurement.apply, Procurement.issuePO, Function.update_self]
  · intro row member named
    rw [rows] at member
    rcases intact.rows row member with ⟨order, rowIntact⟩
    cases rowIntact.named.symm.trans named
    exact unused rowIntact.ordered

theorem backing_issueItems (fresh : FreshIds environment number) (transactionId : String)
    (items : List PurchaseItem) {continuation : List String → Handler (Response Data)}
    (continues : ∀ poIds origin before (view : View (sharedApi environment)),
      (backing environment).Robust request origin before (continuation poIds) view) :
    (backing environment).Robust request origin before
      (Controller.issueItems environment transactionId items >>= continuation) view := by
  induction items generalizing origin before view continuation with
  | nil => exact continues [] origin before view
  | cons item items induction =>
      simp only [Controller.issueItems, Controller.uniqueId, Program.bind_assoc,
        ProcurementClient.createPO, ProcurementService.createProcurement, Program.pure_eq_done,
        Program.done_bind]
      apply Discipline.robust_get
      apply Discipline.robust_modify
      apply Discipline.robust_call trivial
      rintro later ⟨_, _, _⟩
      refine ⟨trivial, ?_⟩
      rintro ⟨intact, unused, _⟩ outcome next served resumed ⟨trace, grows, free⟩
      refine ⟨trivial, ?_, fun _ _ => ⟨trivial, fun _ _ => trivial⟩⟩
      rintro receipt rfl
      have encoded := fresh.encoded view.globals.ids
      rcases issued_of_served intact encoded (unused _ encoded).2.1 served with
        ⟨supplierId, supplied, ordered, supplies, unlisted⟩
      have issued : HasIssued resumed.trace (number view.globals.ids) := by
        rw [trace]
        exact ⟨_, List.mem_append_right _ (List.mem_singleton_self _), encoded⟩
      have stillUnlisted := free _ (trace ▸ issued) unlisted
      -- What was just issued backs the row until it is saved.
      apply Discipline.robust_call trivial
      rintro waiting ⟨sameTrace, grown, stays⟩
      refine ⟨?_, ?_⟩
      · refine ⟨transactionId, _, number view.globals.ids, ?_, encoded, ?_, ?_, ?_⟩
        · have terms := (grows.trans grown).procurement.orderTerms _ ordered
          rw [supplied, ← supplies]
          rw [show (waiting.world.procurement.pos (number view.globals.ids)).supplierId = _ from
            congrArg OrderTerms.supplierId terms]
          rfl
        · exact (grows.trans grown).procurement.orders.subset ordered
        · rw [sameTrace]
          exact issued
        · exact stays _ issued stillUnlisted
      · rintro _ outcome next served resumed _
        refine ⟨trivial, ?_, fun _ _ => ⟨trivial, fun _ _ => trivial⟩⟩
        rintro _ rfl
        apply induction
        intro poIds origin before view
        exact continues _ origin before view

/-! ### Invoices -/

/-- What web3 accepts of an order that was read is the terms of an issued order. -/
theorem ordered_of_read {world later : World} (intact : ChainIntact world.procurement)
    (grown : Extends world later) {poId : String} {order type quantity : Nat}
    (typed : (Controller.mapPOData poId (world.procurement.getPOById order)).itemType.bind
      (itemTypes.lookup ·) = some type)
    (counted : encodeNumber
      (Controller.mapPOData poId (world.procurement.getPOById order)).qty = some quantity) :
    order ∈ later.procurement.poArray ∧ (later.procurement.pos order).terms =
      ⟨(world.procurement.pos order).supplierId, type, quantity,
        (world.procurement.pos order).uom⟩ := by
  have listed : order ∈ world.procurement.poArray := by
    by_contra absent
    have untyped := congrArg OrderTerms.itemType (intact.unordered order absent)
    simp only [Controller.mapPOData, Procurement.getPOById] at typed
    rw [show (world.procurement.pos order).itemType = 0 from untyped] at typed
    exact absurd typed (by simp [getKeyByValue, itemTypes, roundToDouble])
  refine ⟨grown.procurement.orders.subset listed, ?_⟩
  rw [grown.procurement.orderTerms order listed]
  simp only [Controller.mapPOData, Procurement.getPOById, encoded_itemType,
    encodeNumber_roundToDouble, Option.ite_none_right_eq_some, Option.some.injEq] at typed counted
  rw [PO.terms, typed.2, counted.2]

theorem bills_of_served {world next : World} {invoiceId : String} {invoice order : Nat}
    {supplierId uom status : String} {itemType qty price : Option Nat} {receipt : Receipt}
    (encoded : environment.encodeUint invoiceId = some invoice)
    (served : serve environment (.issueInvoice (some invoice) (some order) supplierId itemType qty
      uom price status) world = (.ok receipt, next)) :
    Bills environment next invoiceId order := by
  rcases procure_of_ok served with ⟨sent, sends, applied⟩
  simp only [Option.bind_eq_bind, Option.bind_eq_some_iff] at sends
  rcases sends with ⟨_, ⟨⟩, _, ⟨⟩, _, _, _, _, _, _, ⟨⟩⟩
  refine ⟨invoice, encoded, ?_, ?_⟩
  · rw [applied]
    exact List.mem_append_right _ (List.mem_singleton_self _)
  · rw [applied]
    exact congrArg Invoice.poId (Procurement.invoices_issueInvoice_self ..)

theorem backing_postInvoice (fresh : FreshIds environment number) (poId : String)
    (itemPrice : Option String) :
    (backing environment).Robust request origin before
      (handle environment (.postInvoice poId itemPrice)) view := by
  simp only [handle, Controller.ackPO, Controller.issueInvoice, Controller.uniqueId,
    ProcurementClient.getPOById, ProcurementClient.updatePOStatus,
    ProcurementClient.createInvoice, ProcurementService.updateInvoice, Program.bind_assoc,
    Program.pure_eq_done, Program.done_bind]
  apply backing_call (.refl _)
  · exact fun _ _ => trivial
  intro world next po resumed intact _ _ read _ grown
  cases encoded : environment.encodeUint poId with
  | none =>
      rw [encoded] at read
      cases read
  | some order =>
      rw [encoded] at read
      cases read
      apply backing_call grown
      · exact fun _ _ _ _ => .inl ⟨.acknowledged, rfl⟩
      intro _ _ _ resumed _ _ _ _ acknowledged since
      apply Discipline.robust_get
      apply Discipline.robust_modify
      rw [fresh.encoded]
      apply backing_call
      · exact acknowledged.trans since
      · intro later known other type quantity ordered typed counted
        cases (encoded.symm.trans ordered)
        exact ordered_of_read intact.chain known typed counted
      intro _ issued _ resumed _ _ _ served _ since
      have named : environment.encodeUint
          (Controller.mapPOData poId (world.procurement.getPOById order)).poId = some order :=
        encoded
      rw [named] at served
      have bills := bills_of_served (fresh.encoded _) served
      apply backing_call since
      · exact fun _ known => ⟨order, encoded, bills.extends known⟩
      intro _ _ _ _ _ _ _ _ _ _
      exact ⟨trivial, fun _ _ => trivial⟩

/-! ### Tokens -/

theorem minted_of_served {world next : World} {tokenId : Option Nat} {receipt : Receipt}
    (served : serve environment (.mint tokenId) world = (.ok receipt, next)) :
    ∃ token, tokenId = some token ∧ next.token.tokenOwner token ≠ 0 := by
  rcases serve_mint environment tokenId world with
    ⟨_, _, rejected⟩ | ⟨token, minted, named, _, owners, mints⟩
  · cases rejected.symm.trans served
  · cases mints.symm.trans served
    refine ⟨token, named, ?_⟩
    rw [World.mined, owners, Function.update_self]
    exact environment.nonzero environment.admin List.mem_cons_self

theorem recipient_of_served {world next : World} {caller sender recipient : Option Address}
    {tokenId : Option Nat} {receipt : Receipt}
    (served : serve environment (.transferFrom caller sender recipient tokenId) world =
      (.ok receipt, next)) : ∃ address, recipient = some address := by
  cases recipient with
  | none => cases caller <;> cases sender <;> cases served
  | some address => exact ⟨address, rfl⟩

/-- An invoice with a known supplier has been issued. -/
theorem issued_of_supplier {state : Procurement} (intact : ChainIntact state) {invoice : Nat}
    {account : Address}
    (known : (accountNumbers.lookup (state.invoices invoice).supplierId).bind
      (environment.accounts[·]?) = some account) : invoice ∈ state.invoiceArray := by
  by_contra absent
  have unnamed := congrArg InvoiceTerms.supplierId (intact.unbilled invoice absent)
  rw [show (state.invoices invoice).supplierId = "" from unnamed,
    show accountNumbers.lookup "" = none by decide] at known
  cases known

/-- The part of `makeTokens` that follows the minting. -/
theorem backing_minted {world : World} (intact : ChainIntact world.procurement)
    {invoiceId : String} {invoice token : Nat} {hash : String}
    (encoded : environment.encodeUint invoiceId = some invoice)
    (hashes : environment.rootHash
      (metadataOf invoiceId (world.procurement.invoices invoice)) = some hash)
    (named : environment.encodeUint ("0x" ++ hash) = some token) {minted : World}
    (early : Extends world minted) (owned : minted.token.tokenOwner token ≠ 0)
    (known : Extends minted view.world)
    {continuation : Response (String × String) → Handler (Response Data)}
    (continues : ∀ response origin before (view : View (sharedApi environment)),
      (backing environment).Robust request origin before (continuation response) view) :
    (backing environment).Robust request origin before ((do
      let _ ← ItemTokenClient.transfer environment (accountNumbers.lookup "ADMIN")
        (accountNumbers.lookup (world.procurement.invoices invoice).supplierId) ("0x" ++ hash)
      Controller.updatedPOStatus (world.procurement.invoices invoice).poId .pendingDelivery
      ProcurementService.updateTokenId invoiceId ("0x" ++ hash)
      return (⟨200, "Tokens transferred to Supplier",
        ((world.procurement.invoices invoice).supplierId, "0x" ++ hash), none⟩ :
          Response (String × String))) >>= continuation) view := by
  simp only [ItemTokenClient.transfer, Controller.updatedPOStatus, ProcurementClient.getPOById,
    ProcurementClient.updatePOStatus, ProcurementService.updateTokenId, Program.bind_assoc,
    Program.pure_eq_done, Program.done_bind]
  apply backing_call known
  · exact fun _ _ => trivial
  intro _ _ accounts resumed _ _ _ _ known since
  apply Discipline.robust_modify
  apply backing_call
  · exact known.trans since
  · exact fun _ _ => trivial
  intro _ _ accounts resumed _ _ _ answered known since
  cases answered
  apply Discipline.robust_modify
  apply Discipline.robust_get
  apply backing_call
  · exact known.trans since
  · exact fun _ _ => trivial
  intro _ _ receipt resumed _ _ _ served known since
  rcases recipient_of_served served with ⟨address, supplied⟩
  have issued := issued_of_supplier intact supplied
  apply backing_call (known.trans since)
  · exact fun _ _ => trivial
  intro _ _ po resumed _ _ _ _ known since
  apply backing_call (known.trans since)
  · exact fun _ _ _ _ => .inl ⟨.pendingDelivery, rfl⟩
  intro _ _ receipt resumed _ _ _ _ known since
  apply backing_call (known.trans since)
  · intro later known
    have bills : Bills environment world invoiceId (world.procurement.invoices invoice).poId :=
      ⟨invoice, encoded, issued, rfl⟩
    refine ⟨⟨_, bills.extends (early.trans known)⟩, invoice, hash, token, encoded, ?_, rfl, named,
      known.tokens token owned⟩
    rw [metadataOf_extends (early.trans known) issued]
    exact hashes
  intro _ _ _ resumed _ _ _ _ _ _
  exact continues _ _ _ _

theorem backing_makeTokens (invoiceId : String) :
    (backing environment).Robust request origin before
      (handle environment (.makeTokens invoiceId)) view := by
  simp only [handle, Controller.makeTokens, Controller.mintItemToken,
    ProcurementClient.getInvoiceById, Program.bind_assoc]
  apply backing_call (.refl _)
  · exact fun _ _ => trivial
  intro world next invoice resumed intact _ _ read _ grown
  cases encoded : environment.encodeUint invoiceId with
  | none =>
      rw [encoded] at read
      cases read
  | some invoice =>
      rw [encoded] at read
      cases read
      apply backing_call grown
      · exact fun _ _ => trivial
      intro _ _ answer resumed _ _ _ posted known since
      have hashes : answer = environment.rootHash
          (metadataOf invoiceId (world.procurement.invoices invoice)) := by
        have answered := congrArg Prod.fst posted
        rw [serve_swarmPost] at answered
        exact (Except.ok.inj answered).symm
      cases answer with
      | none => exact ⟨trivial, fun _ _ => trivial⟩
      | some hash =>
          simp only [ItemTokenClient.mint, Program.bind_assoc, Program.pure_eq_done,
            Program.done_bind]
          apply backing_call (known.trans since)
          · exact fun _ _ => trivial
          intro _ minted receipt resumed _ _ _ served known since
          rcases minted_of_served served with ⟨token, named, owned⟩
          have rest := @backing_minted _ request (some .contract) resumed.globals resumed _
            intact.chain _ _ _ _ encoded hashes.symm named _ known owned since
            (fun response =>
              .done ((Controller.generateQRCode environment response.data.2).map .file))
            fun response origin before view => ⟨trivial, fun _ _ => trivial⟩
          simp only [Program.bind_assoc, Program.pure_eq_done, Program.done_bind] at rest
          exact rest

/-! ### The other requests -/

theorem backing_postPurchaseOrder (fresh : FreshIds environment number)
    (items : List PurchaseItem) :
    (backing environment).Robust request origin before
      (handle environment (.postPurchaseOrder items)) view := by
  simp only [handle, Controller.issuePO, Controller.uniqueId, Program.bind_assoc,
    Program.pure_eq_done, Program.done_bind]
  apply Discipline.robust_get
  apply Discipline.robust_modify
  apply backing_issueItems fresh
  exact fun _ _ _ _ => ⟨trivial, fun _ _ => trivial⟩

theorem backed_of_reads {world : World} {trace : List (Event server)} {call : Call}
    (reads : call.reads = true) : Backed environment world trace call := by
  cases call <;> trivial

/-- The row that was read for the token refers to an issued invoice. -/
theorem backing_transferToken (tokenId supplierId payerId : String) :
    (backing environment).Robust request origin before
      (handle environment (.transferToken tokenId supplierId payerId)) view := by
  simp only [handle, Controller.getTransactionByTokenId,
    ProcurementService.getProcurementByTokenId, Program.bind_assoc, Program.pure_eq_done,
    Program.done_bind]
  apply backing_call (.refl _)
  · exact fun _ _ => trivial
  intro world next rows resumed intact _ _ read _ grown
  cases read
  have reads : ∀ call : Call, call.reads = true → ∀ later trace, Extends world later →
      Backed environment later trace call := fun _ reads _ _ _ => backed_of_reads reads
  apply backing_of_calls grown
  refine Program.Calls.bind ?_ fun _ => ?_
  · refine (transferToken_calls environment reads _ _ _ ?_).bind fun details => ?_
    · exact fun _ _ _ _ _ => trivial
    rw [Controller.recordDelivery]
    split
    · split
      · trivial
      · rename_i row rest found
        apply (Program.Calls.call _ _).bind
        · intro _
          refine (Program.Calls.call _ ?_).bind fun _ => trivial
          intro later trace known invoice encoded
          rcases Option.bind_eq_some_iff.mp encoded with ⟨invoiceId, invoiced, named⟩
          have member : row ∈ world.rows :=
            List.mem_of_mem_filter (found ▸ List.mem_cons_self)
          rcases intact.rows row member with ⟨poNumber, rowIntact⟩
          rcases rowIntact.invoiced invoiceId invoiced with ⟨billed, same, listed, _⟩
          cases named.symm.trans same
          exact .inr (known.procurement.invoices.subset listed)
        · exact fun _ _ _ _ _ => .inl ⟨.delivered, rfl⟩
    · trivial
  · exact ((retrieveMetadata_reads tokenId).mono reads).bind fun _ => trivial

theorem backing_handle (fresh : FreshIds environment number) :
    (backing environment).Robust request origin before (handle environment request) view := by
  -- What is not one of the four writes nothing that refers to an id.
  have others : (∀ call, request.MayCall environment call →
      ∀ world trace, Backed environment world trace call) →
      (backing environment).Robust request origin before (handle environment request) view :=
    fun free => backing_of_calls (.refl _)
      ((handle_mayCall environment request).mono fun call may world trace _ => free call may _ _)
  cases request with
  | postPurchaseOrder items => exact backing_postPurchaseOrder fresh items
  | postInvoice poId itemPrice => exact backing_postInvoice fresh poId itemPrice
  | makeTokens invoiceId => exact backing_makeTokens invoiceId
  | transferToken tokenId supplierId payerId =>
      exact backing_transferToken tokenId supplierId payerId
  | _ =>
      apply others
      intro call may world trace
      cases call <;> simp [Request.MayCall] at may <;> trivial

end Discipline

/-! ## Runs -/

section Runs

variable {environment : Environment} {number : Nat → Nat} {globals : Nat → Globals}

theorem backing_respected (fresh : FreshIds environment number) (globals : Nat → Globals) :
    (backing environment).Respected fun pool _ =>
      True ∧ (∃ actions, ServerRun environment globals actions pool) ∧
        Intact environment pool.world where
  assumed := by
    rintro pool index request point call next found ⟨_, ⟨actions, run⟩, intact⟩
    refine ⟨intact, fun id issues => ⟨?_, unused_of_waiting fresh run found issues⟩,
      mayCall_of_waiting run found⟩
    rcases ((ids_unique fresh run).waiting index _ id found issues).2 with ⟨draw, _, _, rfl⟩
    exact fresh.nonzero draw
  serve := by
    rintro pool index request point call next found ⟨_, ⟨actions, run⟩, _⟩ backed other task
      different _
    refine ⟨rfl, extends_of_waiting fresh run found, ?_⟩
    rintro poNumber ⟨issue, issued, stamp⟩ unlisted row member named
    rcases rows_serve member with old | rfl | ⟨_, _, _, old, rfl, oldMember, _, rfl⟩ |
      ⟨_, _, old, rfl, oldMember, _, rfl⟩
    · exact unlisted row old named
    · -- Only the request that issued the order saves a row for it.
      rcases backed with ⟨_, _, _, rfl, encoded, _, ⟨ownIssue, ownIssued, ownStamp⟩, _⟩
      cases encoded.symm.trans named
      have same := (ids_unique fresh run).eq_of_stamp (Pool.mem_trace.mp issued)
        (Pool.mem_trace.mp ownIssued) stamp ownStamp
      exact different (congrArg Prod.fst same)
    · exact unlisted old oldMember named
    · exact unlisted old oldMember named
  resume := fun _ _ _ _ _ _ _ _ _ _ _ _ _ _ => ⟨rfl, .refl _, fun _ _ unlisted => unlisted⟩
  start := fun _ _ _ _ _ _ _ _ _ => ⟨rfl, .refl _, fun _ _ unlisted => unlisted⟩
  handlers := fun _ _ _ _ => backing_handle fresh

/-- The invariant and the discipline support each other. -/
theorem kept_and_intact (fresh : FreshIds environment number)
    {actions : List (Action (sharedApi environment))} {pool : Pool (sharedApi environment)}
    (run : ServerRun environment globals actions pool) :
    (backing environment).Kept pool ∧
      (∃ actions, ServerRun environment globals actions pool) ∧ Intact environment pool.world := by
  apply (backing_respected fresh globals).sound_along _ run (Discipline.kept_initial _ _ _)
  · exact ⟨⟨[], .nil _⟩, intact_deployed environment⟩
  · rintro current action next kept ⟨⟨before, reached⟩, intact⟩ step
    refine ⟨⟨before ++ [action], reached.append (.cons step (.nil _))⟩, ?_⟩
    cases Pool.step_cases step.1 with
    | start request => exact intact
    | @serve index request point call rest found =>
        have assumed := (backing_respected fresh globals).assumed current index request point call
          rest found ⟨trivial, ⟨before, reached⟩, intact⟩
        exact intact.serve assumed.2.1 (kept.tasks index _ found).holds assumed.2.2
    | resume found => exact intact

end Runs

/-- In every state of every interleaving of any requests, the table, the two lists of
the contract and the tokens fit together. -/
theorem intact_of_run (environment : Environment) (number : Nat → Nat)
    (fresh : FreshIds environment number) (globals : Nat → Globals)
    (actions : List (Action (sharedApi environment))) (pool : Pool (sharedApi environment))
    (run : ServerRun environment globals actions pool) : Intact environment pool.world :=
  (kept_and_intact fresh run).2.2

/-- Two orders whose calls alternate. -/
def crossedOrders : List (Action (sharedApi testNetwork)) :=
  [.start cheeseOrder, .start cheeseOrder, .serve 1, .serve 0, .resume 0, .resume 1, .serve 0,
    .serve 1]

theorem crossedOrders_intact :
    ∃ pool, ServerRun testNetwork (fun _ => Globals.initial) crossedOrders pool ∧
      pool.world.rows.map Row.poId = [some "1001", some "1003"] ∧
      Intact testNetwork pool.world := by
  have ran : ((Pool.initial (World.deployed testNetwork) fun _ => Globals.initial).run
        (fun _ _ => true) crossedOrders).map (fun pool => pool.world.rows.map Row.poId) =
      some [some "1001", some "1003"] := by decide +kernel
  rcases Option.map_eq_some_iff.mp ran with ⟨pool, runs, listed⟩
  have run := Pool.transitions_of_free_run runs
  exact ⟨pool, run, listed, intact_of_run testNetwork _ testNetwork_fresh _ _ pool run⟩

end PizzaChain.Api
