import PizzaChain.Api.PaymentAlone
import PizzaChain.Api.Routes
import PizzaChain.Semantics.Sequence

/-! # What PAYMENT RECEIVED means

`payment` does not ask whether the invoice exists, nor whether the payee is its
supplier. The status says that the supplier has been paid when every payment
that goes through is one of an issued invoice to its supplier.
-/

namespace PizzaChain.Api

open PizzaChain.Chain

variable {environment : Environment} {cell : Nat → Nat}

/-- The record is of a payment of the invoice, and its transfer has credited the
supplier with the price. -/
def Credits (number : Nat) (invoice : Invoice) (record : Record (api environment cell)) : Prop :=
  ∃ invoiceId payerId supplierId account nonce receipt,
    record.request = .paySupplier invoiceId payerId supplierId ∧
    environment.encodeUint invoiceId = some number ∧
    supplierAccount environment invoice.supplierId = some account ∧
    ⟨.sendTransaction,
      .transfer (accountAt environment.accounts payerId) (some account) invoice.price nonce,
      .ok receipt⟩ ∈ record.trace

/-- Every invoice that is marked as paid was issued and is paid. -/
def ReceivedSound (procurement : Procurement) (history : List (Record (api environment cell))) :
    Prop :=
  ∀ number, (procurement.invoices number).status = InvoiceStatus.paymentReceived.text →
    number ∈ procurement.invoiceArray ∧
      ∃ record ∈ history, Credits number (procurement.invoices number) record

/-- A payment that goes through is one of an issued invoice to its supplier. -/
def paysSupplier (environment : Environment) (world : World) : Request → Bool
  | .paySupplier invoiceId payerId supplierId =>
      match environment.encodeUint invoiceId, accountAt environment.accounts payerId,
        accountAt environment.accounts supplierId with
      | some invoice, some payer, some payee =>
          !settles environment world.coin payer payee (priceOf world invoice) ||
            (world.procurement.invoiceArray.contains invoice &&
              supplierAccount environment (world.procurement.invoices invoice).supplierId ==
                some payee)
      | _, _, _ => true
  | _ => true

/-! ## Requests that are no payments -/

theorem ReceivedSound.mono {procurement : Procurement}
    {history : List (Record (api environment cell))} (sound : ReceivedSound procurement history)
    (more : List (Record (api environment cell))) :
    ReceivedSound procurement (history ++ more) := by
  intro number received
  rcases sound number received with ⟨issued, record, member, credits⟩
  exact ⟨issued, record, List.mem_append_left _ member, credits⟩

/-- Unissued invoices have no price. -/
def Unpriced (procurement : Procurement) : Prop :=
  ∀ number, number ∉ procurement.invoiceArray → (procurement.invoices number).price = 0

theorem ReceivedSound.issue {procurement : Procurement}
    {history : List (Record (api environment cell))} (sound : ReceivedSound procurement history)
    (invoiceId poId : Nat) (supplierId : String) (itemType qty : Nat) (uom : String) (price : Nat) :
    ReceivedSound (procurement.issueInvoice invoiceId poId supplierId itemType qty uom price
      InvoiceStatus.issued.text) history := by
  intro number received
  by_cases same : number = invoiceId
  · subst same
    simp [InvoiceStatus.text] at received
  · rw [Procurement.invoices_issueInvoice_of_ne _ _ _ _ _ _ _ _ _ same] at received ⊢
    rcases sound number received with ⟨issued, credited⟩
    exact ⟨List.mem_append_left _ issued, credited⟩

theorem Unpriced.issue {procurement : Procurement} (unpriced : Unpriced procurement)
    (invoiceId poId : Nat) (supplierId : String) (itemType qty : Nat) (uom : String) (price : Nat)
    (status : String) :
    Unpriced (procurement.issueInvoice invoiceId poId supplierId itemType qty uom price
      status) := by
  intro number unissued
  simp only [Procurement.issueInvoice, List.mem_append, List.mem_singleton, not_or] at unissued
  rw [Procurement.invoices_issueInvoice_of_ne _ _ _ _ _ _ _ _ _ unissued.2]
  exact unpriced number unissued.1

theorem Unpriced.update {procurement : Procurement} (unpriced : Unpriced procurement)
    (invoiceId : Nat) (status : String) :
    Unpriced (procurement.updateInvoiceStatus invoiceId status) := by
  intro number unissued
  have price := unpriced number unissued
  by_cases same : number = invoiceId
  · subst same
    simpa using price
  · rw [Procurement.invoices_updateInvoiceStatus_of_ne _ _ _ same]
    exact price

/-- The calls of a request that is no payment keep both properties. -/
theorem sound_of_mayCall {request : Request}
    (other : ∀ invoiceId payerId supplierId, request ≠ .paySupplier invoiceId payerId supplierId)
    (history : List (Record (api environment cell))) {call : Call} {world : World}
    (allowed : request.MayCall environment call)
    (sound : ReceivedSound world.procurement history ∧ Unpriced world.procurement) :
    ReceivedSound (serve environment call world).2.procurement history ∧
      Unpriced (serve environment call world).2.procurement := by
  have effect := invoice_effect environment call world
  generalize (serve environment call world).2.procurement = after at effect ⊢
  cases effect with
  | same invoices issued =>
      rw [ReceivedSound, Unpriced, invoices, issued]
      exact sound
  | issue =>
      rw [allowed.2]
      exact ⟨sound.1.issue _ _ _ _ _ _ _, sound.2.issue _ _ _ _ _ _ _ _⟩
  | update =>
      rcases allowed with ⟨invoiceId, payerId, supplierId, payment, _⟩
      exact absurd payment (other invoiceId payerId supplierId)

/-! ## Payments -/

/-- A settled payment of an issued invoice to its supplier justifies the status. -/
theorem ReceivedSound.pay {procurement : Procurement}
    {history : List (Record (api environment cell))} (sound : ReceivedSound procurement history)
    {number : Nat} (issued : number ∈ procurement.invoiceArray)
    {record : Record (api environment cell)}
    (credits : Credits number (procurement.invoices number) record) :
    ReceivedSound (procurement.updateInvoiceStatus number InvoiceStatus.paymentReceived.text)
      (history ++ [record]) := by
  intro other received
  by_cases same : other = number
  · subst same
    refine ⟨issued, record, List.mem_append_right _ (List.mem_singleton_self _), ?_⟩
    rw [Procurement.invoices_updateInvoiceStatus_self]
    exact credits
  · rw [Procurement.invoices_updateInvoiceStatus_of_ne _ _ _ same] at received ⊢
    exact sound.mono [record] other received

/-- The state is sound, and unissued invoices have no price. -/
structure SoundSequence (sequence : Sequence (api environment cell)) : Prop where
  sound : ReceivedSound sequence.world.procurement sequence.history
  unpriced : Unpriced sequence.world.procurement

theorem SoundSequence.of_unchanged {sequence : Sequence (api environment cell)}
    (before : SoundSequence sequence) {request : Request}
    (same : (sequence.next request).world.procurement = sequence.world.procurement) :
    SoundSequence (sequence.next request) where
  sound := by
    rw [same]
    exact before.sound.mono _
  unpriced := by
    rw [same]
    exact before.unpriced

theorem SoundSequence.payment {sequence : Sequence (api environment cell)}
    (before : SoundSequence sequence) {invoiceId payerId supplierId : String}
    (pays : paysSupplier environment sequence.world
      (.paySupplier invoiceId payerId supplierId) = true) :
    SoundSequence (sequence.next (.paySupplier invoiceId payerId supplierId)) := by
  by_cases missing : environment.encodeUint invoiceId = none ∨
      accountAt environment.accounts payerId = none ∨
      accountAt environment.accounts supplierId = none
  · have ends := paySupplier_alone_of_missing missing sequence.view
    exact before.of_unchanged (congrArg World.procurement ends.2)
  · simp only [not_or, ← ne_eq, Option.ne_none_iff_exists'] at missing
    rcases missing with ⟨⟨number, encoded⟩, ⟨payer, paying⟩, ⟨payee, paid⟩⟩
    have ends := paySupplier_alone encoded paying paid sequence.view
    rw [Program.Ensures, PaymentEnds] at ends
    simp only [paysSupplier, encoded, paying, paid] at pays
    split at ends
    · rename_i settled
      rcases ends with ⟨receipt, nonce, _, _, _, _, updated, made⟩
      have settledHere : settles environment sequence.world.coin payer payee
          (priceOf sequence.world number) = true := settled
      simp only [settledHere, Bool.not_true, Bool.false_or, Bool.and_eq_true,
        List.contains_iff_mem, beq_iff_eq] at pays
      have same : (sequence.next (.paySupplier invoiceId payerId supplierId)).world.procurement =
          sequence.world.procurement.updateInvoiceStatus number
            InvoiceStatus.paymentReceived.text := congrArg World.procurement updated
      refine ⟨?_, ?_⟩
      · rw [same]
        apply before.sound.pay pays.1
        exact ⟨invoiceId, payerId, supplierId, payee, nonce, receipt, rfl, encoded, pays.2,
          paying ▸ made⟩
      · rw [same]
        exact before.unpriced.update _ _
    · exact before.of_unchanged ends.2

theorem SoundSequence.next {sequence : Sequence (api environment cell)}
    (before : SoundSequence sequence) {request : Request}
    (pays : paysSupplier environment sequence.world request = true) :
    SoundSequence (sequence.next request) := by
  by_cases payment : ∃ invoiceId payerId supplierId,
      request = .paySupplier invoiceId payerId supplierId
  · rcases payment with ⟨invoiceId, payerId, supplierId, rfl⟩
    exact before.payment pays
  · simp only [not_exists] at payment
    have kept := Program.alone_invariant sequence.view (fun world =>
        ReceivedSound world.procurement sequence.history ∧ Unpriced world.procurement)
      (fun call world allowed => sound_of_mayCall payment sequence.history allowed)
      (handle_mayCall environment request) ⟨before.sound, before.unpriced⟩
    exact ⟨kept.1.mono _, kept.2⟩

/-! ## Sequences of requests -/

theorem soundSequence_deployed (environment : Environment) (globals : Globals) :
    SoundSequence (Sequence.initial (World.deployed environment) globals :
      Sequence (api environment cell)) where
  sound := fun _ received => absurd (show "" = "PAYMENT RECEIVED" from received) (by decide)
  unpriced := fun _ _ => rfl

theorem settles_zero (coin : PizzaCoin) (payer payee : Address) :
    settles environment coin payer payee 0 = true := by
  by_cases zero : coin.balanceOf payer = 0
  · exact (settles_iff_of_zero zero).mpr ⟨Nat.zero_le _, .inl rfl⟩
  · exact (settles_iff_of_nonzero zero).mpr ⟨Nat.zero_le _, .inl rfl⟩

/-- A payment of an unissued invoice that meets the condition is refused and
changes nothing. -/
theorem SoundSequence.refuses {sequence : Sequence (api environment cell)}
    (sound : SoundSequence sequence) {invoiceId payerId supplierId : String} {number : Nat}
    (encoded : environment.encodeUint invoiceId = some number)
    (unissued : number ∉ sequence.world.procurement.invoiceArray)
    (pays : paysSupplier environment sequence.world
      (.paySupplier invoiceId payerId supplierId) = true) :
    Refused (sequence.ended (.paySupplier invoiceId payerId supplierId)).1 ∧
      (sequence.ended (.paySupplier invoiceId payerId supplierId)).2.world = sequence.world := by
  have missing : accountAt environment.accounts payerId = none ∨
      accountAt environment.accounts supplierId = none := by
    by_contra present
    simp only [not_or, ← ne_eq, Option.ne_none_iff_exists'] at present
    rcases present with ⟨⟨payer, paying⟩, ⟨payee, paid⟩⟩
    have price : priceOf sequence.world number = 0 := sound.unpriced number unissued
    simp [paysSupplier, encoded, paying, paid, price, settles_zero, unissued] at pays
  exact paySupplier_alone_of_missing (.inr missing) sequence.view

/-- In every sequence of requests in which each payment that goes through is one
of an issued invoice to its supplier, an invoice is marked as paid only if its
supplier was paid, and payments of unissued invoices are refused. -/
theorem paymentReceived_sound (environment : Environment) (cell : Nat → Nat) (globals : Globals)
    (requests : List Request) (final : Sequence (api environment cell))
    (run : Transitions
      (Sequence.Step fun sequence request =>
        paysSupplier environment sequence.world request = true)
      (Sequence.initial (World.deployed environment) globals) requests final) :
    ReceivedSound final.world.procurement final.history ∧
      ∀ invoiceId payerId supplierId number,
        environment.encodeUint invoiceId = some number →
        number ∉ final.world.procurement.invoiceArray →
        paysSupplier environment final.world (.paySupplier invoiceId payerId supplierId) = true →
        Refused (final.ended (.paySupplier invoiceId payerId supplierId)).1 ∧
          (final.ended (.paySupplier invoiceId payerId supplierId)).2.world = final.world := by
  have sound : SoundSequence final := by
    apply run.invariant SoundSequence _ (soundSequence_deployed environment globals)
    intro current request next before step
    rw [step.1]
    exact before.next step.2
  exact ⟨sound.sound, fun _ _ _ _ encoded unissued pays => sound.refuses encoded unissued pays⟩

theorem cheesePayment_sound :
    ∃ final, Transitions
        (Sequence.Step fun (sequence : Sequence (api testNetwork fun _ => 0)) request =>
          paysSupplier testNetwork sequence.world request = true)
        (Sequence.initial (World.deployed testNetwork) Globals.initial)
        [cheeseOrder, cheeseInvoice, cheesePayment] final ∧
      (final.world.procurement.invoices 1002).status = InvoiceStatus.paymentReceived.text ∧
      ReceivedSound final.world.procurement final.history ∧
      Refused (final.ended (.paySupplier "7" "1" "9")).1 := by
  have ran : ((Sequence.initial (World.deployed testNetwork) Globals.initial :
          Sequence (api testNetwork fun _ => 0)).run
        (fun sequence request => paysSupplier testNetwork sequence.world request)
        [cheeseOrder, cheeseInvoice, cheesePayment]).map (fun final =>
          ((final.world.procurement.invoices 1002).status,
          final.world.procurement.invoiceArray,
          paysSupplier testNetwork final.world (.paySupplier "7" "1" "9"))) =
      some ("PAYMENT RECEIVED", [1002], true) := by decide +kernel
  rcases Option.map_eq_some_iff.mp ran with ⟨final, runs, reached⟩
  simp only [Prod.mk.injEq] at reached
  rcases reached with ⟨status, issued, pays⟩
  have run := Sequence.transitions_of_run runs
  rcases paymentReceived_sound testNetwork _ _ _ final run with ⟨sound, refuses⟩
  refine ⟨final, run, status, sound, (refuses "7" "1" "9" 7 (by decide) ?_ pays).1⟩
  simp [issued]

/-- A payment of the invoice 7, which was never issued. -/
theorem unissuedInvoice_received :
    ∃ final, Transitions
        (Sequence.Step fun (_ : Sequence (api testNetwork fun _ => 0)) _ => True)
        (Sequence.initial (World.deployed testNetwork) Globals.initial)
        [.paySupplier "7" "1" "2"] final ∧
      ¬ReceivedSound final.world.procurement final.history := by
  refine ⟨_, .cons ⟨rfl, trivial⟩ (.nil _), fun sound => ?_⟩
  have issued := (sound 7 (by decide +kernel)).1
  exact absurd issued (by decide +kernel)

end PizzaChain.Api
