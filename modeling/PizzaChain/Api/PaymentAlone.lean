import PizzaChain.Api.Controller
import PizzaChain.Api.Effects
import PizzaChain.Semantics.Alone

/-! # A payment that runs alone

When no other request interferes, whether a payment goes through depends on the
balances and on which of the payer, the payee and the admin are one account.
-/

namespace PizzaChain.Api

open PizzaChain.Chain

variable {environment : Environment} {cell : Nat → Nat}

/-- A payer with coins needs the price, and is not told apart from the payee. An
empty account is topped up, which the payee's balance hides if the admin is paid. -/
def settles (environment : Environment) (coin : PizzaCoin) (payer payee : Address) (price : Nat) :
    Bool :=
  if coin.balanceOf payer = 0 then
    decide (price ≤ coin.balanceOf environment.admin) &&
      (price == 0 || payee != environment.admin)
  else decide (price ≤ coin.balanceOf payer) && (price == 0 || payer != payee)

section Settles

variable {coin : PizzaCoin} {payer payee : Address} {price : Nat}

theorem settles_iff_of_zero (zero : coin.balanceOf payer = 0) :
    settles environment coin payer payee price = true ↔
      price ≤ coin.balanceOf environment.admin ∧ (price = 0 ∨ payee ≠ environment.admin) := by
  simp [settles, zero]

theorem settles_iff_of_nonzero (nonzero : coin.balanceOf payer ≠ 0) :
    settles environment coin payer payee price = true ↔
      price ≤ coin.balanceOf payer ∧ (price = 0 ∨ payer ≠ payee) := by
  simp [settles, nonzero]

/-- A payment for which the payer is topped up settles if it shows. -/
theorem settles_iff_of_funded {funded next : PizzaCoin} (zero : coin.balanceOf payer = 0)
    (funds : coin.transfer environment.admin payer price = some funded)
    (transfers : funded.transfer payer payee price = some next) :
    settles environment coin payer payee price = true ↔
      coin.balanceOf payee + price = next.balanceOf payee := by
  rw [settles_iff_of_zero zero, PizzaCoin.balanceOf_recipient_of_funded funds transfers]
  have affordable := (PizzaCoin.transfer_isSome_iff.mp (Option.isSome_of_eq_some funds)).2
  exact and_iff_right affordable

/-- A payment from the payer's own coins settles if it shows. -/
theorem settles_iff_of_transfer {next : PizzaCoin} (nonzero : coin.balanceOf payer ≠ 0)
    (transfers : coin.transfer payer payee price = some next) :
    settles environment coin payer payee price = true ↔
      coin.balanceOf payee + price = next.balanceOf payee := by
  rw [settles_iff_of_nonzero nonzero, PizzaCoin.balanceOf_recipient transfers]
  have affordable := (PizzaCoin.transfer_isSome_iff.mp (Option.isSome_of_eq_some transfers)).2
  exact and_iff_right affordable

end Settles

theorem ensures_payAndReadBack {continuation : TransferDetails → Handler β}
    {view : View (api environment cell)}
    {post : Except Failure β → View (api environment cell) → Prop} {payer payee : Address}
    {initial amount : Nat} (userAcc : view.globals.userAcc = some payer)
    (merchantAcct : view.globals.merchantAcct = some payee)
    (rejected : view.world.coin.transfer payer payee amount = none →
      ∀ error transactions trace, post (.error error)
        ⟨{ view.world with transactions := transactions }, view.globals, trace⟩)
    (made : ∀ coin receipt nonce trace, view.world.coin.transfer payer payee amount = some coin →
      ⟨.sendTransaction, .transfer (some payer) (some payee) amount nonce, .ok receipt⟩ ∈ trace →
      (continuation (if roundToDouble initial + amount = roundToDouble (coin.balanceOf payee) then
        ⟨true, some receipt⟩ else ⟨false, none⟩)).Ensures
        ⟨{ view.world with coin := coin }.mined payer, view.globals, trace⟩ post) :
    (PizzaCoinClient.payAndReadBack initial amount >>= continuation).Ensures view post := by
  simp only [PizzaCoinClient.payAndReadBack, PizzaCoinClient.transferAmt, Program.bind_assoc]
  apply Program.ensures_get
  rw [userAcc, merchantAcct]
  apply Program.ensures_ok rfl
  apply Program.ensures_ok rfl
  apply Program.ensures_ok rfl
  cases transfers : view.world.coin.transfer payer payee amount with
  | none =>
      rcases serve_transfer_of_none environment
        (fun (_ : view.world.takes payer (some _)) => transfers) with
        ⟨failure, transactions, served⟩
      apply Program.ensures_error served
      exact rejected transfers _ _ _
  | some coin =>
      apply Program.ensures_ok
        (serve_transfer_of_some environment (view.world.takes_count payer) transfers)
      apply Program.ensures_get
      rw [merchantAcct]
      apply Program.ensures_ok
        (show serve environment _ _ = (.ok (coin.balanceOf payee), _) from rfl)
      have continues := fun trace => made coin view.world.transactions.length
        (some (view.world.transactionCount payer)) trace transfers
      split
      · rename_i same
        simp only [if_pos same] at continues
        apply continues
        simp
      · rename_i different
        simp only [if_neg different] at continues
        apply continues
        simp

/-- Any answer but the one of a payment that is done. -/
def Refused (outcome : Except Failure (Response Data)) : Prop :=
  ∀ response, outcome = .ok response → response.code ≠ 200

theorem refused_error (failure : Failure) : Refused (.error failure) :=
  fun _ returned => nomatch returned

/-- How a payment ends that started in the world `before`: the payee has the price and the
invoice is paid, or the documents are as they were. -/
def PaymentEnds (environment : Environment) (before : World) (invoice : Nat)
    (payer payee : Address) (outcome : Except Failure (Response Data))
    (after : View (api environment cell)) : Prop :=
  if settles environment before.coin payer payee (priceOf before invoice) then
    ∃ receipt nonce coin transactions,
      outcome = .ok ⟨200, "Payment done", .receipt (some receipt), none⟩ ∧
      coin.balanceOf payee = before.coin.balanceOf payee + priceOf before invoice ∧
      after.world = { before with
        coin := coin
        procurement := before.procurement.updateInvoiceStatus invoice
          InvoiceStatus.paymentReceived.text
        transactions := transactions } ∧
      ⟨.sendTransaction, .transfer (some payer) (some payee) (priceOf before invoice) nonce,
        .ok receipt⟩ ∈ after.trace
  else Refused outcome ∧ after.world.procurement = before.procurement

theorem paymentEnds_of_error {before : World} {invoice : Nat} {payer payee : Address}
    {error : Failure} {after : View (api environment cell)}
    (unsettled : ¬settles environment before.coin payer payee (priceOf before invoice) = true)
    (same : after.world.procurement = before.procurement) :
    PaymentEnds environment before invoice payer payee (.error error) after := by
  rw [PaymentEnds, if_neg unsettled]
  exact ⟨refused_error error, same⟩

theorem ensures_recordPayment {before : World} {invoiceId : String} {invoice : Nat}
    {payer payee : Address} {coin : PizzaCoin} {globals : Globals} {transactions : List Address}
    {receipt : Nat} {nonce : Option Nat} {trace : List (Event server)}
    (encoded : environment.encodeUint invoiceId = some invoice)
    (settled : settles environment before.coin payer payee (priceOf before invoice) = true ↔
      before.coin.balanceOf payee + priceOf before invoice = coin.balanceOf payee)
    (made : ⟨.sendTransaction, .transfer (some payer) (some payee) (priceOf before invoice) nonce,
      .ok receipt⟩ ∈ trace) :
    (Controller.recordPayment environment invoiceId
        (if before.coin.balanceOf payee + priceOf before invoice = coin.balanceOf payee then
          ⟨true, some receipt⟩ else ⟨false, none⟩) >>= fun response =>
          Program.done (response.map Data.receipt)).Ensures
      (⟨{ before with coin := coin, transactions := transactions }, globals, trace⟩ :
        View (api environment cell))
      (PaymentEnds environment before invoice payer payee) := by
  rw [Controller.recordPayment, encoded, Program.Ensures, PaymentEnds]
  by_cases shows : before.coin.balanceOf payee + priceOf before invoice = coin.balanceOf payee
  · rw [if_pos (settled.mpr shows), if_pos shows, if_pos rfl]
    exact ⟨receipt, nonce, coin, _, rfl, shows.symm, rfl, List.mem_append_left _ made⟩
  · rw [if_neg (settled.not.mpr shows), if_neg shows]
    refine ⟨fun response returned => ?_, rfl⟩
    cases returned
    decide

/-- The transfer, its reading back and its record, with the coins there are after
the top-up, if any. -/
theorem ensures_payAndRecord {before : World} {invoiceId : String} {invoice : Nat}
    {payer payee : Address} {coin : PizzaCoin} {globals : Globals}
    {transactions : List Address} {trace : List (Event server)}
    (encoded : environment.encodeUint invoiceId = some invoice)
    (userAcc : globals.userAcc = some payer) (merchantAcct : globals.merchantAcct = some payee)
    (unsettled : coin.transfer payer payee (roundToDouble (priceOf before invoice)) = none →
      ¬settles environment before.coin payer payee (priceOf before invoice) = true)
    (settled : ∀ next, coin.transfer payer payee (priceOf before invoice) = some next →
      (settles environment before.coin payer payee (priceOf before invoice) = true ↔
        before.coin.balanceOf payee + priceOf before invoice = next.balanceOf payee)) :
    (PizzaCoinClient.payAndReadBack (before.coin.balanceOf payee)
        (roundToDouble (priceOf before invoice)) >>= fun details =>
      Controller.recordPayment environment invoiceId details >>= fun response =>
        Program.done (response.map Data.receipt)).Ensures
      (⟨{ before with coin := coin, transactions := transactions }, globals, trace⟩ :
        View (api environment cell))
      (PaymentEnds environment before invoice payer payee) := by
  apply ensures_payAndReadBack userAcc merchantAcct
  · intro reverts error transactions trace
    exact paymentEnds_of_error (unsettled reverts) rfl
  · intro next receipt nonce trace transfers made
    -- What can be transferred is exact as a double.
    have same := roundToDouble_of_le_supply (PizzaCoin.amount_le_supply transfers)
    rw [same] at transfers made ⊢
    rw [roundToDouble_balanceOf, roundToDouble_balanceOf]
    exact ensures_recordPayment encoded (settled next transfers) made

/-- A payment that runs alone goes through if it settles, and is refused
otherwise. -/
theorem paySupplier_alone {invoiceId payerId supplierId : String} {invoice : Nat}
    {payer payee : Address} (encoded : environment.encodeUint invoiceId = some invoice)
    (paying : accountAt environment.accounts payerId = some payer)
    (paid : accountAt environment.accounts supplierId = some payee)
    (view : View (api environment cell)) :
    (handle environment (.paySupplier invoiceId payerId supplierId)).Ensures view
      (PaymentEnds environment view.world invoice payer payee) := by
  have payerNonzero := environment.accountAt_ne_zero paying
  have payeeNonzero := environment.accountAt_ne_zero paid
  simp only [handle, Controller.payment, ProcurementClient.getInvoiceById,
    PizzaCoinClient.transferAmount, Program.bind_assoc]
  rw [encoded]
  apply Program.ensures_ok rfl
  apply Program.ensures_ok rfl
  apply Program.ensures_modify
  rw [paying]
  apply Program.ensures_ok rfl
  apply Program.ensures_modify
  rw [paid]
  apply Program.ensures_get
  apply Program.ensures_ok rfl
  apply Program.ensures_get
  apply Program.ensures_ok rfl
  split
  · rename_i zero
    have empty := roundToDouble_eq_zero_iff.mp zero
    simp only [Program.bind_assoc]
    apply Program.ensures_get
    cases funds : view.world.coin.transfer environment.admin payer
        (roundToDouble (priceOf view.world invoice)) with
    | none =>
        rcases serve_transfer_of_none environment
          (fun (_ : view.world.takes environment.admin none) => funds) with
          ⟨failure, transactions, served⟩
        apply Program.ensures_error served
        have short := (PizzaCoin.transfer_eq_none_iff payerNonzero).mp funds
        refine paymentEnds_of_error ?_ rfl
        rw [settles_iff_of_zero empty, ← roundToDouble_le_balanceOf_iff]
        exact fun settled => absurd settled.1 (Nat.not_le.mpr short)
    | some funded =>
        apply Program.ensures_ok
          (serve_transfer_of_some environment (view.world.takes_none _) funds)
        apply ensures_payAndRecord encoded rfl rfl
        · intro reverts
          have short := (PizzaCoin.transfer_eq_none_iff payeeNonzero).mp reverts
          exact absurd (PizzaCoin.amount_le_balanceOf_of_funded funds) (Nat.not_le.mpr short)
        · intro next transfers
          have same := roundToDouble_of_le_supply (PizzaCoin.amount_le_supply funds)
          rw [same] at funds
          exact settles_iff_of_funded empty funds transfers
  · rename_i nonzero
    have funded := roundToDouble_eq_zero_iff.not.mp nonzero
    apply ensures_payAndRecord encoded rfl rfl
    · intro reverts
      have short := (PizzaCoin.transfer_eq_none_iff payeeNonzero).mp reverts
      rw [settles_iff_of_nonzero funded, ← roundToDouble_le_balanceOf_iff]
      exact fun settled => absurd settled.1 (Nat.not_le.mpr short)
    · exact fun next transfers => settles_iff_of_transfer funded transfers

/-- Without an id or an account that web3 can encode nothing is changed. -/
theorem paySupplier_alone_of_missing {invoiceId payerId supplierId : String}
    (missing : environment.encodeUint invoiceId = none ∨
      accountAt environment.accounts payerId = none ∨
      accountAt environment.accounts supplierId = none)
    (view : View (api environment cell)) :
    (handle environment (.paySupplier invoiceId payerId supplierId)).Ensures view
      fun outcome after => Refused outcome ∧ after.world = view.world := by
  simp only [handle, Controller.payment, ProcurementClient.getInvoiceById,
    PizzaCoinClient.transferAmount, Program.bind_assoc]
  cases encoded : environment.encodeUint invoiceId with
  | none => exact Program.ensures_error rfl ⟨refused_error _, rfl⟩
  | some invoice =>
      apply Program.ensures_ok rfl
      apply Program.ensures_ok rfl
      apply Program.ensures_modify
      apply Program.ensures_ok rfl
      apply Program.ensures_modify
      apply Program.ensures_get
      cases paying : accountAt environment.accounts payerId with
      | none => exact Program.ensures_error rfl ⟨refused_error _, rfl⟩
      | some payer =>
          apply Program.ensures_ok rfl
          apply Program.ensures_get
          have paid : accountAt environment.accounts supplierId = none := by
            simpa [encoded, paying] using missing
          rw [paid]
          exact Program.ensures_error rfl ⟨refused_error _, rfl⟩

/-- Whether a payment that runs alone is refused depends on the accounts, the coins and the
price only. -/
theorem paySupplier_refused_iff {invoiceId : String} {invoice : Nat}
    (encoded : environment.encodeUint invoiceId = some invoice) (payerId supplierId : String)
    (view : View (api environment cell)) :
    Refused ((handle environment (.paySupplier invoiceId payerId supplierId)).alone view).1 ↔
      ∀ payer payee, accountAt environment.accounts payerId = some payer →
        accountAt environment.accounts supplierId = some payee →
        ¬settles environment view.world.coin payer payee (priceOf view.world invoice) = true := by
  by_cases missing : accountAt environment.accounts payerId = none ∨
      accountAt environment.accounts supplierId = none
  · have ends := paySupplier_alone_of_missing
      (show environment.encodeUint invoiceId = none ∨ _ from .inr missing) view
    refine iff_of_true ends.1 fun payer payee paying paid => ?_
    simp [paying, paid] at missing
  · simp only [not_or, ← ne_eq, Option.ne_none_iff_exists'] at missing
    rcases missing with ⟨⟨payer, paying⟩, ⟨payee, paid⟩⟩
    have ends := paySupplier_alone encoded paying paid view
    rw [Program.Ensures, PaymentEnds] at ends
    split at ends
    · rename_i settled
      rcases ends with ⟨receipt, _, _, _, answered, _⟩
      exact iff_of_false (fun refused => refused _ answered rfl)
        fun unsettled => unsettled payer payee paying paid settled
    · rename_i unsettled
      refine iff_of_true ends.1 fun other another otherPaying anotherPaid => ?_
      cases paying.symm.trans otherPaying
      cases paid.symm.trans anotherPaid
      exact unsettled

end PizzaChain.Api
