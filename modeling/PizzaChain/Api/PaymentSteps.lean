import PizzaChain.Api.ConcurrentPayments

/-! # The steps of a payment among others

A payment has read the payee's balance, has perhaps topped up the payer, and has
not made its transfer; or it has made the transfer and not read the balance
again. What the other payments leave alone keeps each of these states.
-/

namespace PizzaChain.Api

open PizzaChain.Chain

/-- The invoice and the accounts of a payment. -/
structure Parties (environment : Environment) (payment : Payment) (invoice : Nat)
    (payer payee : Address) : Prop where
  named : payment.number environment = some invoice
  paying : payment.payer environment = some payer
  paid : payment.payee environment = some payee

/-- A payment that read the payee's balance as `initial` and has made no
transfer yet, but perhaps a top-up. The nonce is the payer's count, if it was read. -/
structure Ready {environment : Environment} (start : World) (invoice : Nat)
    (payer payee : Address) (initial : Nat) (nonce : Option Nat)
    (view : View (payments environment)) : Prop where
  userAcc : view.globals.userAcc = some payer
  merchantAcct : view.globals.merchantAcct = some payee
  unchanged : view.world.procurement.invoices invoice = start.procurement.invoices invoice
  funds :
    (transferred view.trace = [] ∧ view.world.coin.balanceOf payee = initial) ∨
      (transferred view.trace =
          [⟨.topUp, some environment.admin, some payer, priceOf start invoice⟩] ∧
        priceOf start invoice ≤ view.world.coin.balanceOf payer ∧
        view.world.coin.balanceOf payee =
          initial + if payee = payer then priceOf start invoice else 0)
  current : toppedUp view.trace = true → view.world.takes payer nonce

/-- A payment that has made its transfer, which the payee's balance shows. -/
structure Sent {environment : Environment} (start : World) (invoice : Nat)
    (payer payee : Address) (view : View (payments environment)) : Prop where
  unchanged : view.world.procurement.invoices invoice = start.procurement.invoices invoice
  made : ∃ nonce receipt, ⟨.sendTransaction,
    .transfer (some payer) (some payee) (priceOf start invoice) nonce, .ok receipt⟩ ∈ view.trace

section Window

variable {environment : Environment} {start : World} {payment : Payment} {origin : Option Point}
  {before : Globals} {view later : View (payments environment)} {point : Point} {invoice : Nat}
  {payer payee : Address} {initial : Nat} {nonce : Option Nat}

theorem Fresh.of_parties (parties : Parties environment payment invoice payer payee)
    (nothing : transferred view.trace = [])
    (unchanged : view.world.procurement.invoices invoice = start.procurement.invoices invoice) :
    Fresh start payment view where
  nothing := nothing
  invoice := by
    intro other named
    cases named.symm.trans parties.named
    exact unchanged

theorem toppedUp_of_transferred {trace : List (Event server)} {sender recipient : Option Address}
    {amount : Nat} (made : transferred trace = [⟨.topUp, sender, recipient, amount⟩]) :
    toppedUp trace = true := by
  rw [toppedUp, made]
  rfl

theorem Ready.spared (parties : Parties environment payment invoice payer payee)
    (ready : Ready start invoice payer payee initial nonce view)
    {moment : Moment (payments environment)} (compares : comparing moment = true)
    (awaits : awaitsFunds moment = true) (counts : nonce = none ∨ hasCount moment = true)
    (spared : Spared environment payment moment view later) :
    Ready start invoice payer payee initial nonce later where
  userAcc := by
    rw [spared.globals]
    exact ready.userAcc
  merchantAcct := by
    rw [spared.globals]
    exact ready.merchantAcct
  unchanged := (spared.invoice invoice parties.named).trans ready.unchanged
  funds := by
    have price : priceOf view.world invoice = priceOf start invoice :=
      congrArg Invoice.price ready.unchanged
    rw [spared.trace, spared.payee compares payee parties.paid]
    rcases ready.funds with untouched | ⟨made, enough, shown⟩
    · exact .inl untouched
    · refine .inr ⟨made, ?_, shown⟩
      have kept := spared.payer awaits (toppedUp_of_transferred made) payer invoice
        parties.paying parties.named
      rw [price] at kept
      exact kept enough
  current := by
    intro funded
    rw [spared.trace] at funded
    rcases counts with rfl | counts
    · exact World.takes_none _ _
    · rw [World.takes, spared.count counts funded payer parties.paying]
      exact ready.current funded

theorem Ready.read (ready : Ready start invoice payer payee initial nonce view) {call : Call}
    (reads : call.reads = true) (outcome : Except Failure call.Answer) {now : Option Nat}
    (current : now = nonce ∨ now = some (view.world.transactionCount payer)) :
    Ready start invoice payer payee initial now
      (⟨view.world, view.globals, view.trace ++ [⟨point, call, outcome⟩]⟩ :
        View (payments environment)) where
  userAcc := ready.userAcc
  merchantAcct := ready.merchantAcct
  unchanged := ready.unchanged
  funds := by
    rw [transferred_append_other (movesCoins_of_reads reads)]
    exact ready.funds
  current := by
    intro funded
    rw [toppedUp, transferred_append_other (movesCoins_of_reads reads)] at funded
    rcases current with rfl | rfl
    · exact ready.current funded
    · exact World.takes_count _ _

/-- A call between the top-up and the transfer, which is always answered. After it the
nonce is the one before or the payer's count. -/
theorem atomicity_ready {call : Call}
    {continuation : call.Answer → Handler (Response (Option Receipt))}
    (read : call.Answer → Option Nat)
    (parties : Parties environment payment invoice payer payee)
    (reads : call.reads = true)
    (answers : ∀ world, ∃ answer, (serve environment call world).1 = .ok answer ∧
      (read answer = nonce ∨ read answer = some (world.transactionCount payer)))
    (waiting : comparing (.waiting point call : Moment (payments environment)) = true ∧
      awaitsFunds (.waiting point call : Moment (payments environment)) = true ∧
      (nonce = none ∨ hasCount (.waiting point call : Moment (payments environment)) = true))
    (served : comparing (.served point : Moment (payments environment)) = true ∧
      awaitsFunds (.served point : Moment (payments environment)) = true ∧
      hasCount (.served point : Moment (payments environment)) = true)
    (ready : Ready start invoice payer payee initial nonce view)
    (continues : ∀ answer, ∀ resumed : View (payments environment),
      Ready start invoice payer payee initial (read answer) resumed →
      (atomicity environment start).Robust payment (some point) resumed.globals
        (continuation answer) resumed) :
    (atomicity environment start).Robust payment origin before (wait point call >>= continuation)
      view := by
  apply Discipline.robust_call trivial
  intro later waits
  refine ⟨trivial, fun _ outcome next answered resumed rests => ⟨trivial, ?_, ?_⟩⟩
  all_goals
    rcases answers later.world with ⟨answer, returned, current⟩
    cases (congrArg Prod.fst answered).symm.trans returned
  · rintro _ ⟨⟩
    cases world_of_reads environment reads answered
    have readyThen := ready.spared parties waiting.1 waiting.2.1 waiting.2.2 waits
    exact continues answer resumed
      ((readyThen.read reads (.ok answer) current).spared parties served.1 served.2.1
        (.inr served.2.2) rests)
  · intro error rejected
    cases rejected

/-- The payee's balance shows the transfer. -/
theorem Ready.shows (parties : Parties environment payment invoice payer payee)
    (ready : Ready start invoice payer payee initial nonce view)
    (apart : distinguishes environment payment .sendTransaction view.world view.trace = true)
    {coin : PizzaCoin}
    (transfers : view.world.coin.transfer payer payee (priceOf start invoice) = some coin) :
    coin.balanceOf payee = initial + priceOf start invoice := by
  have price : priceOf view.world invoice = priceOf start invoice :=
    congrArg Invoice.price ready.unchanged
  have balance := PizzaCoin.balanceOf_transfer transfers payee
  rw [if_pos rfl] at balance
  rcases ready.funds with ⟨nothing, shown⟩ | ⟨_, _, shown⟩
  · have apart : priceOf start invoice = 0 ∨ payer ≠ payee := by
      simpa [distinguishes, parties.named, parties.paying, parties.paid, toppedUp, nothing,
        price] using apart
    rcases apart with free | others
    · rw [free] at balance ⊢
      simp only [ite_self] at balance
      omega
    · rw [if_neg (Ne.symm others)] at balance
      omega
  · omega

/-- A payer who was topped up can pay. -/
theorem Ready.nothing_of_rejected (parties : Parties environment payment invoice payer payee)
    (ready : Ready start invoice payer payee initial nonce view)
    (rejected : view.world.takes payer nonce →
      view.world.coin.transfer payer payee (roundToDouble (priceOf start invoice)) = none) :
    transferred view.trace = [] := by
  rcases ready.funds with ⟨nothing, _⟩ | ⟨made, enough, _⟩
  · exact nothing
  · have reverts := rejected (ready.current (toppedUp_of_transferred made))
    have payeeNonzero := environment.accountAt_ne_zero parties.paid
    have short := (PizzaCoin.transfer_eq_none_iff payeeNonzero).mp reverts
    rw [← Nat.not_le, roundToDouble_le_balanceOf_iff] at short
    exact absurd enough short

theorem atomicity_send {continuation : Receipt → Handler (Response (Option Receipt))}
    (parties : Parties environment payment invoice payer payee)
    (ready : Ready start invoice payer payee initial nonce view)
    (continues : ∀ receipt, ∀ resumed : View (payments environment),
      Sent start invoice payer payee resumed → resumed.globals.merchantAcct = some payee →
      resumed.world.coin.balanceOf payee = initial + priceOf start invoice →
      roundToDouble (priceOf start invoice) = priceOf start invoice →
      (atomicity environment start).Robust payment (some .sendTransaction) resumed.globals
        (continuation receipt) resumed) :
    (atomicity environment start).Robust payment origin before
      (wait .sendTransaction (.transfer (some payer) (some payee)
        (roundToDouble (priceOf start invoice)) nonce) >>= continuation) view := by
  apply atomicity_transfer
  · intro later resumed failure transactions waits rejected rests
    have readyThen := ready.spared parties rfl rfl (.inr rfl) waits
    have nothing := readyThen.nothing_of_rejected parties rejected
    have fresh := Fresh.of_parties parties nothing readyThen.unchanged
    exact (fresh.rejected.spared rests).ends_error failure
  · intro later resumed coin waits apart transfers rests
    have readyThen := ready.spared parties rfl rfl (.inr rfl) waits
    -- What can be transferred is exact as a double.
    have same := roundToDouble_of_le_supply (PizzaCoin.amount_le_supply transfers)
    rw [same] at transfers rests
    have shown := readyThen.shows parties apart transfers
    apply continues
    · refine ⟨(rests.invoice invoice parties.named).trans readyThen.unchanged, nonce,
        later.world.transactions.length, ?_⟩
      rw [rests.trace]
      exact List.mem_append_right _ (List.mem_singleton.mpr rfl)
    · exact (congrArg Globals.merchantAcct rests.globals).trans readyThen.merchantAcct
    · exact (rests.payee rfl payee parties.paid).trans shown
    · exact same

theorem Sent.spared (parties : Parties environment payment invoice payer payee)
    (sent : Sent start invoice payer payee view) {moment : Moment (payments environment)}
    (spared : Spared environment payment moment view later) :
    Sent start invoice payer payee later where
  unchanged := (spared.invoice invoice parties.named).trans sent.unchanged
  made := by
    rw [spared.trace]
    exact sent.made

/-- The record of a payment, which is always made. -/
theorem atomicity_record (parties : Parties environment payment invoice payer payee)
    (sent : Sent start invoice payer payee view) (receipt : Receipt) :
    (atomicity environment start).Robust payment origin before
      (Controller.recordPayment environment payment.invoiceId ⟨true, some receipt⟩) view := by
  have encoded : environment.encodeUint payment.invoiceId = some invoice := parties.named
  rw [Controller.recordPayment, if_pos rfl, encoded]
  apply Discipline.robust_call trivial
  intro later waits
  refine ⟨trivial, fun _ outcome next served resumed rests => ⟨trivial, ?_⟩⟩
  cases served
  refine ⟨fun answer _ => ⟨trivial, fun last ends => ?_⟩, fun _ returned => by cases returned⟩
  rcases (sent.spared parties waits).made with ⟨nonce, sendReceipt, made⟩
  refine .inl ⟨invoice, payer, payee, nonce, sendReceipt, _, parties.named, parties.paying,
    parties.paid, ?_, ?_, rfl, rfl⟩
  · rw [ends.trace, rests.trace]
    exact List.mem_append_left _ made
  · rw [ends.invoice invoice parties.named, rests.invoice invoice parties.named]
    exact congrArg Invoice.status (Procurement.invoices_updateInvoiceStatus_self _ _ _)

/-- The reading back finds the transfer. -/
theorem atomicity_readBack (parties : Parties environment payment invoice payer payee)
    (sent : Sent start invoice payer payee view) (receipt : Receipt)
    (shown : view.world.coin.balanceOf payee = initial + priceOf start invoice) :
    (atomicity environment start).Robust payment origin before
      (wait .readBack (.balanceOf (some payee)) >>= fun balance =>
        (if roundToDouble initial + priceOf start invoice = roundToDouble balance then
          pure ⟨true, some receipt⟩ else pure ⟨false, none⟩) >>= fun details =>
        Controller.recordPayment environment payment.invoiceId details) view := by
  apply Discipline.robust_call trivial
  intro later waits
  refine ⟨trivial, fun _ outcome next served resumed rests => ⟨trivial, ?_⟩⟩
  cases served
  refine ⟨fun balance returned => ?_, fun _ returned => nomatch returned⟩
  cases returned
  rw [if_pos (roundToDouble_add_eq ((waits.payee rfl payee parties.paid).trans shown))]
  have sentThen := sent.spared parties waits
  have sentNow : Sent start invoice payer payee resumed := by
    refine ⟨(rests.invoice invoice parties.named).trans sentThen.unchanged, ?_⟩
    rw [rests.trace]
    exact sentThen.made.imp fun _ => Exists.imp fun _ => List.mem_append_left _
  exact atomicity_record parties sentNow receipt

/-- The transfer, its reading back and its record. -/
theorem atomicity_payAndRecord (parties : Parties environment payment invoice payer payee)
    (ready : Ready start invoice payer payee initial none view) :
    (atomicity environment start).Robust payment origin before
      (PizzaCoinClient.payAndReadBack initial (roundToDouble (priceOf start invoice)) >>=
        fun details => Controller.recordPayment environment payment.invoiceId details) view := by
  simp only [PizzaCoinClient.payAndReadBack, PizzaCoinClient.transferAmt, Program.bind_assoc]
  apply Discipline.robust_get
  rw [ready.userAcc, ready.merchantAcct]
  apply atomicity_ready some parties rfl
    (fun world => ⟨world.transactionCount payer, rfl, .inr rfl⟩) ⟨rfl, rfl, .inl rfl⟩
    ⟨rfl, rfl, rfl⟩ ready
  intro count resumed ready
  apply atomicity_ready (fun _ => some count) parties rfl (fun _ => ⟨(), rfl, .inl rfl⟩)
    ⟨rfl, rfl, .inr rfl⟩ ⟨rfl, rfl, rfl⟩ ready
  intro _ resumed ready
  apply atomicity_ready (fun _ => some count) parties rfl (fun _ => ⟨(), rfl, .inl rfl⟩)
    ⟨rfl, rfl, .inr rfl⟩ ⟨rfl, rfl, rfl⟩ ready
  intro _ resumed ready
  apply atomicity_send parties ready
  intro receipt resumed sent merchantAcct shown same
  apply Discipline.robust_get
  rw [merchantAcct, same]
  exact atomicity_readBack parties sent receipt shown

theorem atomicity_topUp {continuation : Receipt → Handler (Response (Option Receipt))}
    (parties : Parties environment payment invoice payer payee) (fresh : Fresh start payment view)
    (userAcc : view.globals.userAcc = some payer)
    (merchantAcct : view.globals.merchantAcct = some payee)
    (shown : view.world.coin.balanceOf payee = initial)
    (continues : ∀ receipt, ∀ resumed : View (payments environment),
      Ready start invoice payer payee initial none resumed →
      (atomicity environment start).Robust payment (some .topUp) resumed.globals
        (continuation receipt) resumed) :
    (atomicity environment start).Robust payment origin before
      (wait .topUp (.transfer (some environment.admin) (some payer)
        (roundToDouble (priceOf start invoice)) none) >>= continuation) view := by
  apply atomicity_transfer
  · intro later resumed failure transactions waits _ rests
    exact ((fresh.spared waits).rejected.spared rests).ends_error failure
  · intro later resumed coin waits apart transfers rests
    have freshThen := fresh.spared waits
    have unchanged := freshThen.invoice invoice parties.named
    have same := roundToDouble_of_le_supply (PizzaCoin.amount_le_supply transfers)
    rw [same] at transfers rests
    apply continues
    refine Ready.spared parties ?_ rfl rfl (.inl rfl) rests
    refine ⟨?_, ?_, unchanged, .inr ⟨?_, ?_, ?_⟩, fun _ => World.takes_none _ _⟩
    · rw [waits.globals]
      exact userAcc
    · rw [waits.globals]
      exact merchantAcct
    · rw [transferred_append, freshThen.nothing]
      rfl
    · exact PizzaCoin.amount_le_balanceOf_of_funded transfers
    · have balance := PizzaCoin.balanceOf_transfer transfers payee
      rw [waits.payee rfl payee parties.paid, shown] at balance
      have apart : priceOf start invoice = 0 ∨ payee ≠ environment.admin := by
        have price : priceOf later.world invoice = priceOf start invoice :=
          congrArg Invoice.price unchanged
        simpa [distinguishes, parties.named, parties.paid, price] using apart
      rcases apart with free | others
      · simp only [free, ite_self] at balance ⊢
        exact balance
      · rw [if_neg others] at balance
        exact balance

/-- The part of a payment that follows the reading of the accounts. -/
theorem atomicity_balances (named : payment.number environment = some invoice)
    (fresh : Fresh start payment view)
    (userAcc : view.globals.userAcc = payment.payer environment)
    (merchantAcct : view.globals.merchantAcct = payment.payee environment) :
    (atomicity environment start).Robust payment origin before
      (wait .payerBalance (.balanceOf (payment.payer environment)) >>= fun payerBalance =>
        Program.get >>= fun globals =>
        wait .payeeBalance (.balanceOf globals.merchantAcct) >>= fun payeeBalance =>
        (if roundToDouble payerBalance = 0 then
          Program.get >>= fun globals =>
          wait .topUp (.transfer environment.coinbase globals.userAcc
            (roundToDouble (priceOf start invoice)) none) >>= fun _ =>
          PizzaCoinClient.payAndReadBack payeeBalance (roundToDouble (priceOf start invoice))
        else
          PizzaCoinClient.payAndReadBack payeeBalance (roundToDouble (priceOf start invoice))) >>=
        fun details => Controller.recordPayment environment payment.invoiceId details) view := by
  apply atomicity_read rfl fresh
  intro later resumed payerBalance waits _ answered rests fresh
  have globals := rests.globals.trans waits.globals
  apply Discipline.robust_get
  rw [globals, merchantAcct]
  apply atomicity_read rfl fresh
  intro later resumed payeeBalance waits _ paidAnswered rests fresh
  rw [← rests.globals.trans (waits.globals.trans globals)] at userAcc merchantAcct
  cases paying : payment.payer environment with
  | none =>
      rw [paying] at answered
      cases answered
  | some payer =>
      cases paid : payment.payee environment with
      | none =>
          rw [paid] at paidAnswered
          cases paidAnswered
      | some payee =>
          rw [paid] at paidAnswered merchantAcct
          rw [paying] at userAcc
          cases paidAnswered
          have parties : Parties environment payment invoice payer payee := ⟨named, paying, paid⟩
          have shown := rests.payee rfl payee paid
          split
          · simp only [Program.bind_assoc]
            apply Discipline.robust_get
            rw [userAcc]
            apply atomicity_topUp parties fresh userAcc merchantAcct shown
            intro _ resumed ready
            exact atomicity_payAndRecord parties ready
          · apply atomicity_payAndRecord parties
            exact ⟨userAcc, merchantAcct, fresh.invoice invoice named,
              .inl ⟨fresh.nothing, shown⟩, fun _ => World.takes_none _ _⟩

/-- The part of a payment that follows the reading of the invoice. -/
theorem atomicity_transferAmount (named : payment.number environment = some invoice)
    (fresh : Fresh start payment view) :
    (atomicity environment start).Robust payment origin before
      (PizzaCoinClient.transferAmount environment payment.fromId payment.toId
          (roundToDouble (priceOf start invoice)) >>= fun details =>
        Controller.recordPayment environment payment.invoiceId details) view := by
  simp only [PizzaCoinClient.transferAmount, Program.bind_assoc]
  apply atomicity_read rfl fresh
  intro _ resumed accounts _ _ answered _ fresh
  cases answered
  apply Discipline.robust_modify
  refine atomicity_read rfl (fresh.assign _) ?_
  intro later resumed accounts waits _ answered rests fresh
  cases answered
  have userAcc : resumed.globals.userAcc = payment.payer environment :=
    congrArg Globals.userAcc (rests.globals.trans waits.globals)
  apply Discipline.robust_modify
  apply Discipline.robust_get
  rw [userAcc]
  exact atomicity_balances named (fresh.assign _) rfl rfl

theorem atomicity_payment (payment : Payment) (fresh : Fresh start payment view) :
    (atomicity environment start).Robust payment none view.globals
      ((payments environment).handler payment) view := by
  cases named : environment.encodeUint payment.invoiceId with
  | none =>
      apply atomicity_read rfl fresh
      intro _ _ _ _ _ answered _ _
      rw [named] at answered
      cases answered
  | some invoice =>
      apply atomicity_read rfl fresh
      intro later resumed answer _ freshThen answered _ fresh
      rw [named] at answered
      cases answered
      have price : (Controller.mapInvoiceData payment.invoiceId
            (later.world.procurement.getInvoiceById invoice)).price =
          roundToDouble (priceOf start invoice) :=
        congrArg (fun invoice => roundToDouble (Invoice.price invoice))
          (freshThen.invoice invoice named)
      simp only [price]
      exact atomicity_transferAmount named fresh

end Window

end PizzaChain.Api
