import PizzaChain.Api.Routes
import PizzaChain.Semantics.RelyGuarantee

/-! # Concurrent payments

A payment tells whether it went through by comparing the payee's balance before
and after, and tops up an empty payer before it pays. Its transfer has the nonce that it
read before. Payments of different invoices are all or nothing when nothing else changes
the payee's balance between the two readings, and when after a top-up no one spends it
before its payment does or uses the nonce.
-/

namespace PizzaChain.Api

open PizzaChain.Chain

structure Payment where
  invoiceId : String
  fromId : String
  toId : String

namespace Payment

variable (environment : Environment) (payment : Payment)

def number : Option Nat :=
  environment.encodeUint payment.invoiceId

def payer : Option Address :=
  accountAt environment.accounts payment.fromId

def payee : Option Address :=
  accountAt environment.accounts payment.toId

/-- The calls that a payment may make. -/
def MayCall : Call → Prop
  | .transfer _ _ _ _ => True
  | .updateInvoiceStatus id _ => id = payment.number environment
  | call => call.reads = true

end Payment

/-- Concurrent payments, each with its own variables. -/
abbrev payments (environment : Environment) : System where
  interface := server
  World := World
  serve := serve environment
  Request := Payment
  Result := Response (Option Receipt)
  handler := fun payment =>
    Controller.payment environment payment.invoiceId payment.fromId payment.toId
  cell := id

/-! ## How a payment ends -/

section Ends

variable {environment : Environment} (start : World) (payment : Payment)
  (outcome : Except Failure (Response (Option Receipt))) (view : View (payments environment))

/-- The transfer was made, the invoice has the status, and the answer is 200. -/
def Paid : Prop :=
  ∃ invoice payer payee nonce receipt response,
    payment.number environment = some invoice ∧
    payment.payer environment = some payer ∧ payment.payee environment = some payee ∧
    ⟨.sendTransaction, .transfer (some payer) (some payee) (priceOf start invoice) nonce,
      .ok receipt⟩ ∈ view.trace ∧
    (view.world.procurement.invoices invoice).status = InvoiceStatus.paymentReceived.text ∧
    outcome = .ok response ∧ response.code = 200

/-- No coins were moved, the invoice is as at the start, and the answer is not
200. -/
def Unpaid : Prop :=
  transferred view.trace = [] ∧
    (∀ invoice, payment.number environment = some invoice →
      view.world.procurement.invoices invoice = start.procurement.invoices invoice) ∧
    ∀ response, outcome = .ok response → response.code ≠ 200

end Ends

/-! ## The condition -/

section Condition

variable {environment : Environment}

/-- Between the two readings of the payee's balance. -/
def comparing : Moment (payments environment) → Bool
  | .waiting point _ => [Point.topUp, .transactionCount, .readFile, .coinDeployed,
      .sendTransaction, .readBack].contains point
  | .served point => [Point.payeeBalance, .topUp, .transactionCount, .readFile, .coinDeployed,
      .sendTransaction].contains point
  | .ended _ => false

/-- After the top-up, if there is one, and before the transfer. -/
def awaitsFunds : Moment (payments environment) → Bool
  | .waiting point _ => [Point.transactionCount, .readFile, .coinDeployed,
      .sendTransaction].contains point
  | .served point => [Point.topUp, .transactionCount, .readFile, .coinDeployed].contains point
  | .ended _ => false

/-- After the reading of the payer's count of transactions and before the transfer. -/
def hasCount : Moment (payments environment) → Bool
  | .waiting point _ => [Point.readFile, .coinDeployed, .sendTransaction].contains point
  | .served point => [Point.transactionCount, .readFile, .coinDeployed].contains point
  | .ended _ => false

def toppedUp (trace : List (Event server)) : Bool :=
  (transferred trace).any fun transfer => transfer.point == .topUp

/-- A call leaves the balance that a task compares. -/
def sparesPayee (call : Call) (world : World) (task : Task (payments environment)) : Bool :=
  !comparing task.process.moment ||
    (task.request.payee environment).all fun payee =>
      (serve environment call world).2.coin.balanceOf payee == world.coin.balanceOf payee

/-- A call leaves the price with a payer who has been topped up. -/
def sparesPayer (call : Call) (world : World) (task : Task (payments environment))
    (trace : List (Event server)) : Bool :=
  !(awaitsFunds task.process.moment && toppedUp trace) ||
    (task.request.payer environment).all fun payer =>
      (task.request.number environment).all fun invoice =>
        !decide (priceOf world invoice ≤ world.coin.balanceOf payer) ||
          decide (priceOf world invoice ≤
            (serve environment call world).2.coin.balanceOf payer)

/-- A call is no transaction of a payer who has been topped up and whose count has been
read. -/
def sparesCount (call : Call) (world : World) (task : Task (payments environment))
    (trace : List (Event server)) : Bool :=
  !(hasCount task.process.moment && toppedUp trace) ||
    (task.request.payer environment).all fun payer =>
      (serve environment call world).2.transactionCount payer == world.transactionCount payer

/-- A payment that tops up the payer does not pay the admin, who has given the
amount; one that does not top up the payer pays someone else. -/
def distinguishes (environment : Environment) (payment : Payment) (point : Point) (world : World)
    (trace : List (Event server)) : Bool :=
  let free := (payment.number environment).all fun invoice => priceOf world invoice == 0
  match point with
  | .topUp => free || payment.payee environment != some environment.admin
  | .sendTransaction => free || toppedUp trace ||
      payment.payer environment != payment.payee environment
  | _ => true

/-- The call of a payment disturbs neither itself nor the other payments. -/
def undisturbed (pool : Pool (payments environment)) : Action (payments environment) → Bool
  | .serve index =>
      match pool.tasks[index]? with
      | some ⟨payment, .waiting point call _⟩ =>
          distinguishes environment payment point pool.world (pool.trace index) &&
            pool.tasks.zipIdx.all fun (task, other) => other == index ||
              (sparesPayee call pool.world task &&
                sparesPayer call pool.world task (pool.trace other) &&
                sparesCount call pool.world task (pool.trace other))
      | _ => true
  | _ => true

/-- All payments, with the one that an action starts, are of different invoices. -/
def different (pool : Pool (payments environment)) (action : Action (payments environment)) :
    Bool :=
  let started := match action with
    | .start payment => [payment]
    | _ => []
  decide ((pool.requests ++ started).map (Payment.number environment)).Nodup

end Condition

/-! ## The discipline -/

/-- What the other payments leave alone. -/
structure Spared (environment : Environment) (payment : Payment)
    (moment : Moment (payments environment)) (view later : View (payments environment)) :
    Prop where
  globals : later.globals = view.globals
  trace : later.trace = view.trace
  invoice : ∀ invoice, payment.number environment = some invoice →
    later.world.procurement.invoices invoice = view.world.procurement.invoices invoice
  payee : comparing moment = true → ∀ payee, payment.payee environment = some payee →
    later.world.coin.balanceOf payee = view.world.coin.balanceOf payee
  payer : awaitsFunds moment = true → toppedUp view.trace = true →
    ∀ payer invoice, payment.payer environment = some payer →
      payment.number environment = some invoice →
      priceOf view.world invoice ≤ view.world.coin.balanceOf payer →
        priceOf view.world invoice ≤ later.world.coin.balanceOf payer
  count : hasCount moment = true → toppedUp view.trace = true →
    ∀ payer, payment.payer environment = some payer →
      later.world.transactionCount payer = view.world.transactionCount payer

theorem Spared.price {environment : Environment} {payment : Payment}
    {moment : Moment (payments environment)} {view later : View (payments environment)}
    (spared : Spared environment payment moment view later) {invoice : Nat}
    (named : payment.number environment = some invoice) :
    priceOf later.world invoice = priceOf view.world invoice :=
  congrArg Invoice.price (spared.invoice invoice named)

theorem Spared.trans {environment : Environment} {payment : Payment}
    {moment : Moment (payments environment)} {first second third : View (payments environment)}
    (early : Spared environment payment moment first second)
    (late : Spared environment payment moment second third) :
    Spared environment payment moment first third where
  globals := late.globals.trans early.globals
  trace := late.trace.trans early.trace
  invoice := fun invoice named =>
    (late.invoice invoice named).trans (early.invoice invoice named)
  payee := fun compares payee paid =>
    (late.payee compares payee paid).trans (early.payee compares payee paid)
  payer := by
    intro awaits funded payer invoice paying named enough
    have price := early.price named
    have middle := early.payer awaits funded payer invoice paying named enough
    rw [← price] at middle ⊢
    rw [← early.trace] at funded
    exact late.payer awaits funded payer invoice paying named middle
  count := by
    intro counts funded payer paying
    have middle := early.count counts funded payer paying
    rw [← early.trace] at funded
    exact (late.count counts funded payer paying).trans middle

def atomicity (environment : Environment) (start : World) : Discipline (payments environment) where
  assumes := fun payment point _ view =>
    distinguishes environment payment point view.world view.trace = true
  rely := Spared environment
  rely_refl := fun _ _ _ =>
    ⟨rfl, rfl, fun _ _ => rfl, fun _ _ _ => rfl, fun _ _ _ _ _ _ enough => enough,
      fun _ _ _ _ => rfl⟩
  rely_trans := fun _ _ _ _ _ early late => early.trans late
  holds := fun payment moment view =>
    match moment with
    | .ended outcome => Paid start payment outcome view ∨ Unpaid start payment outcome view
    | _ => True
  changes := fun _ _ _ _ => True

section Rules

variable {environment : Environment} {start : World} {payment : Payment} {origin : Option Point}
  {before : Globals} {view later : View (payments environment)} {point : Point}

/-- The payment has changed nothing so far. -/
structure Fresh (start : World) (payment : Payment) (view : View (payments environment)) :
    Prop where
  nothing : transferred view.trace = []
  invoice : ∀ invoice, payment.number environment = some invoice →
    view.world.procurement.invoices invoice = start.procurement.invoices invoice

theorem Fresh.spared (fresh : Fresh start payment view) {moment : Moment (payments environment)}
    (spared : Spared environment payment moment view later) : Fresh start payment later where
  nothing := by
    rw [spared.trace]
    exact fresh.nothing
  invoice := fun invoice named =>
    (spared.invoice invoice named).trans (fresh.invoice invoice named)

theorem Fresh.read (fresh : Fresh start payment view) {call : Call} (reads : call.reads = true)
    (outcome : Except Failure call.Answer) :
    Fresh start payment (⟨view.world, view.globals, view.trace ++ [⟨point, call, outcome⟩]⟩ :
      View (payments environment)) where
  nothing := (transferred_append_other (movesCoins_of_reads reads)).trans fresh.nothing
  invoice := fresh.invoice

theorem Fresh.assign (fresh : Fresh start payment view) (globals : Globals) :
    Fresh start payment { view with globals := globals } :=
  ⟨fresh.nothing, fresh.invoice⟩

theorem Fresh.rejected (fresh : Fresh start payment view) {sender recipient : Option Address}
    {amount : Nat} {nonce : Option Nat} {failure : Failure} {transactions : List Address} :
    Fresh start payment (⟨{ view.world with transactions := transactions }, view.globals,
      view.trace ++ [⟨point, .transfer sender recipient amount nonce, .error failure⟩]⟩ :
        View (payments environment)) where
  nothing := (transferred_append_silent rfl).trans fresh.nothing
  invoice := fresh.invoice

/-- A payment may end while it has changed nothing. -/
theorem Fresh.ends (fresh : Fresh start payment view)
    {outcome : Except Failure (Response (Option Receipt))}
    (refused : ∀ response, outcome = .ok response → response.code ≠ 200) :
    (atomicity environment start).Ends payment outcome view := by
  intro later spared
  have stillFresh := fresh.spared spared
  exact .inr ⟨stillFresh.nothing, stillFresh.invoice, refused⟩

theorem Fresh.ends_error (fresh : Fresh start payment view) (failure : Failure) :
    (atomicity environment start).Ends payment (.error failure) view :=
  fresh.ends fun _ returned => nomatch returned

/-- A call that reads, while nothing has been changed. -/
theorem atomicity_read {call : Call}
    {continuation : call.Answer → Handler (Response (Option Receipt))}
    (reads : call.reads = true) (fresh : Fresh start payment view)
    (continues : ∀ later resumed : View (payments environment), ∀ answer,
      Spared environment payment (.waiting point call) view later → Fresh start payment later →
      (serve environment call later.world).1 = .ok answer →
      Spared environment payment (.served point)
        ⟨later.world, later.globals, later.trace ++ [⟨point, call, .ok answer⟩]⟩ resumed →
      Fresh start payment resumed →
      (atomicity environment start).Robust payment (some point) resumed.globals
        (continuation answer) resumed) :
    (atomicity environment start).Robust payment origin before (wait point call >>= continuation)
      view := by
  apply Discipline.robust_call trivial
  intro later waits
  refine ⟨trivial, fun _ outcome next served resumed rests => ⟨trivial, ?_, ?_⟩⟩
  all_goals
    cases world_of_reads environment reads served
    have freshThen := fresh.spared waits
    have freshNow := (freshThen.read reads outcome).spared rests
  · intro answer returned
    subst returned
    exact continues later resumed answer waits freshThen (congrArg Prod.fst served) rests freshNow
  · intro error _
    exact ⟨trivial, freshNow.ends_error error⟩

/-- A transfer, which is rejected or changes the coins only. -/
theorem atomicity_transfer {sender recipient : Address} {amount : Nat} {nonce : Option Nat}
    {continuation : Receipt → Handler (Response (Option Receipt))}
    (rejected : ∀ later resumed : View (payments environment), ∀ failure transactions,
      Spared environment payment
        (.waiting point (.transfer (some sender) (some recipient) amount nonce)) view later →
      (later.world.takes sender nonce →
        later.world.coin.transfer sender recipient amount = none) →
      Spared environment payment (.served point)
        ⟨{ later.world with transactions := transactions }, later.globals, later.trace ++
          [⟨point, .transfer (some sender) (some recipient) amount nonce, .error failure⟩]⟩
        resumed →
      (atomicity environment start).Ends payment (.error failure) resumed)
    (made : ∀ later resumed : View (payments environment), ∀ coin,
      Spared environment payment
        (.waiting point (.transfer (some sender) (some recipient) amount nonce)) view later →
      distinguishes environment payment point later.world later.trace = true →
      later.world.coin.transfer sender recipient amount = some coin →
      Spared environment payment (.served point)
        ⟨{ later.world with coin := coin }.mined sender, later.globals, later.trace ++
          [⟨point, .transfer (some sender) (some recipient) amount nonce,
            .ok later.world.transactions.length⟩]⟩ resumed →
      (atomicity environment start).Robust payment (some point) resumed.globals
        (continuation later.world.transactions.length) resumed) :
    (atomicity environment start).Robust payment origin before
      (wait point (.transfer (some sender) (some recipient) amount nonce) >>= continuation)
      view := by
  apply Discipline.robust_call trivial
  intro later waits
  refine ⟨trivial, fun apart outcome next served resumed rests => ⟨trivial, ?_⟩⟩
  rcases later.world.transfer_cases sender recipient amount nonce with
    ⟨takes, coin, transfers⟩ | rejects
  · cases (serve_transfer_of_some environment takes transfers).symm.trans served
    refine ⟨fun answer returned => ?_, fun _ returned => (nomatch returned)⟩
    cases returned
    exact made later resumed coin waits apart transfers rests
  · rcases serve_transfer_of_none environment rejects with ⟨failure, transactions, answered⟩
    cases answered.symm.trans served
    refine ⟨fun _ returned => (nomatch returned), fun error returned => ⟨trivial, ?_⟩⟩
    cases returned
    exact rejected later resumed failure transactions waits rejects rests

end Rules

end PizzaChain.Api
