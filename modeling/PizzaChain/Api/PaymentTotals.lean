import PizzaChain.Api.PaymentAlone
import PizzaChain.Semantics.RelyGuarantee
import Mathlib.Algebra.Group.Action.Defs

/-! # What payments of one invoice move

A payment makes at most one transfer of the price, and before it at most one
top-up of the payer by the same amount. These are between the accounts that the request
names, unless another request has assigned the variables that both share. Nothing limits
how often an invoice is paid, so the total is bounded by the number of payment requests.
-/

namespace PizzaChain.Api

open PizzaChain.Chain

variable {environment : Environment} {cell : Nat → Nat}

/-- The request is a payment of the invoice. -/
def Names (environment : Environment) (invoice : Nat) : Request → Bool
  | .paySupplier invoiceId _ _ => environment.encodeUint invoiceId == some invoice
  | _ => false

/-- The account from which a payment is to be made. -/
def Request.payer (environment : Environment) : Request → Option Address
  | .paySupplier _ payerId _ => accountAt environment.accounts payerId
  | _ => none

/-- The account to which a payment is to be made. -/
def Request.payee (environment : Environment) : Request → Option Address
  | .paySupplier _ _ supplierId => accountAt environment.accounts supplierId
  | _ => none

section Moves

variable (environment : Environment) (own : Prop) (request : Request) (bound : Nat)
  (trace : List (Event server))

/-- A balance was zero when the request read it, the payer's if the request has its own
variables. -/
def ReadZero : Prop :=
  ∃ account, (own → account = request.payer environment) ∧
    ⟨.payerBalance, .balanceOf account, .ok 0⟩ ∈ trace

/-- At most a top-up and a transfer have been made, each of the price, and the top-up from
the admin and only for an empty account. They are for the payer, and from the payer to the
payee, if the request has its own variables. -/
structure MovesOnce : Prop where
  once : ∃ price ≤ bound, ∃ funded sender recipient,
    (transferred trace).Sublist
      [⟨.topUp, some environment.admin, funded, price⟩,
        ⟨.sendTransaction, sender, recipient, price⟩] ∧
    (own → funded = request.payer environment ∧ sender = request.payer environment ∧
      recipient = request.payee environment)
  topUp : ∀ transfer ∈ transferred trace, transfer.point = .topUp →
    ReadZero environment own request trace

/-- Before the transfer at most a top-up has been made. -/
def BeforeTransfer (amount : Nat) : Prop :=
  transferred trace = [] ∨
    ∃ funded, transferred trace = [⟨.topUp, some environment.admin, funded, amount⟩] ∧
      (own → funded = request.payer environment) ∧ ReadZero environment own request trace ∧
      amount ≤ bound

end Moves

section Traces

variable {own : Prop} {request : Request} {bound amount : Nat} {trace : List (Event server)}

theorem ReadZero.append (zero : ReadZero environment own request trace) (event : Event server) :
    ReadZero environment own request (trace ++ [event]) := by
  rcases zero with ⟨account, payer, member⟩
  exact ⟨account, payer, List.mem_append_left _ member⟩

theorem movesOnce_of_nothing (nothing : transferred trace = []) :
    MovesOnce environment own request bound trace where
  once := by
    refine ⟨0, Nat.zero_le _, _, _, _, ?_, fun _ => ⟨rfl, rfl, rfl⟩⟩
    rw [nothing]
    exact List.nil_sublist _
  topUp := by simp [nothing]

theorem MovesOnce.append_silent (moves : MovesOnce environment own request bound trace)
    {event : Event server} (silent : transferredBy event = none) :
    MovesOnce environment own request bound (trace ++ [event]) where
  once := by
    rw [transferred_append_silent silent]
    exact moves.once
  topUp := by
    intro transfer member
    rw [transferred_append_silent silent] at member
    exact fun topUp => (moves.topUp transfer member topUp).append _

theorem BeforeTransfer.append_other
    (before : BeforeTransfer environment own request bound trace amount) {point : Point}
    {call : Call} (other : call.movesCoins = false) {answer : Except Failure call.Answer} :
    BeforeTransfer environment own request bound (trace ++ [⟨point, call, answer⟩]) amount := by
  rw [BeforeTransfer, transferred_append_other other]
  rcases before with none | ⟨funded, topUp, payer, zero, le⟩
  · exact .inl none
  · exact .inr ⟨funded, topUp, payer, zero.append _, le⟩

theorem BeforeTransfer.movesOnce
    (before : BeforeTransfer environment own request bound trace amount) :
    MovesOnce environment own request bound trace := by
  rcases before with none | ⟨funded, topUp, payer, zero, le⟩
  · exact movesOnce_of_nothing none
  · refine ⟨⟨amount, le, funded, _, _, ?_, fun owns => ⟨payer owns, rfl, rfl⟩⟩,
      fun _ _ _ => zero⟩
    rw [topUp]
    simp

theorem BeforeTransfer.append_transfer
    (before : BeforeTransfer environment own request bound trace amount) (le : amount ≤ bound)
    {sender recipient : Option Address}
    (parties : own → sender = request.payer environment ∧ recipient = request.payee environment)
    (nonce : Option Nat) (receipt : Receipt) :
    MovesOnce environment own request bound
      (trace ++ [⟨.sendTransaction, .transfer sender recipient amount nonce, .ok receipt⟩]) := by
  have more : transferred
      (trace ++ [⟨.sendTransaction, .transfer sender recipient amount nonce, .ok receipt⟩]) =
      transferred trace ++ [⟨.sendTransaction, sender, recipient, amount⟩] :=
    transferred_append _ _
  rcases before with none | ⟨funded, topUp, payer, zero, _⟩
  · refine ⟨⟨amount, le, _, sender, recipient, ?_, fun owns => ⟨rfl, parties owns⟩⟩, ?_⟩
    · rw [more, none]
      simp
    · rw [more, none]
      simp
  · refine ⟨⟨amount, le, funded, sender, recipient, ?_, fun owns => ⟨payer owns, parties owns⟩⟩,
      fun _ _ _ => zero.append _⟩
    rw [more, topUp]
    exact .refl _

end Traces

/-! ## The discipline -/

/-- Other requests do not make calls in the name of a payment, and leave variables that
are its own. -/
def pricing (environment : Environment) (cell : Nat → Nat) (invoice bound : Nat) :
    Discipline (api environment cell) where
  assumes := fun _ _ _ view => priceOf view.world invoice ≤ bound
  rely := fun _ _ view later =>
    later.trace = view.trace ∧ (Function.Injective cell → later.globals = view.globals)
  rely_refl := fun _ _ _ => ⟨rfl, fun _ => rfl⟩
  rely_trans := fun _ _ _ _ _ early late =>
    ⟨late.1.trans early.1, fun owns => (late.2 owns).trans (early.2 owns)⟩
  holds := fun request _ view =>
    Names environment invoice request = true →
      MovesOnce environment (Function.Injective cell) request bound view.trace
  changes := fun _ _ _ _ => True

section Rules

variable {invoice bound : Nat} {request : Request} {origin : Option Point} {before : Globals}
  {view : View (api environment cell)} {point : Point}

theorem pricing_call {call : Call} {continuation : call.Answer → Handler (Response Data)}
    (moves : MovesOnce environment (Function.Injective cell) request bound view.trace)
    (continues : ∀ later resumed : View (api environment cell),
      priceOf later.world invoice ≤ bound →
      (Function.Injective cell → resumed.globals = view.globals) →
      resumed.trace = view.trace ++ [⟨point, call, (serve environment call later.world).1⟩] →
      MovesOnce environment (Function.Injective cell) request bound resumed.trace ∧
        ∀ answer, (serve environment call later.world).1 = .ok answer →
          (pricing environment cell invoice bound).Robust request (some point) resumed.globals
            (continuation answer) resumed) :
    (pricing environment cell invoice bound).Robust request origin before
      (wait point call >>= continuation) view := by
  apply Discipline.robust_call trivial
  intro later waits
  have sameTrace : later.trace = view.trace := waits.1
  refine ⟨fun _ => sameTrace ▸ moves, fun assumed outcome next served resumed rests => ?_⟩
  have outcome_eq : (serve environment call later.world).1 = outcome := congrArg Prod.fst served
  have grown : resumed.trace =
      view.trace ++ [⟨point, call, (serve environment call later.world).1⟩] := by
    rw [← sameTrace, outcome_eq]
    exact rests.1
  have kept : Function.Injective cell → resumed.globals = view.globals :=
    fun owns => (rests.2 owns).trans (waits.2 owns)
  rcases continues later resumed assumed kept grown with ⟨movesThen, succeeds⟩
  refine ⟨fun _ => movesThen, fun answer returned => succeeds answer (outcome_eq.trans returned),
    fun error _ => ⟨trivial, fun latest ends => ?_⟩⟩
  have lastTrace : latest.trace = resumed.trace := ends.1
  exact fun _ => lastTrace ▸ movesThen

/-- A call that is no transfer of coins. -/
theorem pricing_other {call : Call} {continuation : call.Answer → Handler (Response Data)}
    (other : call.movesCoins = false)
    (moves : MovesOnce environment (Function.Injective cell) request bound view.trace)
    (continues : ∀ later resumed : View (api environment cell), ∀ answer,
      priceOf later.world invoice ≤ bound →
      (Function.Injective cell → resumed.globals = view.globals) →
      (serve environment call later.world).1 = .ok answer →
      resumed.trace = view.trace ++ [⟨point, call, .ok answer⟩] →
      (pricing environment cell invoice bound).Robust request (some point) resumed.globals
        (continuation answer) resumed) :
    (pricing environment cell invoice bound).Robust request origin before
      (wait point call >>= continuation) view := by
  apply pricing_call moves
  intro later resumed priced kept grown
  rw [grown]
  refine ⟨moves.append_silent (transferredBy_other other _), fun answer answered => ?_⟩
  rw [answered] at grown
  exact continues later resumed answer priced kept answered grown

/-- A transfer that is made is affordable. -/
theorem pricing_transfer {sender recipient : Option Address} {amount : Nat} {nonce : Option Nat}
    {continuation : Receipt → Handler (Response Data)}
    (moves : MovesOnce environment (Function.Injective cell) request bound view.trace)
    (continues : ∀ resumed : View (api environment cell), ∀ receipt, amount ≤ supply →
      (Function.Injective cell → resumed.globals = view.globals) →
      resumed.trace =
        view.trace ++ [⟨point, .transfer sender recipient amount nonce, .ok receipt⟩] →
      MovesOnce environment (Function.Injective cell) request bound resumed.trace ∧
        (pricing environment cell invoice bound).Robust request (some point) resumed.globals
          (continuation receipt) resumed) :
    (pricing environment cell invoice bound).Robust request origin before
      (wait point (.transfer sender recipient amount nonce) >>= continuation) view := by
  apply pricing_call moves
  intro later resumed _ kept grown
  cases answered : (serve environment (.transfer sender recipient amount nonce) later.world).1 with
  | error failure =>
      rw [answered] at grown
      refine ⟨?_, fun receipt returned => nomatch returned⟩
      rw [grown]
      exact moves.append_silent rfl
  | ok receipt =>
      rw [answered] at grown
      rcases continues resumed receipt (amount_le_supply_of_transfer environment answered) kept
        grown with ⟨movesThen, robust⟩
      refine ⟨movesThen, fun answer returned => ?_⟩
      cases returned
      exact robust

theorem pricing_done {response : Response Data}
    (moves : MovesOnce environment (Function.Injective cell) request bound view.trace) :
    (pricing environment cell invoice bound).Robust request origin before (.done response)
      view := by
  refine ⟨trivial, fun later ends _ => ?_⟩
  have sameTrace : later.trace = view.trace := ends.1
  exact sameTrace ▸ moves

end Rules

/-! ## The payment -/

section Payment

variable {invoice bound : Nat} {request : Request} {amount : Nat}
  {continuation : TransferDetails → Handler (Response Data)}

theorem pricing_payAndReadBack (initial : Nat) (payable : amount ≤ supply → amount ≤ bound)
    (continues : ∀ details origin before (view : View (api environment cell)),
      MovesOnce environment (Function.Injective cell) request bound view.trace →
      (pricing environment cell invoice bound).Robust request origin before
        (continuation details) view)
    {origin : Option Point} {before : Globals} {view : View (api environment cell)}
    (parties : Function.Injective cell →
      view.globals.userAcc = request.payer environment ∧
        view.globals.merchantAcct = request.payee environment)
    (paid : BeforeTransfer environment (Function.Injective cell) request bound view.trace amount) :
    (pricing environment cell invoice bound).Robust request origin before
      (PizzaCoinClient.payAndReadBack initial amount >>= continuation) view := by
  simp only [PizzaCoinClient.payAndReadBack, PizzaCoinClient.transferAmt, Program.bind_assoc]
  apply Discipline.robust_get
  apply pricing_other rfl paid.movesOnce
  intro _ resumed count _ _ _ grown
  have paid := grown ▸ paid.append_other rfl
  apply pricing_other rfl paid.movesOnce
  intro _ resumed _ _ _ _ grown
  have paid := grown ▸ paid.append_other rfl
  apply pricing_other rfl paid.movesOnce
  intro _ resumed _ _ _ _ grown
  have paid := grown ▸ paid.append_other rfl
  apply pricing_transfer paid.movesOnce
  intro resumed receipt affordable _ grown
  have moves := grown ▸ paid.append_transfer (payable affordable) parties _ receipt
  refine ⟨moves, ?_⟩
  apply Discipline.robust_get
  apply pricing_other rfl moves
  intro _ resumed _ _ _ _ grown
  have moves := grown ▸ moves.append_silent rfl
  split
  · exact continues _ _ _ _ moves
  · exact continues _ _ _ _ moves

theorem pricing_transferAmount {fromId toId : String}
    (paying : accountAt environment.accounts fromId = request.payer environment)
    (paidTo : accountAt environment.accounts toId = request.payee environment)
    (payable : amount ≤ supply → amount ≤ bound)
    (continues : ∀ details origin before (view : View (api environment cell)),
      MovesOnce environment (Function.Injective cell) request bound view.trace →
      (pricing environment cell invoice bound).Robust request origin before
        (continuation details) view)
    {origin : Option Point} {before : Globals} {view : View (api environment cell)}
    (nothing : transferred view.trace = []) :
    (pricing environment cell invoice bound).Robust request origin before
      (PizzaCoinClient.transferAmount environment fromId toId amount >>= continuation) view := by
  simp only [PizzaCoinClient.transferAmount, Program.bind_assoc]
  apply pricing_other rfl (movesOnce_of_nothing nothing)
  intro _ resumed accounts _ _ answered grown
  cases answered
  have nothing := grown ▸ (transferred_append_other rfl).trans nothing
  apply Discipline.robust_modify
  apply pricing_other rfl
  · exact movesOnce_of_nothing nothing
  intro _ resumed accounts _ kept answered grown
  cases answered
  have userAcc : Function.Injective cell →
      resumed.globals.userAcc = request.payer environment :=
    fun owns => (congrArg Globals.userAcc (kept owns)).trans paying
  have nothing := grown ▸ (transferred_append_other rfl).trans nothing
  apply Discipline.robust_modify
  apply Discipline.robust_get
  apply pricing_other rfl
  · exact movesOnce_of_nothing nothing
  intro _ afterPayer balance _ keptPayer _ grown
  have readZero : roundToDouble balance = 0 →
      ReadZero environment (Function.Injective cell) request afterPayer.trace := by
    intro zero
    rw [grown, roundToDouble_eq_zero_iff.mp zero]
    exact ⟨_, userAcc, List.mem_append_right _ (List.mem_singleton_self _)⟩
  have nothing := grown ▸ (transferred_append_other rfl).trans nothing
  apply Discipline.robust_get
  apply pricing_other rfl (movesOnce_of_nothing nothing)
  intro _ afterPayee initial _ keptPayee _ grown
  have readZero : roundToDouble balance = 0 →
      ReadZero environment (Function.Injective cell) request afterPayee.trace := by
    intro zero
    rw [grown]
    exact (readZero zero).append _
  have nothing := grown ▸ (transferred_append_other rfl).trans nothing
  have parties : Function.Injective cell →
      afterPayee.globals.userAcc = request.payer environment ∧
        afterPayee.globals.merchantAcct = request.payee environment := by
    intro owns
    rw [(keptPayee owns).trans (keptPayer owns)]
    exact ⟨userAcc owns, paidTo⟩
  split
  · rename_i zero
    simp only [Program.bind_assoc]
    apply Discipline.robust_get
    apply pricing_transfer (movesOnce_of_nothing nothing)
    intro resumed receipt affordable kept grown
    have paid : BeforeTransfer environment (Function.Injective cell) request bound resumed.trace
        amount := by
      refine .inr ⟨afterPayee.globals.userAcc, ?_, fun owns => (parties owns).1,
        grown ▸ (readZero zero).append _, payable affordable⟩
      rw [grown, transferred_append, nothing]
      rfl
    refine ⟨paid.movesOnce, pricing_payAndReadBack initial payable continues ?_ paid⟩
    intro owns
    rw [kept owns]
    exact parties owns
  · exact pricing_payAndReadBack initial payable continues parties (.inl nothing)

end Payment

theorem pricing_paySupplier {invoice bound : Nat} {invoiceId : String} (payerId supplierId : String)
    (encoded : environment.encodeUint invoiceId = some invoice)
    {view : View (api environment cell)} (fresh : view.trace = []) :
    (pricing environment cell invoice bound).Robust (.paySupplier invoiceId payerId supplierId)
      none view.globals (handle environment (.paySupplier invoiceId payerId supplierId)) view := by
  have nothing : transferred view.trace = [] := by
    rw [fresh]
    rfl
  simp only [handle, Controller.payment, ProcurementClient.getInvoiceById, Program.bind_assoc]
  rw [encoded]
  apply pricing_other rfl (movesOnce_of_nothing nothing)
  intro later resumed answer priced _ answered grown
  cases answered
  have nothing := grown ▸ (transferred_append_other rfl).trans nothing
  apply pricing_transferAmount rfl rfl _ _ nothing
  · exact fun affordable => (roundToDouble_of_le_supply affordable).trans_le priced
  · intro details origin before view moves
    rw [Controller.recordPayment]
    split
    · simp only [Program.bind_assoc]
      apply pricing_other rfl moves
      intro _ resumed _ _ _ _ grown
      exact pricing_done (grown ▸ moves.append_silent rfl)
    · exact pricing_done moves

/-! ## Runs -/

theorem pricing_respected (environment : Environment) (cell : Nat → Nat) (invoice bound : Nat) :
    (pricing environment cell invoice bound).Respected
      fun pool _ => priceOf pool.world invoice ≤ bound where
  assumed := fun _ _ _ _ _ _ _ priced => priced
  serve := fun _ _ _ _ _ _ _ _ _ _ _ _ _ => ⟨rfl, fun _ => rfl⟩
  resume := fun _ _ _ _ _ _ _ _ _ _ _ distinct sameCell _ =>
    ⟨rfl, fun owns => absurd (owns sameCell) distinct⟩
  start := by
    intro pool request _ after _ other task sameCell found
    refine ⟨rfl, fun owns => ?_⟩
    have bound := (List.getElem?_eq_some_iff.mp found).1
    exact absurd (owns sameCell) (Nat.ne_of_lt bound)
  handlers := by
    intro pool request _ fresh
    by_cases names : Names environment invoice request = true
    · cases request with
      | paySupplier invoiceId payerId supplierId =>
          exact pricing_paySupplier payerId supplierId (beq_iff_eq.mp names) fresh
      | _ => cases names
    · apply Discipline.robust_of_trivial
      · exact fun _ _ named => absurd named names
      · exact fun _ _ _ => trivial

/-- The amounts that a request has transferred at a point. -/
def movedAt (point : Point) (trace : List (Event server)) : Nat :=
  (((transferred trace).filter fun transfer => transfer.point == point).map Transfer.amount).sum

/-- The payment requests for an invoice, as places in the list of tasks. -/
def paymentsOf (invoice : Nat) (pool : Pool (api environment cell)) : List Nat :=
  (List.range pool.tasks.length).filter fun index =>
    pool.tasks[index]?.any fun task => Names environment invoice task.request

/-- What all payment requests for an invoice have moved at a point. -/
def totalMovedAt (point : Point) (invoice : Nat) (pool : Pool (api environment cell)) : Nat :=
  ((paymentsOf invoice pool).map fun index => movedAt point (pool.trace index)).sum

theorem MovesOnce.movedAt_le {own : Prop} {request : Request} {bound : Nat}
    {trace : List (Event server)} (moves : MovesOnce environment own request bound trace)
    {point : Point} (paying : point = .topUp ∨ point = .sendTransaction) :
    movedAt point trace ≤ bound := by
  rcases moves.once with ⟨price, le, funded, sender, recipient, part, _⟩
  have filtered := (part.filter fun transfer => transfer.point == point).map Transfer.amount
  have sums := filtered.sum_le_sum (fun _ _ => Nat.zero_le _)
  rcases paying with rfl | rfl
  · exact sums.trans (by simpa using le)
  · exact sums.trans (by simpa using le)

/-- Every payment request for the invoice moves at most a top-up and a transfer. -/
def PaymentsMoveOnce (invoice bound : Nat) (pool : Pool (api environment cell)) : Prop :=
  ∀ (index : Nat) task, pool.tasks[index]? = some task →
    Names environment invoice task.request = true →
    MovesOnce environment (Function.Injective cell) task.request bound (pool.trace index)

/-- What the payment requests for an invoice have moved, as a multiple of the
price. -/
theorem totalMovedAt_le {bound invoice : Nat} {pool : Pool (api environment cell)} {point : Point}
    (paying : point = .topUp ∨ point = .sendTransaction)
    (moves : PaymentsMoveOnce invoice bound pool) :
    totalMovedAt point invoice pool ≤ bound * (paymentsOf invoice pool).length := by
  have each : ∀ amount ∈ (paymentsOf invoice pool).map fun index =>
      movedAt point (pool.trace index), amount ≤ bound := by
    intro amount member
    rcases List.mem_map.mp member with ⟨index, paid, rfl⟩
    rcases (Option.any_eq_true _ _).mp (List.mem_filter.mp paid).2 with ⟨task, found, names⟩
    exact (moves index task found names).movedAt_le paying
  have total := List.sum_le_card_nsmul _ bound each
  rw [List.length_map, smul_eq_mul, Nat.mul_comm] at total
  exact total

/-- A payment of the invoice that runs alone is refused only if an account is missing or the
coins do not settle it, whatever the status of the invoice. -/
def RefusedForCoinsOnly (environment : Environment) (cell : Nat → Nat) (invoice : Nat) : Prop :=
  ∀ invoiceId payerId supplierId, environment.encodeUint invoiceId = some invoice →
    ∀ view : View (api environment cell),
      Refused ((handle environment (.paySupplier invoiceId payerId supplierId)).alone view).1 ↔
        ∀ payer payee, accountAt environment.accounts payerId = some payer →
          accountAt environment.accounts supplierId = some payee →
          ¬settles environment view.world.coin payer payee (priceOf view.world invoice) = true

/-- The invoice is issued and paid once, by PizzaCo, whose account is empty. -/
def paidOnce : List (Action (api testNetwork fun _ => 0)) :=
  Action.alone 0 cheeseOrder 2 ++ Action.alone 1 cheeseInvoice 4 ++ Action.alone 2 cheesePayment 12

def paidAgain : List (Action (api testNetwork fun _ => 0)) :=
  Action.alone 3 cheesePayment 12

/-- All that the payment requests for an invoice have moved. -/
def totalMoved (invoice : Nat) (pool : Pool (api environment cell)) : Nat :=
  ((paymentsOf invoice pool).map fun index =>
    ((transferred (pool.trace index)).map Transfer.amount).sum).sum

end PizzaChain.Api
