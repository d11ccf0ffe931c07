import PizzaChain.Api.IssuedTerms
import PizzaChain.Semantics.Courses

/-! # Requests that read once

Six routes depend on a single call that reads the chain. Whatever else the server does
meanwhile, each of them answers as it would alone at one moment between its start and
its end.
-/

namespace PizzaChain.Api

open PizzaChain.Chain

/-- Any interleaving, with the variables shared. -/
abbrev Later {environment : Environment} (first second : Pool (sharedApi environment)) : Prop :=
  first.Reaches (fun _ _ => True) second

def Request.ReadsOnce : Request → Prop
  | .getPurchaseOrder _ | .getPurchaseOrders | .getInvoice _ | .getInvoices | .getBalance _
  | .getTokenBalance _ => True
  | _ => False

section Atomic

variable {environment : Environment} {index : Nat}

abbrev AtomicHandler (environment : Environment) (index : Nat) (handler : Handler α) : Prop :=
  @Program.Atomic (sharedApi environment) (fun _ _ => True) index α handler

theorem getPOById_atomic (poId : String) :
    AtomicHandler environment index (Controller.getPOById environment poId) := by
  apply Program.atomic_call
  intro po
  split <;> exact ⟨_, rfl⟩

theorem getInvoiceById_atomic (invoiceId : String) (encoded : Option Nat) :
    AtomicHandler environment index (Controller.getInvoiceById invoiceId encoded) := by
  apply Program.atomic_call
  intro invoice
  split <;> exact ⟨_, rfl⟩

theorem getPOList_atomic : AtomicHandler environment index Controller.getPOList :=
  Program.atomic_call fun _ => ⟨_, rfl⟩

theorem getInvoiceList_atomic : AtomicHandler environment index Controller.getInvoiceList :=
  Program.atomic_call fun _ => ⟨_, rfl⟩

/-- A balance is asked for right after the account was assigned. -/
theorem balance_atomic (ask : Option Address → Call)
    (form : (account : Option Address) → (ask account).Answer → α) (entityId : String) :
    AtomicHandler environment index (do
      let accounts ← wait .accounts .getAccounts
      Program.modify fun globals => { globals with acc := accountAt accounts entityId }
      let globals ← Program.get
      let balance ← wait .balance (ask globals.acc)
      return form globals.acc balance) := by
  have asks : AtomicHandler environment index (do
      let balance ← wait .balance (ask (accountAt environment.accounts entityId))
      return form (accountAt environment.accounts entityId) balance) :=
    Program.atomic_call fun _ => ⟨_, rfl⟩
  exact Program.Atomic.after_fixed (asks.after_assignment fun _ => rfl) fun _ => rfl

theorem handle_atomic {request : Request} (reads : request.ReadsOnce) :
    AtomicHandler environment index (handle environment request) := by
  cases request with
  | getPurchaseOrder poId => exact (getPOById_atomic poId).map _
  | getPurchaseOrders => exact getPOList_atomic.map _
  | getInvoice invoiceId => exact (getInvoiceById_atomic invoiceId _).map _
  | getInvoices => exact getInvoiceList_atomic.map _
  | getBalance entityId =>
      exact ((balance_atomic .balanceOf (fun _ => roundToDouble) entityId).map _).map _
  | getTokenBalance entityId =>
      exact ((balance_atomic .tokenBalanceOf (fun _ => roundToDouble) entityId).map _).map _
  | _ => exact absurd reads id

theorem settle_readsOnce {request : Request} (reads : request.ReadsOnce) (globals : Globals) :
    ((handle environment request).settle globals).1.hasEnded = false := by
  cases request with
  | getPurchaseOrder | getPurchaseOrders | getInvoice | getInvoices | getBalance
  | getTokenBalance => rfl
  | _ => exact absurd reads id

end Atomic

/-! ## Runs -/

section Runs

variable {environment : Environment}

/-- The request of the index was made in a run of the server, in the step from `start` to
`begun`, and answered after the moment `ended`. -/
abbrev Served (origin final : Pool (sharedApi environment)) (index : Nat) (request : Request)
    (start begun ended : Pool (sharedApi environment)) : Prop :=
  Lifetime (fun _ _ => True) origin final index request start begun ended

/-- A test run in which a request has ended. -/
theorem exists_ended {world : World} {globals : Nat → Globals} {index : Nat} {request : Request}
    (actions : List (Action (sharedApi environment))) (isRequest : Request → Bool)
    (only : ∀ other, isRequest other = true → other = request)
    (ran : ((Pool.initial world globals : Pool (sharedApi environment)).run (fun _ _ => true)
      actions).bind (fun final => final.tasks[index]?.map fun task =>
        isRequest task.request && task.process.hasEnded) = some true) :
    ∃ (final : Pool (sharedApi environment)) (outcome : Except Failure (Response Data)),
      Later (Pool.initial world globals) final ∧
      final.tasks[index]? = some ⟨request, .ended outcome⟩ := by
  rcases Option.bind_eq_some_iff.mp ran with ⟨final, runs, reached⟩
  rcases Option.map_eq_some_iff.mp reached with ⟨⟨other, process⟩, found, asked⟩
  rw [Bool.and_eq_true] at asked
  rcases Process.hasEnded_iff.mp asked.2 with ⟨outcome, rfl⟩
  have same : other = request := only other asked.1
  rw [same] at found
  exact ⟨final, outcome, ⟨actions, Pool.transitions_of_free_run runs⟩, found⟩

end Runs

/-- CheeseCo asks for its balance, and another request for the cheese is made before it is
answered. -/
def cheeseAsked : List (Action (sharedApi testNetwork)) :=
  [.start (.getBalance "2"), .serve 0, .start cheeseOrder, .resume 0, .serve 1, .serve 0,
    .resume 1, .resume 0]

end PizzaChain.Api
