import PizzaChain.Api.Clients
import PizzaChain.Semantics.RelyGuarantee

/-! # Isolation of concurrent transfers

`transferAmount` and `transferToken` keep the accounts of a call in undeclared
variables, which all calls share. A call reads them again after several awaits,
so it may move another call's tokens. It does not when no call assigns a
variable to another account while an earlier call still needs it.
-/

namespace PizzaChain.Api

open PizzaChain.Chain

inductive TransferCall
  | transferAmount (userAccId merchantAcctId : String) (amount : Nat)
  | transferToken (merchantAcctId userAccId tokenId : String)

namespace TransferCall

variable (environment : Environment)

/-- The account that a call assigns to `userAcc`. -/
def user : TransferCall → Option Address
  | .transferAmount userAccId _ _ => accountAt environment.accounts userAccId
  | .transferToken _ userAccId _ => accountAt environment.accounts userAccId

/-- The account that a call assigns to `merchantAcct`. -/
def merchant : TransferCall → Option Address
  | .transferAmount _ merchantAcctId _ => accountAt environment.accounts merchantAcctId
  | .transferToken merchantAcctId _ _ => accountAt environment.accounts merchantAcctId

def program : TransferCall → Handler TransferDetails
  | .transferAmount userAccId merchantAcctId amount =>
      PizzaCoinClient.transferAmount environment userAccId merchantAcctId amount
  | .transferToken merchantAcctId userAccId tokenId =>
      ItemTokenClient.transferToken environment merchantAcctId userAccId tokenId

/-- A transfer made on behalf of a call moves that call's own amount or token
between its own accounts; a top-up goes to its own source account. -/
def Own (request : TransferCall) (point : Point) : Call → Prop
  | .transfer sender recipient amount _ =>
      ∃ userAccId merchantAcctId, request = .transferAmount userAccId merchantAcctId amount ∧
        ((point = .topUp ∧ sender = environment.coinbase ∧
            recipient = accountAt environment.accounts userAccId) ∨
          (point = .sendTransaction ∧ sender = accountAt environment.accounts userAccId ∧
            recipient = accountAt environment.accounts merchantAcctId))
  | .transferFrom caller sender recipient tokenId =>
      ∃ merchantAcctId userAccId spelling,
        request = .transferToken merchantAcctId userAccId spelling ∧
        caller = sender ∧ sender = accountAt environment.accounts merchantAcctId ∧
        recipient = accountAt environment.accounts userAccId ∧
        tokenId = environment.encodeUint spelling
  | _ => True

end TransferCall

/-- Concurrent calls with shared variables. -/
abbrev transfers (environment : Environment) : System where
  interface := server
  World := World
  serve := serve environment
  Request := TransferCall
  Result := TransferDetails
  handler := TransferCall.program environment
  cell := fun _ => 0

/-- Every transfer that has been issued and not answered is its call's own. -/
def Isolated {environment : Environment} (pool : Pool (transfers environment)) : Prop :=
  ∀ request point call, (request, point, call) ∈ pool.issued → request.Own environment point call

/-! ## When the variables are needed -/

/-- A call at this point has assigned `userAcc` and has yet to read it for a
transfer. -/
def needsUserAcc : Point → Bool
  | .merchantAccounts | .payerBalance | .payeeBalance | .topUp | .tokenOwner => true
  | _ => false

/-- A call at this point has assigned `merchantAcct` and has yet to read it for
a transfer. -/
def needsMerchantAcct : Point → Bool
  | .payerBalance | .payeeBalance | .topUp | .tokenOwner => true
  | _ => false

section Condition

variable {environment : Environment}

/-- A task has assigned `userAcc` and has yet to read it for a transfer. -/
def Moment.needsUserAcc (moment : Moment (transfers environment)) : Bool :=
  moment.point.any Api.needsUserAcc

def Moment.needsMerchantAcct (moment : Moment (transfers environment)) : Bool :=
  moment.point.any Api.needsMerchantAcct

/-- The assignment that a call makes when it is resumed from a point leaves the
variables that another task needs at that task's accounts. -/
def spares (request : TransferCall) (point : Point) (task : Task (transfers environment)) : Bool :=
  match point with
  | .userAccounts => !Moment.needsUserAcc task.process.moment ||
      request.user environment == task.request.user environment
  | .merchantAccounts => !Moment.needsMerchantAcct task.process.moment ||
      request.merchant environment == task.request.merchant environment
  | _ => true

/-- A call assigns a variable only while no other call needs it for a different
account. -/
def assignsSafely (pool : Pool (transfers environment)) : Action (transfers environment) → Bool
  | .resume index =>
      match pool.tasks[index]? with
      | some ⟨request, .served point _⟩ =>
          pool.tasks.zipIdx.all fun (task, other) => other == index || spares request point task
      | _ => true
  | _ => true

theorem spares_of_assignsSafely {pool : Pool (transfers environment)} {index other : Nat}
    {request : TransferCall} {point : Point} {rest : Handler TransferDetails}
    {task : Task (transfers environment)} (safe : assignsSafely pool (.resume index) = true)
    (found : pool.tasks[index]? = some ⟨request, .served point rest⟩) (different : other ≠ index)
    (otherFound : pool.tasks[other]? = some task) : spares request point task = true := by
  simp only [assignsSafely, found, List.all_eq_true] at safe
  have checked := safe (task, other) (List.mk_mem_zipIdx_iff_getElem?.mpr otherFound)
  simpa [different] using checked

end Condition

/-! ## The discipline -/

/-- What the other calls leave alone: the variables that a call still needs. -/
structure Undisturbed (environment : Environment) (request : TransferCall)
    (moment : Moment (transfers environment)) (view later : View (transfers environment)) :
    Prop where
  userAcc : Moment.needsUserAcc moment = true →
    view.globals.userAcc = request.user environment →
      later.globals.userAcc = request.user environment
  merchantAcct : Moment.needsMerchantAcct moment = true →
    view.globals.merchantAcct = request.merchant environment →
      later.globals.merchantAcct = request.merchant environment

/-- How a call that is resumed from a point changes the variables. -/
def assigned (environment : Environment) (request : TransferCall) (origin : Option Point)
    (before : Globals) : Globals :=
  match origin with
  | some .userAccounts => { before with userAcc := request.user environment }
  | some .merchantAccounts => { before with merchantAcct := request.merchant environment }
  | _ => before

def isolation (environment : Environment) : Discipline (transfers environment) where
  assumes := fun _ _ _ _ => True
  rely := Undisturbed environment
  rely_refl := by
    intro request moment view
    constructor
    · exact fun _ same => same
    · exact fun _ same => same
  rely_trans := by
    intro request moment first second third early late
    constructor
    · intro needed same
      exact late.userAcc needed (early.userAcc needed same)
    · intro needed same
      exact late.merchantAcct needed (early.merchantAcct needed same)
  holds := fun request moment _ =>
    match moment with
    | .waiting point call => request.Own environment point call
    | _ => True
  changes := fun request origin before after => after = assigned environment request origin before

/-- The variables that a call at a point still needs hold its accounts. -/
structure Prepared (environment : Environment) (request : TransferCall) (point : Point)
    (globals : Globals) : Prop where
  userAcc : needsUserAcc point = true → globals.userAcc = request.user environment
  merchantAcct : needsMerchantAcct point = true →
    globals.merchantAcct = request.merchant environment

theorem Prepared.interference {environment : Environment} {request : TransferCall} {point : Point}
    {moment : Moment (transfers environment)} {view later : View (transfers environment)}
    (prepared : Prepared environment request point view.globals)
    (located : moment.point = some point)
    (undisturbed : Undisturbed environment request moment view later) :
    Prepared environment request point later.globals where
  userAcc := by
    intro needed
    apply undisturbed.userAcc _ (prepared.userAcc needed)
    simp [Moment.needsUserAcc, located, needed]
  merchantAcct := by
    intro needed
    apply undisturbed.merchantAcct _ (prepared.merchantAcct needed)
    simp [Moment.needsMerchantAcct, located, needed]

section Rules

variable {environment : Environment} {request : TransferCall} {origin : Option Point}
  {before : Globals} {view : View (transfers environment)} {point : Point}

/-- The variables that are needed at a point stay as they are until the request
is resumed. -/
theorem prepared_of_resumed {call : Call} {later answered resumed : View (transfers environment)}
    (prepared : Prepared environment request point view.globals)
    (waits : Undisturbed environment request (.waiting point call) view later)
    (rests : Undisturbed environment request (.served point) answered resumed)
    (same : answered.globals = later.globals) :
    Prepared environment request point resumed.globals := by
  have waited : Prepared environment request point later.globals :=
    prepared.interference rfl waits
  rw [← same] at waited
  exact waited.interference rfl rests

/-- The account list is always returned. -/
theorem isolation_accounts {continuation : List Address → Handler TransferDetails}
    (changed : view.globals = assigned environment request origin before)
    (prepared : Prepared environment request point view.globals)
    (continues : ∀ resumed : View (transfers environment),
      Prepared environment request point resumed.globals →
      (isolation environment).Robust request (some point) resumed.globals
        (continuation environment.accounts) resumed) :
    (isolation environment).Robust request origin before
      (wait point .getAccounts >>= continuation) view := by
  apply Discipline.robust_call changed
  intro later waits
  refine ⟨trivial, fun _ outcome next served resumed rests => ⟨trivial, ?_, ?_⟩⟩
  · intro accounts returned
    cases served
    cases returned
    exact continues resumed (prepared_of_resumed prepared waits rests rfl)
  · intro error rejected
    cases served
    cases rejected

/-- Any other call, at a point that assigns no variable. -/
theorem isolation_call {call : Call} {continuation : call.Answer → Handler TransferDetails}
    (plain : ∀ globals, assigned environment request (some point) globals = globals)
    (own : request.Own environment point call)
    (changed : view.globals = assigned environment request origin before)
    (prepared : Prepared environment request point view.globals)
    (continues : ∀ answer, ∀ resumed : View (transfers environment),
      Prepared environment request point resumed.globals →
      (isolation environment).Robust request (some point) resumed.globals (continuation answer)
        resumed) :
    (isolation environment).Robust request origin before (wait point call >>= continuation)
      view := by
  apply Discipline.robust_call changed
  intro later waits
  refine ⟨own, fun _ outcome next served resumed rests => ⟨trivial, ?_, ?_⟩⟩
  · intro answer _
    exact continues answer resumed (prepared_of_resumed prepared waits rests rfl)
  · intro error _
    exact ⟨(plain resumed.globals).symm, fun _ _ => trivial⟩

/-- At a point where no variable is needed any more. -/
theorem prepared_of_unneeded {globals : Globals} (notUser : needsUserAcc point = false)
    (notMerchant : needsMerchantAcct point = false) :
    Prepared environment request point globals where
  userAcc := by simp [notUser]
  merchantAcct := by simp [notMerchant]

theorem isolation_done {details : TransferDetails}
    (changed : view.globals = assigned environment request origin before) :
    (isolation environment).Robust request origin before (.done details) view :=
  ⟨changed, fun _ _ => trivial⟩

end Rules

/-! ## The two clients -/

section Clients

variable (environment : Environment)

theorem isolation_payAndReadBack {userAccId merchantAcctId : String} {amount : Nat}
    (initial : Nat) {origin : Option Point} {before : Globals}
    {view : View (transfers environment)}
    (changed : view.globals =
      assigned environment (.transferAmount userAccId merchantAcctId amount) origin before)
    (userAcc : view.globals.userAcc = accountAt environment.accounts userAccId)
    (merchantAcct : view.globals.merchantAcct = accountAt environment.accounts merchantAcctId) :
    (isolation environment).Robust (.transferAmount userAccId merchantAcctId amount) origin before
      (PizzaCoinClient.payAndReadBack initial amount) view := by
  apply Discipline.robust_get
  rw [PizzaCoinClient.transferAmt]
  simp only [Program.bind_assoc]
  apply isolation_call (fun _ => rfl) (by trivial) changed (prepared_of_unneeded rfl rfl)
  intro _ resumed _
  apply isolation_call (fun _ => rfl) (by trivial) rfl (prepared_of_unneeded rfl rfl)
  intro _ resumed _
  apply isolation_call (fun _ => rfl) (by trivial) rfl (prepared_of_unneeded rfl rfl)
  intro _ resumed _
  apply isolation_call (fun _ => rfl) _ rfl (prepared_of_unneeded rfl rfl)
  · intro _ resumed _
    apply Discipline.robust_get
    apply isolation_call (fun _ => rfl) (by trivial) rfl (prepared_of_unneeded rfl rfl)
    intro _ resumed _
    split
    · exact isolation_done rfl
    · exact isolation_done rfl
  · exact ⟨userAccId, merchantAcctId, rfl, .inr ⟨rfl, userAcc, merchantAcct⟩⟩

theorem isolation_transferAmount (userAccId merchantAcctId : String) (amount : Nat)
    (view : View (transfers environment)) :
    (isolation environment).Robust (.transferAmount userAccId merchantAcctId amount) none
      view.globals
      (PizzaCoinClient.transferAmount environment userAccId merchantAcctId amount) view := by
  apply isolation_accounts rfl (prepared_of_unneeded rfl rfl)
  intro resumed _
  apply Discipline.robust_modify
  apply isolation_accounts rfl ⟨fun _ => rfl, by simp [needsMerchantAcct]⟩
  intro resumed prepared
  apply Discipline.robust_modify
  apply Discipline.robust_get
  have userAcc := prepared.userAcc rfl
  refine isolation_call (fun _ => rfl) (by trivial) rfl ⟨fun _ => userAcc, fun _ => rfl⟩ ?_
  intro balance resumed prepared
  apply Discipline.robust_get
  apply isolation_call (fun _ => rfl) (by trivial) rfl
    ⟨fun _ => prepared.userAcc rfl, fun _ => prepared.merchantAcct rfl⟩
  intro initial resumed prepared
  split
  · apply Discipline.robust_get
    apply isolation_call (fun _ => rfl) _ rfl
      ⟨fun _ => prepared.userAcc rfl, fun _ => prepared.merchantAcct rfl⟩
    · intro _ resumed prepared
      exact isolation_payAndReadBack environment initial rfl (prepared.userAcc rfl)
        (prepared.merchantAcct rfl)
    · exact ⟨userAccId, merchantAcctId, rfl, .inl ⟨rfl, rfl, prepared.userAcc rfl⟩⟩
  · exact isolation_payAndReadBack environment initial rfl (prepared.userAcc rfl)
      (prepared.merchantAcct rfl)

theorem isolation_transferToken (merchantAcctId userAccId tokenId : String)
    (view : View (transfers environment)) :
    (isolation environment).Robust (.transferToken merchantAcctId userAccId tokenId) none
      view.globals
      (ItemTokenClient.transferToken environment merchantAcctId userAccId tokenId) view := by
  apply isolation_accounts rfl (prepared_of_unneeded rfl rfl)
  intro resumed _
  apply Discipline.robust_modify
  apply isolation_accounts rfl ⟨fun _ => rfl, by simp [needsMerchantAcct]⟩
  intro resumed prepared
  apply Discipline.robust_modify
  have userAcc := prepared.userAcc rfl
  refine isolation_call (fun _ => rfl) (by trivial) rfl ⟨fun _ => userAcc, fun _ => rfl⟩ ?_
  intro owner resumed prepared
  apply Discipline.robust_get
  split
  · apply isolation_call (fun _ => rfl) _ rfl (prepared_of_unneeded rfl rfl)
    · intro receipt resumed _
      apply isolation_call (fun _ => rfl) (by trivial) rfl (prepared_of_unneeded rfl rfl)
      intro owner resumed _
      apply Discipline.robust_get
      split
      · exact isolation_done rfl
      · exact isolation_done rfl
    · exact ⟨merchantAcctId, userAccId, tokenId, rfl, rfl, prepared.merchantAcct rfl,
        prepared.userAcc rfl, rfl⟩
  · exact isolation_done rfl

end Clients

/-! ## Runs -/

theorem isolation_respected (environment : Environment) :
    (isolation environment).Respected fun pool action => assignsSafely pool action = true where
  assumed := fun _ _ _ _ _ _ _ _ => trivial
  serve := by
    intro pool index request point call next found meets holds other task different otherFound
    exact ⟨fun _ same => same, fun _ same => same⟩
  resume := by
    intro pool index request point rest found meets after changed other task different _ otherFound
    have spared := spares_of_assignsSafely meets found different otherFound
    have after_eq : after = assigned environment request (some point) (pool.globals 0) := changed
    subst after_eq
    cases point with
    | userAccounts =>
        refine ⟨fun needed _ => ?_, fun _ same => ?_⟩
        · simpa [spares, needed, assigned] using spared
        · exact same
    | merchantAccounts =>
        refine ⟨fun _ same => ?_, fun needed _ => ?_⟩
        · exact same
        · simpa [spares, needed, assigned] using spared
    | _ =>
        refine ⟨fun _ same => ?_, fun _ same => ?_⟩
        · exact same
        · exact same
  start := by
    intro pool request meets after changed other task sameCell otherFound
    have after_eq : after = pool.globals 0 := changed
    rw [after_eq]
    exact ⟨fun _ same => same, fun _ same => same⟩
  handlers := by
    intro pool request _ _
    cases request with
    | transferAmount userAccId merchantAcctId amount =>
        exact isolation_transferAmount environment userAccId merchantAcctId amount _
    | transferToken merchantAcctId userAccId tokenId =>
        exact isolation_transferToken environment merchantAcctId userAccId tokenId _

/-- In every run of concurrent transfers in which no call assigns an account
variable that another call needs for a different account, every transfer that
is issued is its call's own. -/
theorem transfers_isolated (environment : Environment) (world : World) (globals : Nat → Globals)
    (actions : List (Action (transfers environment))) (final : Pool (transfers environment))
    (run : Transitions (Pool.Step fun pool action => assignsSafely pool action = true)
      (Pool.initial world globals) actions final) :
    Isolated final := by
  have kept := (isolation_respected environment).sound run
    ((isolation environment).kept_initial world globals)
  intro request point call made
  rcases List.mem_filterMap.mp made with ⟨task, member, issued⟩
  rcases List.mem_iff_getElem?.mp member with ⟨index, found⟩
  have holds := (kept.tasks index task found).holds
  rcases task with ⟨_, process⟩
  cases process with
  | waiting _ _ _ =>
      cases issued
      exact holds
  | served _ _ => cases issued
  | ended _ => cases issued

/-- Two payments from the admin account to CheeseCo. -/
def samePayer : List (Action (transfers testNetwork)) :=
  [.start (.transferAmount "0" "2" 5), .start (.transferAmount "0" "2" 7),
    .serve 0, .resume 0, .serve 1, .resume 1, .serve 0, .resume 0, .serve 1, .resume 1,
    .serve 0, .resume 0, .serve 0, .resume 0, .serve 0, .resume 0, .serve 0, .resume 0,
    .serve 0, .resume 0]

theorem samePayer_isolated :
    ∃ final, Transitions (Pool.Step fun pool action => assignsSafely pool action = true)
        (Pool.initial (World.deployed testNetwork) fun _ => Globals.initial) samePayer final ∧
      Isolated final ∧
      final.issued = [(.transferAmount "0" "2" 5, .sendTransaction,
          .transfer (some 1) (some 3) 5 (some 0)),
        (.transferAmount "0" "2" 7, .payerBalance, .balanceOf (some 1))] := by
  have ran : ((Pool.initial (World.deployed testNetwork) fun _ => Globals.initial).run
        assignsSafely samePayer).map Pool.issued =
      some [(.transferAmount "0" "2" 5, .sendTransaction, .transfer (some 1) (some 3) 5 (some 0)),
        (.transferAmount "0" "2" 7, .payerBalance, .balanceOf (some 1))] := rfl
  rcases Option.map_eq_some_iff.mp ran with ⟨final, runs, issued⟩
  have run := Pool.transitions_of_run runs
  exact ⟨final, run, transfers_isolated testNetwork _ _ _ _ run, issued⟩

/-- A payment from PizzaCo to CheeseCo, and one from the admin account to DoughCo
that assigns `userAcc` before the first has read it for its transfer. -/
def otherPayer : List (Action (transfers testNetwork)) :=
  [.start (.transferAmount "1" "2" 5), .start (.transferAmount "0" "3" 7),
    .serve 0, .resume 0, .serve 1, .resume 1,
    .serve 0, .resume 0, .serve 0, .resume 0, .serve 0, .resume 0, .serve 0, .resume 0,
    .serve 0, .resume 0, .serve 0, .resume 0]

/-- The first payment is then made from the admin account. -/
theorem otherPayer_not_isolated :
    ∃ final, Transitions (Pool.Step fun _ _ => True)
        (Pool.initial (World.deployed testNetwork) fun _ => Globals.initial) otherPayer final ∧
      ¬Isolated final := by
  have ran : ((Pool.initial (World.deployed testNetwork) fun _ => Globals.initial).run
        (fun _ _ => true) otherPayer).map Pool.issued =
      some [(.transferAmount "1" "2" 5, .sendTransaction, .transfer (some 1) (some 3) 5 (some 0)),
        (.transferAmount "0" "3" 7, .merchantAccounts, .getAccounts)] := rfl
  rcases Option.map_eq_some_iff.mp ran with ⟨final, runs, issued⟩
  refine ⟨final, Pool.transitions_of_free_run runs, fun isolated => ?_⟩
  rcases isolated (.transferAmount "1" "2" 5) .sendTransaction
    (.transfer (some 1) (some 3) 5 (some 0)) (by simp [issued]) with
    ⟨userAccId, merchantAcctId, equal, topUp | send⟩
  · exact absurd topUp.1 (by decide)
  · cases equal
    exact absurd send.2.1 (by decide)

end PizzaChain.Api
