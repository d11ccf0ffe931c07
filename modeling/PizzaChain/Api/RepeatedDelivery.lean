import PizzaChain.Api.Delivery
import PizzaChain.Api.Ordering
import PizzaChain.Semantics.RelyGuarantee

/-! # Repeated deliveries

While a QR code is in view the scanner posts the same delivery again and again.
The copies share the variables that hold the accounts, but all of them assign the
same accounts. The token leaves the supplier once, and only the copy that moved
it writes statuses.
-/

namespace PizzaChain.Api

open PizzaChain.Chain

/-- A token that is with the account of a supplier and is to go to another. -/
structure Shipment (environment : Environment) (start : World)
    (tokenId supplierId payerId : String) where
  number : Nat
  supplier : Address
  payer : Address
  encoded : environment.encodeUint tokenId = some number
  supplying : accountAt environment.accounts supplierId = some supplier
  paying : accountAt environment.accounts payerId = some payer
  owned : start.token.tokenOwner number = supplier
  different : payer ≠ supplier

/-- The call moved a token. -/
def moves : Event server → Bool
  | ⟨_, .transferFrom _ _ _ _, .ok _⟩ => true
  | _ => false

theorem moves_other {point : Point} {call : Call} (other : call.changes ≠ some .token)
    (answer : Except Failure call.Answer) : moves ⟨point, call, answer⟩ = false := by
  cases call with
  | transferFrom caller sender recipient tokenId => exact absurd rfl other
  | _ => rfl

/-- The transactions of the Procurement contract that a request has run. -/
def written (trace : List (Event server)) : List ProcurementCall :=
  trace.filterMap ranBy

theorem written_append (trace : List (Event server)) (event : Event server) :
    written (trace ++ [event]) = written trace ++ (ranBy event).toList := by
  rw [written, List.filterMap_append]
  cases ran : ranBy event with
  | none => simp [ran, written]
  | some call => simp [ran, written]

/-- Who has not moved the token has written nothing. -/
def Honest (trace : List (Event server)) : Prop :=
  trace.any moves = false → written trace = []

structure Quiet (trace : List (Event server)) : Prop where
  moved : trace.any moves = false
  written : written trace = []

theorem Quiet.honest {trace : List (Event server)} (quiet : Quiet trace) : Honest trace :=
  fun _ => quiet.written

/-- Only copies of one request are started. -/
def StartsOnly {environment : Environment} {cell : Nat → Nat} (request : Request)
    (_ : Pool (api environment cell)) : Action (api environment cell) → Prop
  | .start started => started = request
  | _ => True

namespace Shipment

variable {environment : Environment} {cell : Nat → Nat} {start : World}
  {tokenId supplierId payerId : String}
  (shipment : Shipment environment start tokenId supplierId payerId)

/-- The owners once the token has been delivered. -/
def delivered : Nat → Address :=
  Function.update start.token.tokenOwner shipment.number shipment.payer

/-- The transfer that every copy sends if it sends one. -/
def transfer : Call :=
  .transferFrom (some shipment.supplier) (some shipment.supplier) (some shipment.payer)
    (some shipment.number)

/-- The statuses that a delivery writes, as far as the row of the token has ids. -/
def updates (_ : Shipment environment start tokenId supplierId payerId) : List ProcurementCall :=
  match start.rows.filter (Query.tokenId tokenId).matches with
  | [] => []
  | row :: _ =>
      match row.poId.bind environment.encodeUint with
      | none => []
      | some po => .updatePOStatus po PoStatus.delivered.text ::
          ((row.invoiceId.bind environment.encodeUint).map
            (.updatePOStatus · InvoiceStatus.completed.text)).toList

/-- Between the first and the last step of the copies. -/
structure Underway (world : World) : Prop where
  rows : world.rows = start.rows
  owners : world.token.tokenOwner = start.token.tokenOwner ∨
    world.token.tokenOwner = shipment.delivered

theorem delivered_number : shipment.delivered shipment.number = shipment.payer :=
  Function.update_self _ _ _

theorem supplier_ne_zero : shipment.supplier ≠ 0 :=
  environment.accountAt_ne_zero shipment.supplying

theorem payer_ne_zero : shipment.payer ≠ 0 :=
  environment.accountAt_ne_zero shipment.paying

theorem delivered_ne_start : shipment.delivered ≠ start.token.tokenOwner := by
  intro same
  have owner := congrFun same shipment.number
  rw [shipment.delivered_number, shipment.owned] at owner
  exact shipment.different owner

/-! ## The calls of a copy -/

section Calls

variable {shipment} {world : World}

/-- The first transfer moves the token. -/
theorem serve_transfer_of_start (owners : world.token.tokenOwner = start.token.tokenOwner) :
    ∃ token, serve environment shipment.transfer world =
        (.ok world.transactions.length,
          { world with token := token }.mined shipment.supplier) ∧
      token.tokenOwner = shipment.delivered := by
  have owned : world.token.tokenOwner shipment.number = shipment.supplier := by
    rw [owners, shipment.owned]
  rcases ItemToken.transferFrom_of_owner owned shipment.supplier_ne_zero shipment.payer_ne_zero with
    ⟨token, transfers, moved⟩
  refine ⟨token, ?_, ?_⟩
  · simp [transfer, serve, World.send, transfers]
  · rw [moved, owners]
    rfl

/-- Every later one reverts. -/
theorem serve_transfer_of_delivered (owners : world.token.tokenOwner = shipment.delivered) :
    serve environment shipment.transfer world =
      (.error .reverted, world.mined shipment.supplier) := by
  have others : world.token.tokenOwner shipment.number ≠ shipment.supplier := by
    rw [owners, shipment.delivered_number]
    exact shipment.different
  simp [transfer, serve, World.send, ItemToken.transferFrom_of_not_owner others]

theorem serve_ownerOf (underway : shipment.Underway world) :
    serve environment (.ownerOf (some shipment.number)) world =
      (.ok (world.token.tokenOwner shipment.number), world) := by
  have nonzero : world.token.tokenOwner shipment.number ≠ 0 := by
    rcases underway.owners with owners | owners
    · rw [owners, shipment.owned]
      exact shipment.supplier_ne_zero
    · rw [owners, shipment.delivered_number]
      exact shipment.payer_ne_zero
  simp [serve, World.ask, ItemToken.ownerOf_of_owner rfl nonzero]

/-- Whoever sees the payer as the owner sees the token delivered. -/
theorem Underway.delivered_of_payer (underway : shipment.Underway world)
    (payer : world.token.tokenOwner shipment.number = shipment.payer) :
    world.token.tokenOwner = shipment.delivered := by
  rcases underway.owners with owners | owners
  · rw [owners, shipment.owned] at payer
    exact absurd payer.symm shipment.different
  · exact owners

end Calls

/-! ## The discipline -/

/-- What the other copies, and calls that read, leave of what a copy knows. -/
structure Undisturbed (view later : View (api environment cell)) : Prop where
  userAcc : view.globals.userAcc = some shipment.payer →
    later.globals.userAcc = some shipment.payer
  merchantAcct : view.globals.merchantAcct = some shipment.supplier →
    later.globals.merchantAcct = some shipment.supplier
  delivered : view.world.token.tokenOwner = shipment.delivered →
    later.world.token.tokenOwner = shipment.delivered
  moved : later.trace.any moves = view.trace.any moves
  written : written later.trace = written view.trace

variable {shipment} in
theorem Undisturbed.trans {first second third : View (api environment cell)}
    (early : shipment.Undisturbed first second) (late : shipment.Undisturbed second third) :
    shipment.Undisturbed first third where
  userAcc := late.userAcc ∘ early.userAcc
  merchantAcct := late.merchantAcct ∘ early.merchantAcct
  delivered := late.delivered ∘ early.delivered
  moved := late.moved.trans early.moved
  written := late.written.trans early.written

variable {shipment} in
theorem Undisturbed.honest {view later : View (api environment cell)}
    (undisturbed : shipment.Undisturbed view later) (honest : Honest view.trace) :
    Honest later.trace := by
  rw [Honest, undisturbed.moved, undisturbed.written]
  exact honest

variable {shipment} in
theorem Undisturbed.quiet {view later : View (api environment cell)}
    (undisturbed : shipment.Undisturbed view later) (quiet : Quiet view.trace) :
    Quiet later.trace :=
  ⟨undisturbed.moved.trans quiet.moved, undisturbed.written.trans quiet.written⟩

/-- A copy that has ended has seen the token delivered, and has written all statuses
if it was the one to move it. -/
def Races (moment : Moment (api environment cell)) (view : View (api environment cell)) : Prop :=
  Honest view.trace ∧
  match moment with
  | .waiting _ call => (call.changes = some .token → call = shipment.transfer) ∧
      call.changes ≠ some .rows
  | .served _ => True
  | .ended _ => view.world.token.tokenOwner = shipment.delivered ∧
      (view.trace.any moves = true → written view.trace = shipment.updates)

def race (cell : Nat → Nat) : Discipline (api environment cell) where
  assumes := fun _ _ _ view => shipment.Underway view.world
  rely := fun _ _ => shipment.Undisturbed
  rely_refl := fun _ _ _ => ⟨fun same => same, fun same => same, fun same => same, rfl, rfl⟩
  rely_trans := fun _ _ _ _ _ => Undisturbed.trans
  holds := fun _ => shipment.Races
  changes := fun _ _ before after =>
    (before.userAcc = some shipment.payer → after.userAcc = some shipment.payer) ∧
    (before.merchantAcct = some shipment.supplier → after.merchantAcct = some shipment.supplier)

section Rules

variable {shipment} {request : Request} {origin : Option Point} {before : Globals}
  {view : View (api environment cell)} {point : Point}

theorem race_unchanged {globals : Globals} :
    (shipment.race cell).changes request origin globals globals :=
  ⟨fun same => same, fun same => same⟩

theorem race_ends {outcome : Except Failure (Response Data)}
    (owners : view.world.token.tokenOwner = shipment.delivered)
    (honest : Honest view.trace)
    (all : view.trace.any moves = true → written view.trace = shipment.updates) :
    (shipment.race cell).Ends request outcome view := by
  intro later undisturbed
  refine ⟨undisturbed.honest honest, undisturbed.delivered owners, ?_⟩
  rw [undisturbed.moved, undisturbed.written]
  exact all

/-- A call that reads and is answered. -/
theorem race_read {call : Call} {continuation : call.Answer → Handler (Response Data)}
    (reads : call.reads = true)
    (changed : (shipment.race cell).changes request origin before view.globals)
    (honest : Honest view.trace)
    (answers : ∀ world, shipment.Underway world → ∃ answer,
      (serve environment call world).1 = .ok answer)
    (continues : ∀ later resumed answer, shipment.Underway later.world →
      shipment.Undisturbed view later → (serve environment call later.world).1 = .ok answer →
      shipment.Undisturbed later resumed →
      (shipment.race cell).Robust request (some point) resumed.globals (continuation answer)
        resumed) :
    (shipment.race cell).Robust request origin before (wait point call >>= continuation) view := by
  have unchanging : call.changes = none := Option.isNone_iff_eq_none.mp reads
  apply Discipline.robust_call changed
  intro later waits
  have honest := waits.honest honest
  refine ⟨⟨honest, ?_, ?_⟩, fun underway outcome next served resumed rests => ?_⟩
  · simp [unchanging]
  · simp [unchanging]
  · have same := world_of_reads environment reads served
    subst same
    -- The call leaves no trace among the transfers and the transactions.
    have answered : shipment.Undisturbed later ⟨later.world, later.globals,
        later.trace ++ [⟨point, call, outcome⟩]⟩ := by
      refine ⟨fun same => same, fun same => same, fun same => same, ?_, ?_⟩
      · simp [moves_other (show call.changes ≠ some .token by simp [unchanging])]
      · rw [written_append, ranBy_other (by simp [unchanging])]
        exact List.append_nil _
    have settled := answered.trans rests
    refine ⟨⟨settled.honest honest, trivial⟩, ?_, ?_⟩
    · intro answer returned
      subst returned
      exact continues later resumed answer underway waits (congrArg Prod.fst served) settled
    · intro error rejected
      subst rejected
      rcases answers later.world underway with ⟨answer, ok⟩
      cases (congrArg Prod.fst served).symm.trans ok

/-- A status that is written by the copy that moved the token. -/
theorem race_update {poId : Option Nat} {status : String}
    {continuation : Receipt → Handler (Response Data)}
    (changed : (shipment.race cell).changes request origin before view.globals)
    (owners : view.world.token.tokenOwner = shipment.delivered)
    (moved : view.trace.any moves = true)
    (last : poId = none → written view.trace = shipment.updates)
    (continues : ∀ number resumed receipt, poId = some number →
      resumed.world.token.tokenOwner = shipment.delivered → resumed.trace.any moves = true →
      written resumed.trace = written view.trace ++ [.updatePOStatus number status] →
      (shipment.race cell).Robust request (some point) resumed.globals (continuation receipt)
        resumed) :
    (shipment.race cell).Robust request origin before
      (wait point (.updatePOStatus poId status) >>= continuation) view := by
  apply Discipline.robust_call changed
  intro later waits
  have laterMoved : later.trace.any moves = true := waits.moved.trans moved
  refine ⟨⟨?_, ?_, ?_⟩, fun underway outcome next served resumed rests => ?_⟩
  · simp [Honest, laterMoved]
  · simp [Call.changes]
  · simp [Call.changes]
  · have resumedMoved : resumed.trace.any moves = true := by
      rw [rests.moved]
      simp [laterMoved]
    have token : next.token = later.world.token := by
      have framed := (serve_framed environment (.updatePOStatus poId status) later.world).token
        (by simp [Call.changes])
      exact (congrArg (fun served => served.2.token) served).symm.trans framed
    have resumedOwners : resumed.world.token.tokenOwner = shipment.delivered := by
      apply rests.delivered
      exact (congrArg ItemToken.tokenOwner token).trans (waits.delivered owners)
    have ran : ranBy ⟨point, .updatePOStatus poId status, outcome⟩ =
        poId.map (.updatePOStatus · status) := by
      have applied := ranBy_serve environment point (.updatePOStatus poId status) later.world
      rw [show (serve environment (.updatePOStatus poId status) later.world).1 = outcome from
        congrArg Prod.fst served] at applied
      rw [applied]
      cases poId <;> rfl
    have resumedWritten : written resumed.trace =
        written view.trace ++ (poId.map (.updatePOStatus · status)).toList := by
      rw [rests.written, written_append, waits.written, ran]
    have honest : Honest resumed.trace := by simp [Honest, resumedMoved]
    refine ⟨⟨honest, trivial⟩, ?_, ?_⟩
    · intro receipt returned
      cases poId with
      | none => cases (congrArg Prod.fst served).trans returned
      | some number =>
          exact continues number resumed receipt rfl resumedOwners resumedMoved resumedWritten
    · intro error rejected
      cases poId with
      | none =>
          refine ⟨race_unchanged, race_ends resumedOwners honest fun _ => ?_⟩
          rw [resumedWritten]
          exact (List.append_nil _).trans (last rfl)
      | some number => cases (congrArg Prod.fst served).trans rejected

/-- The transfer of the token: the copy has moved it, or another one has. -/
theorem race_transfer {continuation : Receipt → Handler (Response Data)}
    (changed : (shipment.race cell).changes request origin before view.globals)
    (userAcc : view.globals.userAcc = some shipment.payer)
    (quiet : Quiet view.trace)
    (continues : ∀ resumed receipt, resumed.globals.userAcc = some shipment.payer →
      resumed.world.token.tokenOwner = shipment.delivered → resumed.trace.any moves = true →
      written resumed.trace = [] →
      (shipment.race cell).Robust request (some point) resumed.globals (continuation receipt)
        resumed) :
    (shipment.race cell).Robust request origin before
      (wait point shipment.transfer >>= continuation) view := by
  apply Discipline.robust_call changed
  intro later waits
  have laterQuiet := waits.quiet quiet
  refine ⟨⟨laterQuiet.honest, fun _ => rfl, ?_⟩,
    fun underway outcome next served resumed rests => ?_⟩
  · simp [transfer, Call.changes]
  · have resumedWritten : written resumed.trace = [] := by
      rw [rests.written, written_append, laterQuiet.written,
        ranBy_other (by simp [transfer, Call.changes])]
      rfl
    refine ⟨⟨fun _ => resumedWritten, trivial⟩, ?_, ?_⟩
    · intro receipt returned
      rcases underway.owners with owners | owners
      · rcases serve_transfer_of_start owners with ⟨token, sent, moved⟩
        cases sent.symm.trans served
        refine continues resumed receipt ?_ ?_ ?_ resumedWritten
        · exact rests.userAcc (waits.userAcc userAcc)
        · exact rests.delivered moved
        · rw [rests.moved]
          simp [moves, transfer]
      · cases (serve_transfer_of_delivered owners).symm.trans (served.trans (by rw [returned]))
    · intro error rejected
      refine ⟨race_unchanged, ?_⟩
      rcases underway.owners with owners | owners
      · rcases serve_transfer_of_start owners with ⟨token, sent, moved⟩
        cases sent.symm.trans (served.trans (by rw [rejected]))
      · cases (serve_transfer_of_delivered owners).symm.trans served
        apply race_ends
        · exact rests.delivered owners
        · exact fun _ => resumedWritten
        · rw [rests.moved]
          simp [moves, transfer, laterQuiet.moved]

/-! ### The handler -/

/-- The last call of the route, after which the copy has ended. -/
theorem race_retrieveMetadata (tokenId : String)
    (changed : (shipment.race cell).changes request origin before view.globals)
    (owners : view.world.token.tokenOwner = shipment.delivered)
    (honest : Honest view.trace)
    (all : view.trace.any moves = true → written view.trace = shipment.updates) :
    (shipment.race cell).Robust request origin before
      (Controller.retrieveMetadata tokenId >>= fun response =>
        .done (response.map Data.metadata)) view := by
  have looks : ∃ hash, Controller.getMetadata tokenId = wait .swarm (.swarmGet hash) := by
    rw [Controller.getMetadata]
    split
    · exact ⟨_, rfl⟩
    · exact ⟨_, rfl⟩
  rcases looks with ⟨hash, asks⟩
  simp only [Controller.retrieveMetadata, asks, Program.bind_assoc]
  apply race_read rfl changed honest
  · exact fun world _ => ⟨_, rfl⟩
  · intro later resumed answer _ waits _ rests
    have settled := waits.trans rests
    refine ⟨race_unchanged, race_ends (settled.delivered owners)
      (settled.honest honest) ?_⟩
    rw [settled.moved, settled.written]
    exact all

/-- The part of a copy that follows its transfer of the token. -/
theorem race_recordDelivery {details : TransferDetails}
    (changed : (shipment.race cell).changes request origin before view.globals)
    (owners : view.world.token.tokenOwner = shipment.delivered)
    (moved : view.trace.any moves = true) (unwritten : written view.trace = [])
    (transferred : details.transferStatus = true) :
    (shipment.race cell).Robust request origin before
      (Controller.recordDelivery environment ⟨200, "Procurement Transaction Retrieved",
          start.rows.filter (Query.tokenId tokenId).matches, none⟩ details >>= fun _ =>
        Controller.retrieveMetadata tokenId >>= fun response =>
          .done (response.map Data.metadata)) view := by
  simp only [Controller.recordDelivery, transferred, if_true]
  cases rows : start.rows.filter (Query.tokenId tokenId).matches with
  | nil =>
      refine ⟨changed, race_ends owners (fun _ => unwritten) fun _ => ?_⟩
      rw [unwritten, updates, rows]
  | cons row _ =>
      simp only [ProcurementClient.updatePOStatus, Program.bind_assoc, Program.pure_eq_done,
        Program.done_bind]
      apply race_update changed owners moved
      · intro unreadable
        simp only [unwritten, updates, rows, unreadable]
      · intro po resumed _ readable owners moved first
        rw [unwritten, List.nil_append] at first
        apply race_update race_unchanged owners moved
        · intro unreadable
          simp [first, updates, rows, readable, unreadable]
        · intro invoice resumed _ invoiceReadable owners moved second
          apply race_retrieveMetadata tokenId race_unchanged owners
          · simp [Honest, moved]
          · intro _
            simp [second, first, updates, rows, readable, invoiceReadable]

/-- What a copy does on being told the owner of the token. -/
theorem race_owner {owner : Address} (quiet : Quiet view.trace)
    (changed : (shipment.race cell).changes request origin before view.globals)
    (userAcc : view.globals.userAcc = some shipment.payer)
    (merchantAcct : view.globals.merchantAcct = some shipment.supplier)
    (seen : owner = shipment.payer → view.world.token.tokenOwner = shipment.delivered) :
    (shipment.race cell).Robust request origin before
      ((if view.globals.userAcc ≠ some owner then do
          let receipt ← wait .tokenTransfer (.transferFrom view.globals.merchantAcct
            view.globals.merchantAcct view.globals.userAcc (some shipment.number))
          let tokenOwner ← wait .tokenOwnerAfter (.ownerOf (some shipment.number))
          let globals ← Program.get
          if globals.userAcc = some tokenOwner then return ⟨true, some receipt⟩
          else return ⟨false, none⟩
        else return ⟨false, none⟩ : Handler TransferDetails) >>= fun details =>
      Controller.recordDelivery environment ⟨200, "Procurement Transaction Retrieved",
          start.rows.filter (Query.tokenId tokenId).matches, none⟩ details >>= fun _ =>
        Controller.retrieveMetadata tokenId >>= fun response =>
          .done (response.map Data.metadata)) view := by
  rw [userAcc, merchantAcct]
  split
  · simp only [Program.bind_assoc]
    apply race_transfer changed userAcc quiet
    intro moved receipt userAcc owners won unwritten
    apply race_read rfl race_unchanged
    · simp [Honest, won]
    · exact fun world underway => ⟨_, congrArg Prod.fst (serve_ownerOf underway)⟩
    intro later resumed owner underway waits answered rests
    have settled := waits.trans rests
    have paid : owner = shipment.payer := by
      rw [serve_ownerOf underway, waits.delivered owners, shipment.delivered_number] at answered
      exact (Except.ok.inj answered).symm
    apply Discipline.robust_get
    rw [if_pos (by rw [settled.userAcc userAcc, paid])]
    apply race_recordDelivery race_unchanged
    · exact settled.delivered owners
    · exact settled.moved.trans won
    · exact settled.written.trans unwritten
    · rfl
  · rename_i same
    have paid : owner = shipment.payer := by
      simpa [eq_comm] using same
    apply race_retrieveMetadata tokenId changed (seen paid) quiet.honest
    simp [quiet.moved]

theorem race_transferToken (fresh : view.trace = []) :
    (shipment.race cell).Robust request none view.globals
      (handle environment (.transferToken tokenId supplierId payerId)) view := by
  have quiet : Quiet view.trace := by
    rw [fresh]
    exact ⟨rfl, rfl⟩
  simp only [handle, Controller.getTransactionByTokenId, Controller.transferToken,
    ProcurementService.getProcurementByTokenId, ItemTokenClient.transferToken, Program.bind_assoc,
    Program.pure_eq_done, Program.done_bind]
  apply race_read rfl race_unchanged quiet.honest
  · exact fun world _ => ⟨_, rfl⟩
  intro later found rows underway waits answered rests
  cases answered
  rw [underway.rows]
  have quiet := (waits.trans rests).quiet quiet
  apply race_read rfl race_unchanged quiet.honest
  · exact fun world _ => ⟨_, rfl⟩
  intro later user accounts _ waits answered rests
  cases answered
  have quiet := (waits.trans rests).quiet quiet
  apply Discipline.robust_modify
  apply race_read rfl
  · exact ⟨fun _ => shipment.paying, fun same => same⟩
  · exact quiet.honest
  · exact fun world _ => ⟨_, rfl⟩
  intro later merchant accounts _ waits answered rests
  cases answered
  have settled := waits.trans rests
  have quiet := settled.quiet quiet
  have userAcc := settled.userAcc shipment.paying
  apply Discipline.robust_modify
  rw [shipment.encoded]
  apply race_read rfl
  · exact ⟨fun same => same, fun _ => shipment.supplying⟩
  · exact quiet.honest
  · exact fun world underway => ⟨_, congrArg Prod.fst (serve_ownerOf underway)⟩
  intro later told owner underway waits answered rests
  have settled := waits.trans rests
  apply Discipline.robust_get
  apply race_owner (settled.quiet quiet) race_unchanged
    (settled.userAcc userAcc) (settled.merchantAcct shipment.supplying)
  intro paid
  apply rests.delivered
  apply underway.delivered_of_payer
  rw [serve_ownerOf underway] at answered
  exact (Except.ok.inj answered).trans paid

end Rules

/-! ## Runs -/

/-- The requests that moved a token, in the order of their transfers. -/
def movers (log : List (Nat × Event server)) : List Nat :=
  (log.filter fun entry => moves entry.2).map Prod.fst

theorem movers_append (log : List (Nat × Event server)) (index : Nat) (event : Event server) :
    movers (log ++ [(index, event)]) = movers log ++ if moves event then [index] else [] := by
  cases moved : moves event with
  | false => simp [movers, moved]
  | true => simp [movers, moved]

/-- The token is with the supplier, or one copy has moved it. -/
structure Race (log : List (Nat × Event server)) (world : World) : Prop where
  rows : world.rows = start.rows
  once : (movers log = [] ∧ world.token.tokenOwner = start.token.tokenOwner) ∨
    ∃ winner, movers log = [winner] ∧ world.token.tokenOwner = shipment.delivered

section Race

variable {shipment} {log : List (Nat × Event server)} {world : World}

theorem Race.underway (race : shipment.Race log world) : shipment.Underway world := by
  refine ⟨race.rows, ?_⟩
  rcases race.once with ⟨_, owners⟩ | ⟨_, _, owners⟩
  · exact .inl owners
  · exact .inr owners

theorem Race.serve (race : shipment.Race log world) (index : Nat) (point : Point) {call : Call}
    (sends : call.changes = some .token → call = shipment.transfer)
    (keepsRows : call.changes ≠ some .rows) :
    shipment.Race (log ++ [(index, ⟨point, call, (serve environment call world).1⟩)])
      (serve environment call world).2 := by
  refine ⟨((serve_framed environment call world).rows keepsRows).trans race.rows, ?_⟩
  rw [movers_append]
  by_cases changes : call.changes = some .token
  · rw [sends changes]
    rcases race.once with ⟨unmoved, owners⟩ | ⟨winner, moved, owners⟩
    · rcases serve_transfer_of_start owners with ⟨token, sent, delivered⟩
      rw [sent, unmoved]
      exact .inr ⟨index, rfl, delivered⟩
    · rw [serve_transfer_of_delivered owners, moved]
      exact .inr ⟨winner, rfl, owners⟩
  · rw [(serve_framed environment call world).token changes, moves_other changes]
    simp only [Bool.false_eq_true, if_false, List.append_nil]
    exact race.once

end Race

theorem race_respected : (shipment.race cell).Respected fun pool action =>
    StartsOnly (.transferToken tokenId supplierId payerId) pool action ∧
      shipment.Race pool.log pool.world where
  assumed := fun _ _ _ _ _ _ _ meets => meets.2.underway
  serve := by
    intro pool index request point call next _ _ holds other task _ _
    refine ⟨fun same => same, fun same => same, fun owners => ?_, rfl, rfl⟩
    have owners : pool.world.token.tokenOwner = shipment.delivered := owners
    by_cases sends : call.changes = some .token
    · rw [holds.2.1 sends]
      have reverts := @serve_transfer_of_delivered _ _ _ _ _ shipment pool.world owners
      exact (congrArg (fun served => served.2.token.tokenOwner) reverts).trans owners
    · have framed := (serve_framed environment call pool.world).token sends
      exact (congrArg ItemToken.tokenOwner framed).trans owners
  resume := by
    intro pool index request point rest _ _ after changed other task _ sameCell _
    have globals : (pool.view other).globals = pool.globals (cell index) :=
      congrArg pool.globals sameCell
    refine ⟨fun same => changed.1 ?_, fun same => changed.2 ?_, fun same => same, rfl, rfl⟩
    · rw [← same, globals]
    · rw [← same, globals]
  start := by
    intro pool request _ after changed other task sameCell _
    have globals : (pool.view other).globals = pool.globals (cell pool.tasks.length) :=
      congrArg pool.globals sameCell
    refine ⟨fun same => changed.1 ?_, fun same => changed.2 ?_, fun same => same, rfl, rfl⟩
    · rw [← same, globals]
    · rw [← same, globals]
  handlers := by
    intro pool request meets fresh
    have copy : request = .transferToken tokenId supplierId payerId := meets.1
    subst copy
    exact @race_transferToken _ _ _ _ _ _ shipment _ (pool.view pool.tasks.length) fresh

theorem race_run {globals : Nat → Globals} {actions : List (Action (api environment cell))}
    {final : Pool (api environment cell)}
    (run : Transitions (Pool.Step (StartsOnly (.transferToken tokenId supplierId payerId)))
      (Pool.initial start globals) actions final) :
    (shipment.race cell).Kept final ∧ shipment.Race final.log final.world := by
  apply shipment.race_respected.sound_along _ run (Discipline.kept_initial _ _ _)
  · exact ⟨rfl, .inl ⟨rfl, rfl⟩⟩
  · intro pool action next kept race step
    cases Pool.step_cases step.1 with
    | start request => exact race
    | @serve index request point call rest found =>
        have holds := (kept.tasks index _ found).holds
        exact race.serve index point holds.2.1 holds.2.2
    | resume found => exact race

section Complete

variable {shipment} {final : Pool (api environment cell)}

/-- In the end the token is delivered, and the copy that moved it has written the
statuses. -/
theorem ended_of_complete (kept : (shipment.race cell).Kept final) (complete : final.Complete)
    {index : Nat} (bound : index < final.tasks.length) :
    final.world.token.tokenOwner = shipment.delivered ∧ Honest (final.trace index) ∧
      ((final.trace index).any moves = true → written (final.trace index) = shipment.updates) := by
  have found := List.getElem?_eq_getElem bound
  rcases Process.hasEnded_iff.mp (complete _ (List.mem_of_getElem? found)) with ⟨outcome, done⟩
  have holds := (kept.tasks index _ found).holds
  rw [done] at holds
  exact ⟨holds.2.1, holds.1, holds.2.2⟩

theorem any_moves_iff {winner : Nat} (moved : movers final.log = [winner]) (index : Nat) :
    (final.trace index).any moves = true ↔ index = winner := by
  have mover : index ∈ movers final.log ↔ (final.trace index).any moves = true := by
    simp only [movers, List.mem_map, List.mem_filter, List.any_eq_true]
    constructor
    · rintro ⟨entry, ⟨member, moved⟩, rfl⟩
      exact ⟨entry.2, Pool.mem_trace.mpr member, moved⟩
    · rintro ⟨event, member, moved⟩
      exact ⟨(index, event), ⟨Pool.mem_trace.mp member, moved⟩, rfl⟩
  rw [← mover, moved, List.mem_singleton]

/-- All transactions of the Procurement contract are those of one copy. -/
theorem written_of_complete (kept : (shipment.race cell).Kept final) (complete : final.Complete)
    {winner : Nat} (moved : movers final.log = [winner]) :
    final.log.filterMap (fun entry => ranBy entry.2) = shipment.updates := by
  have others : ∀ entry ∈ final.log, entry.1 ≠ winner → ranBy entry.2 = none := by
    intro entry member other
    have unmoved : (final.trace entry.1).any moves = false :=
      Bool.eq_false_iff.mpr fun won => other ((any_moves_iff moved _).mp won)
    have nothing := (ended_of_complete kept complete (kept.logged entry member)).2.1 unmoved
    exact List.filterMap_eq_nil_iff.mp nothing entry.2 (Pool.mem_trace.mpr member)
  have won := (any_moves_iff moved winner).mpr rfl
  rcases List.any_eq_true.mp won with ⟨event, member, _⟩
  have bound := kept.logged _ (Pool.mem_trace.mp member)
  rw [← (ended_of_complete kept complete bound).2.2 won]
  exact @Pool.filterMap_log (api environment cell) _ _ _ ranBy others

end Complete

/-- When all copies have ended, the token is delivered and one set of statuses is
written. -/
theorem of_complete {globals : Nat → Globals} {actions : List (Action (api environment cell))}
    {final : Pool (api environment cell)}
    (run : Transitions (Pool.Step (StartsOnly (.transferToken tokenId supplierId payerId)))
      (Pool.initial start globals) actions final)
    (started : final.tasks ≠ []) (complete : final.Complete) :
    final.world.token.tokenOwner = shipment.delivered ∧
      final.world.procurement = shipment.updates.foldl Procurement.apply start.procurement := by
  rcases shipment.race_run run with ⟨kept, race⟩
  have delivered := (ended_of_complete kept complete (List.length_pos_iff.mpr started)).1
  refine ⟨delivered, ?_⟩
  rcases race.once with ⟨_, owners⟩ | ⟨winner, moved, _⟩
  · exact absurd (delivered.symm.trans owners) shipment.delivered_ne_start
  · rw [← written_of_complete kept complete moved]
    exact Pool.part_of_log (serve_ran environment) run

end Shipment

theorem startsOnly_letsContinue {environment : Environment} {cell : Nat → Nat} (request : Request) :
    Pool.LetsContinue (@StartsOnly environment cell request) :=
  fun _ _ => ⟨trivial, trivial⟩

/-- Any number of copies of a delivery, interleaved in any way, can be run to the
end, and then leave the owners and the Procurement contract as one copy that runs
alone leaves them. -/
theorem copies_deliver_once (environment : Environment) (cell : Nat → Nat) (world : World)
    (globals : Nat → Globals) (tokenId supplierId payerId : String)
    (ready : delivers environment world.token tokenId supplierId payerId = true)
    (actions : List (Action (api environment cell))) (pool : Pool (api environment cell))
    (run : Transitions (Pool.Step (StartsOnly (.transferToken tokenId supplierId payerId)))
      (Pool.initial world globals) actions pool)
    (started : pool.tasks ≠ []) :
    (∃ more final, Transitions (Pool.Step (StartsOnly (.transferToken tokenId supplierId payerId)))
        pool more final ∧ final.requests = pool.requests ∧ final.Complete) ∧
    (pool.Complete →
      pool.world.token.tokenOwner = (@Pool.worldAfter (api environment cell)
        (Pool.initial world globals)
        (.transferToken tokenId supplierId payerId)).token.tokenOwner ∧
      pool.world.procurement = (@Pool.worldAfter (api environment cell)
        (Pool.initial world globals)
        (.transferToken tokenId supplierId payerId)).procurement) := by
  rcases delivers_iff.mp ready with
    ⟨number, supplier, payer, encoded, supplying, paying, owned, different⟩
  let shipment : Shipment environment world tokenId supplierId payerId :=
    ⟨number, supplier, payer, encoded, supplying, paying, owned, different⟩
  let request : Request := .transferToken tokenId supplierId payerId
  have continues := @startsOnly_letsContinue environment cell request
  refine ⟨Pool.exists_completion continues pool, fun complete => ?_⟩
  -- One copy alone is a run of the pool as well.
  rcases Pool.exists_alone_run continues (Pool.initial world globals) request rfl with
    ⟨steps, alone, aloneRun, tasks, view, _⟩
  have aloneWorld : alone.world = (Pool.initial world globals).worldAfter request :=
    congrArg View.world view
  have aloneStarted : alone.tasks ≠ [] := by simp [tasks]
  have aloneComplete : alone.Complete := by
    intro task member
    rw [tasks] at member
    cases List.mem_singleton.mp member
    rfl
  have once := shipment.of_complete aloneRun aloneStarted aloneComplete
  rw [aloneWorld] at once
  have often := shipment.of_complete run started complete
  exact ⟨often.1.trans once.1.symm, often.2.trans once.2.symm⟩

/-- The token of the cheese goes to PizzaCo. -/
def cheeseDelivery : Request :=
  .transferToken "0x1002" "2" "1"

/-- Two scans of one code: both see the token with CheeseCo, and the second transfer
reverts. -/
def twoScans : List (Action (api testNetwork fun _ => 0)) :=
  [.start cheeseDelivery, .start cheeseDelivery,
    .serve 0, .resume 0, .serve 1, .resume 1, .serve 0, .resume 0, .serve 1, .resume 1,
    .serve 0, .resume 0, .serve 1, .resume 1, .serve 0, .resume 0, .serve 1, .resume 1,
    .serve 0, .serve 1, .resume 1, .resume 0, .serve 0, .resume 0, .serve 0, .resume 0,
    .serve 0, .resume 0, .serve 0, .resume 0]

theorem twoScans_deliver_once :
    ∃ pool : Pool (api testNetwork fun _ => 0),
      Transitions (Pool.Step (StartsOnly cheeseDelivery))
        (Pool.initial (((newNetwork.next cheeseOrder).next cheeseInvoice).next cheeseToken).world
          fun _ => Globals.initial) twoScans pool ∧
      pool.tasks.length = 2 ∧
      pool.world.token.tokenOwner = (@Pool.worldAfter (api testNetwork fun _ => 0)
        (Pool.initial (((newNetwork.next cheeseOrder).next cheeseInvoice).next cheeseToken).world
          fun _ => Globals.initial) cheeseDelivery).token.tokenOwner := by
  have ran : ((Pool.initial
          (((newNetwork.next cheeseOrder).next cheeseInvoice).next cheeseToken).world
            fun _ => Globals.initial : Pool (api testNetwork fun _ => 0)).run
        (fun _ _ => true) twoScans).map (fun pool =>
          (pool.tasks.length, pool.tasks.all fun task => task.process.hasEnded)) =
      some (2, true) := by
    decide +kernel
  rcases Option.map_eq_some_iff.mp ran with ⟨pool, runs, reached⟩
  rcases Prod.mk.inj reached with ⟨length, ended⟩
  have copies : ∀ action ∈ twoScans, ∀ pool, StartsOnly cheeseDelivery pool action := by
    simp [twoScans, StartsOnly]
  have run := (Pool.transitions_of_run runs).mono_of_mem fun action member current _ step =>
    And.intro step.1 (copies action member current)
  have started : pool.tasks ≠ [] := by
    rw [← List.length_pos_iff, length]
    decide
  have delivered := copies_deliver_once testNetwork _ _ _ "0x1002" "2" "1" (by decide +kernel) _
    pool run started
  exact ⟨pool, run, length, (delivered.2 (List.all_eq_true.mp ended)).1⟩

end PizzaChain.Api
