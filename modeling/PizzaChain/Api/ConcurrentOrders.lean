import PizzaChain.Api.TableIntegrity
import PizzaChain.Semantics.Signatures

/-! # Orders among other requests

A purchase order is stored item by item, on the chain and in the table, while other
requests do the same. The rows of an answered order are told apart by the transaction
id that its request drew first.
-/

namespace PizzaChain.Api

open PizzaChain.Chain

/-! ## Rows and who saved them -/

/-- What a row was saved with. -/
def Row.origin (row : Row) : Option String × Option String × Option String :=
  (row.transactionId, row.supplierId, row.poId)

def Call.saves : Call → Option (Option String × Option String × Option String)
  | .saveRow row => some row.origin
  | _ => none

section Rows

variable {environment : Environment}

theorem origins_serve (call : Call) (world : World) :
    (serve environment call world).2.rows.map Row.origin =
      world.rows.map Row.origin ++ call.saves.toList := by
  by_cases changes : call.changes = some .rows
  · cases call with
    | saveRow row => exact List.map_append
    | updateInvoice poId invoiceId itemPrice =>
        refine Eq.trans ?_ (List.append_nil _).symm
        rw [serve]
        split
        · apply map_updateFirst
          exact fun _ => rfl
        · rfl
    | updateTokenId invoiceId tokenId =>
        refine Eq.trans ?_ (List.append_nil _).symm
        apply map_updateFirst
        exact fun _ => rfl
    | _ => simp [Call.changes] at changes
  · rw [(serve_framed environment call world).rows changes]
    cases call with
    | saveRow row => exact absurd rfl changes
    | _ => exact (List.append_nil _).symm

/-- The table has a row for each call that saved one, in their order. -/
theorem origins_of_run {globals : Nat → Globals} {actions : List (Action (sharedApi environment))}
    {pool : Pool (sharedApi environment)} (run : ServerRun environment globals actions pool) :
    pool.world.rows.map Row.origin = pool.log.filterMap fun entry => entry.2.call.saves := by
  apply run.invariant (fun pool : Pool (sharedApi environment) =>
    pool.world.rows.map Row.origin = pool.log.filterMap fun entry => entry.2.call.saves) _ rfl
  intro current action next before step
  cases Pool.step_cases step.1 with
  | start request => exact before
  | @serve index request point call rest found =>
      have saved := @origins_serve environment call current.world
      rw [before] at saved
      rw [List.filterMap_append]
      exact saved
  | resume found => exact before

end Rows

/-! ## The transaction id as a signature -/

section Signing

variable {environment : Environment} {number : Nat → Nat}

/-- Only orders save rows, each with its own transaction id. -/
def SignedCall (environment : Environment) (request : Request) (drawn : Nat) (call : Call) : Prop :=
  request.MayCall environment call ∧
    ∀ row, call = .saveRow row → row.transactionId = some (environment.uniqueId drawn)

def IsOrder (request : Request) : Prop :=
  ∃ items, request = .postPurchaseOrder items

def SignedAnswer (environment : Environment) (request : Request) (drawn : Nat)
    (response : Response Data) : Prop :=
  IsOrder request → ∃ poIds, response =
    ⟨201, "PO Issued", .purchaseOrders (environment.uniqueId drawn) poIds, none⟩

theorem wait_within {calls : Call → Prop} (point : Point) {call : Call} (allows : calls call) :
    (wait point call).Within calls fun _ => True :=
  Program.within_call allows

theorem issueItems_within {items : List PurchaseItem} {all : List PurchaseItem} (drawn : Nat) :
    (Controller.issueItems environment (environment.uniqueId drawn) items).Within
      (SignedCall environment (.postPurchaseOrder all) drawn) fun _ => True := by
  induction items with
  | nil => trivial
  | cons item items induction =>
      have drawsId : (Controller.uniqueId environment).Within
          (SignedCall environment (.postPurchaseOrder all) drawn) fun _ => True :=
        fun _ _ => trivial
      apply drawsId.bind
      intro processId _
      have issues : (ProcurementClient.createPO environment processId .issued item).Within
          (SignedCall environment (.postPurchaseOrder all) drawn) fun _ => True :=
        wait_within _ ⟨⟨⟨all, rfl⟩, rfl⟩, nofun⟩
      apply issues.bind
      intro _ _
      have saves : (ProcurementService.createProcurement ⟨some (environment.uniqueId drawn),
          item.supplierId, some processId, none, none⟩).Within
          (SignedCall environment (.postPurchaseOrder all) drawn) fun _ => True := by
        refine wait_within _ ⟨⟨all, rfl⟩, ?_⟩
        rintro _ ⟨⟩
        rfl
      apply saves.bind
      intro _ _
      apply induction.bind
      exact fun _ _ => trivial

/-- The rest of an order once its transaction id is drawn. -/
def orderWith (environment : Environment) (items : List PurchaseItem) (transactionId : String) :
    Handler (Response Data) := do
  let poIds ← Controller.issueItems environment transactionId items
  return ⟨201, "PO Issued", .purchaseOrders transactionId poIds, none⟩

theorem settle_order (items : List PurchaseItem) (globals : Globals) :
    (handle environment (.postPurchaseOrder items)).settle globals =
      (orderWith environment items (environment.uniqueId globals.ids)).settle
        { globals with ids := globals.ids + 1 } := by
  simp only [handle, Controller.issuePO, Program.bind_assoc, orderWith]
  rfl

theorem handle_signed (request : Request) (globals : Globals) :
    ((handle environment request).settle globals).1.Within
      (SignedCall environment request globals.ids)
      (SignedAnswer environment request globals.ids) := by
  by_cases order : IsOrder request
  · rcases order with ⟨items, rfl⟩
    rw [settle_order]
    apply Program.Within.settle
    apply (issueItems_within globals.ids).bind
    exact fun poIds _ _ => ⟨poIds, rfl⟩
  · apply Program.Within.settle
    apply Program.within_of_calls
    · apply (handle_mayCall environment request).mono
      intro call may
      refine ⟨may, ?_⟩
      rintro row rfl
      exact absurd may order
    · exact fun _ isOrder => absurd isOrder order

/-- An order draws its transaction id when it is made. -/
def orderSigning (fresh : FreshIds environment number) :
    @Signing (sharedApi environment) Nat (idTickets fresh) where
  calls := SignedCall environment
  results := SignedAnswer environment
  takes := IsOrder
  signed := handle_signed
  taken := by
    rintro _ globals ⟨items, rfl⟩
    have stamps : (idTickets fresh).Stamps
        (orderWith environment items (environment.uniqueId globals.ids)) :=
      (issueItems_stamps fresh _ items).bind fun _ => pure_stamps fresh _
    have grows := @Ticketing.counter_settle (sharedApi environment) _ _ _ stamps
      { globals with ids := globals.ids + 1 }
    show globals.ids < ((handle environment (.postPurchaseOrder items)).settle globals).2.ids
    rw [settle_order]
    exact grows

end Signing

/-! ## What an order leaves behind -/

/-- The item is on the chain under the id, with its terms. -/
def Placed (environment : Environment) (world : World) (item : PurchaseItem) (poId : String) :
    Prop :=
  ∃ poNumber terms, environment.encodeUint poId = some poNumber ∧
    poNumber ∈ world.procurement.poArray ∧ item.terms = some terms ∧
    (world.procurement.pos poNumber).terms = terms

theorem Placed.mono {environment : Environment} {world later : World} {item : PurchaseItem}
    {poId : String} (isPlaced : Placed environment world item poId) (grown : Extends world later) :
    Placed environment later item poId := by
  rcases isPlaced with ⟨poNumber, terms, encoded, listed, accepted, stored⟩
  refine ⟨poNumber, terms, encoded, grown.procurement.orders.subset listed, accepted, ?_⟩
  rw [grown.procurement.orderTerms poNumber listed, stored]

/-- The rows of the items of an order. -/
def origins (transactionId : String) (items : List PurchaseItem) (poIds : List String) :
    List (Option String × Option String × Option String) :=
  List.zipWith (fun item poId => (some transactionId, item.supplierId, some poId)) items poIds

def savedIn (trace : List (Event server)) : List (Option String × Option String × Option String) :=
  trace.filterMap fun event => event.call.saves

/-- An order that was answered has saved one row for each item, and each is on the
chain. -/
def Recorded (environment : Environment) (items : List PurchaseItem) (response : Response Data)
    (view : View (sharedApi environment)) : Prop :=
  ∃ transactionId poIds, response =
      ⟨201, "PO Issued", .purchaseOrders transactionId poIds, none⟩ ∧
    savedIn view.trace = origins transactionId items poIds ∧
    List.Forall₂ (Placed environment view.world) items poIds

def recording (environment : Environment) : Discipline (sharedApi environment) where
  assumes := fun _ _ call view => Extends view.world (serve environment call view.world).2
  rely := fun _ _ view later => later.trace = view.trace ∧ Extends view.world later.world
  rely_refl := fun _ _ _ => ⟨rfl, .refl _⟩
  rely_trans := fun _ _ _ _ _ early late => ⟨late.1.trans early.1, early.2.trans late.2⟩
  holds := fun request moment view =>
    match request, moment with
    | .postPurchaseOrder items, .ended (.ok response) => Recorded environment items response view
    | _, _ => True
  changes := fun _ _ _ _ => True

section Recording

variable {environment : Environment} {number : Nat → Nat} {request : Request}
  {origin : Option Point} {before : Globals} {view : View (sharedApi environment)}

theorem placed_of_served {world next : World} {item : PurchaseItem} {poId : String}
    {poNumber : Nat} {receipt : Receipt} (encoded : environment.encodeUint poId = some poNumber)
    (served : serve environment (.issuePO (environment.encodeUint poId) item.supplierId
      (item.itemType.bind (itemTypes.lookup ·)) item.qty item.uom PoStatus.issued.text) world =
        (.ok receipt, next)) :
    Placed environment next item poId := by
  rw [encoded] at served
  rcases order_of_served served with ⟨terms, accepts, _, ordered⟩
  refine ⟨poNumber, terms, encoded, ?_, accepts, ?_⟩
  · rw [ordered]
    exact List.mem_append_right _ (List.mem_singleton_self _)
  · rw [ordered]
    simp only [orderCall, Procurement.apply, Procurement.issuePO, Function.update_self, PO.terms]

theorem extends_of_served {call : Call} {world next : World} {outcome : Except Failure call.Answer}
    (grows : Extends world (serve environment call world).2)
    (served : serve environment call world = (outcome, next)) : Extends world next := by
  rw [served] at grows
  exact grows

theorem recording_issueItems (fresh : FreshIds environment number) (transactionId : String)
    {all : List PurchaseItem} (items : List PurchaseItem)
    {continuation : List String → Handler (Response Data)}
    (continues : ∀ poIds origin before (later : View (sharedApi environment)),
      Extends view.world later.world → List.Forall₂ (Placed environment later.world) items poIds →
      savedIn later.trace = savedIn view.trace ++ origins transactionId items poIds →
      (recording environment).Robust (.postPurchaseOrder all) origin before (continuation poIds)
        later) :
    (recording environment).Robust (.postPurchaseOrder all) origin before
      (Controller.issueItems environment transactionId items >>= continuation) view := by
  induction items generalizing origin before view continuation with
  | nil => exact continues [] origin before view (.refl _) .nil (List.append_nil _).symm
  | cons item items induction =>
      simp only [Controller.issueItems, Controller.uniqueId, Program.bind_assoc,
        ProcurementClient.createPO, ProcurementService.createProcurement, Program.pure_eq_done,
        Program.done_bind]
      apply Discipline.robust_get
      apply Discipline.robust_modify
      apply Discipline.robust_call trivial
      rintro issuing ⟨issuingTrace, untilIssuing⟩
      refine ⟨trivial, ?_⟩
      rintro issues outcome next served issued ⟨issuedTrace, sinceIssue⟩
      refine ⟨trivial, ?_, fun _ _ => ⟨trivial, fun _ _ => trivial⟩⟩
      rintro receipt rfl
      have issuedNext : Extends issuing.world next := extends_of_served issues served
      have isPlaced := (placed_of_served (fresh.encoded view.globals.ids) served).mono sinceIssue
      apply Discipline.robust_call trivial
      rintro saving ⟨savingTrace, untilSaving⟩
      refine ⟨trivial, ?_⟩
      rintro saves outcome stored served saved ⟨savedTrace, sinceSave⟩
      refine ⟨trivial, ?_, fun _ _ => ⟨trivial, fun _ _ => trivial⟩⟩
      rintro _ rfl
      have savedStored : Extends saving.world stored := extends_of_served saves served
      have untilSaved := untilSaving.trans (savedStored.trans sinceSave)
      apply induction
      intro poIds origin before later sinceSaved rest traced
      apply continues
      · exact untilIssuing.trans (issuedNext.trans (sinceIssue.trans (untilSaved.trans sinceSaved)))
      · exact .cons (isPlaced.mono (untilSaved.trans sinceSaved)) rest
      · rw [traced, savedTrace, savingTrace, issuedTrace, issuingTrace]
        simp [savedIn, Call.saves, Row.origin, origins]

theorem recording_order (fresh : FreshIds environment number) (items : List PurchaseItem)
    (start : view.trace = []) :
    (recording environment).Robust (.postPurchaseOrder items) origin before
      (handle environment (.postPurchaseOrder items)) view := by
  simp only [handle, Controller.issuePO, Controller.uniqueId, Program.bind_assoc,
    Program.pure_eq_done, Program.done_bind]
  apply Discipline.robust_get
  apply Discipline.robust_modify
  apply recording_issueItems fresh
  intro poIds origin before later _ isPlaced traced
  refine ⟨trivial, ?_⟩
  rintro latest ⟨trace, grown⟩
  refine ⟨_, poIds, rfl, ?_, ?_⟩
  · rw [trace, traced, start]
    rfl
  · exact isPlaced.imp fun _ _ item => item.mono grown

theorem recording_handle (fresh : FreshIds environment number) (start : view.trace = []) :
    (recording environment).Robust request origin before (handle environment request) view := by
  cases request with
  | postPurchaseOrder items => exact recording_order fresh items start
  | _ => exact Discipline.robust_of_trivial (fun _ _ => trivial) (fun _ _ _ => trivial) _

end Recording

/-! ## Runs -/

section Runs

variable {environment : Environment} {number : Nat → Nat} {globals : Nat → Globals}

theorem recording_respected (fresh : FreshIds environment number) (globals : Nat → Globals) :
    (recording environment).Respected fun pool _ =>
      True ∧ ∃ actions, ServerRun environment globals actions pool where
  assumed := by
    rintro pool index request point call next found ⟨_, actions, run⟩
    exact extends_of_waiting fresh run found
  serve := by
    rintro pool index request point call next found ⟨_, actions, run⟩ _ other task _ _
    exact ⟨rfl, extends_of_waiting fresh run found⟩
  resume := fun _ _ _ _ _ _ _ _ _ _ _ _ _ _ => ⟨rfl, .refl _⟩
  start := fun _ _ _ _ _ _ _ _ _ => ⟨rfl, .refl _⟩
  handlers := fun _ _ _ start => recording_handle fresh start

theorem recorded_of_run (fresh : FreshIds environment number)
    {actions : List (Action (sharedApi environment))} {pool : Pool (sharedApi environment)}
    (run : ServerRun environment globals actions pool) {index : Nat} {items : List PurchaseItem}
    {response : Response Data}
    (found : pool.tasks[index]? = some ⟨.postPurchaseOrder items, .ended (.ok response)⟩) :
    Recorded environment items response (pool.view index) := by
  have kept : (recording environment).Kept pool ∧
      ∃ actions, ServerRun environment globals actions pool := by
    apply (recording_respected fresh globals).sound_along _ run (Discipline.kept_initial _ _ _)
      ⟨[], .nil _⟩
    rintro current action next _ ⟨before, reached⟩ step
    exact ⟨before ++ [action], reached.append (.cons step (.nil _))⟩
  exact (kept.1.tasks index _ found).holds

theorem uniqueId_injective (fresh : FreshIds environment number) :
    Function.Injective environment.uniqueId := by
  intro first second same
  have encoded := fresh.encoded first
  rw [same, fresh.encoded second] at encoded
  exact (fresh.injective (Option.some.inj encoded)).symm

/-- Rows with the transaction id of a request were saved by this request. -/
theorem saves_of_signed {fresh : FreshIds environment number} {pool : Pool (sharedApi environment)}
    {drawn : Nat → Nat} (kept : (orderSigning fresh).Kept pool drawn) {index : Nat}
    {items : List PurchaseItem} {process : Process server (Response Data)}
    (found : pool.tasks[index]? = some ⟨.postPurchaseOrder items, process⟩)
    {entry : Nat × Event server} (member : entry ∈ pool.log) {row : Row}
    (saves : entry.2.call = .saveRow row)
    (signed : row.transactionId = some (environment.uniqueId (drawn index))) : entry.1 = index := by
  rcases kept.logged entry member with ⟨⟨request, other⟩, otherFound, may, signs⟩
  have isOrder : IsOrder request := by
    rw [saves] at may
    exact may
  have same := (signs row saves).symm.trans signed
  have drawnSame := uniqueId_injective fresh (Option.some.inj same)
  have bound := (List.getElem?_eq_some_iff.mp found).1
  have otherBound := (List.getElem?_eq_some_iff.mp otherFound).1
  rcases Nat.lt_trichotomy entry.1 index with earlier | equal | later
  · have less := kept.ordered entry.1 index _ earlier bound otherFound isOrder
    omega
  · exact equal
  · have less := kept.ordered index entry.1 _ later otherBound found ⟨items, rfl⟩
    omega

end Runs

/-- Every order that was answered is stored as it was asked for, whatever was done
meanwhile: the rows with its transaction id are those of its items, in their order, and
each item is on the chain with its terms. -/
theorem orders_recorded (environment : Environment) (number : Nat → Nat)
    (fresh : FreshIds environment number) (globals : Nat → Globals)
    (actions : List (Action (sharedApi environment))) (pool : Pool (sharedApi environment))
    (run : ServerRun environment globals actions pool) (index : Nat) (items : List PurchaseItem)
    (response : Response Data)
    (found : pool.tasks[index]? = some ⟨.postPurchaseOrder items, .ended (.ok response)⟩) :
    ∃ transactionId poIds, response =
        ⟨201, "PO Issued", .purchaseOrders transactionId poIds, none⟩ ∧
      (pool.world.rows.filter (Query.transactionId transactionId).matches).map Row.origin =
        origins transactionId items poIds ∧
      List.Forall₂ (Placed environment pool.world) items poIds := by
  rcases recorded_of_run fresh run found with ⟨transactionId, poIds, rfl, saved, isPlaced⟩
  refine ⟨transactionId, poIds, rfl, ?_, isPlaced⟩
  rcases (orderSigning fresh).exists_kept (fun _ => rfl) (handle_stamps fresh) run with
    ⟨drawn, kept⟩
  have own : transactionId = environment.uniqueId (drawn index) := by
    rcases kept.processes index _ found ⟨items, rfl⟩ with ⟨_, same⟩
    exact (Data.purchaseOrders.inj (congrArg Response.data same)).1
  subst own
  let signed (origin : Option String × Option String × Option String) : Bool :=
    origin.1 == some (environment.uniqueId (drawn index))
  -- What others saved is signed otherwise.
  have others : ∀ entry ∈ pool.log, entry.1 ≠ index →
      entry.2.call.saves.filter signed = none := by
    intro entry member other
    rw [Option.filter_eq_none_iff]
    intro origin saves isSigned
    cases call : entry.2.call with
    | saveRow row =>
        rw [call] at saves
        cases saves
        exact other (saves_of_signed kept found member call (beq_iff_eq.mp isSigned))
    | _ =>
        rw [call] at saves
        cases saves
  have logged := @Pool.filterMap_log (sharedApi environment) pool index _
    (fun event => event.call.saves.filter signed) others
  calc (pool.world.rows.filter
          (Query.transactionId (environment.uniqueId (drawn index))).matches).map Row.origin
      = (pool.world.rows.map Row.origin).filter signed := by rw [List.filter_map]; rfl
    _ = (pool.log.filterMap fun entry => entry.2.call.saves).filter signed := by
        rw [origins_of_run run]
    _ = pool.log.filterMap fun entry => entry.2.call.saves.filter signed := List.filter_filterMap
    _ = (savedIn (pool.trace index)).filter signed := by
        rw [logged, savedIn, List.filter_filterMap]
    _ = origins (environment.uniqueId (drawn index)) items poIds := by
        rw [show savedIn (pool.trace index) = _ from saved, List.filter_eq_self]
        intro origin member
        rw [origins, ← List.map_uncurry_zip_eq_zipWith] at member
        rcases List.mem_map.mp member with ⟨_, _, rfl⟩
        exact beq_self_eq_true _

def Request.isCheeseOrder : Request → Bool
  | .postPurchaseOrder [⟨some "CHEESECO", some "CHEESE", some 2, some "KG"⟩] => true
  | _ => false

theorem crossedOrders_recorded :
    ∃ (pool : Pool (sharedApi testNetwork)) (response : Response Data),
      ServerRun testNetwork (fun _ => Globals.initial)
        (crossedOrders ++ [.resume 0, .resume 1]) pool ∧
      pool.tasks[1]? = some ⟨cheeseOrder, .ended (.ok response)⟩ ∧
      ∃ transactionId poIds, response =
        ⟨201, "PO Issued", .purchaseOrders transactionId poIds, none⟩ ∧
        (pool.world.rows.filter (Query.transactionId transactionId).matches).map Row.origin =
          origins transactionId [⟨some "CHEESECO", some "CHEESE", some 2, some "KG"⟩] poIds ∧
        List.Forall₂ (Placed testNetwork pool.world)
          [⟨some "CHEESECO", some "CHEESE", some 2, some "KG"⟩] poIds := by
  have ran : ((Pool.initial (World.deployed testNetwork) fun _ => Globals.initial :
        Pool (sharedApi testNetwork)).run (fun _ _ => true)
        (crossedOrders ++ [.resume 0, .resume 1])).bind (fun pool => pool.tasks[1]?.map fun task =>
      task.request.isCheeseOrder && task.process.answer.isSome) = some true := by
    decide +kernel
  rcases Option.bind_eq_some_iff.mp ran with ⟨pool, runs, reached⟩
  rcases Option.map_eq_some_iff.mp reached with ⟨⟨request, process⟩, found, asked⟩
  rw [Bool.and_eq_true] at asked
  rcases asked with ⟨isOrder, answered⟩
  have same : request = cheeseOrder := by
    rw [Request.isCheeseOrder.eq_def] at isOrder
    split at isOrder
    · assumption
    · cases isOrder
  rcases Option.isSome_iff_exists.mp answered with ⟨response, answer⟩
  have ended : process = .ended (.ok response) := Process.eq_of_answer answer
  rw [same, ended] at found
  have run := Pool.transitions_of_free_run runs
  exact ⟨pool, response, run, found,
    orders_recorded testNetwork _ testNetwork_fresh _ _ pool run 1 _ response found⟩

end PizzaChain.Api
