import PizzaChain.Api.PaymentSteps

/-! # Payments are all or nothing

Runs of concurrent payments that do not disturb each other.
-/

namespace PizzaChain.Api

open PizzaChain.Chain

section Runs

variable {environment : Environment} {start world : World} {payment : Payment} {invoice : Nat}

theorem payment_mayCall (environment : Environment) (payment : Payment) :
    ((payments environment).handler payment).Calls (payment.MayCall environment) := by
  apply payment_calls environment
  · intro call reads
    cases call <;> first
      | exact reads
      | trivial
  · exact fun _ _ _ _ => trivial
  · rfl

/-- A payment changes no invoice but its own. -/
theorem invoice_of_mayCall {call : Call} (may : payment.MayCall environment call)
    (other : payment.number environment ≠ some invoice) :
    (serve environment call world).2.procurement.invoices invoice =
      world.procurement.invoices invoice := by
  cases call with
  | transfer sender recipient amount nonce =>
      have framed := serve_framed environment (.transfer sender recipient amount nonce) world
      rw [framed.procurement (by simp [Call.changes])]
  | updateInvoiceStatus id status =>
      have own : id = payment.number environment := may
      rw [← own] at other
      cases id with
      | none => rfl
      | some id =>
          have different : invoice ≠ id := fun same => other (congrArg some same.symm)
          exact Procurement.invoices_updateInvoiceStatus_of_ne _ _ _ different
  | _ => rw [serve_of_reads environment may world]

/-- The invoices that no payment is of are as at the start. -/
def Untouched (environment : Environment) (start : World) (requests : List Payment)
    (world : World) : Prop :=
  ∀ invoice, some invoice ∉ requests.map (Payment.number environment) →
    world.procurement.invoices invoice = start.procurement.invoices invoice

theorem untouched_kept (environment : Environment) (start : World) :
    @KeptByCalls (payments environment) (Payment.MayCall environment)
      (Untouched environment start) where
  handlers := payment_mayCall environment
  starts := by
    intro requests request world untouched invoice absent
    apply untouched invoice
    simp only [List.map_append, List.mem_append, not_or] at absent
    exact absent.1
  keeps := by
    intro requests request call world member may untouched invoice absent
    refine Eq.trans (invoice_of_mayCall may fun named => absent ?_) (untouched invoice absent)
    exact List.mem_map.mpr ⟨request, member, named⟩

theorem number_ne_of_different {pool : Pool (payments environment)}
    {action : Action (payments environment)} (differ : different pool action = true)
    {index other : Nat} {task otherTask : Task (payments environment)}
    (found : pool.tasks[index]? = some task) (otherFound : pool.tasks[other]? = some otherTask)
    (distinct : other ≠ index) :
    otherTask.request.number environment ≠ task.request.number environment := by
  simp only [different, List.map_append, decide_eq_true_eq] at differ
  have nodup := differ.of_append_left
  have bound : other < (pool.requests.map (Payment.number environment)).length := by
    simpa [Pool.requests] using (List.getElem?_eq_some_iff.mp otherFound).1
  intro same
  apply distinct
  apply (List.getElem?_inj bound nodup).mp
  simp [Pool.requests, found, otherFound, same]

theorem spared_of_undisturbed {pool : Pool (payments environment)} {index other : Nat}
    {point : Point} {call : Call}
    {next : Except Failure call.Answer → Handler (Response (Option Receipt))}
    {task : Task (payments environment)} (meets : undisturbed pool (.serve index) = true)
    (differ : different pool (.serve index) = true) (may : payment.MayCall environment call)
    (found : pool.tasks[index]? = some ⟨payment, .waiting point call next⟩)
    (otherFound : pool.tasks[other]? = some task) (distinct : other ≠ index) :
    Spared environment task.request task.process.moment (pool.view other)
      { pool.view other with world := (serve environment call pool.world).2 } := by
  simp only [undisturbed, found, Bool.and_eq_true, List.all_eq_true] at meets
  have checked := meets.2 (task, other) (List.mk_mem_zipIdx_iff_getElem?.mpr otherFound)
  simp only [beq_eq_false_iff_ne.mpr distinct, Bool.false_or, Bool.and_eq_true] at checked
  refine ⟨rfl, rfl, ?_, ?_, ?_, ?_⟩
  · intro invoice named
    apply invoice_of_mayCall may
    rw [← named]
    exact (number_ne_of_different differ found otherFound distinct).symm
  · intro compares payee paid
    simpa [sparesPayee, Pool.view, compares, paid] using checked.1.1
  · intro awaits funded payer invoice paying named enough
    have funded : toppedUp (pool.trace other) = true := funded
    have enough : priceOf pool.world invoice ≤ pool.world.coin.balanceOf payer := enough
    simpa [sparesPayer, Pool.view, awaits, funded, paying, named, enough] using checked.1.2
  · intro counts funded payer paying
    have funded : toppedUp (pool.trace other) = true := funded
    simpa [sparesCount, Pool.view, counts, funded, paying] using checked.2

/-- A payment that is started is fresh. -/
theorem fresh_of_different {pool : Pool (payments environment)}
    (differ : different pool (.start payment) = true)
    (untouched : Untouched environment start pool.requests pool.world)
    (silent : pool.trace pool.tasks.length = []) :
    Fresh start payment (pool.view pool.tasks.length) where
  nothing := by
    rw [Pool.view, silent]
    rfl
  invoice := by
    intro invoice named
    apply untouched invoice
    simp only [different, List.map_append, decide_eq_true_eq] at differ
    intro member
    apply List.disjoint_of_nodup_append differ member
    rw [← named]
    exact List.mem_singleton.mpr rfl

theorem atomicity_respected (environment : Environment) (start : World) :
    (atomicity environment start).Respected fun pool action =>
      (different pool action = true ∧ undisturbed pool action = true) ∧
        pool.Calls (Payment.MayCall environment) ∧
        Untouched environment start pool.requests pool.world where
  assumed := by
    intro pool index payment point call next found meets
    have calm := meets.1.2
    simp only [undisturbed, found, Bool.and_eq_true] at calm
    exact calm.1
  serve := by
    intro pool index payment point call next found meets _ other task distinct otherFound
    have may := (meets.2.1 _ (List.mem_of_getElem? found)).1
    exact spared_of_undisturbed meets.1.2 meets.1.1 may found otherFound distinct
  resume := by
    intro pool index payment point rest found meets after _ other task distinct sameCell
    exact absurd sameCell distinct
  start := by
    intro pool payment meets after _ other task sameCell otherFound
    have bound := (List.getElem?_eq_some_iff.mp otherFound).1
    exact absurd sameCell (Nat.ne_of_lt bound)
  handlers := by
    intro pool payment meets silent
    exact atomicity_payment payment (fresh_of_different meets.1.1 meets.2.2 silent)

end Runs

/-- The invoice 7 over 5 from CheeseCo, and the invoice 8 over 7 from DoughCo. -/
def twoInvoices : World :=
  let procurement := (World.deployed testNetwork).procurement
  let first := procurement.issueInvoice 7 1 "CHEESECO" 1 2 "KG" 5 InvoiceStatus.issued.text
  { World.deployed testNetwork with
    procurement := first.issueInvoice 8 2 "DOUGHCO" 2 3 "KG" 7 InvoiceStatus.issued.text }

def turns (count index : Nat) : List (Action (payments testNetwork)) :=
  (List.replicate count [.serve index, .resume index]).flatten

/-- PizzaCo, which has no coins, pays CheeseCo while the admin pays DoughCo. -/
def otherPayees : List (Action (payments testNetwork)) :=
  [.start ⟨"7", "1", "2"⟩, .start ⟨"8", "0", "3"⟩] ++
    turns 5 0 ++ turns 5 1 ++ turns 5 0 ++ turns 6 1 ++ turns 2 0

/-- How a payment ended, by the code that was answered, and the transfers that it made. -/
def reported (pool : Pool (payments environment)) (index : Nat) :
    Option (Except Failure Nat × List Transfer) :=
  match pool.tasks[index]? with
  | some ⟨_, .ended outcome⟩ => some (outcome.map Response.code, transferred (pool.trace index))
  | _ => none

theorem ended_of_reported {environment : Environment} {pool : Pool (payments environment)}
    {index : Nat} {code : Except Failure Nat} {made : List Transfer}
    (answered : reported pool index = some (code, made)) :
    ∃ payment outcome, pool.tasks[index]? = some ⟨payment, .ended outcome⟩ ∧
      outcome.map Response.code = code ∧ transferred (pool.trace index) = made := by
  rw [reported] at answered
  split at answered
  · rename_i payment outcome found
    cases answered
    exact ⟨payment, outcome, found, rfl, rfl⟩
  · cases answered

/-- A payment that made a transfer and was not answered with 200 is neither. -/
theorem not_allOrNothing_of_reported {environment : Environment} {start : World}
    {pool : Pool (payments environment)} {index : Nat} {code : Except Failure Nat}
    {made : List Transfer} (answered : reported pool index = some (code, made))
    (failed : code ≠ .ok 200) (moved : made ≠ []) :
    ∃ payment outcome, pool.tasks[index]? = some ⟨payment, .ended outcome⟩ ∧
      ¬(Paid start payment outcome (pool.view index) ∨
        Unpaid start payment outcome (pool.view index)) := by
  rcases ended_of_reported answered with ⟨payment, outcome, found, rfl, rfl⟩
  refine ⟨payment, outcome, found, ?_⟩
  rintro (⟨_, _, _, _, _, response, _, _, _, _, _, rfl, done⟩ | ⟨nothing, _, _⟩)
  · exact failed (congrArg Except.ok done)
  · exact moved nothing

/-- The admin pays CheeseCo twice, and reads the balance for both payments before
it makes the first. -/
def samePayee : List (Action (payments testNetwork)) :=
  [.start ⟨"7", "0", "2"⟩, .start ⟨"8", "0", "2"⟩] ++
    turns 5 0 ++ turns 5 1 ++ turns 4 0 ++ turns 4 1 ++ turns 1 0 ++ turns 1 1

/-- PizzaCo, which has no coins, pays CheeseCo and DoughCo, and both payments read its
count of transactions before the first is made. -/
def sameCount : List (Action (payments testNetwork)) :=
  [.start ⟨"7", "1", "2"⟩, .start ⟨"8", "1", "3"⟩] ++
    turns 5 0 ++ turns 5 1 ++ turns 2 0 ++ turns 2 1 ++ turns 5 0 ++ turns 3 1

/-- The node refuses the second transfer, and PizzaCo keeps what it was given for it. -/
theorem sameCount_not_allOrNothing :
    ∃ final, Transitions (Pool.Step fun pool action => different pool action = true)
        (Pool.initial twoInvoices fun _ => Globals.initial) sameCount final ∧
      reported final 1 = some (.error .wrongNonce, [⟨.topUp, some 1, some 2, 7⟩]) ∧
      ∃ payment outcome, final.tasks[1]? = some ⟨payment, .ended outcome⟩ ∧
        ¬(Paid twoInvoices payment outcome (final.view 1) ∨
          Unpaid twoInvoices payment outcome (final.view 1)) := by
  have ran : ((Pool.initial twoInvoices fun _ => Globals.initial).run different sameCount).map
        (fun final => reported final 1) =
      some (some (.error .wrongNonce, [⟨.topUp, some 1, some 2, 7⟩])) := by
    decide +kernel
  rcases Option.map_eq_some_iff.mp ran with ⟨final, runs, answered⟩
  exact ⟨final, Pool.transitions_of_run runs, answered,
    not_allOrNothing_of_reported answered (by simp) (by simp)⟩

end PizzaChain.Api
