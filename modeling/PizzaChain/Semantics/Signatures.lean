import PizzaChain.Semantics.Tickets

/-! # Requests that sign what they do

A request may take the number of the counter when it is made and put it on its calls and
on its result. No two requests take the same number, so that in any interleaving what
they did can be told apart.
-/

namespace PizzaChain

/-! ## Programs within bounds -/

section Within

variable {interface : Interface}

/-- Every call of the program and every result is as given. -/
def Program.Within (calls : interface.Call → Prop) (results : α → Prop) :
    Program interface α → Prop
  | .done result => results result
  | .fail _ => True
  | .read next => ∀ globals, (next globals).Within calls results
  | .write _ next => next.Within calls results
  | .await _ call next => calls call ∧ ∀ answer, (next answer).Within calls results

def Process.Within (calls : interface.Call → Prop) (results : α → Prop) :
    Process interface α → Prop
  | .waiting _ call next => calls call ∧ ∀ answer, (next answer).Within calls results
  | .served _ rest => rest.Within calls results
  | .ended (.ok result) => results result
  | .ended (.error _) => True

def Process.answer : Process interface α → Option α
  | .ended outcome => outcome.toOption
  | _ => none

theorem Process.eq_of_answer {process : Process interface α} {result : α}
    (answered : process.answer = some result) : process = .ended (.ok result) := by
  cases process with
  | waiting point call next => cases answered
  | served point rest => cases answered
  | ended outcome =>
      cases outcome with
      | error failure => cases answered
      | ok other => rw [Option.some.inj answered]

variable {calls : interface.Call → Prop} {results : α → Prop}

theorem Program.Within.settle {program : Program interface α}
    (within : program.Within calls results) (globals : interface.Globals) :
    (program.settle globals).1.Within calls results := by
  induction program generalizing globals with
  | done result => exact within
  | fail error => trivial
  | read next induction => exact induction globals (within globals) globals
  | write written next induction => exact induction within written
  | await point call next induction => exact within

theorem Program.Within.bind {program : Program interface β} {values : β → Prop}
    {continuation : β → Program interface α} (within : program.Within calls values)
    (continues : ∀ value, values value → (continuation value).Within calls results) :
    (program >>= continuation).Within calls results := by
  induction program with
  | done result => exact continues result within
  | fail error => trivial
  | read next induction => exact fun globals => induction globals (within globals)
  | write written next induction => exact induction within
  | await point call next induction => exact ⟨within.1, fun answer => induction _ (within.2 answer)⟩

theorem Program.within_call {point : interface.Point} {call : interface.Call}
    (allows : calls call) :
    (Program.call point call).Within calls fun _ => True := by
  refine ⟨allows, fun answer => ?_⟩
  cases answer <;> trivial

theorem Program.within_of_calls {program : Program interface α} (made : program.Calls calls)
    (holds : ∀ result, results result) : program.Within calls results := by
  induction program with
  | done result => exact holds result
  | fail error => trivial
  | read next induction => exact fun globals => induction globals (made globals)
  | write written next induction => exact induction made
  | await point call next induction => exact ⟨made.1, fun answer => induction _ (made.2 answer)⟩

end Within

/-! ## Runs -/

section Runs

variable {system : System} {Stamp : Type} (tickets : Ticketing system.interface Stamp)

/-- What a request may call and answer when it has taken a number, and which requests take
one. -/
structure Signing where
  calls : system.Request → Nat → system.interface.Call → Prop
  results : system.Request → Nat → system.Result → Prop
  takes : system.Request → Prop
  signed : ∀ request globals, ((system.handler request).settle globals).1.Within
    (calls request (tickets.counter globals)) (results request (tickets.counter globals))
  taken : ∀ request globals, takes request →
    tickets.counter globals < tickets.counter ((system.handler request).settle globals).2

variable {tickets}

/-- Each request has kept to the number that it took. -/
structure Signing.Kept (signing : Signing tickets) (pool : Pool system) (number : Nat → Nat) :
    Prop where
  drawn : ∀ (index : Nat) task, pool.tasks[index]? = some task →
    number index ≤ tickets.counter (pool.globals (system.cell 0)) ∧
      (signing.takes task.request →
        number index < tickets.counter (pool.globals (system.cell 0)))
  ordered : ∀ (index later : Nat) task, index < later → later < pool.tasks.length →
    pool.tasks[index]? = some task → signing.takes task.request → number index < number later
  processes : ∀ (index : Nat) task, pool.tasks[index]? = some task →
    task.process.Within (signing.calls task.request (number index))
      (signing.results task.request (number index))
  logged : ∀ entry ∈ pool.log, ∃ task, pool.tasks[entry.1]? = some task ∧
    signing.calls task.request (number entry.1) entry.2.call

theorem Signing.kept_initial (signing : Signing tickets) (world : system.World)
    (globals : Nat → system.interface.Globals) (number : Nat → Nat) :
    signing.Kept (Pool.initial world globals) number where
  drawn := by
    intro index task none
    simp [Pool.initial] at none
  ordered := by
    intro index later task _ _ none
    simp [Pool.initial] at none
  processes := by
    intro index task none
    simp [Pool.initial] at none
  logged := fun _ member => nomatch member

/-- The counter never falls. -/
theorem Ticketing.counter_settle {program : Program system.interface system.Result}
    (stamps : tickets.Stamps program) (globals : system.interface.Globals) :
    tickets.counter globals ≤ tickets.counter (program.settle globals).2 :=
  (stamps _ globals (Nat.le_refl _)).settle.1

variable {signing : Signing tickets} {pool : Pool system} {number : Nat → Nat}

theorem Signing.Kept.start (kept : signing.Kept pool number)
    (shared : ∀ index, system.cell index = system.cell 0)
    (stamps : ∀ request, tickets.Stamps (system.handler request)) (request : system.Request) :
    signing.Kept { pool with
      globals := (pool.settle pool.tasks.length (system.handler request)).2
      tasks := pool.tasks ++
        [⟨request, (pool.settle pool.tasks.length (system.handler request)).1⟩] }
      (Function.update number pool.tasks.length
        (tickets.counter (pool.globals (system.cell 0)))) := by
  have grows := Ticketing.counter_settle (stamps request) (pool.globals (system.cell 0))
  have globals : (pool.settle pool.tasks.length (system.handler request)).2 (system.cell 0) =
      ((system.handler request).settle (pool.globals (system.cell 0))).2 := by
    simp only [Pool.settle, shared pool.tasks.length, Function.update_self]
  have own : ∀ (index : Nat) task,
      (pool.tasks ++
        [⟨request, (pool.settle pool.tasks.length (system.handler request)).1⟩])[index]? =
          some task →
      index < pool.tasks.length ∧ pool.tasks[index]? = some task ∨
        index = pool.tasks.length ∧ task =
          ⟨request, ((system.handler request).settle (pool.globals (system.cell 0))).1⟩ := by
    intro index task found
    rcases Nat.lt_or_ge index pool.tasks.length with old | new
    · rw [List.getElem?_append_left old] at found
      exact .inl ⟨old, found⟩
    · rw [List.getElem?_append_right new, List.getElem?_singleton] at found
      split at found
      · cases found
        refine .inr ⟨by omega, ?_⟩
        simp only [Pool.settle, shared pool.tasks.length]
      · cases found
  have numbered : ∀ index, index < pool.tasks.length →
      Function.update number pool.tasks.length
        (tickets.counter (pool.globals (system.cell 0))) index = number index := by
    intro index old
    exact Function.update_of_ne (Nat.ne_of_lt old) _ _
  constructor
  · intro index task found
    simp only [globals]
    rcases own index task found with ⟨old, oldFound⟩ | ⟨rfl, rfl⟩
    · rw [numbered index old]
      have drawn := kept.drawn index task oldFound
      exact ⟨Nat.le_trans drawn.1 grows, fun takes => Nat.lt_of_lt_of_le (drawn.2 takes) grows⟩
    · rw [Function.update_self]
      exact ⟨grows, signing.taken request _⟩
  · intro index later task before bound found takes
    rw [List.length_append, List.length_singleton] at bound
    have old : index < pool.tasks.length := by omega
    rw [List.getElem?_append_left old] at found
    rw [numbered index old]
    rcases Nat.lt_or_ge later pool.tasks.length with early | late
    · rw [numbered later early]
      exact kept.ordered index later task before early found takes
    · have last : later = pool.tasks.length := by omega
      rw [last, Function.update_self]
      exact (kept.drawn index task found).2 takes
  · intro index task found
    rcases own index task found with ⟨old, oldFound⟩ | ⟨rfl, rfl⟩
    · rw [numbered index old]
      exact kept.processes index task oldFound
    · rw [Function.update_self]
      exact signing.signed request _
  · intro entry member
    rcases kept.logged entry member with ⟨task, found, called⟩
    have old := (List.getElem?_eq_some_iff.mp found).1
    refine ⟨task, ?_, ?_⟩
    · rw [List.getElem?_append_left old]
      exact found
    · rw [numbered entry.1 old]
      exact called

/-- A task that goes on keeps its request. -/
theorem Signing.Kept.update (kept : signing.Kept pool number) {index : Nat}
    {request : system.Request} {old : Process system.interface system.Result}
    (found : pool.tasks[index]? = some ⟨request, old⟩)
    {process : Process system.interface system.Result}
    (within : process.Within (signing.calls request (number index))
      (signing.results request (number index)))
    {world : system.World} {globals : Nat → system.interface.Globals}
    {log : List (Nat × Event system.interface)}
    (grows : tickets.counter (pool.globals (system.cell 0)) ≤
      tickets.counter (globals (system.cell 0)))
    (logged : ∀ entry ∈ log, entry ∈ pool.log ∨
      entry.1 = index ∧ signing.calls request (number index) entry.2.call) :
    signing.Kept ⟨world, globals, pool.tasks.set index ⟨request, process⟩, log⟩ number := by
  have bound := (List.getElem?_eq_some_iff.mp found).1
  have same : ∀ (other : Nat) task, (pool.tasks.set index ⟨request, process⟩)[other]? = some task →
      ∃ before, pool.tasks[other]? = some before ∧ before.request = task.request ∧
        (before = task ∨ other = index ∧ task.process = process) := by
    intro other task taskFound
    by_cases own : other = index
    · subst own
      rw [List.getElem?_set_self bound] at taskFound
      cases taskFound
      exact ⟨_, found, rfl, .inr ⟨rfl, rfl⟩⟩
    · rw [List.getElem?_set_ne (Ne.symm own)] at taskFound
      exact ⟨task, taskFound, rfl, .inl rfl⟩
  constructor
  · intro other task taskFound
    rcases same other task taskFound with ⟨before, beforeFound, sameRequest, _⟩
    have drawn := kept.drawn other before beforeFound
    rw [sameRequest] at drawn
    exact ⟨Nat.le_trans drawn.1 grows, fun takes => Nat.lt_of_lt_of_le (drawn.2 takes) grows⟩
  · intro other later task earlier late taskFound takes
    rw [List.length_set] at late
    rcases same other task taskFound with ⟨before, beforeFound, sameRequest, _⟩
    rw [← sameRequest] at takes
    exact kept.ordered other later before earlier late beforeFound takes
  · intro other task taskFound
    rcases same other task taskFound with ⟨before, beforeFound, sameRequest, kind⟩
    rcases kind with rfl | ⟨rfl, goesOn⟩
    · exact kept.processes other before beforeFound
    · cases found.symm.trans beforeFound
      rw [goesOn, ← sameRequest]
      exact within
  · intro entry member
    rcases logged entry member with old | ⟨own, called⟩
    · rcases kept.logged entry old with ⟨before, beforeFound, called⟩
      by_cases own : entry.1 = index
      · rw [own] at beforeFound called
        cases found.symm.trans beforeFound
        refine ⟨⟨request, process⟩, ?_, ?_⟩
        · rw [own, List.getElem?_set_self bound]
        · rw [own]
          exact called
      · refine ⟨before, ?_, called⟩
        rw [List.getElem?_set_ne (Ne.symm own)]
        exact beforeFound
    · refine ⟨⟨request, process⟩, ?_, ?_⟩
      · rw [own, List.getElem?_set_self bound]
      · rw [own]
        exact called

theorem Signing.Kept.step (kept : signing.Kept pool number)
    (shared : ∀ index, system.cell index = system.cell 0)
    (stamps : ∀ request, tickets.Stamps (system.handler request)) (unique : tickets.Unique pool)
    {action : Action system} {next : Pool system} (step : pool.step action = some next) :
    ∃ number, signing.Kept next number := by
  cases Pool.step_cases step with
  | start request => exact ⟨_, kept.start shared stamps request⟩
  | @serve index request point call rest found =>
      have within := kept.processes index _ found
      refine ⟨number, ?_⟩
      apply kept.update found
      · exact within.2 _
      · exact Nat.le_refl _
      · intro entry member
        rcases List.mem_append.mp member with old | new
        · exact .inl old
        · rw [List.mem_singleton.mp new]
          exact .inr ⟨rfl, within.1⟩
  | @resume index request point rest found =>
      have within := kept.processes index _ found
      have stamped := unique.rests _ (List.mem_of_getElem? found)
      refine ⟨number, kept.update found (Program.Within.settle within _) ?_ fun _ => .inl⟩
      have grows := Ticketing.counter_settle stamped (pool.globals (system.cell 0))
      simpa only [Pool.settle, shared index, Function.update_self] using grows

/-- In every run each request has taken a number of its own and signed with it. -/
theorem Signing.exists_kept (signing : Signing tickets)
    (shared : ∀ index, system.cell index = system.cell 0)
    (stamps : ∀ request, tickets.Stamps (system.handler request))
    {condition : Pool system → Action system → Prop} {world : system.World}
    {globals : Nat → system.interface.Globals} {actions : List (Action system)}
    (run : Transitions (Pool.Step condition) (Pool.initial world globals) actions pool) :
    ∃ number, signing.Kept pool number := by
  have both : tickets.Unique pool ∧ ∃ number, signing.Kept pool number := by
    apply run.invariant (fun pool => tickets.Unique pool ∧ ∃ number, signing.Kept pool number)
    · rintro current action next ⟨unique, number, kept⟩ step
      exact ⟨unique.step shared stamps step.1, kept.step shared stamps unique step.1⟩
    · exact ⟨Ticketing.unique_initial _ _, fun _ => 0, signing.kept_initial _ _ _⟩
  exact both.2

end Runs

end PizzaChain
