import PizzaChain.Semantics.Program
import PizzaChain.Semantics.Transitions
import Mathlib.Logic.Function.Basic

/-! # Interleaved requests

Any number of requests run at once. A call is made when its process reaches an
await, takes effect on the world at some later moment, and its answer resumes
the process later still. Between these moments other requests go on.
-/

namespace PizzaChain

/-- How calls change the world, and the program that handles each request. The
cells say which requests share their variables. -/
structure System where
  interface : Interface
  World : Type
  serve : (call : interface.Call) → World →
    Except interface.Error (interface.Answer call) × World
  Request : Type
  Result : Type
  handler : Request → Program interface Result
  cell : Nat → Nat

variable {system : System}

structure Task (system : System) where
  request : system.Request
  process : Process system.interface system.Result

/-- The world, the cells of variables, the requests in the order in which they
were started, and the calls that have taken effect. -/
structure Pool (system : System) where
  world : system.World
  globals : Nat → system.interface.Globals
  tasks : List (Task system)
  log : List (Nat × Event system.interface)

inductive Action (system : System)
  | start (request : system.Request)
  | serve (index : Nat)
  | resume (index : Nat)

/-- A request that becomes the task of the given index and awaits so many calls
while no other task takes a step. -/
def Action.alone (index : Nat) (request : system.Request) (awaits : Nat) : List (Action system) :=
  .start request :: (List.replicate awaits [.serve index, .resume index]).flatten

namespace Pool

/-- Lets a program run up to its next await as the task of the given index. -/
def settle (pool : Pool system) (index : Nat)
    (program : Program system.interface system.Result) :
    Process system.interface system.Result × (Nat → system.interface.Globals) :=
  let settled := program.settle (pool.globals (system.cell index))
  (settled.1, Function.update pool.globals (system.cell index) settled.2)

def step (pool : Pool system) : Action system → Option (Pool system)
  | .start request =>
      let settled := pool.settle pool.tasks.length (system.handler request)
      some { pool with
        globals := settled.2
        tasks := pool.tasks ++ [⟨request, settled.1⟩] }
  | .serve index =>
      match pool.tasks[index]? with
      | some ⟨request, .waiting point call next⟩ =>
          let served := system.serve call pool.world
          some { pool with
            world := served.2
            tasks := pool.tasks.set index ⟨request, .served point (next served.1)⟩
            log := pool.log ++ [(index, ⟨point, call, served.1⟩)] }
      | _ => none
  | .resume index =>
      match pool.tasks[index]? with
      | some ⟨request, .served _ rest⟩ =>
          let settled := pool.settle index rest
          some { pool with
            globals := settled.2
            tasks := pool.tasks.set index ⟨request, settled.1⟩ }
      | _ => none

/-- The state after a list of actions, if all of them are possible and meet the
condition. -/
def run (condition : Pool system → Action system → Bool) (pool : Pool system) :
    List (Action system) → Option (Pool system)
  | [] => some pool
  | action :: actions =>
      if condition pool action then
        match pool.step action with
        | none => none
        | some next => next.run condition actions
      else none

/-- No requests yet. -/
def initial (world : system.World) (globals : Nat → system.interface.Globals) : Pool system where
  world := world
  globals := globals
  tasks := []
  log := []

/-- A step to which a condition on the state and the action applies. -/
def Step (condition : Pool system → Action system → Prop) (pool : Pool system)
    (action : Action system) (next : Pool system) : Prop :=
  pool.step action = some next ∧ condition pool action

/-- The calls that are made and not answered, with the requests that made them. -/
def issued (pool : Pool system) :
    List (system.Request × system.interface.Point × system.interface.Call) :=
  pool.tasks.filterMap fun task => task.process.issued.map fun made => (task.request, made)

/-- The calls of every task are allowed to its request. -/
def Calls (allowed : system.Request → system.interface.Call → Prop) (pool : Pool system) : Prop :=
  ∀ task ∈ pool.tasks, task.process.Calls (allowed task.request)

end Pool

/-! ## What a request sees -/

/-- The world, the variables in the cell of a request, and its own calls. -/
structure View (system : System) where
  world : system.World
  globals : system.interface.Globals
  trace : List (Event system.interface)

/-- The view once a call has taken effect. -/
def View.answered (view : View system) (point : system.interface.Point)
    (call : system.interface.Call) : View system where
  world := (system.serve call view.world).2
  globals := view.globals
  trace := view.trace ++ [⟨point, call, (system.serve call view.world).1⟩]

def Pool.trace (pool : Pool system) (index : Nat) : List (Event system.interface) :=
  (pool.log.filter fun entry => entry.1 == index).map Prod.snd

def Pool.view (pool : Pool system) (index : Nat) : View system where
  world := pool.world
  globals := pool.globals (system.cell index)
  trace := pool.trace index

/-! ## Steps -/

/-- What a step can do. -/
inductive StepCase (pool : Pool system) : Action system → Pool system → Prop
  | start (request) : StepCase pool (.start request) { pool with
      globals := (pool.settle pool.tasks.length (system.handler request)).2
      tasks := pool.tasks ++
        [⟨request, (pool.settle pool.tasks.length (system.handler request)).1⟩] }
  | serve {index request point call next}
      (found : pool.tasks[index]? = some ⟨request, .waiting point call next⟩) :
      StepCase pool (.serve index) { pool with
        world := (system.serve call pool.world).2
        tasks := pool.tasks.set index
          ⟨request, .served point (next (system.serve call pool.world).1)⟩
        log := pool.log ++ [(index, ⟨point, call, (system.serve call pool.world).1⟩)] }
  | resume {index request point rest}
      (found : pool.tasks[index]? = some ⟨request, .served point rest⟩) :
      StepCase pool (.resume index) { pool with
        globals := (pool.settle index rest).2
        tasks := pool.tasks.set index ⟨request, (pool.settle index rest).1⟩ }

theorem Pool.step_cases {pool next : Pool system} {action : Action system}
    (stepped : pool.step action = some next) : StepCase pool action next := by
  cases action with
  | start request =>
      cases stepped
      exact .start request
  | serve index =>
      simp only [Pool.step] at stepped
      split at stepped
      · rename_i found
        cases stepped
        exact .serve found
      · cases stepped
  | resume index =>
      simp only [Pool.step] at stepped
      split at stepped
      · rename_i found
        cases stepped
        exact .resume found
      · cases stepped

theorem Pool.transitions_of_run {condition : Pool system → Action system → Bool}
    {pool final : Pool system} {actions : List (Action system)}
    (runs : pool.run condition actions = some final) :
    Transitions (Pool.Step fun pool action => condition pool action = true) pool actions
      final := by
  induction actions generalizing pool with
  | nil =>
      cases runs
      exact .nil _
  | cons action actions induction =>
      rw [Pool.run] at runs
      split at runs
      · rename_i meets
        split at runs
        · cases runs
        · rename_i next stepped
          exact .cons ⟨stepped, meets⟩ (induction runs)
      · cases runs

/-- Without a condition, a list of possible actions is a run. -/
theorem Pool.transitions_of_free_run {pool final : Pool system} {actions : List (Action system)}
    (runs : pool.run (fun _ _ => true) actions = some final) :
    Transitions (Pool.Step fun _ _ => True) pool actions final :=
  (Pool.transitions_of_run runs).mono fun _ _ _ step => ⟨step.1, trivial⟩

/-! ## Invariants of the world -/

/-- The requests that have been started. -/
def Pool.requests (pool : Pool system) : List system.Request :=
  pool.tasks.map Task.request

theorem Pool.requests_set {pool : Pool system} {index : Nat} {request : system.Request}
    {process : Process system.interface system.Result}
    (found : pool.tasks[index]? = some ⟨request, process⟩)
    (later : Process system.interface system.Result) :
    (pool.tasks.set index ⟨request, later⟩).map Task.request = pool.requests := by
  have bound := (List.getElem?_eq_some_iff.mp found).1
  have same : (pool.tasks.map Task.request)[index]? = some request := by
    rw [List.getElem?_map, found]
    rfl
  rw [List.map_set, Pool.requests]
  rcases List.getElem?_eq_some_iff.mp same with ⟨mapBound, at_index⟩
  exact (congrArg (List.set _ index) at_index.symm).trans (List.set_getElem_self mapBound)

/-- A property of the requests and the world that what the handlers may call
keeps. -/
structure KeptByCalls (allowed : system.Request → system.interface.Call → Prop)
    (holds : List system.Request → system.World → Prop) : Prop where
  handlers : ∀ request, (system.handler request).Calls (allowed request)
  starts : ∀ requests request world, holds requests world → holds (requests ++ [request]) world
  keeps : ∀ requests request call world, request ∈ requests → allowed request call →
    holds requests world → holds requests (system.serve call world).2

section KeptByCalls

variable {allowed : system.Request → system.interface.Call → Prop}
  {holds : List system.Request → system.World → Prop}

theorem KeptByCalls.step (kept : KeptByCalls allowed holds) {pool next : Pool system}
    {action : Action system} (stepped : pool.step action = some next)
    (calls : pool.Calls allowed) (before : holds pool.requests pool.world) :
    next.Calls allowed ∧ holds next.requests next.world := by
  cases Pool.step_cases stepped with
  | start request =>
      refine ⟨fun task member => ?_, ?_⟩
      · rcases List.mem_append.mp member with old | new
        · exact calls task old
        · rw [List.mem_singleton.mp new]
          exact (kept.handlers request).settle _
      · simp only [Pool.requests, List.map_append]
        exact kept.starts _ request _ before
  | @serve index request point call rest found =>
      have member := List.mem_of_getElem? found
      have waiting := calls _ member
      refine ⟨fun task taskMember => ?_, ?_⟩
      · rcases List.mem_or_eq_of_mem_set taskMember with old | new
        · exact calls task old
        · rw [new]
          exact waiting.2 _
      · simp only [Pool.requests]
        rw [Pool.requests_set found]
        exact kept.keeps _ request call _ (List.mem_map_of_mem member) waiting.1 before
  | @resume index request point rest found =>
      have served := calls _ (List.mem_of_getElem? found)
      refine ⟨fun task member => ?_, ?_⟩
      · rcases List.mem_or_eq_of_mem_set member with old | new
        · exact calls task old
        · rw [new]
          exact Program.Calls.settle served _
      · simp only [Pool.requests]
        rw [Pool.requests_set found]
        exact before

/-- What the handlers may call keeps the property, so every run keeps it, in any
interleaving. -/
theorem KeptByCalls.run (kept : KeptByCalls allowed holds)
    {condition : Pool system → Action system → Prop}
    {pool final : Pool system} {actions : List (Action system)}
    (run : Transitions (Pool.Step condition) pool actions final)
    (calls : pool.Calls allowed) (initially : holds pool.requests pool.world) :
    final.Calls allowed ∧ holds final.requests final.world := by
  apply run.invariant (fun pool => pool.Calls allowed ∧ holds pool.requests pool.world) _
    ⟨calls, initially⟩
  intro current action next before step
  exact kept.step step.1 before.1 before.2

/-- The steps of a run can be taken to start in states with the property. -/
theorem KeptByCalls.strengthen (kept : KeptByCalls allowed holds)
    {condition : Pool system → Action system → Prop}
    {pool final : Pool system} {actions : List (Action system)}
    (run : Transitions (Pool.Step condition) pool actions final)
    (calls : pool.Calls allowed) (initially : holds pool.requests pool.world) :
    Transitions (Pool.Step fun pool action =>
      condition pool action ∧ pool.Calls allowed ∧ holds pool.requests pool.world)
      pool actions final := by
  have strong := run.strengthen (fun pool => pool.Calls allowed ∧ holds pool.requests pool.world)
    (fun current action next before step => kept.step step.1 before.1 before.2)
    ⟨calls, initially⟩
  exact strong.mono fun _ _ _ step => ⟨step.2.1, step.2.2, step.1⟩

end KeptByCalls

/-! ## What the log tells -/

section Log

variable {pool : Pool system} {index : Nat}

theorem Pool.mem_trace {event : Event system.interface} :
    event ∈ pool.trace index ↔ (index, event) ∈ pool.log := by
  simp [Pool.trace]

/-- If only one request made calls of a kind, these are the calls of its trace. -/
theorem Pool.filterMap_log (read : Event system.interface → Option ε)
    (others : ∀ entry ∈ pool.log, entry.1 ≠ index → read entry.2 = none) :
    pool.log.filterMap (fun entry => read entry.2) = (pool.trace index).filterMap read := by
  rw [Pool.trace, List.filterMap_map, List.filterMap_filter]
  apply List.filterMap_congr
  intro entry member
  by_cases own : entry.1 = index
  · simp [own]
  · simp [own, others entry member own]

/-- A part of the world that each call changes in its own way is determined by
the log. -/
theorem Pool.part_of_log {condition : Pool system → Action system → Prop}
    {part : system.World → σ} {apply : σ → ε → σ} {effect : Event system.interface → Option ε}
    (serves : ∀ point call world, part (system.serve call world).2 =
      (effect ⟨point, call, (system.serve call world).1⟩).toList.foldl apply (part world))
    {world : system.World} {globals : Nat → system.interface.Globals}
    {actions : List (Action system)} {final : Pool system}
    (run : Transitions (Pool.Step condition) (Pool.initial world globals) actions final) :
    part final.world =
      (final.log.filterMap fun entry => effect entry.2).foldl apply (part world) := by
  apply run.invariant (fun pool => part pool.world =
    (pool.log.filterMap fun entry => effect entry.2).foldl apply (part world)) _ rfl
  intro current action next before step
  cases Pool.step_cases step.1 with
  | start request => exact before
  | @serve index request point call rest found =>
      rw [serves point, before, List.filterMap_append, List.foldl_append]
      rfl
  | resume found => exact before

end Log

theorem Pool.calls_initial (allowed : system.Request → system.interface.Call → Prop)
    (world : system.World) (globals : Nat → system.interface.Globals) :
    (Pool.initial world globals).Calls allowed :=
  fun _ member => nomatch member

end PizzaChain
