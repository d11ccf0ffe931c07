import PizzaChain.Semantics.Alone

/-! # Requests one after another

Each request is started when the one before has ended. Such a sequence is a run
of the pool in which only the last task takes steps.
-/

namespace PizzaChain

/-- A request that has ended, with the calls it made. -/
structure Record (system : System) where
  request : system.Request
  outcome : Except system.interface.Error system.Result
  trace : List (Event system.interface)

structure Sequence (system : System) where
  world : system.World
  globals : system.interface.Globals
  history : List (Record system)

variable {system : System}

namespace Sequence

def initial (world : system.World) (globals : system.interface.Globals) : Sequence system where
  world := world
  globals := globals
  history := []

def view (sequence : Sequence system) : View system where
  world := sequence.world
  globals := sequence.globals
  trace := []

/-- The outcome of the next request and what it leaves. -/
def ended (sequence : Sequence system) (request : system.Request) :
    Except system.interface.Error system.Result × View system :=
  (system.handler request).alone sequence.view

def next (sequence : Sequence system) (request : system.Request) : Sequence system where
  world := (sequence.ended request).2.world
  globals := (sequence.ended request).2.globals
  history := sequence.history ++
    [⟨request, (sequence.ended request).1, (sequence.ended request).2.trace⟩]

/-- A request to which a condition on the state and the request applies. -/
def Step (condition : Sequence system → system.Request → Prop) (sequence : Sequence system)
    (request : system.Request) (next : Sequence system) : Prop :=
  next = sequence.next request ∧ condition sequence request

/-- The state after a list of requests, if all of them meet the condition. -/
def run (condition : Sequence system → system.Request → Bool) (sequence : Sequence system) :
    List system.Request → Option (Sequence system)
  | [] => some sequence
  | request :: requests =>
      if condition sequence request then (sequence.next request).run condition requests
      else none

theorem transitions_of_run {condition : Sequence system → system.Request → Bool}
    {sequence final : Sequence system} {requests : List system.Request}
    (runs : sequence.run condition requests = some final) :
    Transitions (Step fun sequence request => condition sequence request = true) sequence requests
      final := by
  induction requests generalizing sequence with
  | nil =>
      cases runs
      exact .nil _
  | cons request requests induction =>
      rw [run] at runs
      split at runs
      · rename_i meets
        exact .cons ⟨rfl, meets⟩ (induction runs)
      · cases runs

/-! ## Histories -/

/-- The requests of a history. -/
def requestsOf (history : List (Record system)) : List system.Request :=
  history.map Record.request

theorem requestsOf_append_singleton (history : List (Record system)) (record : Record system) :
    requestsOf (history ++ [record]) = requestsOf history ++ [record.request] :=
  List.map_append

theorem getElem?_requestsOf {history : List (Record system)} {index : Nat}
    {request : system.Request} : (requestsOf history)[index]? = some request ↔
      ∃ record, history[index]? = some record ∧ record.request = request := by
  rw [requestsOf, List.getElem?_map, Option.map_eq_some_iff]

theorem mem_take_requestsOf {history : List (Record system)} {index : Nat}
    {request : system.Request} : request ∈ (requestsOf history).take index ↔
      ∃ record ∈ history.take index, record.request = request := by
  rw [requestsOf, ← List.map_take, List.mem_map]

theorem requestsOf_of_transitions {condition : Sequence system → system.Request → Prop}
    {sequence final : Sequence system} {requests : List system.Request}
    (run : Transitions (Step condition) sequence requests final) :
    requestsOf final.history = requestsOf sequence.history ++ requests := by
  induction run with
  | nil state => exact (List.append_nil _).symm
  | cons first _ induction =>
      rw [induction, first.1, next, requestsOf_append_singleton, List.append_assoc]
      rfl

/-- Every record has a property that may depend on the records before it. -/
def Each (property : List (Record system) → Record system → Prop)
    (history : List (Record system)) : Prop :=
  ∀ (index : Nat) record, history[index]? = some record → property (history.take index) record

theorem each_append_singleton {property : List (Record system) → Record system → Prop}
    {history : List (Record system)} {record : Record system}
    (each : Each property history) (last : property history record) :
    Each property (history ++ [record]) := by
  intro index other found
  rcases Nat.lt_or_ge index history.length with early | late
  · rw [List.getElem?_append_left early] at found
    rw [List.take_append_of_le_length (Nat.le_of_lt early)]
    exact each index other found
  · rw [List.getElem?_append_right late] at found
    have zero : index - history.length = 0 := by
      have short := (List.getElem?_eq_some_iff.mp found).1
      simp only [List.length_singleton] at short
      omega
    rw [zero] at found
    cases found
    rw [show index = history.length by omega, List.take_left]
    exact last

/-! ## Sequences as runs of the pool -/

/-- The pool has the same requests behind it, all ended. -/
structure Follows (sequence : Sequence system) (pool : Pool system) : Prop where
  world : pool.world = sequence.world
  globals : ∀ index, pool.globals (system.cell index) = sequence.globals
  tasks : pool.tasks = sequence.history.map fun record => ⟨record.request, .ended record.outcome⟩
  trace : ∀ index, pool.trace index = (sequence.history[index]?.map Record.trace).getD []

theorem follows_initial (world : system.World) (globals : system.interface.Globals) :
    (initial world globals : Sequence system).Follows (Pool.initial world fun _ => globals) where
  world := rfl
  globals := fun _ => rfl
  tasks := rfl
  trace := fun _ => rfl

theorem Follows.next {sequence : Sequence system} {pool : Pool system}
    (shared : ∀ index other, system.cell index = system.cell other)
    (follows : sequence.Follows pool) (request : system.Request) :
    ∃ actions final, Transitions (Pool.Step fun _ _ => True) pool actions final ∧
      (sequence.next request).Follows final := by
  rcases Pool.exists_alone_run Pool.letsContinue_true pool request trivial with
    ⟨actions, final, run, tasks, view, others⟩
  have length : pool.tasks.length = sequence.history.length := by
    rw [follows.tasks, List.length_map]
  have sameView : pool.view pool.tasks.length = sequence.view := by
    rw [Pool.view, follows.world, follows.globals, follows.trace, length]
    simp [Sequence.view]
  rw [sameView] at tasks view
  refine ⟨_, final, run, congrArg View.world view, ?_, ?_, ?_⟩
  · intro index
    rw [shared index pool.tasks.length]
    exact congrArg View.globals view
  · rw [tasks, follows.tasks]
    simp [Sequence.next, Sequence.ended]
  · intro index
    by_cases last : index = sequence.history.length
    · subst last
      rw [← length]
      have trace := congrArg View.trace view
      simp only [Pool.view] at trace
      rw [trace]
      simp [Sequence.next, Sequence.ended, length]
    · rw [others index (length ▸ last), follows.trace, Sequence.next]
      rcases Nat.lt_or_ge index sequence.history.length with early | late
      · rw [List.getElem?_append_left early]
      · have beyond : sequence.history.length < index := by omega
        rw [List.getElem?_eq_none late, List.getElem?_eq_none]
        simp only [List.length_append, List.length_singleton]
        omega

/-- Every sequence of requests is a run of the pool. -/
theorem exists_pool_run {condition : Sequence system → system.Request → Prop}
    (shared : ∀ index other, system.cell index = system.cell other)
    {sequence final : Sequence system} {requests : List system.Request} {pool : Pool system}
    (run : Transitions (Step condition) sequence requests final)
    (follows : sequence.Follows pool) :
    ∃ actions reached, Transitions (Pool.Step fun _ _ => True) pool actions reached ∧
      final.Follows reached := by
  induction run generalizing pool with
  | nil state => exact ⟨[], pool, .nil pool, follows⟩
  | @cons current middle final request requests first _ induction =>
      rcases follows.next shared request with ⟨actions, stepped, runs, followed⟩
      rw [← first.1] at followed
      rcases induction followed with ⟨more, reached, rest, end_⟩
      exact ⟨actions ++ more, reached, runs.append rest, end_⟩

end Sequence

end PizzaChain
