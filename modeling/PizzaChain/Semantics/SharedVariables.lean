import PizzaChain.Semantics.Courses

/-! # Invariants of shared variables

What a request finds in a shared variable may be due to any other request. A property of
the variables that every program keeps can be assumed whenever they are read, in every
interleaving.
-/

namespace PizzaChain

variable {system : System}

namespace Program

variable (good : system.interface.Globals → Prop) (allowed : system.interface.Call → Prop)

/-- As long as it finds good variables, the program leaves them good and makes allowed
calls only. -/
def Respects : Program system.interface α → Prop
  | .done _ => True
  | .fail _ => True
  | .read next => ∀ globals, good globals → Respects (next globals)
  | .write globals next => good globals ∧ Respects next
  | .await _ call next => allowed call ∧
      ∀ world, Respects (next (system.serve call world).1)

variable {good allowed}

theorem Respects.bind {program : Program system.interface α}
    {continuation : α → Program system.interface β} (respects : program.Respects good allowed)
    (continues : ∀ result, (continuation result).Respects good allowed) :
    (program >>= continuation).Respects good allowed := by
  induction program with
  | done result => exact continues result
  | fail error => trivial
  | read next induction => exact fun globals found => induction globals (respects globals found)
  | write globals next induction => exact ⟨respects.1, induction respects.2⟩
  | await point call next induction =>
      exact ⟨respects.1, fun world => induction _ (respects.2 world)⟩

/-- What follows a call may use that the answer is one of the served. -/
theorem respects_call {point : system.interface.Point} {call : system.interface.Call}
    {continuation : system.interface.Answer call → Program system.interface β}
    (allows : allowed call)
    (continues : ∀ world answer, (system.serve call world).1 = .ok answer →
      (continuation answer).Respects good allowed) :
    (Program.call point call >>= continuation).Respects good allowed := by
  rw [call_bind]
  refine ⟨allows, fun world => ?_⟩
  cases served : (system.serve call world).1 with
  | ok answer => exact continues world answer served
  | error error => trivial

theorem respects_modify {change : system.interface.Globals → system.interface.Globals}
    {continuation : Unit → Program system.interface β}
    (keeps : ∀ globals, good globals → good (change globals))
    (continues : (continuation ()).Respects good allowed) :
    (Program.modify change >>= continuation).Respects good allowed :=
  fun globals found => ⟨keeps globals found, continues⟩

theorem respects_get {continuation : system.interface.Globals → Program system.interface β}
    (continues : ∀ globals, good globals → (continuation globals).Respects good allowed) :
    (Program.get >>= continuation).Respects good allowed :=
  continues

end Program

section Runs

variable (good : system.interface.Globals → Prop) (allowed : system.interface.Call → Prop)

def Process.Respects : Process system.interface α → Prop
  | .waiting _ call next => allowed call ∧
      ∀ world, (next (system.serve call world).1).Respects good allowed
  | .served _ rest => rest.Respects good allowed
  | .ended _ => True

/-- The variables are good, and all that is left to do respects them. -/
structure Pool.Respects (pool : Pool system) : Prop where
  globals : ∀ cell, good (pool.globals cell)
  processes : ∀ task ∈ pool.tasks, task.process.Respects good allowed

variable {good allowed}

theorem Program.Respects.settle {program : Program system.interface α}
    (respects : program.Respects good allowed) {globals : system.interface.Globals}
    (found : good globals) :
    (program.settle globals).1.Respects good allowed ∧ good (program.settle globals).2 := by
  induction program generalizing globals with
  | done result => exact ⟨trivial, found⟩
  | fail error => exact ⟨trivial, found⟩
  | read next induction => exact induction globals (respects globals found) found
  | write written next induction => exact induction respects.2 respects.1
  | await point call next induction => exact ⟨respects, found⟩

theorem Pool.Respects.settle {pool : Pool system} (respects : pool.Respects good allowed)
    (index : Nat) {program : Program system.interface system.Result}
    (respectful : program.Respects good allowed) :
    (pool.settle index program).1.Respects good allowed ∧
      ∀ cell, good ((pool.settle index program).2 cell) := by
  have settled := respectful.settle (respects.globals (system.cell index))
  refine ⟨settled.1, fun cell => ?_⟩
  by_cases own : cell = system.cell index
  · subst own
    simp only [Pool.settle, Function.update_self]
    exact settled.2
  · simp only [Pool.settle, Function.update_of_ne own]
    exact respects.globals cell

/-- One step keeps this, and the calls that take effect are allowed. -/
theorem Pool.Respects.step {permitted : system.Request → Prop}
    (handlers : ∀ request, permitted request → (system.handler request).Respects good allowed)
    {pool next : Pool system} (respects : pool.Respects good allowed) {action : Action system}
    (started : ∀ request, action = .start request → permitted request)
    (step : pool.step action = some next) :
    next.Respects good allowed ∧
      (next.world = pool.world ∨
        ∃ call, allowed call ∧ next.world = (system.serve call pool.world).2) := by
  cases Pool.step_cases step with
  | start request =>
      have settled := respects.settle pool.tasks.length (handlers request (started request rfl))
      refine ⟨⟨settled.2, fun task member => ?_⟩, .inl rfl⟩
      rcases List.mem_append.mp member with old | new
      · exact respects.processes task old
      · rw [List.mem_singleton.mp new]
        exact settled.1
  | @serve index request point call rest found =>
      have waiting := respects.processes _ (List.mem_of_getElem? found)
      refine ⟨⟨respects.globals, fun task member => ?_⟩, .inr ⟨call, waiting.1, rfl⟩⟩
      rcases List.mem_or_eq_of_mem_set member with old | new
      · exact respects.processes task old
      · rw [new]
        exact waiting.2 _
  | @resume index request point rest found =>
      have served := respects.processes _ (List.mem_of_getElem? found)
      have settled := respects.settle index served
      refine ⟨⟨settled.2, fun task member => ?_⟩, .inl rfl⟩
      rcases List.mem_or_eq_of_mem_set member with old | new
      · exact respects.processes task old
      · rw [new]
        exact settled.1

/-- All requests that are made are permitted. -/
def OnlyStarts (permitted : system.Request → Prop) (_ : Pool system) (action : Action system) :
    Prop :=
  ∀ request, action = .start request → permitted request

theorem eq_of_start_mem {index awaits : Nat} {request other : system.Request}
    (member : .start other ∈ Action.alone index request awaits) : other = request := by
  simpa [Action.alone] using member

theorem reaches_of_actions {permitted : system.Request → Prop} {pool final : Pool system}
    {actions : List (Action system)}
    (run : Transitions (Pool.Step fun _ _ => True) pool actions final)
    (permits : ∀ request, .start request ∈ actions → permitted request) :
    pool.Reaches (OnlyStarts permitted) final := by
  induction run with
  | nil pool => exact .refl pool
  | @cons pool next final action actions step rest induction =>
      have first : Pool.Step (OnlyStarts permitted) pool action next := by
        refine ⟨step.1, ?_⟩
        rintro request rfl
        exact permits request List.mem_cons_self
      apply (Pool.Reaches.single first).trans
      exact induction fun request member => permits request (List.mem_cons_of_mem _ member)

/-- What allowed calls keep is kept by whole runs. -/
theorem Pool.Respects.run {permitted : system.Request → Prop}
    (handlers : ∀ request, permitted request → (system.handler request).Respects good allowed)
    (holds : system.World → Prop)
    (keeps : ∀ call world, allowed call → holds world → holds (system.serve call world).2)
    {pool final : Pool system} {actions : List (Action system)}
    (run : Transitions (Pool.Step (OnlyStarts permitted)) pool actions final)
    (respects : pool.Respects good allowed) (initially : holds pool.world) :
    final.Respects good allowed ∧ holds final.world := by
  apply run.invariant (fun pool => pool.Respects good allowed ∧ holds pool.world) _
    ⟨respects, initially⟩
  rintro current action next ⟨before, held⟩ step
  rcases before.step handlers step.2 step.1 with ⟨after, same | ⟨call, allows, served⟩⟩
  · exact ⟨after, by rw [same]; exact held⟩
  · exact ⟨after, by rw [served]; exact keeps call _ allows held⟩

theorem Pool.respects_initial (world : system.World) {globals : Nat → system.interface.Globals}
    (found : ∀ cell, good (globals cell)) :
    (Pool.initial world globals).Respects good allowed :=
  ⟨found, fun _ member => nomatch member⟩

end Runs

end PizzaChain
