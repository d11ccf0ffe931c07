import PizzaChain.Semantics.Pool

/-! # Requests that run alone

A request that is not interleaved with others has one outcome, which is also
reached in the pool when no other task takes a step.
-/

namespace PizzaChain

variable {system : System}

namespace Program

/-- The outcome of a program and the view it leaves when nothing interferes. -/
def alone : Program system.interface α → View system →
    Except system.interface.Error α × View system
  | .done result, view => (.ok result, view)
  | .fail error, view => (.error error, view)
  | .read next, view => (next view.globals).alone view
  | .write globals next, view => next.alone { view with globals := globals }
  | .await point call next, view =>
      (next (system.serve call view.world).1).alone (view.answered point call)

/-- What holds of the outcome of a program that runs alone. -/
def Ensures (program : Program system.interface α) (view : View system)
    (post : Except system.interface.Error α → View system → Prop) : Prop :=
  post (program.alone view).1 (program.alone view).2

variable {view : View system} {post : Except system.interface.Error β → View system → Prop}

theorem ensures_ok {point : system.interface.Point} {call : system.interface.Call}
    {continuation : system.interface.Answer call → Program system.interface β}
    {answer : system.interface.Answer call} {next : system.World}
    (served : system.serve call view.world = (.ok answer, next))
    (continues : (continuation answer).Ensures
      ⟨next, view.globals, view.trace ++ [⟨point, call, .ok answer⟩]⟩ post) :
    (Program.call point call >>= continuation).Ensures view post := by
  rw [Program.call_bind, Ensures, alone, View.answered, served]
  exact continues

theorem ensures_error {point : system.interface.Point} {call : system.interface.Call}
    {continuation : system.interface.Answer call → Program system.interface β}
    {error : system.interface.Error} {next : system.World}
    (served : system.serve call view.world = (.error error, next))
    (ends : post (.error error) ⟨next, view.globals, view.trace ++ [⟨point, call, .error error⟩]⟩) :
    (Program.call point call >>= continuation).Ensures view post := by
  rw [Program.call_bind, Ensures, alone, View.answered, served]
  exact ends

theorem ensures_modify {change : system.interface.Globals → system.interface.Globals}
    {continuation : Unit → Program system.interface β}
    (ensures : (continuation ()).Ensures { view with globals := change view.globals } post) :
    (Program.modify change >>= continuation).Ensures view post :=
  ensures

theorem ensures_get {continuation : system.interface.Globals → Program system.interface β}
    (ensures : (continuation view.globals).Ensures view post) :
    (Program.get >>= continuation).Ensures view post :=
  ensures

theorem alone_attempt (program : Program system.interface α) (view : View system) :
    program.attempt.alone view = (.ok (program.alone view).1, (program.alone view).2) := by
  induction program generalizing view with
  | done result => rfl
  | fail error => rfl
  | read next induction => exact induction view.globals view
  | write globals next induction => exact induction _
  | await point call next induction => exact induction _ _

theorem ensures_attempt {program : Program system.interface α} {view : View system}
    {post : Except system.interface.Error (Except system.interface.Error α) → View system → Prop}
    (ensures : program.Ensures view fun outcome after => post (.ok outcome) after) :
    program.attempt.Ensures view post := by
  rw [Ensures, alone_attempt]
  exact ensures

/-- What all calls of a program keep, it keeps. -/
theorem alone_invariant (view : View system) (holds : system.World → Prop)
    {allowed : system.interface.Call → Prop}
    (keeps : ∀ call world, allowed call → holds world → holds (system.serve call world).2)
    {program : Program system.interface α} (calls : program.Calls allowed)
    (initially : holds view.world) : holds (program.alone view).2.world := by
  induction program generalizing view with
  | done result => exact initially
  | fail error => exact initially
  | read next induction => exact induction _ _ (calls _) initially
  | write globals next induction => exact induction { view with globals := globals } calls initially
  | await point call next induction =>
      exact induction _ _ (calls.2 _) (keeps call _ calls.1 initially)

end Program

/-! ## Running alone in the pool -/

/-- The condition on steps lets every started task go on. -/
def Pool.LetsContinue (condition : Pool system → Action system → Prop) : Prop :=
  ∀ pool index, condition pool (.serve index) ∧ condition pool (.resume index)

theorem Pool.letsContinue_true : Pool.LetsContinue fun (_ : Pool system) _ => True :=
  fun _ _ => ⟨trivial, trivial⟩

variable {condition : Pool system → Action system → Prop}

theorem set_self_of_getElem? {values : List α} {index : Nat} {value : α}
    (found : values[index]? = some value) : values.set index value = values := by
  rcases List.getElem?_eq_some_iff.mp found with ⟨bound, rfl⟩
  exact List.set_getElem_self bound

/-- The call of a waiting task takes effect, and the task is resumed. -/
theorem Pool.exists_answered {pool : Pool system} {index : Nat} {request : system.Request}
    {point : system.interface.Point} {call : system.interface.Call}
    {next : Except system.interface.Error (system.interface.Answer call) →
      Program system.interface system.Result} {before : system.interface.Globals}
    (continues : Pool.LetsContinue condition)
    (found : pool.tasks[index]? = some ⟨request, .waiting point call next⟩)
    (settled : pool.globals (system.cell index) = before) :
    ∃ resumed : Pool system, Transitions (Pool.Step condition) pool
        [.serve index, .resume index] resumed ∧
      resumed.tasks = pool.tasks.set index
        ⟨request, ((next (system.serve call pool.world).1).settle before).1⟩ ∧
      resumed.globals (system.cell index) =
        ((next (system.serve call pool.world).1).settle before).2 ∧
      { resumed.view index with globals := before } =
        View.answered { pool.view index with globals := before } point call ∧
      ∀ other, other ≠ index → resumed.trace other = pool.trace other := by
  have bound := (List.getElem?_eq_some_iff.mp found).1
  let answer := (system.serve call pool.world).1
  let served : Pool system := { pool with
    world := (system.serve call pool.world).2
    tasks := pool.tasks.set index ⟨request, .served point (next answer)⟩
    log := pool.log ++ [(index, ⟨point, call, answer⟩)] }
  have serves : pool.step (.serve index) = some served := by
    simp [Pool.step, found, served, answer]
  let resumed : Pool system := { served with
    globals := (served.settle index (next answer)).2
    tasks := served.tasks.set index ⟨request, (served.settle index (next answer)).1⟩ }
  have resumes : served.step (.resume index) = some resumed := by
    simp [Pool.step, served, resumed, bound]
  refine ⟨resumed, .cons ⟨serves, (continues _ _).1⟩ (.cons ⟨resumes, (continues _ _).2⟩ (.nil _)),
    ?_, ?_, ?_, ?_⟩
  · simp [resumed, served, Pool.settle, settled, answer]
  · simp [resumed, served, Pool.settle, settled, answer]
  · simp [resumed, served, Pool.view, Pool.trace, View.answered, answer]
  · intro other different
    simp [resumed, served, Pool.trace, Ne.symm different]

/-- The task of the given index, if it takes all the steps, ends as its program
does alone. -/
theorem Pool.exists_alone_steps (program : Program system.interface system.Result)
    {pool : Pool system} {index : Nat} {request : system.Request}
    {before : system.interface.Globals} (continues : Pool.LetsContinue condition)
    (found : pool.tasks[index]? = some ⟨request, (program.settle before).1⟩)
    (settled : pool.globals (system.cell index) = (program.settle before).2) :
    ∃ actions final, Transitions (Pool.Step condition) pool actions final ∧
      final.tasks = pool.tasks.set index
        ⟨request, .ended (program.alone { pool.view index with globals := before }).1⟩ ∧
      final.view index = (program.alone { pool.view index with globals := before }).2 ∧
      ∀ other, other ≠ index → final.trace other = pool.trace other := by
  induction program generalizing pool before with
  | done result =>
      refine ⟨[], pool, .nil pool, ?_, ?_, fun _ _ => rfl⟩
      · exact (set_self_of_getElem? found).symm
      · rw [Pool.view, settled]
        rfl
  | fail error =>
      refine ⟨[], pool, .nil pool, ?_, ?_, fun _ _ => rfl⟩
      · exact (set_self_of_getElem? found).symm
      · rw [Pool.view, settled]
        rfl
  | read next induction => exact induction before found settled
  | write globals next induction => exact induction found settled
  | await point call next induction =>
      have bound := (List.getElem?_eq_some_iff.mp found).1
      have settled : pool.globals (system.cell index) = before := settled
      rcases Pool.exists_answered continues found settled with
        ⟨resumed, steps, resumedTasks, resumedSettled, resumedView, resumedOthers⟩
      have resumedFound : resumed.tasks[index]? = some ⟨request,
          ((next (system.serve call pool.world).1).settle before).1⟩ := by
        rw [resumedTasks, List.getElem?_set_self bound]
      rcases induction _ resumedFound resumedSettled with
        ⟨actions, final, run, tasks, view, others⟩
      rw [resumedView] at tasks view
      refine ⟨_, final, steps.append run, ?_, view, ?_⟩
      · rw [tasks, resumedTasks, List.set_set]
        rfl
      · intro other different
        exact (others other different).trans (resumedOthers other different)

/-- The world that a request leaves if it is started now and runs alone. -/
def Pool.worldAfter (pool : Pool system) (request : system.Request) : system.World :=
  ((system.handler request).alone (pool.view pool.tasks.length)).2.world

/-- A request that is started and then takes all the steps ends as it does
alone. -/
theorem Pool.exists_alone_run (continues : Pool.LetsContinue condition) (pool : Pool system)
    (request : system.Request) (starts : condition pool (.start request)) :
    ∃ actions final, Transitions (Pool.Step condition) pool (.start request :: actions) final ∧
      final.tasks = pool.tasks ++ [⟨request, .ended
        ((system.handler request).alone (pool.view pool.tasks.length)).1⟩] ∧
      final.view pool.tasks.length =
        ((system.handler request).alone (pool.view pool.tasks.length)).2 ∧
      ∀ other, other ≠ pool.tasks.length → final.trace other = pool.trace other := by
  let started : Pool system := { pool with
    globals := (pool.settle pool.tasks.length (system.handler request)).2
    tasks := pool.tasks ++
      [⟨request, (pool.settle pool.tasks.length (system.handler request)).1⟩] }
  have found : started.tasks[pool.tasks.length]? = some ⟨request, ((system.handler request).settle
      (pool.globals (system.cell pool.tasks.length))).1⟩ := by
    simp [started, Pool.settle]
  have settled : started.globals (system.cell pool.tasks.length) =
      ((system.handler request).settle (pool.globals (system.cell pool.tasks.length))).2 := by
    simp [started, Pool.settle]
  rcases Pool.exists_alone_steps _ continues found settled with
    ⟨actions, final, run, tasks, view, others⟩
  have startedView : { started.view pool.tasks.length with
      globals := pool.globals (system.cell pool.tasks.length) } = pool.view pool.tasks.length := rfl
  rw [startedView] at tasks view
  refine ⟨actions, final, .cons ⟨rfl, starts⟩ run, ?_, view, others⟩
  rw [tasks]
  simp [started]

/-! ## Running to the end -/

/-- All requests have ended. -/
def Pool.Complete (pool : Pool system) : Prop :=
  ∀ task ∈ pool.tasks, task.process.hasEnded = true

/-- A task that takes all the steps ends. -/
theorem Pool.exists_ended (continues : Pool.LetsContinue condition) {pool : Pool system}
    {index : Nat} {task : Task system} (found : pool.tasks[index]? = some task) :
    ∃ actions final outcome, Transitions (Pool.Step condition) pool actions final ∧
      final.tasks = pool.tasks.set index ⟨task.request, .ended outcome⟩ := by
  have bound := (List.getElem?_eq_some_iff.mp found).1
  rcases task with ⟨request, process⟩
  cases process with
  | waiting point call next =>
      rcases Pool.exists_alone_steps (.await point call next) continues found rfl with
        ⟨actions, final, run, tasks, _⟩
      exact ⟨actions, final, _, run, tasks⟩
  | served point rest =>
      let resumed : Pool system := { pool with
        globals := (pool.settle index rest).2
        tasks := pool.tasks.set index ⟨request, (pool.settle index rest).1⟩ }
      have resumes : pool.step (.resume index) = some resumed := by
        simp [Pool.step, found, resumed]
      have resumedFound : resumed.tasks[index]? =
          some ⟨request, (rest.settle (pool.globals (system.cell index))).1⟩ :=
        List.getElem?_set_self bound
      have settled : resumed.globals (system.cell index) =
          (rest.settle (pool.globals (system.cell index))).2 :=
        Function.update_self _ _ _
      rcases Pool.exists_alone_steps rest continues resumedFound settled with
        ⟨actions, final, run, tasks, _⟩
      exact ⟨_, final, _, .cons ⟨resumes, (continues _ _).2⟩ run,
        tasks.trans (List.set_set _)⟩
  | ended outcome =>
      exact ⟨[], pool, outcome, .nil pool, (set_self_of_getElem? found).symm⟩

/-- Any number of started requests can be run to the end, one after another. -/
theorem Pool.exists_completion (continues : Pool.LetsContinue condition) (pool : Pool system) :
    ∃ actions final, Transitions (Pool.Step condition) pool actions final ∧
      final.requests = pool.requests ∧ final.Complete := by
  have prefixes : ∀ count ≤ pool.tasks.length, ∃ actions final,
      Transitions (Pool.Step condition) pool actions final ∧ final.requests = pool.requests ∧
        ∀ task ∈ final.tasks.take count, task.process.hasEnded = true := by
    intro count
    induction count with
    | zero => exact fun _ => ⟨[], pool, .nil pool, rfl, by simp⟩
    | succ count induction =>
        intro within
        rcases induction (by omega) with ⟨actions, reached, run, requests, ended⟩
        have length : reached.tasks.length = pool.tasks.length := by
          have lengths := congrArg List.length requests
          simpa [Pool.requests] using lengths
        have bound : count < reached.tasks.length := by omega
        have found := List.getElem?_eq_getElem bound
        rcases Pool.exists_ended continues found with ⟨more, final, outcome, rest, tasks⟩
        refine ⟨actions ++ more, final, run.append rest, ?_, ?_⟩
        · rw [← requests, Pool.requests, tasks]
          exact Pool.requests_set found _
        · intro task member
          rw [tasks, List.take_add_one, List.take_set_of_le (Nat.le_refl count),
            List.getElem?_set_self bound, List.mem_append] at member
          rcases member with early | last
          · exact ended task early
          · cases Option.mem_toList.mp last
            rfl
  rcases prefixes pool.tasks.length (Nat.le_refl _) with ⟨actions, final, run, requests, ended⟩
  refine ⟨actions, final, run, requests, fun task member => ended task ?_⟩
  have lengths := congrArg List.length requests
  simp only [Pool.requests, List.length_map] at lengths
  rw [← lengths, List.take_length]
  exact member

end PizzaChain
