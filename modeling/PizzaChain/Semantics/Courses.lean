import PizzaChain.Semantics.Alone

/-! # One request, moment by moment

Between two steps of a request others may take any number of steps. What a program
secures is what holds at its end in spite of them, when each of its calls takes effect in
some state that was reached by then. A request that has ended in a run ended with what
its handler secures.
-/

namespace PizzaChain

variable {system : System}

/-- A later state of the same run. -/
def Pool.Reaches (condition : Pool system → Action system → Prop) (first later : Pool system) :
    Prop :=
  ∃ actions, Transitions (Pool.Step condition) first actions later

section Reaches

variable {condition : Pool system → Action system → Prop} {first second third : Pool system}

theorem Pool.Reaches.refl (pool : Pool system) : pool.Reaches condition pool :=
  ⟨[], .nil _⟩

theorem Pool.Reaches.trans (early : first.Reaches condition second)
    (late : second.Reaches condition third) : first.Reaches condition third := by
  rcases early with ⟨actions, run⟩
  rcases late with ⟨more, rest⟩
  exact ⟨actions ++ more, run.append rest⟩

theorem Pool.Reaches.single {action : Action system}
    (step : Pool.Step condition first action second) : first.Reaches condition second :=
  ⟨[action], .cons step (.nil _)⟩

end Reaches

/-! ## What a program secures -/

namespace Program

variable (condition : Pool system → Action system → Prop) (index : Nat)

/-- The program goes on at a moment with the given variables. Its next call takes effect
between the moments `before` and `after`, and it is resumed at a later one. -/
def Secures : Program system.interface α → system.interface.Globals → Pool system →
    (Except system.interface.Error α → system.interface.Globals → Pool system → Prop) → Prop
  | .done result, globals, moment, post => post (.ok result) globals moment
  | .fail error, globals, moment, post => post (.error error) globals moment
  | .read next, globals, moment, post => Secures (next globals) globals moment post
  | .write globals next, _, moment, post => Secures next globals moment post
  | .await _ call next, _, moment, post =>
      ∀ before after resumed : Pool system, moment.Reaches condition before →
        before.Reaches condition after → after.world = (system.serve call before.world).2 →
        after.Reaches condition resumed →
        Secures (next (system.serve call before.world).1)
          (resumed.globals (system.cell index)) resumed post

variable {condition index}
  {post : Except system.interface.Error β → system.interface.Globals → Pool system → Prop}
  {globals : system.interface.Globals} {moment : Pool system}

theorem Secures.bind {program : Program system.interface α}
    {continuation : α → Program system.interface β}
    (secures : program.Secures condition index globals moment fun outcome later ended =>
      match outcome with
      | .ok value => (continuation value).Secures condition index later ended post
      | .error error => post (.error error) later ended) :
    (program >>= continuation).Secures condition index globals moment post := by
  induction program generalizing globals moment with
  | done result => exact secures
  | fail error => exact secures
  | read next induction => exact induction globals secures
  | write globals next induction => exact induction secures
  | await point call next induction =>
      intro before after resumed reaches serves changed rest
      exact induction _ (secures before after resumed reaches serves changed rest)

theorem Secures.mono {weaker : Except system.interface.Error β → system.interface.Globals →
      Pool system → Prop}
    {program : Program system.interface β}
    (secures : program.Secures condition index globals moment post)
    (implies : ∀ outcome later ended, moment.Reaches condition ended →
      post outcome later ended → weaker outcome later ended) :
    program.Secures condition index globals moment weaker := by
  induction program generalizing globals moment with
  | done result => exact implies _ _ _ (.refl _) secures
  | fail error => exact implies _ _ _ (.refl _) secures
  | read next induction => exact induction globals secures implies
  | write globals next induction => exact induction secures implies
  | await point call next induction =>
      intro before after resumed reaches serves changed rest
      apply induction _ (secures before after resumed reaches serves changed rest)
      intro outcome later ended more
      exact implies outcome later ended
        (reaches.trans (serves.trans (rest.trans more)))

/-- A call and what follows it, with the two ways in which it can be answered. -/
theorem secures_call {point : system.interface.Point} {call : system.interface.Call}
    {continuation : system.interface.Answer call → Program system.interface β}
    (answered : ∀ before after resumed : Pool system, moment.Reaches condition before →
      before.Reaches condition after → after.Reaches condition resumed →
      ∀ outcome, system.serve call before.world = (outcome, after.world) →
        (∀ answer, outcome = .ok answer →
          (continuation answer).Secures condition index (resumed.globals (system.cell index))
            resumed post) ∧
        ∀ error, outcome = .error error →
          post (.error error) (resumed.globals (system.cell index)) resumed) :
    (Program.call point call >>= continuation).Secures condition index globals moment post := by
  intro before after resumed reaches serves changed rest
  rcases answered before after resumed reaches serves rest (system.serve call before.world).1
    (by rw [changed]) with ⟨succeeds, fails⟩
  cases outcome : (system.serve call before.world).1 with
  | ok answer => exact succeeds answer outcome
  | error error => exact fails error outcome

theorem secures_modify {change : system.interface.Globals → system.interface.Globals}
    {continuation : Unit → Program system.interface β}
    (secures : (continuation ()).Secures condition index (change globals) moment post) :
    (Program.modify change >>= continuation).Secures condition index globals moment post :=
  secures

theorem secures_get {continuation : system.interface.Globals → Program system.interface β}
    (secures : (continuation globals).Secures condition index globals moment post) :
    (Program.get >>= continuation).Secures condition index globals moment post :=
  secures

end Program

/-! ## Requests of a run -/

/-- The request of the index is not answered yet. -/
def Pool.Unanswered (pool : Pool system) (index : Nat) : Prop :=
  ∀ task, pool.tasks[index]? = some task → task.process.hasEnded = false

/-- A request of a run is made in the step from `start` to `begun`, and answered after the
moment `ended`. -/
structure Lifetime (condition : Pool system → Action system → Prop) (origin final : Pool system)
    (index : Nat) (request : system.Request) (start begun ended : Pool system) : Prop where
  origin : origin.Reaches condition start
  position : start.tasks.length = index
  starts : Pool.Step condition start (.start request) begun
  runs : begun.Reaches condition ended
  unanswered : ended.Unanswered index
  ends : ended.Reaches condition final

section Course

variable (condition : Pool system → Action system → Prop) (index : Nat)

/-- What is secured for the rest of a process that began at a moment. A process that has
ended did so at an earlier moment, which is not its first unless it makes no call. -/
def Process.Secures (initial : system.interface.Globals) (begun : Pool system)
    (handler : Program system.interface system.Result) :
    Process system.interface system.Result → Pool system → Prop
  | .waiting point call next, moment => ∀ post,
      handler.Secures condition index initial begun post →
        (Program.await point call next).Secures condition index
          (moment.globals (system.cell index)) moment post
  | .served _ rest, moment => ∀ post,
      handler.Secures condition index initial begun post →
        ∀ resumed : Pool system, moment.Reaches condition resumed →
          rest.Secures condition index (resumed.globals (system.cell index)) resumed post
  | .ended outcome, moment => ∃ ended globals, begun.Reaches condition ended ∧
      (begun.Unanswered index → ended.Unanswered index) ∧ ended.Reaches condition moment ∧
      ∀ post, handler.Secures condition index initial begun post → post outcome globals ended

variable {condition index} {initial : system.interface.Globals}
  {begun moment later : Pool system} {handler : Program system.interface system.Result}

theorem Process.Secures.mono {process : Process system.interface system.Result}
    (secures : process.Secures condition index initial begun handler moment)
    (reaches : moment.Reaches condition later) :
    process.Secures condition index initial begun handler later := by
  cases process with
  | waiting point call next =>
      intro post secured before after resumed more
      exact secures post secured before after resumed (reaches.trans more)
  | served point rest =>
      intro post secured resumed more
      exact secures post secured resumed (reaches.trans more)
  | ended outcome =>
      rcases secures with ⟨ended, globals, runs, unanswered, ends, posts⟩
      exact ⟨ended, globals, runs, unanswered, ends.trans reaches, posts⟩

/-- A program that is let run up to its next call. -/
theorem Process.secures_settle {program : Program system.interface system.Result}
    {globals : system.interface.Globals}
    (secures : ∀ post, handler.Secures condition index initial begun post →
      program.Secures condition index globals moment post)
    (runs : begun.Reaches condition moment)
    (unanswered : begun.Unanswered index → moment.Unanswered index)
    (reaches : moment.Reaches condition later) :
    (program.settle globals).1.Secures condition index initial begun handler later := by
  induction program generalizing globals with
  | done result => exact ⟨moment, globals, runs, unanswered, reaches, secures⟩
  | fail error => exact ⟨moment, globals, runs, unanswered, reaches, secures⟩
  | read next induction => exact induction globals secures
  | write written next induction => exact induction secures
  | await point call next induction =>
      intro post secured before after resumed more
      exact secures post secured before after resumed (reaches.trans more)

/-- A request of a run is on its course. -/
structure Pool.OnCourse (condition : Pool system → Action system → Prop) (origin pool : Pool system)
    (index : Nat) (task : Task system) (start begun : Pool system) : Prop where
  origin : origin.Reaches condition start
  position : start.tasks.length = index
  starts : Pool.Step condition start (.start task.request) begun
  runs : begun.Reaches condition pool
  secures : task.process.Secures condition index (start.globals (system.cell index)) begun
    (system.handler task.request) pool

theorem Pool.OnCourse.mono {origin pool start : Pool system} {task : Task system}
    (course : Pool.OnCourse condition origin pool index task start begun)
    (reaches : pool.Reaches condition later) :
    Pool.OnCourse condition origin later index task start begun :=
  ⟨course.origin, course.position, course.starts, course.runs.trans reaches,
    course.secures.mono reaches⟩

theorem Pool.onCourse_step {origin pool next : Pool system} {action : Action system}
    (reached : origin.Reaches condition pool)
    (courses : ∀ (index : Nat) task, pool.tasks[index]? = some task →
      ∃ start begun, Pool.OnCourse condition origin pool index task start begun)
    (step : Pool.Step condition pool action next) (index : Nat) (task : Task system)
    (found : next.tasks[index]? = some task) :
    ∃ start begun, Pool.OnCourse condition origin next index task start begun := by
  have stepped := Pool.Reaches.single step
  have others (old : pool.tasks[index]? = some task) :
      ∃ start begun, Pool.OnCourse condition origin next index task start begun := by
    rcases courses index task old with ⟨start, begun, course⟩
    exact ⟨start, begun, course.mono stepped⟩
  cases Pool.step_cases step.1 with
  | start request =>
      rcases Nat.lt_or_ge index pool.tasks.length with old | new
      · rw [List.getElem?_append_left old] at found
        exact others found
      · rw [List.getElem?_append_right new, List.getElem?_singleton] at found
        split at found
        · have last : pool.tasks.length = index := by omega
          cases found
          refine ⟨pool, _, reached, last, step, .refl _, ?_⟩
          subst last
          exact Process.secures_settle (fun _ secured => secured) (.refl _) id (.refl _)
        · cases found
  | @serve served request point call rest waiting =>
      by_cases same : index = served
      · subst same
        have bound := List.getElem?_eq_some_iff.mp waiting |>.1
        rw [List.getElem?_set_self bound] at found
        cases found
        rcases courses index _ waiting with ⟨start, begun, course⟩
        refine ⟨start, begun, course.origin, course.position, course.starts,
          course.runs.trans stepped, ?_⟩
        intro post secured resumed more
        exact course.secures post secured pool _ resumed (.refl _) stepped rfl more
      · rw [List.getElem?_set_ne (Ne.symm same)] at found
        exact others found
  | @resume resumed request point rest served =>
      by_cases same : index = resumed
      · subst same
        have bound := List.getElem?_eq_some_iff.mp served |>.1
        rw [List.getElem?_set_self bound] at found
        cases found
        rcases courses index _ served with ⟨start, begun, course⟩
        refine ⟨start, begun, course.origin, course.position, course.starts,
          course.runs.trans stepped, ?_⟩
        apply Process.secures_settle _ course.runs _ stepped
        · intro post secured
          exact course.secures post secured pool (.refl _)
        · intro _ task unanswered
          cases served.symm.trans unanswered
          rfl
      · rw [List.getElem?_set_ne (Ne.symm same)] at found
        exact others found

/-- Whatever the handler of a request that has ended secures from its beginning holds at its
end. -/
theorem Pool.exists_course {origin final : Pool system} (fresh : origin.tasks = [])
    (run : origin.Reaches condition final) {request : system.Request}
    (awaits : ∀ globals, ((system.handler request).settle globals).1.hasEnded = false)
    {outcome : Except system.interface.Error system.Result}
    (found : final.tasks[index]? = some ⟨request, .ended outcome⟩) :
    ∃ start begun ended globals, Lifetime condition origin final index request start begun ended ∧
      ∀ post, (system.handler request).Secures condition index
        (start.globals (system.cell index)) begun post → post outcome globals ended := by
  rcases run with ⟨actions, transitions⟩
  have courses : origin.Reaches condition final ∧ ∀ (index : Nat) task,
      final.tasks[index]? = some task →
        ∃ start begun, Pool.OnCourse condition origin final index task start begun := by
    apply transitions.invariant (fun pool => origin.Reaches condition pool ∧
      ∀ (index : Nat) task, pool.tasks[index]? = some task →
        ∃ start begun, Pool.OnCourse condition origin pool index task start begun)
    · rintro current action next ⟨reached, before⟩ step
      exact ⟨reached.trans (.single step), Pool.onCourse_step reached before step⟩
    · refine ⟨.refl _, fun index task none => ?_⟩
      simp [fresh] at none
  rcases courses.2 index _ found with ⟨start, begun, course⟩
  rcases course.secures with ⟨ended, globals, runs, unanswered, ends, posts⟩
  have waits : begun.Unanswered index := by
    have starts := course.starts.1
    rw [← course.position]
    cases starts
    intro task here
    rw [List.getElem?_concat_length] at here
    cases here
    exact awaits _
  exact ⟨start, begun, ended, globals,
    ⟨course.origin, course.position, course.starts, runs, unanswered waits, ends⟩, posts⟩

end Course

/-! ## Atomic programs -/

namespace Program

variable (condition : Pool system → Action system → Prop) (index : Nat)

/-- Among others, the program ends as it would alone at one moment on its way. -/
def Atomic (program : Program system.interface α) : Prop :=
  ∀ globals moment, program.Secures condition index globals moment fun outcome _ ended =>
    ∃ middle, moment.Reaches condition middle ∧ middle.Reaches condition ended ∧
      ∀ view, view.world = middle.world → (program.alone view).1 = outcome

variable {condition index}

/-- One call, whose answer is only put into another form. -/
theorem atomic_call {point : system.interface.Point} {call : system.interface.Call}
    {continuation : system.interface.Answer call → Program system.interface α}
    (forms : ∀ answer, ∃ result, continuation answer = .done result) :
    (Program.call point call >>= continuation).Atomic condition index := by
  intro globals moment
  apply secures_call
  intro before after resumed reaches serves rest outcome served
  have answers : ∀ view : View system, view.world = before.world →
      (system.serve call view.world).1 = outcome := by
    intro view same
    rw [same, served]
  constructor
  · intro answer ok
    rcases forms answer with ⟨result, formed⟩
    rw [formed]
    refine ⟨before, reaches, serves.trans rest, fun view same => ?_⟩
    rw [call_bind, alone, answers view same, ok]
    simp only [formed, alone]
  · intro error failed
    refine ⟨before, reaches, serves.trans rest, fun view same => ?_⟩
    rw [call_bind, alone, answers view same, failed]
    simp only [alone]

/-- A call that is answered alike in every world comes before. -/
theorem Atomic.after_fixed {point : system.interface.Point} {call : system.interface.Call}
    {answer : system.interface.Answer call}
    {continuation : system.interface.Answer call → Program system.interface α}
    (atomic : (continuation answer).Atomic condition index)
    (fixed : ∀ world, system.serve call world = (.ok answer, world)) :
    (Program.call point call >>= continuation).Atomic condition index := by
  intro globals moment
  apply secures_call
  intro before after resumed reaches serves rest outcome served
  rw [fixed] at served
  have answered : outcome = .ok answer := (congrArg Prod.fst served).symm
  subst answered
  refine ⟨fun given same => ?_, fun error failed => nomatch failed⟩
  cases same
  apply (atomic _ resumed).mono
  rintro outcome later ended _ ⟨middle, begun, ends, runsAlone⟩
  refine ⟨middle, reaches.trans (serves.trans (rest.trans begun)), ends, fun view same => ?_⟩
  rw [call_bind, alone, fixed]
  apply runsAlone
  rw [View.answered, fixed]
  exact same

/-- A variable that is read right after it was assigned. -/
theorem Atomic.after_assignment {change : system.interface.Globals → system.interface.Globals}
    {continuation : system.interface.Globals → Program system.interface α}
    {rest : Program system.interface α} (atomic : rest.Atomic condition index)
    (assigned : ∀ globals, continuation (change globals) = rest) :
    (Program.modify change >>= fun _ => Program.get >>= continuation).Atomic condition index := by
  intro globals moment
  apply secures_modify
  apply secures_get
  rw [assigned]
  apply (atomic _ moment).mono
  rintro outcome later ended _ ⟨middle, begun, ends, runsAlone⟩
  refine ⟨middle, begun, ends, fun view same => ?_⟩
  show ((continuation (change view.globals)).alone { view with
    globals := change view.globals }).1 = outcome
  rw [assigned]
  exact runsAlone _ same

theorem alone_map (program : Program system.interface α) (form : α → β) (view : View system) :
    ((program >>= fun result => pure (form result)).alone view).1 =
      (program.alone view).1.map form := by
  induction program generalizing view with
  | done result => rfl
  | fail error => rfl
  | read next induction => exact induction view.globals view
  | write globals next induction => exact induction _
  | await point call next induction => exact induction _ _

theorem Atomic.map {program : Program system.interface α}
    (atomic : program.Atomic condition index) (form : α → β) :
    (program >>= fun result => pure (form result)).Atomic condition index := by
  intro globals moment
  apply Secures.bind
  apply (atomic globals moment).mono
  rintro outcome later ended _ ⟨middle, begun, ends, runsAlone⟩
  cases outcome with
  | ok result =>
      refine ⟨middle, begun, ends, fun view same => ?_⟩
      rw [alone_map, runsAlone view same]
      rfl
  | error error =>
      refine ⟨middle, begun, ends, fun view same => ?_⟩
      rw [alone_map, runsAlone view same]
      rfl

end Program

end PizzaChain
