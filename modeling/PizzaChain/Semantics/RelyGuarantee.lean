import PizzaChain.Semantics.Pool

/-! # Reasoning about one request among others

A discipline says, for each request and each moment of its process, what the
steps of other requests leave as it was, and what then holds. A handler is
checked on its own under such interference; the rule at the end carries the
result to every run of the pool.
-/

namespace PizzaChain

variable {system : System}

inductive Moment (system : System)
  | waiting (point : system.interface.Point) (call : system.interface.Call)
  | served (point : system.interface.Point)
  | ended (outcome : Except system.interface.Error system.Result)

/-- The point at which a process is. -/
def Moment.point : Moment system → Option system.interface.Point
  | .waiting point _ => some point
  | .served point => some point
  | .ended _ => none

def Process.moment : Process system.interface system.Result → Moment system
  | .waiting point call _ => .waiting point call
  | .served point _ => .served point
  | .ended outcome => .ended outcome

/-! ## Disciplines -/

/-- `assumes` is known of what a request sees when its call takes effect, `rely`
is what the other requests leave alone, `holds` is what is shown of each moment, and `changes` is
what a request does to its variables when it is resumed from a point. -/
structure Discipline (system : System) where
  assumes : system.Request → system.interface.Point → system.interface.Call →
    View system → Prop
  rely : system.Request → Moment system → View system → View system → Prop
  rely_refl : ∀ request moment view, rely request moment view view
  rely_trans : ∀ request moment first second third,
    rely request moment first second → rely request moment second third →
      rely request moment first third
  holds : system.Request → Moment system → View system → Prop
  changes : system.Request → Option system.interface.Point →
    system.interface.Globals → system.interface.Globals → Prop

namespace Discipline

variable (discipline : Discipline system)

/-- A process waits at a point, is answered, and is resumed, with interference
before and after the answer. -/
def Awaits (request : system.Request) (point : system.interface.Point)
    (call : system.interface.Call)
    (continues : Except system.interface.Error (system.interface.Answer call) →
      View system → Prop) (view : View system) : Prop :=
  ∀ later, discipline.rely request (.waiting point call) view later →
    discipline.holds request (.waiting point call) later ∧
    (discipline.assumes request point call later →
      ∀ resumed, discipline.rely request (.served point) (later.answered point call) resumed →
        discipline.holds request (.served point) resumed ∧
        continues (system.serve call later.world).1 resumed)

def Ends (request : system.Request) (outcome : Except system.interface.Error system.Result)
    (view : View system) : Prop :=
  ∀ later, discipline.rely request (.ended outcome) view later →
    discipline.holds request (.ended outcome) later

/-- The rest of a program keeps the discipline. It was last resumed from the
point `origin` with the variables `before`. -/
def Robust (request : system.Request) (origin : Option system.interface.Point)
    (before : system.interface.Globals) :
    Program system.interface system.Result → View system → Prop
  | .done result, view =>
      discipline.changes request origin before view.globals ∧
        discipline.Ends request (.ok result) view
  | .fail error, view =>
      discipline.changes request origin before view.globals ∧
        discipline.Ends request (.error error) view
  | .read next, view => Robust request origin before (next view.globals) view
  | .write globals next, view => Robust request origin before next { view with globals := globals }
  | .await point call next, view =>
      discipline.changes request origin before view.globals ∧
        discipline.Awaits request point call
          (fun answer resumed =>
            Robust request (some point) resumed.globals (next answer) resumed) view

/-- A started process keeps the discipline. -/
def Keeps (request : system.Request) :
    Process system.interface system.Result → View system → Prop
  | .waiting point call next, view =>
      discipline.Awaits request point call
        (fun answer resumed =>
          discipline.Robust request (some point) resumed.globals (next answer) resumed) view
  | .served point rest, view =>
      ∀ later, discipline.rely request (.served point) view later →
        discipline.holds request (.served point) later ∧
        discipline.Robust request (some point) later.globals rest later
  | .ended outcome, view => discipline.Ends request outcome view

variable {discipline}

theorem Keeps.holds {request : system.Request} {process : Process system.interface system.Result}
    {view : View system} (keeps : discipline.Keeps request process view) :
    discipline.holds request process.moment view := by
  cases process with
  | waiting point call next => exact (keeps view (discipline.rely_refl _ _ _)).1
  | served point rest => exact (keeps view (discipline.rely_refl _ _ _)).1
  | ended outcome => exact keeps view (discipline.rely_refl _ _ _)

theorem Keeps.interference {request : system.Request}
    {process : Process system.interface system.Result} {view later : View system}
    (keeps : discipline.Keeps request process view)
    (interferes : discipline.rely request process.moment view later) :
    discipline.Keeps request process later := by
  cases process with
  | waiting point call next =>
      intro latest more
      exact keeps latest (discipline.rely_trans _ _ _ _ _ interferes more)
  | served point rest =>
      intro latest more
      exact keeps latest (discipline.rely_trans _ _ _ _ _ interferes more)
  | ended outcome =>
      intro latest more
      exact keeps latest (discipline.rely_trans _ _ _ _ _ interferes more)

theorem Robust.settle {request : system.Request} {origin : Option system.interface.Point}
    {before : system.interface.Globals} {program : Program system.interface system.Result}
    {view : View system} (robust : discipline.Robust request origin before program view) :
    discipline.changes request origin before (program.settle view.globals).2 ∧
      discipline.Keeps request (program.settle view.globals).1
        { view with globals := (program.settle view.globals).2 } := by
  induction program generalizing view with
  | done result => exact robust
  | fail error => exact robust
  | read next induction => exact induction view.globals robust
  | write globals next induction => exact @induction { view with globals := globals } robust
  | await point call next induction => exact robust

/-! ### Rules for the parts of a program -/

variable {request : system.Request} {origin : Option system.interface.Point}
  {before : system.interface.Globals} {view : View system}

theorem robust_call {point : system.interface.Point} {call : system.interface.Call}
    {continuation : system.interface.Answer call → Program system.interface system.Result}
    (changed : discipline.changes request origin before view.globals)
    (awaits : ∀ later, discipline.rely request (.waiting point call) view later →
      discipline.holds request (.waiting point call) later ∧
      (discipline.assumes request point call later →
        ∀ outcome next, system.serve call later.world = (outcome, next) →
        ∀ resumed, discipline.rely request (.served point)
          ⟨next, later.globals, later.trace ++ [⟨point, call, outcome⟩]⟩ resumed →
          discipline.holds request (.served point) resumed ∧
          (∀ answer, outcome = .ok answer →
            discipline.Robust request (some point) resumed.globals (continuation answer)
              resumed) ∧
          ∀ error, outcome = .error error →
            discipline.changes request (some point) resumed.globals resumed.globals ∧
              discipline.Ends request (.error error) resumed)) :
    discipline.Robust request origin before (Program.call point call >>= continuation) view := by
  refine ⟨changed, fun later interferes => ⟨(awaits later interferes).1, ?_⟩⟩
  intro assumed resumed more
  rcases (awaits later interferes).2 assumed _ _ rfl resumed more with ⟨holds, succeeds, fails⟩
  refine ⟨holds, ?_⟩
  cases outcome : (system.serve call later.world).1 with
  | ok answer => exact succeeds answer outcome
  | error error => exact fails error outcome

theorem robust_modify {change : system.interface.Globals → system.interface.Globals}
    {continuation : Unit → Program system.interface system.Result}
    (robust : discipline.Robust request origin before (continuation ())
      { view with globals := change view.globals }) :
    discipline.Robust request origin before (Program.modify change >>= continuation) view :=
  robust

theorem robust_get
    {continuation : system.interface.Globals → Program system.interface system.Result}
    (robust : discipline.Robust request origin before (continuation view.globals) view) :
    discipline.Robust request origin before (Program.get >>= continuation) view :=
  robust

/-- What is shown of the calls that a program can make, whatever it is answered,
is kept without a look at the interference. -/
theorem robust_of_calls {allowed : system.interface.Call → Prop}
    (waiting : ∀ point call view, allowed call →
      discipline.holds request (.waiting point call) view)
    (served : ∀ point view, discipline.holds request (.served point) view)
    (ended : ∀ outcome view, discipline.holds request (.ended outcome) view)
    (changes : ∀ origin before after, discipline.changes request origin before after)
    {program : Program system.interface system.Result} (calls : program.Calls allowed) :
    discipline.Robust request origin before program view := by
  induction program generalizing origin before view with
  | done result => exact ⟨changes _ _ _, fun _ _ => ended _ _⟩
  | fail error => exact ⟨changes _ _ _, fun _ _ => ended _ _⟩
  | read next induction => exact induction view.globals (calls _)
  | write globals next induction => exact induction calls
  | await point call next induction =>
      refine ⟨changes _ _ _, fun later _ => ⟨waiting _ _ _ calls.1, fun _ resumed _ =>
        ⟨served _ _, ?_⟩⟩⟩
      exact induction _ (calls.2 _)

/-- A request of which nothing is shown keeps the discipline. -/
theorem robust_of_trivial
    (holds : ∀ moment view, discipline.holds request moment view)
    (changes : ∀ origin before after, discipline.changes request origin before after)
    (program : Program system.interface system.Result) :
    discipline.Robust request origin before program view :=
  robust_of_calls (fun _ _ _ _ => holds _ _) (fun _ _ => holds _ _) (fun _ _ => holds _ _) changes
    program.calls_anything

end Discipline

/-! ## Runs of disciplined requests -/

/-- No step that meets the condition touches what other requests rely on. -/
structure Discipline.Respected (discipline : Discipline system)
    (condition : Pool system → Action system → Prop) : Prop where
  assumed : ∀ (pool : Pool system) index request point call next,
    pool.tasks[index]? = some ⟨request, .waiting point call next⟩ →
    condition pool (.serve index) → discipline.assumes request point call (pool.view index)
  serve : ∀ (pool : Pool system) index request point call next,
    pool.tasks[index]? = some ⟨request, .waiting point call next⟩ →
    condition pool (.serve index) →
    discipline.holds request (.waiting point call) (pool.view index) →
    ∀ other task, other ≠ index → pool.tasks[other]? = some task →
      discipline.rely task.request task.process.moment (pool.view other)
        { pool.view other with world := (system.serve call pool.world).2 }
  resume : ∀ (pool : Pool system) index request point rest,
    pool.tasks[index]? = some ⟨request, .served point rest⟩ →
    condition pool (.resume index) →
    ∀ after, discipline.changes request (some point) (pool.globals (system.cell index)) after →
    ∀ other task, other ≠ index → system.cell other = system.cell index →
      pool.tasks[other]? = some task →
      discipline.rely task.request task.process.moment (pool.view other)
        { pool.view other with globals := after }
  start : ∀ (pool : Pool system) request, condition pool (.start request) →
    ∀ after, discipline.changes request none
      (pool.globals (system.cell pool.tasks.length)) after →
    ∀ other task, system.cell other = system.cell pool.tasks.length →
      pool.tasks[other]? = some task →
      discipline.rely task.request task.process.moment (pool.view other)
        { pool.view other with globals := after }
  handlers : ∀ (pool : Pool system) request, condition pool (.start request) →
    pool.trace pool.tasks.length = [] →
    discipline.Robust request none (pool.globals (system.cell pool.tasks.length))
      (system.handler request) (pool.view pool.tasks.length)

/-- Every task of the pool keeps the discipline. -/
structure Discipline.Kept (discipline : Discipline system) (pool : Pool system) : Prop where
  logged : ∀ entry ∈ pool.log, entry.1 < pool.tasks.length
  tasks : ∀ (index : Nat) task, pool.tasks[index]? = some task →
    discipline.Keeps task.request task.process (pool.view index)

namespace Pool

variable (pool : Pool system)

theorem trace_of_fresh (logged : ∀ entry ∈ pool.log, entry.1 < pool.tasks.length) :
    pool.trace pool.tasks.length = [] := by
  rw [trace, List.map_eq_nil_iff, List.filter_eq_nil_iff]
  intro entry member
  have earlier := logged entry member
  simp only [beq_iff_eq]
  omega

end Pool

namespace Discipline

variable {discipline : Discipline system} {condition : Pool system → Action system → Prop}
  {pool : Pool system}

/-- What a change of one cell of variables leaves of another task. -/
theorem Keeps.update {task : Task system} {index other : Nat}
    {after : system.interface.Globals}
    (keeps : discipline.Keeps task.request task.process (pool.view other))
    (respects : system.cell other = system.cell index →
      discipline.rely task.request task.process.moment (pool.view other)
        { pool.view other with globals := after }) :
    discipline.Keeps task.request task.process { pool.view other with
      globals := Function.update pool.globals (system.cell index) after (system.cell other) } := by
  by_cases same : system.cell other = system.cell index
  · rw [same, Function.update_self]
    exact keeps.interference (respects same)
  · rw [Function.update_of_ne same]
    exact keeps

theorem Kept.start (kept : discipline.Kept pool) (respected : discipline.Respected condition)
    {request : system.Request} (meets : condition pool (.start request)) :
    discipline.Kept { pool with
      globals := (pool.settle pool.tasks.length (system.handler request)).2
      tasks := pool.tasks ++
        [⟨request, (pool.settle pool.tasks.length (system.handler request)).1⟩] } := by
  have fresh := pool.trace_of_fresh kept.logged
  have settled := (respected.handlers pool request meets fresh).settle
  constructor
  · intro entry member
    have earlier := kept.logged entry member
    simp only [List.length_append, List.length_singleton]
    omega
  · intro index task found
    rcases Nat.lt_or_ge index pool.tasks.length with old | new
    · rw [List.getElem?_append_left old] at found
      apply (kept.tasks index task found).update
      intro same
      exact respected.start pool request meets _ settled.1 index task same found
    · rw [List.getElem?_append_right new, List.getElem?_singleton] at found
      split at found
      · have last : index = pool.tasks.length := by omega
        subst last
        cases found
        have keeps := settled.2
        simp only [Pool.view, Pool.settle, Function.update_self] at keeps ⊢
        exact keeps
      · cases found

theorem Kept.resume (kept : discipline.Kept pool) (respected : discipline.Respected condition)
    {index : Nat} {request : system.Request} {point : system.interface.Point}
    {rest : Program system.interface system.Result}
    (found : pool.tasks[index]? = some ⟨request, .served point rest⟩)
    (meets : condition pool (.resume index)) :
    discipline.Kept { pool with
      globals := (pool.settle index rest).2
      tasks := pool.tasks.set index ⟨request, (pool.settle index rest).1⟩ } := by
  have served := kept.tasks index _ found
  have settled := (served (pool.view index) (discipline.rely_refl _ _ _)).2.settle
  constructor
  · intro entry member
    rw [List.length_set]
    exact kept.logged entry member
  · intro other task otherFound
    by_cases same : other = index
    · subst same
      have bound := List.getElem?_eq_some_iff.mp found |>.1
      simp only [List.getElem?_set_self bound, Option.some.injEq] at otherFound
      subst otherFound
      have keeps := settled.2
      simp only [Pool.view, Pool.settle, Function.update_self] at keeps ⊢
      exact keeps
    · rw [List.getElem?_set_ne (Ne.symm same)] at otherFound
      apply (kept.tasks other task otherFound).update
      intro sameCell
      exact respected.resume pool index request point rest found meets _ settled.1 other task
        same sameCell otherFound

theorem Kept.serve (kept : discipline.Kept pool) (respected : discipline.Respected condition)
    {index : Nat} {request : system.Request} {point : system.interface.Point}
    {call : system.interface.Call}
    {next : Except system.interface.Error (system.interface.Answer call) →
      Program system.interface system.Result}
    (found : pool.tasks[index]? = some ⟨request, .waiting point call next⟩)
    (meets : condition pool (.serve index)) :
    discipline.Kept { pool with
      world := (system.serve call pool.world).2
      tasks := pool.tasks.set index
        ⟨request, .served point (next (system.serve call pool.world).1)⟩
      log := pool.log ++ [(index, ⟨point, call, (system.serve call pool.world).1⟩)] } := by
  have waiting := kept.tasks index _ found
  have bound := List.getElem?_eq_some_iff.mp found |>.1
  constructor
  · intro entry member
    rw [List.length_set]
    rcases List.mem_append.mp member with old | new
    · exact kept.logged entry old
    · rw [List.mem_singleton.mp new]
      exact bound
  · intro other task otherFound
    by_cases same : other = index
    · subst same
      simp only [List.getElem?_set_self bound, Option.some.injEq] at otherFound
      subst otherFound
      have answered := (waiting (pool.view other) (discipline.rely_refl _ _ _)).2
        (respected.assumed pool _ _ _ _ _ found meets)
      simp only [Pool.view, View.answered] at answered
      intro later interferes
      apply answered later
      simpa [Pool.view, Pool.trace] using interferes
    · rw [List.getElem?_set_ne (Ne.symm same)] at otherFound
      have keeps := (kept.tasks other task otherFound).interference
        (respected.serve pool index request point call next found meets waiting.holds other task
          same otherFound)
      simpa [Pool.view, Pool.trace, Ne.symm same] using keeps

theorem kept_initial (discipline : Discipline system) (world : system.World)
    (globals : Nat → system.interface.Globals) : discipline.Kept (Pool.initial world globals) where
  logged := fun _ member => nomatch member
  tasks := by
    intro index task found
    simp [Pool.initial] at found

theorem Kept.step (kept : discipline.Kept pool) (respected : discipline.Respected condition)
    {action : Action system} {next : Pool system}
    (step : Pool.Step condition pool action next) : discipline.Kept next := by
  cases Pool.step_cases step.1 with
  | start request => exact kept.start respected step.2
  | serve found => exact kept.serve respected found step.2
  | resume found => exact kept.resume respected found step.2

/-- In every run whose steps all meet the condition, every task keeps the
discipline. -/
theorem Respected.sound (respected : discipline.Respected condition)
    {final : Pool system} {actions : List (Action system)}
    (run : Transitions (Pool.Step condition) pool actions final)
    (initially : discipline.Kept pool) : discipline.Kept final :=
  run.invariant discipline.Kept (fun _ _ _ kept step => kept.step respected step) initially

/-- The discipline may be respected only where an invariant of the pool holds that
follows from the discipline in turn. -/
theorem Respected.sound_along {invariant : Pool system → Prop}
    (respected : discipline.Respected fun pool action => condition pool action ∧ invariant pool)
    (keeps : ∀ pool action next, discipline.Kept pool → invariant pool →
      Pool.Step condition pool action next → invariant next)
    {final : Pool system} {actions : List (Action system)}
    (run : Transitions (Pool.Step condition) pool actions final)
    (initially : discipline.Kept pool) (holds : invariant pool) :
    discipline.Kept final ∧ invariant final := by
  apply run.invariant (fun pool => discipline.Kept pool ∧ invariant pool) _ ⟨initially, holds⟩
  intro current action next before step
  exact ⟨before.1.step respected ⟨step.1, step.2, before.2⟩,
    keeps current action next before.1 before.2 step⟩

end Discipline

end PizzaChain
