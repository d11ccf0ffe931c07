import Mathlib.Data.List.Nodup
import Mathlib.Data.List.Pairwise
import PizzaChain.Semantics.Pool

/-! # Tickets

Requests draw numbers from a counter among the variables that they share, and stamp
calls with them. If every stamp is of a number that was drawn since the program was
last resumed, no two calls have the same stamp, in any interleaving.
-/

namespace PizzaChain

/-- A counter, the stamps of its numbers, and the stamp of a call. -/
structure Ticketing (interface : Interface) (Stamp : Type) where
  counter : interface.Globals → Nat
  stamp : Nat → Stamp
  distinct : Function.Injective stamp
  ofCall : interface.Call → Option Stamp

namespace Ticketing

/-! ## Programs -/

section Programs

variable {interface : Interface} {Stamp : Type} (tickets : Ticketing interface Stamp)

/-- The stamp is of a number that the counter passed between two moments. -/
def DrawnBetween (first last : Nat) (stamp : Stamp) : Prop :=
  ∃ number, first ≤ number ∧ number < last ∧ stamp = tickets.stamp number

/-- Every call has a stamp that was drawn since the program was last resumed, when the
counter stood at `first`, or none. -/
def Draws (first : Nat) : Program interface α → interface.Globals → Prop
  | .done _, globals => first ≤ tickets.counter globals
  | .fail _, globals => first ≤ tickets.counter globals
  | .read next, globals => Draws first (next globals) globals
  | .write globals next, _ => Draws first next globals
  | .await _ call next, globals =>
      (first ≤ tickets.counter globals ∧ ∀ stamp, tickets.ofCall call = some stamp →
        tickets.DrawnBetween first (tickets.counter globals) stamp) ∧
      ∀ answer resumed, Draws (tickets.counter resumed) (next answer) resumed

/-- The program draws its stamps itself, from wherever it is started. -/
def Stamps (program : Program interface α) : Prop :=
  ∀ first globals, first ≤ tickets.counter globals → tickets.Draws first program globals

variable {tickets}

theorem Draws.bind {program : Program interface α} {continuation : α → Program interface β}
    {first : Nat} {globals : interface.Globals} (draws : tickets.Draws first program globals)
    (continues : ∀ result, tickets.Stamps (continuation result)) :
    tickets.Draws first (program >>= continuation) globals := by
  induction program generalizing first globals with
  | done result => exact continues result first globals draws
  | fail error => exact draws
  | read next induction => exact induction globals draws
  | write changed next induction => exact induction draws
  | await point call next induction =>
      exact ⟨draws.1, fun answer resumed => induction answer (draws.2 answer resumed)⟩

theorem Stamps.bind {program : Program interface α} {continuation : α → Program interface β}
    (stamps : tickets.Stamps program) (continues : ∀ result, tickets.Stamps (continuation result)) :
    tickets.Stamps (program >>= continuation) :=
  fun first globals started => (stamps first globals started).bind continues

theorem stamps_pure (result : α) : tickets.Stamps (pure result : Program interface α) :=
  fun _ _ started => started

theorem stamps_fail (error : interface.Error) :
    tickets.Stamps (.fail error : Program interface α) :=
  fun _ _ started => started

/-- A call that is stamped with a drawn number, or not stamped. -/
theorem draws_call {point : interface.Point} {call : interface.Call} {first : Nat}
    {globals : interface.Globals} (started : first ≤ tickets.counter globals)
    (drawn : ∀ stamp, tickets.ofCall call = some stamp →
      tickets.DrawnBetween first (tickets.counter globals) stamp) :
    tickets.Draws first (Program.call point call) globals := by
  refine ⟨⟨started, drawn⟩, fun answer resumed => ?_⟩
  cases answer <;> exact Nat.le_refl _

theorem stamps_call {point : interface.Point} {call : interface.Call}
    (unstamped : tickets.ofCall call = none) : tickets.Stamps (Program.call point call) := by
  intro first globals started
  apply draws_call started
  intro stamp stamped
  cases unstamped.symm.trans stamped

theorem stamps_modify {change : interface.Globals → interface.Globals}
    (keeps : ∀ globals, tickets.counter globals ≤ tickets.counter (change globals)) :
    tickets.Stamps (Program.modify change) :=
  fun _ globals started => Nat.le_trans started (keeps globals)

theorem stamps_get : tickets.Stamps (Program.get : Program interface interface.Globals) :=
  fun _ _ started => started

end Programs

/-! ## Processes -/

section Processes

variable {interface : Interface} {Stamp : Type} (tickets : Ticketing interface Stamp)

/-- The stamp of the call for which a process waits. -/
def pending (process : Process interface α) : Option Stamp :=
  process.issued.bind fun made => tickets.ofCall made.2

/-- What a process does when it is resumed. -/
def Rest : Process interface α → Prop
  | .waiting _ _ next => ∀ answer, tickets.Stamps (next answer)
  | .served _ rest => tickets.Stamps rest
  | .ended _ => True

variable {tickets}

theorem Draws.mono {program : Program interface α} {first earlier : Nat}
    {globals : interface.Globals} (draws : tickets.Draws first program globals)
    (earlier_le : earlier ≤ first) : tickets.Draws earlier program globals := by
  induction program generalizing globals with
  | done result => exact Nat.le_trans earlier_le draws
  | fail error => exact Nat.le_trans earlier_le draws
  | read next induction => exact induction globals draws
  | write changed next induction => exact induction draws
  | await point call next induction =>
      refine ⟨⟨Nat.le_trans earlier_le draws.1.1, fun stamp stamped => ?_⟩, draws.2⟩
      rcases draws.1.2 stamp stamped with ⟨number, late, early, same⟩
      exact ⟨number, Nat.le_trans earlier_le late, early, same⟩

theorem Draws.settle {program : Program interface α} {first : Nat} {globals : interface.Globals}
    (draws : tickets.Draws first program globals) :
    first ≤ tickets.counter (program.settle globals).2 ∧
      (∀ stamp, tickets.pending (program.settle globals).1 = some stamp →
        tickets.DrawnBetween first (tickets.counter (program.settle globals).2) stamp) ∧
      tickets.Rest (program.settle globals).1 := by
  induction program generalizing globals with
  | done result => exact ⟨draws, nofun, trivial⟩
  | fail error => exact ⟨draws, nofun, trivial⟩
  | read next induction => exact induction globals draws
  | write changed next induction => exact induction draws
  | await point call next induction =>
      exact ⟨draws.1.1, draws.1.2, fun answer first resumed started =>
        (draws.2 answer resumed).mono started⟩

end Processes

/-! ## Runs -/

section Runs

variable {system : System} {Stamp : Type} (tickets : Ticketing system.interface Stamp)

/-- The stamps of the calls that have taken effect. -/
def stamped (log : List (Nat × Event system.interface)) : List Stamp :=
  log.filterMap fun entry => tickets.ofCall entry.2.call

/-- No stamp is on two calls, waited for or in the log. -/
structure Unique (pool : Pool system) : Prop where
  logged : (tickets.stamped pool.log).Nodup
  drawn : ∀ stamp ∈ tickets.stamped pool.log,
    tickets.DrawnBetween 0 (tickets.counter (pool.globals (system.cell 0))) stamp
  waiting : ∀ (index : Nat) task stamp, pool.tasks[index]? = some task →
    tickets.pending task.process = some stamp → stamp ∉ tickets.stamped pool.log ∧
      tickets.DrawnBetween 0 (tickets.counter (pool.globals (system.cell 0))) stamp
  single : ∀ (index other : Nat) task otherTask stamp, pool.tasks[index]? = some task →
    pool.tasks[other]? = some otherTask → tickets.pending task.process = some stamp →
    tickets.pending otherTask.process = some stamp → index = other
  rests : ∀ task ∈ pool.tasks, tickets.Rest task.process

variable {tickets}

theorem DrawnBetween.mono {first last later : Nat} {stamp : Stamp}
    (drawn : tickets.DrawnBetween first last stamp) (le : last ≤ later) :
    tickets.DrawnBetween first later stamp := by
  rcases drawn with ⟨number, late, early, same⟩
  exact ⟨number, late, Nat.lt_of_lt_of_le early le, same⟩

/-- A number is drawn once. -/
theorem DrawnBetween.ne {first middle last : Nat} {early late : Stamp}
    (before : tickets.DrawnBetween first middle early)
    (after : tickets.DrawnBetween middle last late) : early ≠ late := by
  rcases before with ⟨number, _, small, rfl⟩
  rcases after with ⟨other, large, _, rfl⟩
  intro same
  have equal := tickets.distinct same
  omega

theorem unique_initial (world : system.World) (globals : Nat → system.interface.Globals) :
    tickets.Unique (Pool.initial world globals) where
  logged := List.nodup_nil
  drawn := nofun
  waiting := fun index task stamp found => by simp [Pool.initial] at found
  single := fun index other task otherTask stamp found => by simp [Pool.initial] at found
  rests := nofun

/-- A task that runs to its next await takes new stamps only. -/
theorem Unique.settle {pool : Pool system} (unique : tickets.Unique pool)
    (shared : ∀ index, system.cell index = system.cell 0) {index : Nat}
    {program : Program system.interface system.Result} (stamps : tickets.Stamps program)
    {tasks : List (Task system)}
    (others : ∀ other task, other ≠ index → tasks[other]? = some task →
      pool.tasks[other]? = some task)
    (own : ∀ task, tasks[index]? = some task → task.process = (pool.settle index program).1) :
    tickets.Unique { pool with globals := (pool.settle index program).2, tasks := tasks } := by
  have draws := stamps _ (pool.globals (system.cell index)) (Nat.le_refl _)
  rcases draws.settle with ⟨grows, fresh, rest⟩
  rw [shared index] at grows fresh
  -- The counter after the step.
  have globals : (pool.settle index program).2 (system.cell 0) =
      (program.settle (pool.globals (system.cell 0))).2 := by
    simp only [Pool.settle, shared index, Function.update_self]
  have settled : (pool.settle index program).1 =
      (program.settle (pool.globals (system.cell 0))).1 := by
    simp only [Pool.settle, shared index]
  rw [shared index] at rest
  have newly : ∀ task stamp, tasks[index]? = some task →
      tickets.pending task.process = some stamp →
      tickets.DrawnBetween (tickets.counter (pool.globals (system.cell 0)))
        (tickets.counter ((program.settle (pool.globals (system.cell 0))).2)) stamp := by
    intro task stamp found pends
    rw [own task found, settled] at pends
    exact fresh stamp pends
  constructor
  · exact unique.logged
  · intro stamp member
    simp only [globals]
    exact (unique.drawn stamp member).mono grows
  · intro other task stamp found pends
    simp only [globals]
    by_cases same : other = index
    · subst same
      have drawn := newly task stamp found pends
      refine ⟨fun member => (unique.drawn stamp member).ne drawn rfl, ?_⟩
      rcases drawn with ⟨number, _, early, equal⟩
      exact ⟨number, Nat.zero_le _, early, equal⟩
    · rcases unique.waiting other task stamp (others other task same found) pends with
        ⟨absent, drawn⟩
      exact ⟨absent, drawn.mono grows⟩
  · intro first second firstTask secondTask stamp firstFound secondFound firstPends secondPends
    by_cases firstOwn : first = index
    · by_cases secondOwn : second = index
      · rw [firstOwn, secondOwn]
      · subst firstOwn
        have drawn := newly firstTask stamp firstFound firstPends
        have old := unique.waiting second secondTask stamp
          (others second secondTask secondOwn secondFound) secondPends
        exact absurd rfl (old.2.ne drawn)
    · have firstOld := others first firstTask firstOwn firstFound
      by_cases secondOwn : second = index
      · subst secondOwn
        have drawn := newly secondTask stamp secondFound secondPends
        exact absurd rfl ((unique.waiting first firstTask stamp firstOld firstPends).2.ne drawn)
      · exact unique.single first second firstTask secondTask stamp firstOld
          (others second secondTask secondOwn secondFound) firstPends secondPends
  · intro task member
    rcases List.mem_iff_getElem?.mp member with ⟨other, found⟩
    by_cases same : other = index
    · subst same
      rw [own task found, settled]
      exact rest
    · exact unique.rests task (List.mem_of_getElem? (others other task same found))

theorem stamped_append (log : List (Nat × Event system.interface)) (index : Nat)
    (event : Event system.interface) :
    tickets.stamped (log ++ [(index, event)]) =
      tickets.stamped log ++ (tickets.ofCall event.call).toList := by
  rw [stamped, List.filterMap_append]
  cases made : tickets.ofCall event.call with
  | none => simp [made, stamped]
  | some stamp => simp [made, stamped]

theorem mem_stamped_append {log : List (Nat × Event system.interface)} {index : Nat}
    {event : Event system.interface} {stamp : Stamp} :
    stamp ∈ tickets.stamped (log ++ [(index, event)]) ↔
      stamp ∈ tickets.stamped log ∨ tickets.ofCall event.call = some stamp := by
  rw [stamped_append, List.mem_append, Option.mem_toList]

/-- A call that takes effect takes its stamp to the log. -/
theorem Unique.serve {pool : Pool system} (unique : tickets.Unique pool) {index : Nat}
    {request : system.Request} {point : system.interface.Point} {call : system.interface.Call}
    {next : Except system.interface.Error (system.interface.Answer call) →
      Program system.interface system.Result}
    (found : pool.tasks[index]? = some ⟨request, .waiting point call next⟩) :
    tickets.Unique { pool with
      world := (system.serve call pool.world).2
      tasks := pool.tasks.set index
        ⟨request, .served point (next (system.serve call pool.world).1)⟩
      log := pool.log ++ [(index, ⟨point, call, (system.serve call pool.world).1⟩)] } := by
  have bound := (List.getElem?_eq_some_iff.mp found).1
  have rest := unique.rests _ (List.mem_of_getElem? found)
  -- Only the tasks that do not take the step still wait for what they waited for.
  have waits : ∀ (other : Nat) task stamp,
      (pool.tasks.set index ⟨request, .served point
        (next (system.serve call pool.world).1)⟩)[other]? = some task →
      tickets.pending task.process = some stamp →
      other ≠ index ∧ pool.tasks[other]? = some task := by
    intro other task stamp otherFound pends
    by_cases same : other = index
    · subst same
      rw [List.getElem?_set_self bound] at otherFound
      cases otherFound
      cases pends
    · rw [List.getElem?_set_ne (Ne.symm same)] at otherFound
      exact ⟨same, otherFound⟩
  constructor
  · rw [stamped_append]
    cases made : tickets.ofCall call with
    | none =>
        rw [Option.toList_none, List.append_nil]
        exact unique.logged
    | some stamp =>
        rw [Option.toList_some, ← List.concat_eq_append]
        exact List.Nodup.concat (unique.waiting index _ stamp found made).1 unique.logged
  · intro stamp member
    rcases mem_stamped_append.mp member with old | new
    · exact unique.drawn stamp old
    · exact (unique.waiting index _ stamp found new).2
  · intro other task stamp otherFound pends
    rcases waits other task stamp otherFound pends with ⟨different, old⟩
    rcases unique.waiting other task stamp old pends with ⟨absent, drawn⟩
    refine ⟨fun member => ?_, drawn⟩
    rcases mem_stamped_append.mp member with logged | new
    · exact absent logged
    · exact different (unique.single other index task _ stamp old found pends new)
  · intro first second firstTask secondTask stamp firstFound secondFound firstPends secondPends
    exact unique.single first second firstTask secondTask stamp
      (waits first firstTask stamp firstFound firstPends).2
      (waits second secondTask stamp secondFound secondPends).2 firstPends secondPends
  · intro task member
    rcases List.mem_or_eq_of_mem_set member with old | new
    · exact unique.rests task old
    · rw [new]
      exact rest _

theorem Unique.step {pool next : Pool system} (unique : tickets.Unique pool)
    (shared : ∀ index, system.cell index = system.cell 0)
    (handlers : ∀ request, tickets.Stamps (system.handler request)) {action : Action system}
    (stepped : pool.step action = some next) : tickets.Unique next := by
  cases Pool.step_cases stepped with
  | start request =>
      apply unique.settle shared (handlers request)
      · intro other task different found
        rcases Nat.lt_or_ge other pool.tasks.length with old | new
        · rw [List.getElem?_append_left old] at found
          exact found
        · rw [List.getElem?_append_right new, List.getElem?_singleton] at found
          split at found
          · omega
          · cases found
      · intro task found
        rw [List.getElem?_concat_length] at found
        cases found
        rfl
  | serve found => exact unique.serve found
  | @resume index request point rest found =>
      apply unique.settle shared (unique.rests _ (List.mem_of_getElem? found))
      · intro other task different otherFound
        rw [List.getElem?_set_ne (Ne.symm different)] at otherFound
        exact otherFound
      · intro task ownFound
        rw [List.getElem?_set_self (List.getElem?_eq_some_iff.mp found).1] at ownFound
        cases ownFound
        rfl

/-- In every run, no stamp is on two calls. -/
theorem unique_of_run (shared : ∀ index, system.cell index = system.cell 0)
    (handlers : ∀ request, tickets.Stamps (system.handler request))
    {condition : Pool system → Action system → Prop} {world : system.World}
    {globals : Nat → system.interface.Globals} {actions : List (Action system)}
    {final : Pool system}
    (run : Transitions (Pool.Step condition) (Pool.initial world globals) actions final) :
    tickets.Unique final :=
  run.invariant tickets.Unique (fun _ _ _ unique step => unique.step shared handlers step.1)
    (unique_initial world globals)

/-- The entry of the log with a stamp is the only one. -/
theorem Unique.eq_of_stamp {pool : Pool system} (unique : tickets.Unique pool)
    {first second : Nat × Event system.interface} (firstMember : first ∈ pool.log)
    (secondMember : second ∈ pool.log) {stamp : Stamp}
    (firstStamp : tickets.ofCall first.2.call = some stamp)
    (secondStamp : tickets.ofCall second.2.call = some stamp) : first = second := by
  have apart := List.pairwise_filterMap.mp unique.logged
  let Same (one other : Nat × Event system.interface) : Prop :=
    tickets.ofCall one.2.call = some stamp → tickets.ofCall other.2.call = some stamp →
      one = other
  have symmetric : Std.Symm Same := ⟨fun _ _ same second first => (same first second).symm⟩
  have agree : pool.log.Pairwise Same := apart.imp fun different oneStamp otherStamp =>
    absurd rfl (different _ oneStamp _ otherStamp)
  exact agree.forall_of_forall (fun _ _ _ _ => rfl) firstMember secondMember firstStamp
    secondStamp

end Runs

end Ticketing

end PizzaChain
