import PizzaChain.Foundation.Lists
import PizzaChain.Semantics.Pool

/-! # Calls that a lower level carries out

A call of one level is carried out by a call of the level below, whose answer is read
back. When the two levels serve related worlds alike, their requests run alike in every
interleaving, one step of the one for each step of the other.
-/

namespace PizzaChain

/-- The programs over other calls, with the same variables and errors. -/
abbrev Interface.withCalls (interface : Interface) (Call : Type) (Answer : Call → Type) :
    Interface where
  Point := interface.Point
  Call := Call
  Answer := Answer
  Globals := interface.Globals
  Error := interface.Error

/-- A call below that carries out a call, and how its answer is read back. -/
structure Carrier (interface : Interface) (Call : Type) (Answer : Call → Type)
    (carried : interface.Call) where
  call : Call
  decode : Except interface.Error (Answer call) →
    Except interface.Error (interface.Answer carried)

structure Translation (interface : Interface) (Call : Type) (Answer : Call → Type) where
  carrier : (call : interface.Call) → Carrier interface Call Answer call

namespace Translation

abbrev encode (translation : Translation interface Call Answer) (call : interface.Call) : Call :=
  (translation.carrier call).call

abbrev decode (translation : Translation interface Call Answer) (call : interface.Call)
    (answer : Except interface.Error (Answer (translation.encode call))) :
    Except interface.Error (interface.Answer call) :=
  (translation.carrier call).decode answer

section Programs

variable {interface : Interface} {Call : Type} {Answer : Call → Type}
  (translation : Translation interface Call Answer)

/-- The program below makes the translated calls, and goes on with the answers read
back. -/
inductive CarriesOut : Program (interface.withCalls Call Answer) α → Program interface α → Prop
  | done (result) : CarriesOut (.done result) (.done result)
  | fail (error) : CarriesOut (.fail error) (.fail error)
  | read {below above} (nexts : ∀ globals, CarriesOut (below globals) (above globals)) :
      CarriesOut (.read below) (.read above)
  | write {globals below above} (next : CarriesOut below above) :
      CarriesOut (.write globals below) (.write globals above)
  | await {point call below above}
      (nexts : ∀ answer, CarriesOut (below answer) (above (translation.decode call answer))) :
      CarriesOut (.await point (translation.encode call) below) (.await point call above)

/-- The same for programs that have been started. -/
inductive Continues :
    Process (interface.withCalls Call Answer) α → Process interface α → Prop
  | waiting {point call below above}
      (nexts : ∀ answer,
        translation.CarriesOut (below answer) (above (translation.decode call answer))) :
      Continues (.waiting point (translation.encode call) below) (.waiting point call above)
  | served {point below above} (rest : translation.CarriesOut below above) :
      Continues (.served point below) (.served point above)
  | ended (outcome) : Continues (.ended outcome) (.ended outcome)

inductive Records : Event (interface.withCalls Call Answer) → Event interface → Prop
  | event (point call answer) : Records ⟨point, translation.encode call, answer⟩
      ⟨point, call, translation.decode call answer⟩

variable {translation}

theorem CarriesOut.settle {below : Program (interface.withCalls Call Answer) α}
    {above : Program interface α} (carries : translation.CarriesOut below above)
    (globals : interface.Globals) :
    translation.Continues (below.settle globals).1 (above.settle globals).1 ∧
      (below.settle globals).2 = (above.settle globals).2 := by
  induction carries generalizing globals with
  | done result => exact ⟨.ended _, rfl⟩
  | fail error => exact ⟨.ended _, rfl⟩
  | read nexts induction => exact induction globals globals
  | @write written _ _ _ induction => exact induction written
  | await nexts _ => exact ⟨.waiting nexts, rfl⟩

end Programs

end Translation

/-! ## Programs over the level below -/

section CarriedOut

variable {interface : Interface} {Call : Type} {Answer : Call → Type}

/-- Each call is replaced by the program that carries it out. -/
def Program.carriedOut
    (implementation : interface.Point → (call : interface.Call) →
      Program (interface.withCalls Call Answer) (Except interface.Error (interface.Answer call))) :
    Program interface α → Program (interface.withCalls Call Answer) α
  | .done result => .done result
  | .fail error => .fail error
  | .read next => .read fun globals => (next globals).carriedOut implementation
  | .write globals next => .write globals (next.carriedOut implementation)
  | .await point call next =>
      implementation point call >>= fun answer => (next answer).carriedOut implementation

/-- What makes one call and reads the answer back is a translation. -/
theorem Translation.carriesOut_carriedOut {translation : Translation interface Call Answer}
    {implementation : interface.Point → (call : interface.Call) →
      Program (interface.withCalls Call Answer) (Except interface.Error (interface.Answer call))}
    (single : ∀ point call, implementation point call =
      .await point (translation.encode call) fun answer => .done (translation.decode call answer))
    (program : Program interface α) :
    translation.CarriesOut (program.carriedOut implementation) program := by
  induction program with
  | done result => exact .done result
  | fail error => apply CarriesOut.fail
  | read next induction => exact .read induction
  | write globals next induction => exact .write induction
  | await point call next induction =>
      rw [Program.carriedOut, single]
      exact .await fun answer => induction (translation.decode call answer)

end CarriedOut

/-- Another world with its own calls, for the same requests. -/
abbrev System.over (system : System) {Call : Type} {Answer : Call → Type} (World : Type)
    (serve : (call : Call) → World → Except system.interface.Error (Answer call) × World)
    (handler : system.Request → Program (system.interface.withCalls Call Answer) system.Result) :
    System where
  interface := system.interface.withCalls Call Answer
  World := World
  serve := serve
  Request := system.Request
  Result := system.Result
  handler := handler
  cell := system.cell

section Levels

variable {upper : System} {Call World : Type} {Answer : Call → Type}
  {serve : (call : Call) → World → Except upper.interface.Error (Answer call) × World}
  {handler : upper.Request → Program (upper.interface.withCalls Call Answer) upper.Result}

/-- The action as the level above takes it. -/
def Action.above : Action (upper.over World serve handler) → Action upper
  | .start request => .start request
  | .serve index => .serve index
  | .resume index => .resume index

variable (serve handler) in
/-- The handlers make the translated calls, and of the calls that are allowed both levels
make the same of related worlds. -/
structure Refines (translation : Translation upper.interface Call Answer)
    (relates : World → upper.World → Prop) (allowed : upper.interface.Call → Prop) : Prop where
  handlers : ∀ request, translation.CarriesOut (handler request) (upper.handler request)
  serves : ∀ call below above, allowed call → relates below above →
    translation.decode call (serve (translation.encode call) below).1 =
      (upper.serve call above).1 ∧
    relates (serve (translation.encode call) below).2 (upper.serve call above).2

/-- The two levels have come equally far. -/
structure Matches (translation : Translation upper.interface Call Answer)
    (relates : World → upper.World → Prop) (below : Pool (upper.over World serve handler))
    (above : Pool upper) : Prop where
  world : relates below.world above.world
  globals : below.globals = above.globals
  tasks : List.Forall₂ (fun lower task => lower.request = task.request ∧
    translation.Continues lower.process task.process) below.tasks above.tasks
  log : List.Forall₂ (fun lower entry => lower.1 = entry.1 ∧
    translation.Records lower.2 entry.2) below.log above.log

/-- Every call that a task waits for is allowed. -/
def Pool.Awaits (allowed : upper.interface.Call → Prop) (pool : Pool upper) : Prop :=
  ∀ (index : Nat) request point call next,
    pool.tasks[index]? = some ⟨request, .waiting point call next⟩ → allowed call

variable {translation : Translation upper.interface Call Answer}
  {relates : World → upper.World → Prop} {allowed : upper.interface.Call → Prop}
  {below : Pool (upper.over World serve handler)} {above : Pool upper}

theorem Matches.settle (matched : Matches translation relates below above) (index : Nat)
    {program : Program (upper.interface.withCalls Call Answer) upper.Result}
    {abstract : Program upper.interface upper.Result}
    (carries : translation.CarriesOut program abstract) :
    translation.Continues (below.settle index program).1 (above.settle index abstract).1 ∧
      (below.settle index program).2 = (above.settle index abstract).2 := by
  simp only [Pool.settle, matched.globals]
  have settled := carries.settle (above.globals (upper.cell index))
  exact ⟨settled.1, congrArg _ settled.2⟩

/-- One step below is one step above. -/
theorem Matches.step (matched : Matches translation relates below above)
    (refines : Refines serve handler translation relates allowed) (awaits : above.Awaits allowed)
    (action : Action (upper.over World serve handler)) :
    Option.Rel (Matches translation relates) (below.step action) (above.step action.above) := by
  cases action with
  | start request =>
      have settled := matched.settle above.tasks.length (refines.handlers request)
      simp only [Pool.step, Action.above, matched.tasks.length_eq]
      refine .some ⟨matched.world, settled.2, ?_, matched.log⟩
      exact List.rel_append matched.tasks (.cons ⟨rfl, settled.1⟩ .nil)
  | serve index =>
      simp only [Pool.step, Action.above]
      rcases getElem?_related matched.tasks index with
        ⟨noneBelow, noneAbove⟩ | ⟨⟨request, lower⟩, ⟨_, process⟩, found, foundAbove, rfl, continues⟩
      · simp only [noneBelow, noneAbove]
        exact .none
      · rw [found, foundAbove]
        cases continues with
        | @waiting point call nextBelow nextAbove nexts =>
            have allows := awaits index request point call nextAbove foundAbove
            have served := refines.serves call _ _ allows matched.world
            refine .some ⟨served.2, matched.globals, ?_, ?_⟩
            · apply set_related matched.tasks index
              refine ⟨rfl, .served ?_⟩
              rw [← served.1]
              exact nexts _
            · refine List.rel_append matched.log (.cons ⟨rfl, ?_⟩ .nil)
              rw [← served.1]
              exact .event point call _
        | served rest => exact .none
        | ended outcome => exact .none
  | resume index =>
      simp only [Pool.step, Action.above]
      rcases getElem?_related matched.tasks index with
        ⟨noneBelow, noneAbove⟩ | ⟨⟨request, lower⟩, ⟨_, process⟩, found, foundAbove, rfl, continues⟩
      · simp only [noneBelow, noneAbove]
        exact .none
      · rw [found, foundAbove]
        cases continues with
        | waiting nexts => exact .none
        | served rest =>
            have settled := matched.settle index rest
            refine .some ⟨matched.world, settled.2, ?_, matched.log⟩
            exact set_related matched.tasks index ⟨rfl, settled.1⟩
        | ended outcome => exact .none

theorem Matches.ended_iff (matched : Matches translation relates below above) {index : Nat}
    {request : upper.Request} {outcome : Except upper.interface.Error upper.Result} :
    below.tasks[index]? = some ⟨request, .ended outcome⟩ ↔
      above.tasks[index]? = some ⟨request, .ended outcome⟩ := by
  rcases getElem?_related matched.tasks index with
    ⟨noneBelow, noneAbove⟩ | ⟨⟨_, lower⟩, ⟨_, process⟩, found, foundAbove, rfl, continues⟩
  · simp [noneBelow, noneAbove]
  · rw [found, foundAbove]
    cases continues <;> simp

/-! ## Runs -/

variable {start : World} {abstractStart : upper.World}
  {globals : Nat → upper.interface.Globals}

/-- In every state that the level above can reach, only allowed calls are waited for. -/
def AwaitsOnly (allowed : upper.interface.Call → Prop) (world : upper.World)
    (globals : Nat → upper.interface.Globals) : Prop :=
  ∀ actions pool, Transitions (Pool.Step fun _ _ => True) (Pool.initial world globals) actions
    pool → pool.Awaits allowed

theorem awaitsOnly_of_calls (calls : ∀ request, (upper.handler request).Calls allowed)
    (world : upper.World) (globals : Nat → upper.interface.Globals) :
    AwaitsOnly allowed world globals := by
  intro actions pool run index request point call next found
  have kept : KeptByCalls (fun _ : upper.Request => allowed) fun _ (_ : upper.World) => True :=
    ⟨calls, fun _ _ _ _ => trivial, fun _ _ _ _ _ _ _ => trivial⟩
  have reached := (kept.run run (Pool.calls_initial _ _ _) trivial).1
  exact (reached _ (List.mem_of_getElem? found)).1

theorem matches_initial (related : relates start abstractStart) :
    Matches translation relates
      (Pool.initial start globals : Pool (upper.over World serve handler))
      (Pool.initial abstractStart globals) :=
  ⟨related, rfl, .nil, .nil⟩

section Follow

variable {final : Pool (upper.over World serve handler)} {reached : Pool upper}
  {actions : List (Action (upper.over World serve handler))} {earlier : List (Action upper)}

theorem Matches.follow (matched : Matches translation relates below above)
    (refines : Refines serve handler translation relates allowed)
    (awaits : AwaitsOnly allowed abstractStart globals)
    (before : Transitions (Pool.Step fun _ _ => True) (Pool.initial abstractStart globals) earlier
      above)
    (run : Transitions (Pool.Step fun _ _ => True) below actions final) :
    ∃ reached, Transitions (Pool.Step fun _ _ => True) above (actions.map Action.above) reached ∧
      Matches translation relates final reached := by
  induction run generalizing above earlier with
  | nil => exact ⟨above, .nil _, matched⟩
  | @cons current next _ action actions first _ induction =>
      have stepped := matched.step refines (awaits _ _ before) action
      rw [first.1] at stepped
      generalize steps : above.step action.above = outcome at stepped
      cases stepped with
      | some matchedNext =>
          have one : Pool.Step (fun _ _ => True) above action.above _ := ⟨steps, trivial⟩
          rcases induction matchedNext (before.append (.cons one (.nil _))) with
            ⟨reached, more, ends⟩
          exact ⟨reached, .cons one more, ends⟩

theorem Matches.lead (matched : Matches translation relates below above)
    (refines : Refines serve handler translation relates allowed)
    (awaits : AwaitsOnly allowed abstractStart globals)
    (before : Transitions (Pool.Step fun _ _ => True) (Pool.initial abstractStart globals) earlier
      above)
    (run : Transitions (Pool.Step fun _ _ => True) above (actions.map Action.above) reached) :
    ∃ final, Transitions (Pool.Step fun _ _ => True) below actions final ∧
      Matches translation relates final reached := by
  induction actions generalizing above below earlier with
  | nil =>
      cases run
      exact ⟨below, .nil _, matched⟩
  | cons action actions induction =>
      cases run with
      | cons first rest =>
          have stepped := matched.step refines (awaits _ _ before) action
          rw [first.1] at stepped
          generalize steps : below.step action = outcome at stepped
          cases stepped with
          | some matchedNext =>
              rcases induction matchedNext (before.append (.cons first (.nil _))) rest with
                ⟨final, more, ends⟩
              exact ⟨final, .cons ⟨steps, trivial⟩ more, ends⟩

/-- The runs below are the runs above. -/
theorem Refines.runs (refines : Refines serve handler translation relates allowed)
    (awaits : AwaitsOnly allowed abstractStart globals) (related : relates start abstractStart)
    (actions : List (Action (upper.over World serve handler))) :
    (∀ final : Pool (upper.over World serve handler),
      Transitions (Pool.Step fun _ _ => True)
        (Pool.initial start globals : Pool (upper.over World serve handler)) actions final →
      ∃ reached, Transitions (Pool.Step fun _ _ => True) (Pool.initial abstractStart globals)
        (actions.map Action.above) reached ∧ Matches translation relates final reached) ∧
    ∀ reached : Pool upper,
      Transitions (Pool.Step fun _ _ => True) (Pool.initial abstractStart globals)
        (actions.map Action.above) reached →
      ∃ final, Transitions (Pool.Step fun _ _ => True)
        (Pool.initial start globals : Pool (upper.over World serve handler)) actions final ∧
        Matches translation relates final reached := by
  have matched : Matches translation relates
      (Pool.initial start globals : Pool (upper.over World serve handler))
      (Pool.initial abstractStart globals) := matches_initial related
  exact ⟨fun _ run => matched.follow refines awaits (.nil _) run,
    fun _ run => matched.lead refines awaits (.nil _) run⟩

end Follow

end Levels

end PizzaChain
