import PizzaChain.Semantics.Courses

/-! # Programs that see one moment

A program that makes several calls sees the world at several moments. When its calls are
answered later as they would have been at one moment, up to a relation, it ends as it
would have alone at this moment, up to a relation.
-/

namespace PizzaChain

variable {system : System}

/-- Both have a result and these are related, or both have the same error. -/
def OutcomesRelated (related : α → β → Prop) : Except ε α → Except ε β → Prop
  | .ok value, .ok other => related value other
  | .error error, .error other => error = other
  | _, _ => False

namespace Program

theorem alone_bind (program : Program system.interface α)
    (continuation : α → Program system.interface β) (view : View system) :
    (program >>= continuation).alone view = match program.alone view with
      | (.ok value, after) => (continuation value).alone after
      | (.error error, after) => (.error error, after) := by
  induction program generalizing view with
  | done result => rfl
  | fail error => rfl
  | read next induction => exact induction view.globals view
  | write globals next induction => exact induction _
  | await point call next induction => exact induction _ _

theorem alone_bind_of_ok {program : Program system.interface α}
    {continuation : α → Program system.interface β} {view : View system} {result : α}
    (ended : (program.alone view).1 = .ok result) :
    (program >>= continuation).alone view =
      (continuation result).alone (program.alone view).2 := by
  rw [alone_bind]
  cases ran : program.alone view with
  | mk outcome after =>
      rw [ran] at ended
      cases ended
      rfl

/-- The program leaves the world as it is when it runs alone. -/
def OnlyReads (program : Program system.interface α) : Prop :=
  ∀ view : View system, (program.alone view).2.world = view.world

theorem onlyReads_of_calls {allowed : system.interface.Call → Prop}
    (reads : ∀ call world, allowed call → (system.serve call world).2 = world)
    {program : Program system.interface α} (calls : program.Calls allowed) :
    OnlyReads program := by
  intro view
  apply alone_invariant view (fun world => world = view.world) _ calls rfl
  intro call world allows same
  rw [reads call world allows, same]

variable (condition : Pool system → Action system → Prop) (index : Nat)

/-- From the moment on, the program ends as the other one would alone at the moment. -/
def Agrees (moment : Pool system) (related : α → β → Prop) (program : Program system.interface α)
    (other : Program system.interface β) : Prop :=
  ∀ view : View system, view.world = moment.world →
    ∀ globals now, moment.Reaches condition now →
      program.Secures condition index globals now fun outcome _ _ =>
        OutcomesRelated related outcome (other.alone view).1

variable {condition index} {moment : Pool system}

theorem agrees_pure {related : α → β → Prop} {value : α} {other : β}
    (holds : related value other) :
    Agrees condition index moment related (pure value) (pure other) :=
  fun _ _ _ _ _ => holds

theorem Agrees.bind {related : α → β → Prop} {program : Program system.interface α}
    {other : Program system.interface β} {final : γ → δ → Prop}
    {continuation : α → Program system.interface γ} {rest : β → Program system.interface δ}
    (agrees : Agrees condition index moment related program other) (reads : OnlyReads other)
    (continues : ∀ value result, related value result →
      Agrees condition index moment final (continuation value) (rest result)) :
    Agrees condition index moment final (program >>= continuation) (other >>= rest) := by
  intro view same globals now reaches
  apply Secures.bind
  apply (agrees view same globals now reaches).mono
  intro outcome later ended more outcomes
  have world : (other.alone view).2.world = moment.world := (reads view).trans same
  rw [alone_bind]
  generalize other.alone view = alone at outcomes world
  rcases alone with ⟨result, after⟩
  cases outcome with
  | ok value =>
      cases result with
      | ok result => exact continues value result outcomes after world _ _ (reaches.trans more)
      | error error => exact outcomes.elim
  | error error =>
      cases result with
      | ok result => exact outcomes.elim
      | error other => exact outcomes

theorem alone_call (point : system.interface.Point) (call : system.interface.Call)
    (view : View system) :
    ((Program.call point call).alone view).1 = (system.serve call view.world).1 := by
  rw [Program.call, alone]
  cases (system.serve call view.world).1 <;> rfl

/-- A call that reads is answered later as at the moment. -/
theorem agrees_call {point : system.interface.Point} {call : system.interface.Call}
    {related : system.interface.Answer call → system.interface.Answer call → Prop}
    (stable : ∀ later : Pool system, moment.Reaches condition later →
      OutcomesRelated related (system.serve call later.world).1
        (system.serve call moment.world).1) :
    Agrees condition index moment related (Program.call point call) (Program.call point call) := by
  intro view same globals now reaches before after resumed more _ _ _
  have answers := stable before (reaches.trans more)
  rw [← same, ← alone_call point call view] at answers
  generalize (system.serve call before.world).1 = given at answers
  cases given with
  | ok answer => exact answers
  | error error => exact answers

theorem Secures.all {program : Program system.interface α} {globals : system.interface.Globals}
    {posts : ι → Except system.interface.Error α → system.interface.Globals → Pool system → Prop}
    (secures : ∀ choice, program.Secures condition index globals moment (posts choice)) :
    program.Secures condition index globals moment fun outcome later ended =>
      ∀ choice, posts choice outcome later ended := by
  induction program generalizing globals moment with
  | done result => exact secures
  | fail error => exact secures
  | read next induction => exact induction globals secures
  | write globals next induction => exact induction secures
  | await point call next induction =>
      intro before after resumed reaches serves changed rest
      apply induction
      exact fun choice => secures choice before after resumed reaches serves changed rest

/-- The moment of the first call counts when what follows agrees with it. -/
theorem secures_first {point : system.interface.Point} {call : system.interface.Call}
    {continuation : system.interface.Answer call → Program system.interface α}
    {related : α → α → Prop} {globals : system.interface.Globals}
    (reads : ∀ world, (system.serve call world).2 = world)
    (agrees : ∀ middle answer, moment.Reaches condition middle →
      (system.serve call middle.world).1 = .ok answer →
      Agrees condition index middle related (continuation answer) (continuation answer)) :
    (Program.call point call >>= continuation).Secures condition index globals moment
      fun outcome _ ended => ∃ middle, moment.Reaches condition middle ∧
        middle.Reaches condition ended ∧ ∀ view, view.world = middle.world →
          OutcomesRelated related outcome
            ((Program.call point call >>= continuation).alone view).1 := by
  apply secures_call
  intro before after resumed reaches serves rest outcome served
  have answers : (system.serve call before.world).1 = outcome := congrArg Prod.fst served
  have runsAlone : ∀ view : View system, view.world = before.world →
      (Program.call point call >>= continuation).alone view =
        (match outcome with
          | .ok answer => continuation answer
          | .error error => Program.fail error).alone (view.answered point call) := by
    intro view same
    rw [call_bind, alone, same, answers]
    cases outcome <;> rfl
  constructor
  · rintro answer rfl
    have rests := fun view : { view : View system // view.world = before.world } =>
      agrees before answer reaches answers (view.1.answered point call)
        ((reads view.1.world).trans view.2) (resumed.globals (system.cell index)) resumed
        (serves.trans rest)
    apply (Secures.all rests).mono
    intro ended later final more outcomes
    refine ⟨before, reaches, serves.trans (rest.trans more), fun view same => ?_⟩
    rw [runsAlone view same]
    exact outcomes ⟨view, same⟩
  · rintro error rfl
    refine ⟨before, reaches, serves.trans rest, fun view same => ?_⟩
    rw [runsAlone view same]
    rfl

end Program

end PizzaChain
