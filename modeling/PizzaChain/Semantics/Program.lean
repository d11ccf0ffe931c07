import Mathlib.Data.List.Basic

/-! # Asynchronous programs

A program runs without interruption on the variables that all programs share,
up to its next `await`. There it makes a call to the outside and is resumed with
the answer, or with the error that the call was rejected with.
-/

namespace PizzaChain

/-- What programs are made of: the places where they wait, the calls made there,
the answers to each call, the shared variables, and the errors. -/
structure Interface where
  Point : Type
  Call : Type
  Answer : Call → Type
  Globals : Type
  Error : Type

inductive Program (interface : Interface) (α : Type) : Type
  | done (result : α)
  | fail (error : interface.Error)
  | read (next : interface.Globals → Program interface α)
  | write (globals : interface.Globals) (next : Program interface α)
  | await (point : interface.Point) (call : interface.Call)
      (next : Except interface.Error (interface.Answer call) → Program interface α)

/-- A program that has been started: it waits for an answer, or has been
answered and not resumed, or has ended. -/
inductive Process (interface : Interface) (α : Type) : Type
  | waiting (point : interface.Point) (call : interface.Call)
      (next : Except interface.Error (interface.Answer call) → Program interface α)
  | served (point : interface.Point) (rest : Program interface α)
  | ended (outcome : Except interface.Error α)

/-- A call that has taken effect, with its answer. -/
structure Event (interface : Interface) where
  point : interface.Point
  call : interface.Call
  answer : Except interface.Error (interface.Answer call)

namespace Program

variable {interface : Interface}

def bind : Program interface α → (α → Program interface β) → Program interface β
  | .done result, continuation => continuation result
  | .fail error, _ => .fail error
  | .read next, continuation => .read fun globals => (next globals).bind continuation
  | .write globals next, continuation => .write globals (next.bind continuation)
  | .await point call next, continuation =>
      .await point call fun answer => (next answer).bind continuation

instance : Monad (Program interface) where
  pure := .done
  bind := bind

@[simp] theorem done_bind (result : α) (continuation : α → Program interface β) :
    Program.done result >>= continuation = continuation result := rfl

@[simp] theorem pure_eq_done (result : α) :
    (pure result : Program interface α) = .done result := rfl

theorem bind_assoc (program : Program interface α) (first : α → Program interface β)
    (second : β → Program interface γ) :
    program >>= first >>= second = program >>= fun result => first result >>= second := by
  induction program with
  | done result => rfl
  | fail error => rfl
  | read next induction =>
      apply congrArg Program.read
      funext globals
      exact induction globals
  | write globals next induction => exact congrArg (Program.write globals) induction
  | await point call next induction =>
      apply congrArg (Program.await point call)
      funext answer
      exact induction answer

/-- `await call`, whose rejection rejects the program. -/
def call (point : interface.Point) (call : interface.Call) :
    Program interface (interface.Answer call) :=
  .await point call fun
    | .ok answer => .done answer
    | .error error => .fail error

theorem call_bind (point : interface.Point) (made : interface.Call)
    (continuation : interface.Answer made → Program interface α) :
    Program.call point made >>= continuation = .await point made fun
      | .ok answer => continuation answer
      | .error error => .fail error := by
  apply congrArg (Program.await point made)
  funext answer
  cases answer <;> rfl

def modify (change : interface.Globals → interface.Globals) : Program interface Unit :=
  .read fun globals => .write (change globals) (.done ())

def get : Program interface interface.Globals :=
  .read .done

/-- `try { … } catch (e) { return e; }`. -/
def attempt : Program interface α → Program interface (Except interface.Error α)
  | .done result => .done (.ok result)
  | .fail error => .done (.error error)
  | .read next => .read fun globals => (next globals).attempt
  | .write globals next => .write globals next.attempt
  | .await point call next => .await point call fun answer => (next answer).attempt

/-- Runs a program up to its next await. -/
def settle : Program interface α → interface.Globals → Process interface α × interface.Globals
  | .done result, globals => (.ended (.ok result), globals)
  | .fail error, globals => (.ended (.error error), globals)
  | .read next, globals => settle (next globals) globals
  | .write globals next, _ => settle next globals
  | .await point call next, globals => (.waiting point call next, globals)

/-! ## The calls of a program -/

/-- Every call that the program makes is allowed, whatever it is answered and
whatever it finds in the shared variables. -/
def Calls (allowed : interface.Call → Prop) : Program interface α → Prop
  | .done _ => True
  | .fail _ => True
  | .read next => ∀ globals, (next globals).Calls allowed
  | .write _ next => next.Calls allowed
  | .await _ call next => allowed call ∧ ∀ answer, (next answer).Calls allowed

variable {allowed : interface.Call → Prop}

theorem Calls.bind {program : Program interface α} (calls : program.Calls allowed)
    {continuation : α → Program interface β}
    (continues : ∀ result, (continuation result).Calls allowed) :
    (program >>= continuation).Calls allowed := by
  induction program with
  | done result => exact continues result
  | fail error => trivial
  | read next induction => exact fun globals => induction globals (calls globals)
  | write globals next induction => exact induction calls
  | await point call next induction =>
      exact ⟨calls.1, fun answer => induction answer (calls.2 answer)⟩

/-- A rejection makes no further calls. -/
theorem Calls.call (point : interface.Point) {made : interface.Call} (allows : allowed made) :
    (Program.call point made).Calls allowed := by
  refine ⟨allows, fun answer => ?_⟩
  cases answer <;> trivial

theorem Calls.modify (change : interface.Globals → interface.Globals) :
    (Program.modify change).Calls allowed :=
  fun _ => trivial

theorem Calls.get : (Program.get : Program interface interface.Globals).Calls allowed :=
  fun _ => trivial

theorem calls_anything (program : Program interface α) : program.Calls fun _ => True := by
  induction program with
  | done result => trivial
  | fail error => trivial
  | read next induction => exact induction
  | write globals next induction => exact induction
  | await point call next induction => exact ⟨trivial, induction⟩

theorem Calls.mono {wider : interface.Call → Prop} {program : Program interface α}
    (calls : program.Calls allowed) (widens : ∀ call, allowed call → wider call) :
    program.Calls wider := by
  induction program with
  | done result => trivial
  | fail error => trivial
  | read next induction => exact fun globals => induction globals (calls globals)
  | write globals next induction => exact induction calls
  | await point call next induction =>
      exact ⟨widens call calls.1, fun answer => induction answer (calls.2 answer)⟩

end Program

/-- The call that a process has made and that is not answered. -/
def Process.issued {interface : Interface} :
    Process interface α → Option (interface.Point × interface.Call)
  | .waiting point call _ => some (point, call)
  | _ => none

def Process.hasEnded {interface : Interface} : Process interface α → Bool
  | .ended _ => true
  | _ => false

theorem Process.hasEnded_iff {interface : Interface} {process : Process interface α} :
    process.hasEnded = true ↔ ∃ outcome, process = .ended outcome := by
  cases process <;> simp [hasEnded]

/-- The calls that a process makes or has yet to make are allowed. -/
def Process.Calls {interface : Interface} (allowed : interface.Call → Prop) :
    Process interface α → Prop
  | .waiting _ call next => allowed call ∧ ∀ answer, (next answer).Calls allowed
  | .served _ rest => rest.Calls allowed
  | .ended _ => True

theorem Program.Calls.settle {interface : Interface} {allowed : interface.Call → Prop}
    {program : Program interface α} (calls : program.Calls allowed) (globals : interface.Globals) :
    (program.settle globals).1.Calls allowed := by
  induction program generalizing globals with
  | done result => trivial
  | fail error => trivial
  | read next induction => exact induction globals (calls globals) globals
  | write changed next induction => exact induction calls changed
  | await point call next induction => exact calls

end PizzaChain
