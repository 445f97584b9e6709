import PlatformMarkers.File.Failure

/-! Programs that read files, write files and tell the user what they do. What a program
does next depends only on the answers it has got, so one program runs on a store of files
held as a value as well as on real files. -/

set_option autoImplicit false

namespace PlatformMarkers

inductive Note where
  | output (text : Text)
  | diagnostic (text : Text)
  | warning (text : Text)
  deriving DecidableEq, Repr

inductive Interaction (α : Type) where
  | done (value : α)
  | read (name : Text) (next : Except FileFailure Text → Interaction α)
  | write (name content : Text) (next : Except FileFailure Unit → Interaction α)
  | tell (note : Note) (next : Interaction α)

namespace Interaction

variable {α β State : Type}

def bind (first : Interaction α) (second : α → Interaction β) : Interaction β :=
  match first with
  | .done value => second value
  | .read name next => .read name fun answer => bind (next answer) second
  | .write name content next => .write name content fun answer => bind (next answer) second
  | .tell note next => .tell note (bind next second)

def tellAll (notes : List Note) (next : Interaction α) : Interaction α := notes.foldr .tell next

/-- Give each warning only the first time; `given` holds those given already. -/
def warnOnce (given : List Text) : Interaction α → Interaction α
  | .done value => .done value
  | .read name next => .read name fun answer => warnOnce given (next answer)
  | .write name content next => .write name content fun answer => warnOnce given (next answer)
  | .tell (.warning text) next =>
    if given.contains text then warnOnce given next
    else .tell (.warning text) (warnOnce (text :: given) next)
  | .tell note next => .tell note (warnOnce given next)

end Interaction

/-- A store of files: how its state answers a read, and how a write changes it. -/
structure Storage (State : Type) where
  read : State → Text → Except FileFailure Text
  write : State → Text → Text → Except FileFailure State

inductive Event where
  | read (name : Text)
  | write (name : Text)
  | tell (note : Note)
  deriving DecidableEq, Repr

/-- The course of a program over a store. A read or write that fails is an event too. -/
structure Course (State α : Type) where
  events : List Event
  state : State
  value : α

namespace Interaction

variable {α State : Type}

def run (storage : Storage State) : Interaction α → State → Course State α
  | .done value, state => ⟨[], state, value⟩
  | .read name next, state =>
    let rest := run storage (next (storage.read state name)) state
    { rest with events := .read name :: rest.events }
  | .write name content next, state =>
    let rest := match storage.write state name content with
      | .ok changed => run storage (next (.ok ())) changed
      | .error failure => run storage (next (.error failure)) state
    { rest with events := .write name :: rest.events }
  | .tell note next, state =>
    let rest := run storage next state
    { rest with events := .tell note :: rest.events }

theorem run_bind {β : Type} (storage : Storage State) (first : Interaction α)
    (second : α → Interaction β) (state : State) :
    let start := first.run storage state
    let rest := (second start.value).run storage start.state
    (first.bind second).run storage state = ⟨start.events ++ rest.events, rest.state, rest.value⟩ := by
  induction first generalizing state with
  | done value => rfl
  | read name next ih => simp only [bind, run, ih, List.cons_append]
  | write name content next ih =>
    simp only [bind, run]
    cases storage.write state name content <;> simp only [ih, List.cons_append]
  | tell note next ih => simp only [bind, run, ih, List.cons_append]

theorem run_tellAll (storage : Storage State) (notes : List Note) (next : Interaction α)
    (state : State) :
    let rest := next.run storage state
    (tellAll notes next).run storage state =
      ⟨notes.map .tell ++ rest.events, rest.state, rest.value⟩ := by
  induction notes with
  | nil => rfl
  | cons note notes ih =>
    simp only [tellAll, List.foldr_cons, run] at ih ⊢
    rw [ih]
    rfl

end Interaction

end PlatformMarkers
