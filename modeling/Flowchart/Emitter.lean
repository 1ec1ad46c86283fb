import Flowchart.Error

/-! Events and their listeners. A listener is known by its name and may be subscribed more
than once. An event goes to everyone who is subscribed when it is emitted, in the order of
subscription, even if some leave meanwhile. A listener may act on the emitter from within,
so that further events are delivered before the next listener hears of the first one. -/
namespace Flowchart

/-- A computation on a state that may fail and keeps the state it failed in. -/
abbrev Action (σ α : Type) := ExceptT Error (StateM σ) α

/-- What a listener does with an event, besides hearing of it. -/
inductive Reaction (κ : Type) where
  /-- Nothing. -/
  | watch
  /-- It leaves. -/
  | leave
  /-- It fails. -/
  | fail
  /-- On its first event it has a command run. -/
  | act (command : κ)

/-- A listener. -/
structure Listener (κ : Type) where
  name : Text
  reaction : Reaction κ
  /-- Has it had its command run? -/
  spent : Bool := false

/-- Something that emits events of type `ε` to listeners that may ask for commands of type
`κ`. `content` is whatever else the emitter holds. -/
structure Emitter (κ ε β : Type) where
  content : β
  known : List (Listener κ) := []
  subscribed : List Text := []
  /-- Everything delivered so far, with the listener that it went to. -/
  delivered : List (Text × ε) := []

namespace Emitter
variable {κ ε β : Type}

/-- The listener with a name. -/
def listener? (e : Emitter κ ε β) (name : Text) : Option (Listener κ) :=
  e.known.find? fun l => l.name == name

/-- The emitter with a listener subscribed once more. A name that is known already keeps its
reaction. -/
def subscribe (e : Emitter κ ε β) (name : Text) (reaction : Reaction κ) : Emitter κ ε β :=
  { e with
    known := if (e.listener? name).isSome then e.known else e.known ++ [{ name, reaction }]
    subscribed := e.subscribed ++ [name] }

/-- The emitter with the first subscription of a listener gone, if there is one. -/
def unsubscribe (e : Emitter κ ε β) (name : Text) : Emitter κ ε β :=
  { e with subscribed := e.subscribed.erase name }

/-- The emitter without any subscription. -/
def unsubscribeAll (e : Emitter κ ε β) : Emitter κ ε β := { e with subscribed := [] }

/-- The emitter with one more delivery. -/
def heard (e : Emitter κ ε β) (name : Text) (event : ε) : Emitter κ ε β :=
  { e with delivered := e.delivered ++ [(name, event)] }

/-- The emitter with a listener that has had its command run. -/
def spend (e : Emitter κ ε β) (name : Text) : Emitter κ ε β :=
  { e with known := e.known.map fun l => if l.name = name then { l with spent := true } else l }

/-- An event is delivered to the listeners with these names. At the first failure the rest
of them hear nothing. -/
def deliver (run : κ → Action (Emitter κ ε β) Unit) (event : ε) :
    List Text → Action (Emitter κ ε β) Unit
  | [] => pure ()
  | name :: names => do
    modify fun e => e.heard name event
    match (← get).listener? name with
    | some ⟨_, .leave, _⟩ => modify fun e => e.unsubscribe name
    | some ⟨_, .fail, _⟩ => throw .listenerFailed
    | some ⟨_, .act command, false⟩ =>
      modify fun e => e.spend name
      run command
    | _ => pure ()
    deliver run event names

/-- An event is emitted. -/
def emit (run : κ → Action (Emitter κ ε β) Unit) (event : ε) :
    Action (Emitter κ ε β) Unit := do
  deliver run event (← get).subscribed

end Emitter
end Flowchart
