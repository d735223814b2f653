import PackagedTask.Library.Simulation
import PackagedTask.Streams.Memory

namespace PackagedTask.Modules
open Streams Library

/-! `Module<T>` of `core/module.h`. The constructor, the hooks and the destructor of `T` are code of the
program that may call the module again. An object goes by the number of its construction. -/

structure Module where
  _instance : Option Nat := none
  isDestroyed : Bool := false
  isStartedUp : Bool := false
  constructions : Nat := 0

inductive Call
  /-- `instance()` -/
  | instanceRef
  | instancePtr
  | startUp
  | shutDown
  | isStarted

inductive Answer
  | ref (this : Nat)
  | ptr (this : Option Nat)
  | started (isStarted : Bool)
  | returned
  | thrown (fault : Fault)

/-- The code of `T` that a call of the module is in. -/
inductive Frame
  | constructing (this : Nat)
  /-- The destructor of the object that an assignment replaces. -/
  | replacing (old : Nat)
  | onStartUp (this : Nat)
  | onShutDown (this : Nat)
  | deleting (this : Nat)

inductive Reply
  | answer (answer : Answer)
  | enter (frame : Frame)

def notStarted : Fault :=
  .exception "Trying to access a module but it hasn't been started up yet."

def destroyed : Fault := .exception "Trying to access a destroyed module."

def alreadyStarted : Fault := .exception "Trying to start an already started module."

def alreadyShutDown : Fault := .exception "Trying to shut down an already shut down module."

def neverStarted : Fault := .exception "Trying to shut down a module which was never started."

namespace Module
variable (module : Module)

/-- `none` follows a null pointer. -/
def call : Call → Option (Reply × Module)
  | .instanceRef =>
      if !module.isStartedUp then some (.answer (.thrown notStarted), module)
      else if module.isDestroyed then some (.answer (.thrown destroyed), module)
      else module._instance.map fun this => (.answer (.ref this), module)
  | .instancePtr =>
      if !module.isStartedUp then some (.answer (.thrown notStarted), module)
      else if module.isDestroyed then some (.answer (.thrown destroyed), module)
      else some (.answer (.ptr module._instance), module)
  | .startUp =>
      if module.isStartedUp then some (.answer (.thrown alreadyStarted), module)
      else
        let this := module.constructions
        some (.enter (.constructing this), { module with constructions := this + 1 })
  | .shutDown =>
      if module.isDestroyed then some (.answer (.thrown alreadyShutDown), module)
      else if !module.isStartedUp then some (.answer (.thrown neverStarted), module)
      else module._instance.map fun this => (.enter (.onShutDown this), module)
  | .isStarted => some (.answer (.started (module.isStartedUp && !module.isDestroyed)), module)

def started : Option (Reply × Module) :=
  let module := { module with isStartedUp := true }
  module._instance.map fun this => (.enter (.onStartUp this), module)

def leave : Frame → Option (Reply × Module)
  | .constructing this =>
      let assigned := { module with _instance := some this }
      match module._instance with
      | none => assigned.started
      | some old => some (.enter (.replacing old), assigned)
  | .replacing _ => module.started
  | .onStartUp _ => some (.answer .returned, module)
  | .onShutDown _ =>
      match module._instance with
      | none => some (.answer .returned, { module with isDestroyed := true })
      | some this => some (.enter (.deleting this), { module with _instance := none })
  | .deleting _ => some (.answer .returned, { module with isDestroyed := true })

end Module

/-- The destructors do not throw. -/
def Frame.Throws : Frame → Prop
  | .constructing _ | .onStartUp _ | .onShutDown _ => True
  | .replacing _ | .deleting _ => False

def Reply.frames : Reply → List Frame
  | .answer _ => []
  | .enter frame => [frame]

/-- `stack` has the calls under way, the last one first. -/
structure State where
  module : Module := {}
  stack : List Frame := []

inductive Action
  | called (call : Call) (reply : Reply)
  | left (frame : Frame) (reply : Reply)
  | threw (frame : Frame)

def Action.entered : Action → Option Frame
  | .called _ (.enter frame) => some frame
  | .left _ (.enter frame) => some frame
  | _ => none

inductive Step : Action → State → State → Prop
  | call {state : State} {call reply module} (goes : state.module.call call = some (reply, module)) :
      Step (.called call reply) state ⟨module, reply.frames ++ state.stack⟩
  | leave {state : State} {frame rest reply module} (top : state.stack = frame :: rest)
      (goes : state.module.leave frame = some (reply, module)) :
      Step (.left frame reply) state ⟨module, reply.frames ++ rest⟩
  | throw {state : State} {frame rest} (top : state.stack = frame :: rest) (throws : frame.Throws) :
      Step (.threw frame) state ⟨state.module, rest⟩

/-- A constructor of `T` does not start the module itself. -/
def Plain (action : Action) (state : State) : Prop :=
  ∀ reply, action = .called .startUp reply → ∀ this, .constructing this ∉ state.stack

end PackagedTask.Modules
