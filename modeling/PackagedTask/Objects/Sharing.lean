import PackagedTask.Library.Runs
import PackagedTask.Library.Simulation
import PackagedTask.Library.Threads
import PackagedTask.Objects.Store

namespace PackagedTask.Objects.Sharing
open Streams Library Library.Threads

/-! A `GameObjectManager` that several threads use at once, over sequentially consistent memory. An
object, its handle and its entry go by the id of the object; the objects have no handles in them, and
only `~ObjHandle` calls `deleteObj`. -/

inductive Call
  | registerObj
  | objectExists (id : Nat)
  | getObject (id : Nat)
  | getObjectPtr (id : Nat)
  | releaseUnusedObjects
  /-- The destructor of a `PObjHandle`. -/
  | drop (id : Nat)
  /-- Its copy constructor. -/
  | copy (id : Nat)

inductive Result
  | handle (id : Nat)
  | null
  | exist (found : Bool)
  | object (id : Nat)
  | thrown (fault : Fault)
  | nothing

/-- `uses` are the strong counts of the handles, `held` what the callers have of them, and `borrowed`
how many copies of one are under way. -/
structure Shared where
  mNextAvailableID : Nat := 1
  mMutex : Bool := false
  mObjects : Finset Nat := ∅
  is_del_it : Nat → Option Bool := fun _ => none
  uses : Nat → Nat := fun _ => 0
  held : Nat → Nat := fun _ => 0
  borrowed : Nat → Nat := fun _ => 0

inductive Stage
  | fetching
  | locking (new : Option Nat)
  | inserting (id : Nat)
  | finding
  | copying
  | scanning
  | sweeping (rest : List Nat)
  | unlocking (result : Result)
  | counting
  | releasing
  | destroying (id : Nat)
  | leaving (result : Result)

def Call.entry : Call → Stage
  | .registerObj => .fetching
  | .drop _ => .releasing
  | .copy _ => .counting
  | _ => .locking none

def Call.section : Call → Stage
  | .releaseUnusedObjects => .scanning
  | _ => .finding

namespace Shared
variable (shared : Shared)

def count (id uses : Nat) : Shared := { shared with uses := Function.update shared.uses id uses }

def hold (id held : Nat) : Shared := { shared with held := Function.update shared.held id held }

def borrow (id borrowed : Nat) : Shared :=
  { shared with borrowed := Function.update shared.borrowed id borrowed }

def create (id : Nat) : Shared :=
  { shared with
    mNextAvailableID := id + 1
    is_del_it := Function.update shared.is_del_it id (some false)
    uses := Function.update shared.uses id 1 }

def deleteObj (id : Nat) : Shared :=
  { shared with is_del_it := Function.update shared.is_del_it id (some true) }

/-- The entry owns the object. -/
def erase (id : Nat) : Shared :=
  { shared with
    mObjects := shared.mObjects.erase id
    is_del_it := Function.update shared.is_del_it id none }

/-- The callers have the handle that a call is about, and drop none while it is copied. -/
def Has : Call → Prop
  | .drop id => (if shared.borrowed id = 0 then 0 else 1) < shared.held id
  | .copy id => 0 < shared.held id
  | _ => True

/-- A copy only reads the handle of the caller. -/
def take : Call → Shared
  | .drop id => shared.hold id (shared.held id - 1)
  | .copy id => shared.borrow id (shared.borrowed id + 1)
  | _ => shared

def giveBack : Call → Shared
  | .copy id => shared.borrow id (shared.borrowed id - 1)
  | _ => shared

def give : Result → Shared
  | .handle id => shared.hold id (shared.held id + 1)
  | _ => shared

def find : Call → Option Stage
  | .objectExists id => some (.unlocking (.exist (id ∈ shared.mObjects)))
  | .getObject id =>
      some (if id ∈ shared.mObjects then .copying else .unlocking (.thrown notCreated))
  | .getObjectPtr id =>
      some (.unlocking (if id ∈ shared.mObjects then .object id else .thrown notCreated))
  | _ => none

end Shared

/-- One access to shared memory; `none` is a thread that waits for the mutex, fails an assertion or
reaches an object that is gone. `order` is that of an iteration over the map. -/
def advance (order : List Nat) (call : Call) (shared : Shared) : Stage → Option (Stage × Shared)
  | .fetching =>
      let id := shared.mNextAvailableID
      if id < 2 ^ 32 - 1 then some (.locking (some id), shared.create id) else none
  | .locking new =>
      if shared.mMutex then none
      else some (new.elim call.section .inserting, { shared with mMutex := true })
  | .inserting id =>
      some (.unlocking (.handle id), { shared with mObjects := insert id shared.mObjects })
  | .finding => (shared.find call).map fun stage => (stage, shared)
  | .copying =>
      match call with
      | .getObject id =>
          if shared.uses id = 0 then some (.unlocking .null, shared)
          else some (.unlocking (.handle id), shared.count id (shared.uses id + 1))
      | _ => none
  | .scanning =>
      if order.Nodup ∧ order.toFinset = shared.mObjects then some (.sweeping order, shared) else none
  | .sweeping [] => some (.unlocking .nothing, shared)
  | .sweeping (id :: rest) =>
      (shared.is_del_it id).map fun deleted =>
        (.sweeping rest, if deleted then shared.erase id else shared)
  | .unlocking result => some (.leaving result, { shared with mMutex := false })
  | .counting =>
      match call with
      | .copy id =>
          if shared.uses id = 0 then none
          else some (.leaving (.handle id), shared.count id (shared.uses id + 1))
      | _ => none
  | .releasing =>
      match call with
      | .drop id =>
          if shared.uses id = 0 then none
          else some (if shared.uses id = 1 then .destroying id else .leaving .nothing,
            shared.count id (shared.uses id - 1))
      | _ => none
  | .destroying id => (shared.is_del_it id).map fun _ => (.leaving .nothing, shared.deleteObj id)
  | .leaving _ => none

/-- All that a thread can come to by its next access. -/
inductive Goes (order : List Nat) (call : Call) (shared : Shared) : Stage → Stage → Shared → Prop
  | fetching (left : shared.mNextAvailableID < 2 ^ 32 - 1) :
      Goes order call shared .fetching (.locking (some shared.mNextAvailableID))
        (shared.create shared.mNextAvailableID)
  | locking (new : Option Nat) (free : shared.mMutex = false) :
      Goes order call shared (.locking new) (new.elim call.section .inserting)
        { shared with mMutex := true }
  | inserting (id : Nat) :
      Goes order call shared (.inserting id) (.unlocking (.handle id))
        { shared with mObjects := insert id shared.mObjects }
  | finding {stage : Stage} (found : shared.find call = some stage) :
      Goes order call shared .finding stage shared
  | unused {id : Nat} (asks : call = .getObject id) (unused : shared.uses id = 0) :
      Goes order call shared .copying (.unlocking .null) shared
  | copying {id : Nat} (asks : call = .getObject id) (used : shared.uses id ≠ 0) :
      Goes order call shared .copying (.unlocking (.handle id)) (shared.count id (shared.uses id + 1))
  | scanning (distinct : order.Nodup) (whole : order.toFinset = shared.mObjects) :
      Goes order call shared .scanning (.sweeping order) shared
  | swept : Goes order call shared (.sweeping []) (.unlocking .nothing) shared
  | sweeping {id : Nat} {rest : List Nat} {deleted : Bool} (flag : shared.is_del_it id = some deleted) :
      Goes order call shared (.sweeping (id :: rest)) (.sweeping rest)
        (if deleted then shared.erase id else shared)
  | unlocking (result : Result) :
      Goes order call shared (.unlocking result) (.leaving result) { shared with mMutex := false }
  | counting {id : Nat} (asks : call = .copy id) (used : shared.uses id ≠ 0) :
      Goes order call shared .counting (.leaving (.handle id)) (shared.count id (shared.uses id + 1))
  | releasing {id : Nat} (asks : call = .drop id) (used : shared.uses id ≠ 0) :
      Goes order call shared .releasing
        (if shared.uses id = 1 then .destroying id else .leaving .nothing)
        (shared.count id (shared.uses id - 1))
  | destroying {id : Nat} {deleted : Bool} (flag : shared.is_del_it id = some deleted) :
      Goes order call shared (.destroying id) (.leaving .nothing) (shared.deleteObj id)

theorem advance_goes {order : List Nat} {call : Call} {shared shared' : Shared} {stage stage' : Stage}
    (goes : advance order call shared stage = some (stage', shared')) :
    Goes order call shared stage stage' shared' := by
  cases stage with
  | fetching =>
      simp only [advance] at goes
      split at goes
      · next left =>
          cases goes
          exact .fetching left
      · cases goes
  | locking new =>
      simp only [advance] at goes
      split at goes
      · cases goes
      · next free =>
          cases goes
          exact .locking new (by simpa using free)
  | inserting id =>
      cases goes
      exact .inserting id
  | finding =>
      simp only [advance, Option.map_eq_some_iff] at goes
      obtain ⟨stage, found, same⟩ := goes
      cases same
      exact .finding found
  | copying =>
      simp only [advance] at goes
      split at goes
      · split at goes
        · next unused =>
            cases goes
            exact .unused rfl unused
        · next used =>
            cases goes
            exact .copying rfl used
      · cases goes
  | scanning =>
      simp only [advance] at goes
      split at goes
      · next iterates =>
          cases goes
          exact .scanning iterates.1 iterates.2
      · cases goes
  | sweeping rest =>
      cases rest with
      | nil =>
          cases goes
          exact .swept
      | cons id rest =>
          simp only [advance, Option.map_eq_some_iff] at goes
          obtain ⟨deleted, flag, same⟩ := goes
          cases same
          exact .sweeping flag
  | unlocking result =>
      cases goes
      exact .unlocking result
  | counting =>
      simp only [advance] at goes
      split at goes
      · split at goes
        · cases goes
        · next used =>
            cases goes
            exact .counting rfl used
      · cases goes
  | releasing =>
      simp only [advance] at goes
      split at goes
      · split at goes
        · cases goes
        · next used =>
            cases goes
            exact .releasing rfl used
      · cases goes
  | destroying id =>
      simp only [advance, Option.map_eq_some_iff] at goes
      obtain ⟨deleted, flag, same⟩ := goes
      cases same
      exact .destroying flag
  | leaving result => cases goes

abbrev Position := Option (Call × Stage)

abbrev Machine (θ : Type) := Threads θ Shared Position

inductive Action (θ : Type)
  | called (t : θ) (call : Call)
  | ran (t : θ)
  | returned (t : θ) (result : Result)

variable {θ : Type} [DecidableEq θ]

inductive Step : Action θ → Machine θ → Machine θ → Prop
  | call {machine : Machine θ} (t : θ) (call : Call) (idle : machine.position t = none)
      (has : machine.shared.Has call) :
      Step (.called t call) machine (machine.move t (some (call, call.entry)) (machine.shared.take call))
  | run {machine : Machine θ} {t call stage stage' shared} (order : List Nat)
      (here : machine.position t = some (call, stage))
      (goes : advance order call machine.shared stage = some (stage', shared)) :
      Step (.ran t) machine (machine.move t (some (call, stage')) shared)
  | respond {machine : Machine θ} {t call result}
      (here : machine.position t = some (call, .leaving result)) :
      Step (.returned t result) machine
        (machine.move t none ((machine.shared.giveBack call).give result))

def start : Machine θ := ⟨{}, fun _ => none⟩

def Action.shown : Action θ → Option (Shown θ Call Result)
  | .called t call => some (.called t call)
  | .ran _ => none
  | .returned t result => some (.returned t result)

section Schedules

instance (shared : Shared) : DecidablePred shared.Has
  | .drop id => inferInstanceAs (Decidable (_ < shared.held id))
  | .copy id => inferInstanceAs (Decidable (0 < shared.held id))
  | .registerObj => .isTrue trivial
  | .objectExists _ => .isTrue trivial
  | .getObject _ => .isTrue trivial
  | .getObjectPtr _ => .isTrue trivial
  | .releaseUnusedObjects => .isTrue trivial

inductive Choice (θ : Type)
  | call (t : θ) (call : Call)
  | go (t : θ) (order : List Nat)

def choose (machine : Machine θ) : Choice θ → Option (Action θ × Machine θ)
  | .call t call =>
      match machine.position t with
      | none =>
          if machine.shared.Has call then
            some (.called t call, machine.move t (some (call, call.entry)) (machine.shared.take call))
          else none
      | some _ => none
  | .go t order =>
      match machine.position t with
      | none => none
      | some (call, .leaving result) =>
          some (.returned t result,
            machine.move t none ((machine.shared.giveBack call).give result))
      | some (call, stage) =>
          (advance order call machine.shared stage).map fun next =>
            (.ran t, machine.move t (some (call, next.1)) next.2)

theorem choose_step {machine last : Machine θ} {choice : Choice θ} {action : Action θ}
    (chosen : choose machine choice = some (action, last)) : Step action machine last := by
  cases choice with
  | call t call =>
      simp only [choose] at chosen
      split at chosen
      · next idle =>
          split at chosen
          · next has =>
              cases chosen
              exact .call t call idle has
          · cases chosen
      · cases chosen
  | go t order =>
      simp only [choose] at chosen
      split at chosen
      · cases chosen
      · next here =>
          cases chosen
          exact .respond here
      · next call stage _ here =>
          obtain ⟨next, goes, same⟩ := Option.map_eq_some_iff.mp chosen
          cases same
          exact .run order here goes

end Schedules

/-! The registry that the callers are to see. -/

/-- `issued` are the ids given out; a registered object counts the handles that code has. -/
structure Registry where
  issued : Set Nat := ∅
  handles : Nat → Option Nat := fun _ => none

namespace Registry
variable (registry : Registry)

def count (id handles : Nat) : Registry :=
  { registry with handles := Function.update registry.handles id (some handles) }

def register (id : Nat) : Registry :=
  ⟨insert id registry.issued, Function.update registry.handles id (some 1)⟩

/-- Objects go that no handle is left of. -/
structure Sweeps (before after : Registry) : Prop where
  issued : after.issued = before.issued
  kept : ∀ id, after.handles id = before.handles id ∨
    before.handles id = some 0 ∧ after.handles id = none

end Registry

/-- What a call returns and does when no other is under way. -/
inductive Serves : Call × Result → Registry → Registry → Prop
  | registerObj {registry : Registry} {id} (positive : 0 < id) (new : id ∉ registry.issued) :
      Serves (.registerObj, .handle id) registry (registry.register id)
  | objectExists {registry : Registry} (id : Nat) :
      Serves (.objectExists id, .exist (registry.handles id).isSome) registry registry
  | getObject {registry : Registry} {id handles} (used : registry.handles id = some (handles + 1)) :
      Serves (.getObject id, .handle id) registry (registry.count id (handles + 2))
  | getObject_unused {registry : Registry} {id} (unused : registry.handles id = some 0) :
      Serves (.getObject id, .null) registry registry
  | getObject_missing {registry : Registry} {id} (missing : registry.handles id = none) :
      Serves (.getObject id, .thrown notCreated) registry registry
  | getObjectPtr {registry : Registry} {id handles} (found : registry.handles id = some handles) :
      Serves (.getObjectPtr id, .object id) registry registry
  | getObjectPtr_missing {registry : Registry} {id} (missing : registry.handles id = none) :
      Serves (.getObjectPtr id, .thrown notCreated) registry registry
  | releaseUnusedObjects {before after : Registry} (sweeps : before.Sweeps after) :
      Serves (.releaseUnusedObjects, .nothing) before after
  | drop {registry : Registry} {id handles} (used : registry.handles id = some (handles + 1)) :
      Serves (.drop id, .nothing) registry (registry.count id handles)
  | copy {registry : Registry} {id handles} (used : registry.handles id = some (handles + 1)) :
      Serves (.copy id, .handle id) registry (registry.count id (handles + 2))

end PackagedTask.Objects.Sharing
