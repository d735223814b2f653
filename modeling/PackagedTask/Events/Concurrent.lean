import PackagedTask.Library.Simulation
import PackagedTask.Events.EventSystem

namespace PackagedTask.Events.Concurrent
open Library Tasks

/-! The `EventSystem` under any number of threads, step by step. Memory is sequentially
consistent, and what one statement does to a container or to the pool is one step. -/

inductive Call (τ δ α : Type)
  | registerEvent (eventTrait : τ)
  | subscribeToEvent (eventTrait : τ) (fn : δ)
  | unSubscribeFromEvent (eventTrait : τ) (evh : Nat)
  | raiseEvent (eventTrait : τ) (args : List (Arg α))

def Call.eventTrait {τ δ α : Type} : Call τ δ α → τ
  | .registerEvent eventTrait | .subscribeToEvent eventTrait _ | .unSubscribeFromEvent eventTrait _
  | .raiseEvent eventTrait _ => eventTrait

abbrev Future (δ α : Type) := TaskRef × Bound δ α

inductive Result (δ α : Type)
  | nothing
  | handle (evh : Nat)
  | futures (res : List (Future δ α))

def Call.absent {τ δ α : Type} : Call τ δ α → Result δ α
  | .subscribeToEvent _ _ => .handle 0
  | .raiseEvent _ _ => .futures []
  | _ => .nothing

abbrev Ptr := Nat

structure SpecObject (τ δ : Type) where
  m_access_flag : Bool := false
  event : BasicEvent τ δ

structure Shared (τ δ α ε ρ : Type) where
  result : τ → Nat := fun _ => 0
  m_access_flag : Bool := false
  m_events : AList (fun _ : Nat => Ptr) := ∅
  objects : AList (fun _ : Ptr => SpecObject τ δ) := ∅
  nextObject : Ptr := 0
  m_threadpool : ThreadPool (Bound δ α) ε ρ

inductive Stage (δ α : Type)
  -- `get_event_trait_hash`
  | testing
  | storing
  | loading
  -- `FlagLock` of the `EventSystem`; `registerEvent` has its hash by then
  | locking (eventHash : Option Nat)
  | making (eventHash : Nat)
  | assigning (eventHash : Nat) (evt : Ptr)
  | finding (eventHash : Nat)
  -- `FlagLock` of the `SpecEvent`
  | accessing (evt : Ptr)
  | counting (evt : Ptr) (fn : δ)
  | pushing (evt : Ptr) (fn : δ) (evh : Nat)
  | erasing (evt : Ptr) (evh : Nat)
  | calling (evt : Ptr) (d : Nat) (args : List (Arg α)) (res : List (Future δ α))
  | releasing (evt : Ptr) (result : Result δ α)
  | unlocking (result : Result δ α)
  | leaving (result : Result δ α)

def Call.entry {τ δ α : Type} : Call τ δ α → Stage δ α
  | .registerEvent _ => .testing
  | _ => .locking none

structure Next (τ δ α ε ρ : Type) where
  stage : Stage δ α
  shared : Shared τ δ α ε ρ
  posted : Option (Future δ α) := none

section Code
variable {τ δ α ε ρ : Type} [DecidableEq τ] (traits : Traits τ) (moved : α → α)

def Shared.deref (shared : Shared τ δ α ε ρ) (evt : Ptr) : Option (SpecObject τ δ) :=
  shared.objects.lookup evt

def Shared.store (shared : Shared τ δ α ε ρ) (evt : Ptr) (object : SpecObject τ δ) :
    Shared τ δ α ε ρ :=
  { shared with objects := shared.objects.insert evt object }

/-- `m_events[eventHash] = evt`: the `unique_ptr` destroys the object it had. -/
def Shared.assign (shared : Shared τ δ α ε ρ) (eventHash : Nat) (evt : Ptr) : Shared τ δ α ε ρ :=
  let objects := match shared.m_events.lookup eventHash with
    | some old => shared.objects.erase old
    | none => shared.objects
  { shared with m_events := shared.m_events.insert eventHash evt, objects }

/-- `m_flag.exchange(true)`: whether this thread has the lock now, and the flag. -/
def exchange (flag : Bool) : Bool × Bool := (!flag, true)

def Call.member (call : Call τ δ α) (evt : Ptr) : Option (Stage δ α) :=
  match call with
  | .registerEvent _ => none
  | .subscribeToEvent _ fn => some (.counting evt fn)
  | .unSubscribeFromEvent _ evh => some (.erasing evt evh)
  | .raiseEvent _ args => some (.calling evt 0 args [])

/-- The next step of a call; `none` is an access to an object that is gone. -/
def advance (call : Call τ δ α) (shared : Shared τ δ α ε ρ) : Stage δ α → Option (Next τ δ α ε ρ)
  | .testing =>
      some ⟨if shared.result call.eventTrait = 0 then .storing else .loading, shared, none⟩
  | .storing =>
      let eventHash := traits.get_event_trait_hash call.eventTrait
      some ⟨.loading,
        { shared with result := Function.update shared.result call.eventTrait eventHash }, none⟩
  | .loading =>
      let eventHash := shared.result call.eventTrait
      match call with
      | .registerEvent _ => some ⟨.locking (some eventHash), shared, none⟩
      | _ => some ⟨.finding eventHash, shared, none⟩
  | .locking eventHash =>
      let (mine, m_access_flag) := exchange shared.m_access_flag
      let shared := { shared with m_access_flag }
      if mine then
        match eventHash with
        | some eventHash => some ⟨.making eventHash, shared, none⟩
        | none => some ⟨.testing, shared, none⟩
      else some ⟨.locking eventHash, shared, none⟩
  | .making eventHash =>
      let evt := shared.nextObject
      let shared := shared.store evt { event := { eventTrait := call.eventTrait } }
      some ⟨.assigning eventHash evt, { shared with nextObject := evt + 1 }, none⟩
  | .assigning eventHash evt =>
      some ⟨.unlocking .nothing, shared.assign eventHash evt, none⟩
  | .finding eventHash =>
      match shared.m_events.lookup eventHash with
      | none => some ⟨.unlocking call.absent, shared, none⟩
      | some evt => some ⟨.accessing evt, shared, none⟩
  | .accessing evt => do
      let object ← shared.deref evt
      let (mine, m_access_flag) := exchange object.m_access_flag
      let shared := shared.store evt { object with m_access_flag }
      if mine then
        let stage ← call.member evt
        some ⟨stage, shared, none⟩
      else some ⟨.accessing evt, shared, none⟩
  | .counting evt fn => do
      let object ← shared.deref evt
      let m_next_available_ID := object.event.spec.m_next_available_ID + 1
      let spec := { object.event.spec with m_next_available_ID }
      let shared := shared.store evt { object with event := { object.event with spec } }
      some ⟨.pushing evt fn m_next_available_ID.toNat, shared, none⟩
  | .pushing evt fn evh => do
      let object ← shared.deref evt
      let m_delegates := object.event.spec.m_delegates ++ [⟨fn, evh⟩]
      let spec := { object.event.spec with m_delegates }
      let shared := shared.store evt { object with event := { object.event with spec } }
      some ⟨.releasing evt (.handle evh), shared, none⟩
  | .erasing evt evh => do
      let object ← shared.deref evt
      let spec := object.event.spec.unbind evh
      let shared := shared.store evt { object with event := { object.event with spec } }
      some ⟨.releasing evt .nothing, shared, none⟩
  | .calling evt d args res => do
      let object ← shared.deref evt
      match object.event.spec.m_delegates[d]? with
      | none => some ⟨.releasing evt (.futures res), shared, none⟩
      | some holder =>
          let fn : Bound δ α := ⟨holder.delegate, args.map Arg.value⟩
          let submitted := shared.m_threadpool.submit fn
          some
            { stage := .calling evt (d + 1) (args.map (Arg.forward moved))
                (res ++ [(submitted.1, fn)])
              shared := { shared with m_threadpool := submitted.2 }
              posted := some (submitted.1, fn) }
  | .releasing evt result => do
      let object ← shared.deref evt
      some ⟨.unlocking result, shared.store evt { object with m_access_flag := false }, none⟩
  | .unlocking result => some ⟨.leaving result, { shared with m_access_flag := false }, none⟩
  | .leaving _ => none

section Members
variable {traits} {moved} {call : Call τ δ α} {shared : Shared τ δ α ε ρ}
  {evt : Ptr} {object : SpecObject τ δ} (live : shared.deref evt = some object)
include live

theorem advance_accessing (free : object.m_access_flag = false) :
    advance traits moved call shared (.accessing evt) =
      (call.member evt).map fun stage =>
        ⟨stage, shared.store evt { object with m_access_flag := true }, none⟩ := by
  simp only [advance, live, Option.bind_eq_bind, Option.bind_some, exchange, free]
  cases call <;> rfl

theorem advance_counting (fn : δ) :
    advance traits moved call shared (.counting evt fn) =
      some
        { stage := .pushing evt fn (object.event.spec.m_next_available_ID + 1).toNat
          shared := shared.store evt { object with event := { object.event with spec :=
            { object.event.spec with
              m_next_available_ID := object.event.spec.m_next_available_ID + 1 } } } } := by
  simp only [advance, live, Option.bind_eq_bind, Option.bind_some]

theorem advance_pushing (fn : δ) (evh : Nat) :
    advance traits moved call shared (.pushing evt fn evh) =
      some
        { stage := .releasing evt (.handle evh)
          shared := shared.store evt { object with event := { object.event with spec :=
            { object.event.spec with
              m_delegates := object.event.spec.m_delegates ++ [⟨fn, evh⟩] } } } } := by
  simp only [advance, live, Option.bind_eq_bind, Option.bind_some]

theorem advance_erasing (evh : Nat) :
    advance traits moved call shared (.erasing evt evh) =
      some
        { stage := .releasing evt .nothing
          shared := shared.store evt { object with event :=
            { object.event with spec := object.event.spec.unbind evh } } } := by
  simp only [advance, live, Option.bind_eq_bind, Option.bind_some]

theorem advance_calling_end {d : Nat} (args : List (Arg α)) (res : List (Future δ α))
    (done : object.event.spec.m_delegates[d]? = none) :
    advance traits moved call shared (.calling evt d args res) =
      some ⟨.releasing evt (.futures res), shared, none⟩ := by
  simp only [advance, live, Option.bind_eq_bind, Option.bind_some, done]

theorem advance_calling {d : Nat} {holder : DelegateHolder δ} (args : List (Arg α))
    (res : List (Future δ α)) (here : object.event.spec.m_delegates[d]? = some holder) :
    advance traits moved call shared (.calling evt d args res) =
      let fn : Bound δ α := ⟨holder.delegate, args.map Arg.value⟩
      let submitted := shared.m_threadpool.submit fn
      some
        { stage := .calling evt (d + 1) (args.map (Arg.forward moved)) (res ++ [(submitted.1, fn)])
          shared := { shared with m_threadpool := submitted.2 }
          posted := some (submitted.1, fn) } := by
  simp only [advance, live, Option.bind_eq_bind, Option.bind_some, here]

theorem advance_releasing (result : Result δ α) :
    advance traits moved call shared (.releasing evt result) =
      some ⟨.unlocking result, shared.store evt { object with m_access_flag := false }, none⟩ := by
  simp only [advance, live, Option.bind_eq_bind, Option.bind_some]

end Members

def Result.res : Result δ α → List (Future δ α)
  | .futures res => res
  | _ => []

def Stage.pending : Stage δ α → List (Future δ α)
  | .calling _ _ _ res => res
  | .releasing _ result | .unlocking result | .leaving result => result.res
  | _ => []

structure Effects (shared : Shared τ δ α ε ρ) (stage : Stage δ α) (next : Next τ δ α ε ρ) :
    Prop where
  statics : stage ≠ .storing → next.shared.result = shared.result
  posts : (next.posted = none ∧ next.shared.m_threadpool = shared.m_threadpool ∧
      next.stage.pending = stage.pending) ∨
    ∃ fn, next.posted = some ((shared.m_threadpool.submit fn).1, fn) ∧
      next.shared.m_threadpool = (shared.m_threadpool.submit fn).2 ∧
      next.stage.pending = stage.pending ++ [((shared.m_threadpool.submit fn).1, fn)]

variable {traits} {moved} {call : Call τ δ α} {shared : Shared τ δ α ε ρ}
  {stage : Stage δ α} {next : Next τ δ α ε ρ}

theorem advance_effects (goes : advance traits moved call shared stage = some next) :
    Effects shared stage next := by
  have through : ∀ evt, (shared.deref evt = none →
      advance traits moved call shared stage = none) → ∃ object, shared.deref evt = some object := by
    intro evt gone
    refine Option.ne_none_iff_exists'.mp fun missing => ?_
    rw [gone missing] at goes
    cases goes
  cases stage with
  | storing =>
      cases goes
      exact ⟨fun elsewhere => (elsewhere rfl).elim, .inl ⟨rfl, rfl, rfl⟩⟩
  | making eventHash | assigning eventHash evt | unlocking result =>
      cases goes
      exact ⟨fun _ => rfl, .inl ⟨rfl, rfl, rfl⟩⟩
  | leaving result => cases goes
  | testing =>
      by_cases unknown : shared.result call.eventTrait = 0 <;> simp [advance, unknown] at goes <;>
        cases goes <;> exact ⟨fun _ => rfl, .inl ⟨rfl, rfl, rfl⟩⟩
  | loading => cases call <;> cases goes <;> exact ⟨fun _ => rfl, .inl ⟨rfl, rfl, rfl⟩⟩
  | locking eventHash =>
      cases free : shared.m_access_flag <;> cases eventHash <;>
        simp [advance, exchange, free] at goes <;> cases goes <;>
        exact ⟨fun _ => rfl, .inl ⟨rfl, rfl, rfl⟩⟩
  | finding eventHash =>
      cases found : shared.m_events.lookup eventHash with
      | none =>
          simp [advance, found] at goes
          cases goes
          exact ⟨fun _ => rfl, .inl ⟨rfl, rfl, by cases call <;> rfl⟩⟩
      | some evt =>
          simp [advance, found] at goes
          cases goes
          exact ⟨fun _ => rfl, .inl ⟨rfl, rfl, rfl⟩⟩
  | accessing evt =>
      obtain ⟨object, live⟩ := through evt (by intro gone; simp [advance, gone])
      cases free : object.m_access_flag with
      | false =>
          rw [advance_accessing live free] at goes
          cases call <;> cases goes <;> exact ⟨fun _ => rfl, .inl ⟨rfl, rfl, rfl⟩⟩
      | true =>
          simp [advance, live, exchange, free] at goes
          cases goes
          exact ⟨fun _ => rfl, .inl ⟨rfl, rfl, rfl⟩⟩
  | counting evt fn =>
      obtain ⟨object, live⟩ := through evt (by intro gone; simp [advance, gone])
      rw [advance_counting live] at goes
      cases goes
      exact ⟨fun _ => rfl, .inl ⟨rfl, rfl, rfl⟩⟩
  | pushing evt fn evh =>
      obtain ⟨object, live⟩ := through evt (by intro gone; simp [advance, gone])
      rw [advance_pushing live] at goes
      cases goes
      exact ⟨fun _ => rfl, .inl ⟨rfl, rfl, rfl⟩⟩
  | erasing evt evh =>
      obtain ⟨object, live⟩ := through evt (by intro gone; simp [advance, gone])
      rw [advance_erasing live] at goes
      cases goes
      exact ⟨fun _ => rfl, .inl ⟨rfl, rfl, rfl⟩⟩
  | calling evt d args res =>
      obtain ⟨object, live⟩ := through evt (by intro gone; simp [advance, gone])
      cases here : object.event.spec.m_delegates[d]? with
      | none =>
          rw [advance_calling_end live args res here] at goes
          cases goes
          exact ⟨fun _ => rfl, .inl ⟨rfl, rfl, rfl⟩⟩
      | some holder =>
          rw [advance_calling live args res here] at goes
          cases goes
          exact ⟨fun _ => rfl, .inr ⟨_, rfl, rfl, rfl⟩⟩
  | releasing evt result =>
      obtain ⟨object, live⟩ := through evt (by intro gone; simp [advance, gone])
      rw [advance_releasing live] at goes
      cases goes
      exact ⟨fun _ => rfl, .inl ⟨rfl, rfl, rfl⟩⟩

abbrev Position (τ δ α : Type) := Option (Call τ δ α × Stage δ α)

abbrev Machine (θ τ δ α ε ρ : Type) := Threads θ (Shared τ δ α ε ρ) (Position τ δ α)

inductive Action (θ τ δ α ε ρ : Type)
  | called (t : θ) (call : Call τ δ α)
  | ran (t : θ) (posted : Option (Future δ α))
  | returned (t : θ) (result : Result δ α)
  | worked (op : ThreadPool.Operation (Bound δ α) ε ρ)

variable (traits) (moved) {θ : Type} [DecidableEq θ]

inductive Step : Action θ τ δ α ε ρ → Machine θ τ δ α ε ρ → Machine θ τ δ α ε ρ → Prop
  | call {machine} (t : θ) (call : Call τ δ α) (idle : machine.position t = none) :
      Step (.called t call) machine (machine.move t (some (call, call.entry)) machine.shared)
  | run {machine t call stage next} (here : machine.position t = some (call, stage))
      (goes : advance traits moved call machine.shared stage = some next) :
      Step (.ran t next.posted) machine (machine.move t (some (call, next.stage)) next.shared)
  | respond {machine t call result} (here : machine.position t = some (call, .leaving result)) :
      Step (.returned t result) machine (machine.move t none machine.shared)
  | work {machine op pool} (next : ThreadPool.Step op machine.shared.m_threadpool pool) :
      Step (.worked op) machine (machine.disturb { machine.shared with m_threadpool := pool })

def start (pool : ThreadPool (Bound δ α) ε ρ) : Machine θ τ δ α ε ρ :=
  ⟨{ m_threadpool := pool }, fun _ => none⟩

def Action.shown : Action θ τ δ α ε ρ → Option (Shown θ (Call τ δ α) (Result δ α))
  | .called t call => some (.called t call)
  | .returned t result => some (.returned t result)
  | _ => none

inductive Choice (θ τ δ α : Type)
  | call (t : θ) (call : Call τ δ α)
  | go (t : θ)

def choose (machine : Machine θ τ δ α ε ρ) :
    Choice θ τ δ α → Option (Action θ τ δ α ε ρ × Machine θ τ δ α ε ρ)
  | .call t call =>
      match machine.position t with
      | none => some (.called t call, machine.move t (some (call, call.entry)) machine.shared)
      | some _ => none
  | .go t =>
      match machine.position t with
      | none => none
      | some (_, .leaving result) => some (.returned t result, machine.move t none machine.shared)
      | some (call, stage) =>
          (advance traits moved call machine.shared stage).map fun next =>
            (.ran t next.posted, machine.move t (some (call, next.stage)) next.shared)

variable {traits} {moved} {machine last : Machine θ τ δ α ε ρ}

theorem choose_step {choice : Choice θ τ δ α} {action : Action θ τ δ α ε ρ}
    (chosen : choose traits moved machine choice = some (action, last)) :
    Step traits moved action machine last := by
  cases choice with
  | call t call =>
      simp only [choose] at chosen
      split at chosen
      · next idle =>
          cases chosen
          exact .call t call idle
      · cases chosen
  | go t =>
      simp only [choose] at chosen
      split at chosen
      · cases chosen
      · next here =>
          cases chosen
          exact .respond here
      · next call stage _ here =>
          obtain ⟨next, goes, same⟩ := Option.map_eq_some_iff.mp chosen
          cases same
          exact .run here goes

end Code

section TwoThreads

def twoThreads : List (Choice Bool Unit Nat Nat) :=
  .call false (.registerEvent ()) :: .call true (.subscribeToEvent () 7) ::
    [false, false, true, false, true, false, true, false, true, true, true].map .go ++
    [false, false, false, false, false].map .go ++
    .call true (.subscribeToEvent () 7) :: List.replicate 10 (.go true) ++
    .call false (.raiseEvent () [⟨5, .lvalue⟩]) :: .call true (.subscribeToEvent () 8) ::
    [false, true, false, false, false, true, false, false, false, false, false, false].map .go

def emptyMachine : Machine Bool Unit Nat Nat Unit Unit := start { m_threads := 1 }

def twoThreadsShown : List (Shown Bool (Call Unit Nat Nat) (Result Nat Nat)) :=
  [.called false (.registerEvent ()), .called true (.subscribeToEvent () 7),
    .returned true (.handle 0), .returned false .nothing, .called true (.subscribeToEvent () 7),
    .returned true (.handle 1), .called false (.raiseEvent () [⟨5, .lvalue⟩]),
    .called true (.subscribeToEvent () 8), .returned false (.futures [(0, ⟨7, [5]⟩)])]

theorem twoThreads_run : ∃ past last,
    Run (Step EventSystem.oneTrait id) emptyMachine past last ∧
      observed Action.shown past = twoThreadsShown ∧
      last.position true = some (.subscribeToEvent () 8, .locking none) := by
  have performed : perform (choose EventSystem.oneTrait id) emptyMachine twoThreads = some _ := rfl
  exact ⟨_, _, perform_run choose_step performed, rfl, rfl⟩

end TwoThreads
end PackagedTask.Events.Concurrent
