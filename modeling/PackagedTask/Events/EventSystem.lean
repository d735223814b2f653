import PackagedTask.Events.SpecEvent

namespace PackagedTask.Events
open Library Tasks

/-! `EventSystem` of `core/event.h`, and `Core` of `core/core.h` as far as it forwards to it. -/

/-- The event traits: their names and `std::hash<std::string>`. -/
structure Traits (τ : Type) where
  name : τ → String
  hash : String → Nat

def Traits.get_event_trait_hash {τ : Type} (traits : Traits τ) (eventTrait : τ) : Nat :=
  traits.hash (traits.name eventTrait)

/-- A `SpecEvent<eventTrait>` behind a pointer to its base class. -/
structure BasicEvent (τ δ : Type) where
  eventTrait : τ
  spec : SpecEvent δ := {}
  deriving DecidableEq

structure EventSystem (τ δ α ε ρ : Type) where
  m_events : AList (fun _ : Nat => BasicEvent τ δ) := ∅
  m_threadpool : ThreadPool (Bound δ α) ε ρ

structure Core (τ δ α ε ρ : Type) where
  m_event_system : EventSystem τ δ α ε ρ

namespace EventSystem
variable {τ δ α ε ρ : Type} (traits : Traits τ) (system : EventSystem τ δ α ε ρ)

/-- The cast to `SpecEvent<eventTrait>` is not checked. -/
def find_spec_event (eventTrait : τ) : Option (SpecEvent δ) :=
  (system.m_events.lookup (traits.get_event_trait_hash eventTrait)).map BasicEvent.spec

def modifyEvent (eventTrait : τ) (spec : SpecEvent δ) : EventSystem τ δ α ε ρ :=
  let eventHash := traits.get_event_trait_hash eventTrait
  match system.m_events.lookup eventHash with
  | some event => { system with m_events := system.m_events.insert eventHash { event with spec } }
  | none => system

def registerEvent (eventTrait : τ) : EventSystem τ δ α ε ρ :=
  { system with
    m_events := system.m_events.insert (traits.get_event_trait_hash eventTrait) { eventTrait } }

def subscribeToEvent (eventTrait : τ) (fn : δ) : Nat × EventSystem τ δ α ε ρ :=
  match system.find_spec_event traits eventTrait with
  | none => (0, system)
  | some evt =>
      let bound := evt.bind fn
      (bound.1, system.modifyEvent traits eventTrait bound.2)

def unSubscribeFromEvent (eventTrait : τ) (evh : Nat) : EventSystem τ δ α ε ρ :=
  match system.find_spec_event traits eventTrait with
  | none => system
  | some evt => system.modifyEvent traits eventTrait (evt.unbind evh)

def raiseEvent (moved : α → α) (eventTrait : τ) (args : List (Arg α)) :
    List TaskRef × EventSystem τ δ α ε ρ × List (Arg α) :=
  match system.find_spec_event traits eventTrait with
  | none => ([], system, args)
  | some evt =>
      let called := evt.call moved system.m_threadpool args
      (called.1, { system with m_threadpool := called.2.1 }, called.2.2)

end EventSystem

namespace Core
variable {τ δ α ε ρ : Type} (traits : Traits τ) (core : Core τ δ α ε ρ)

def registerEvent (eventTrait : τ) : Core τ δ α ε ρ :=
  { m_event_system := core.m_event_system.registerEvent traits eventTrait }

def addFunctor (eventTrait : τ) (fn : δ) : Nat × Core τ δ α ε ρ :=
  let subscribed := core.m_event_system.subscribeToEvent traits eventTrait fn
  (subscribed.1, { m_event_system := subscribed.2 })

def removeFunctor (eventTrait : τ) (evh : Nat) : Core τ δ α ε ρ :=
  { m_event_system := core.m_event_system.unSubscribeFromEvent traits eventTrait evh }

def raiseEvent (moved : α → α) (eventTrait : τ) (args : List (Arg α)) :
    List TaskRef × Core τ δ α ε ρ × List (Arg α) :=
  let raised := core.m_event_system.raiseEvent traits moved eventTrait args
  (raised.1, { m_event_system := raised.2.1 }, raised.2.2)

end Core

def boundTasks {δ α : Type} (moved : α → α) :
    TaskRef → List (DelegateHolder δ) → List (Arg α) → List (TaskRef × Bound δ α)
  | _, [], _ => []
  | next, d :: delegates, args =>
      (next, ⟨d.delegate, args.map Arg.value⟩) ::
        boundTasks moved (next + 1) delegates (args.map (Arg.forward moved))

section Tasks
variable {δ α ε ρ : Type} (moved : α → α)

theorem boundTasks_delegates (next : TaskRef) (delegates : List (DelegateHolder δ))
    (args : List (Arg α)) :
    (boundTasks moved next delegates args).map (fun task => task.2.delegate) =
      delegates.map DelegateHolder.delegate := by
  induction delegates generalizing next args with
  | nil => rfl
  | cons d delegates ih => rw [boundTasks, List.map_cons, List.map_cons, ih]

theorem boundTasks_names (next : TaskRef) (delegates : List (DelegateHolder δ))
    (args : List (Arg α)) :
    (boundTasks moved next delegates args).map Prod.fst = List.range' next delegates.length := by
  induction delegates generalizing next args with
  | nil => rfl
  | cons d delegates ih => rw [boundTasks, List.map_cons, ih, List.length_cons, List.range'_succ]

theorem submitAll_eq (delegates : List (DelegateHolder δ)) (pool : ThreadPool (Bound δ α) ε ρ)
    (args : List (Arg α)) :
    let called := SpecEvent.call.submitAll moved delegates pool args
    called.1 = (boundTasks moved pool.nextTask delegates args).map Prod.fst ∧
      called.2.1.m_io_serv = pool.m_io_serv ++ boundTasks moved pool.nextTask delegates args := by
  induction delegates generalizing pool args with
  | nil => simp [SpecEvent.call.submitAll, boundTasks]
  | cons d delegates ih =>
      obtain ⟨futures, queue⟩ :=
        ih (pool.submit ⟨d.delegate, args.map Arg.value⟩).2 (args.map (Arg.forward moved))
      simp only [SpecEvent.call.submitAll, boundTasks, futures, queue]
      simp [ThreadPool.submit]

theorem forward_value (arg : Arg α) :
    (arg.forward moved).value = arg.value ↔
      (arg.category = .rvalue → moved arg.value = arg.value) := by
  obtain ⟨value, category⟩ := arg
  cases category with
  | lvalue => simp [Arg.forward]
  | rvalue => simp [Arg.forward]

theorem forward_unmoved {arg : Arg α}
    (unmoved : arg.category = .rvalue → moved arg.value = arg.value) :
    arg.forward moved = arg := by
  obtain ⟨value, category⟩ := arg
  cases category with
  | lvalue => rfl
  | rvalue => rw [Arg.forward, unmoved rfl]

theorem boundTasks_unmoved {next : TaskRef} {delegates : List (DelegateHolder δ)}
    {args : List (Arg α)} (unmoved : args.map (Arg.forward moved) = args) :
    ∀ task ∈ boundTasks moved next delegates args, task.2.args = args.map Arg.value := by
  induction delegates generalizing next with
  | nil => exact fun _ member => (List.not_mem_nil member).elim
  | cons d delegates ih =>
      rw [boundTasks, unmoved, List.forall_mem_cons]
      exact ⟨rfl, ih⟩

theorem boundTasks_args (next : TaskRef) (delegates : List (DelegateHolder δ))
    (args : List (Arg α)) :
    (∀ task ∈ boundTasks moved next delegates args, task.2.args = args.map Arg.value) ↔
      delegates.length ≤ 1 ∨
        ∀ arg ∈ args, arg.category = .rvalue → moved arg.value = arg.value := by
  match delegates with
  | [] => simp [boundTasks]
  | [d] => simp [boundTasks]
  | d :: second :: delegates =>
      have several : ¬ (d :: second :: delegates).length ≤ 1 := by simp
      rw [or_iff_right several]
      constructor
      · -- the second delegate is bound after every argument was forwarded once
        intro same arg member
        have forwarded : (args.map (Arg.forward moved)).map Arg.value = args.map Arg.value :=
          same _ (List.mem_cons_of_mem _ List.mem_cons_self)
        rw [List.map_map, List.map_inj_left] at forwarded
        exact (forward_value moved arg).mp (forwarded arg member)
      · intro unmoved
        have same : args.map (Arg.forward moved) = args.map id :=
          List.map_congr_left fun arg member => forward_unmoved moved (unmoved arg member)
        exact boundTasks_unmoved moved (same.trans (List.map_id args))

end Tasks

namespace EventSystem
variable {τ δ α ε ρ : Type} {traits : Traits τ} {system : EventSystem τ δ α ε ρ}

def delegatesOf (traits : Traits τ) (system : EventSystem τ δ α ε ρ) (eventTrait : τ) :
    List (DelegateHolder δ) :=
  match system.find_spec_event traits eventTrait with
  | some evt => evt.m_delegates
  | none => []

/-- The tasks of one raise, ahead of the futures that `raiseEvent` returns for them. -/
def raisedTasks (traits : Traits τ) (moved : α → α) (system : EventSystem τ δ α ε ρ)
    (eventTrait : τ) (args : List (Arg α)) : List (TaskRef × Bound δ α) :=
  boundTasks moved system.m_threadpool.nextTask (system.delegatesOf traits eventTrait) args

theorem raiseEvent_tasks (traits : Traits τ) (moved : α → α) (system : EventSystem τ δ α ε ρ)
    (eventTrait : τ) (args : List (Arg α)) :
    let raised := system.raiseEvent traits moved eventTrait args
    let tasks := raisedTasks traits moved system eventTrait args
    raised.1 = tasks.map Prod.fst ∧
      raised.2.1.m_threadpool.m_io_serv = system.m_threadpool.m_io_serv ++ tasks ∧
      raised.2.1.m_events = system.m_events := by
  unfold raiseEvent raisedTasks delegatesOf
  cases system.find_spec_event traits eventTrait with
  | none => simp [boundTasks]
  | some evt =>
      obtain ⟨futures, queue⟩ := submitAll_eq moved evt.m_delegates system.m_threadpool args
      exact ⟨futures, queue, rfl⟩

def submitted {φ : Type} (before after : ThreadPool φ ε ρ) : List (TaskRef × φ) :=
  after.m_io_serv.drop before.m_io_serv.length

theorem submitted_raiseEvent (traits : Traits τ) (moved : α → α) (system : EventSystem τ δ α ε ρ)
    (eventTrait : τ) (args : List (Arg α)) :
    submitted system.m_threadpool (system.raiseEvent traits moved eventTrait args).2.1.m_threadpool =
      raisedTasks traits moved system eventTrait args := by
  rw [submitted, (raiseEvent_tasks traits moved system eventTrait args).2.1, List.drop_left]

/-- Each delegate is called on the values the caller passed, through either class. -/
def SameArguments (traits : Traits τ) (moved : α → α) (core : Core τ δ α ε ρ) (eventTrait : τ)
    (args : List (Arg α)) : Prop :=
  let system := core.m_event_system
  (∀ task ∈ submitted system.m_threadpool
      (system.raiseEvent traits moved eventTrait args).2.1.m_threadpool,
    task.2.args = args.map Arg.value) ∧
  (∀ task ∈ submitted system.m_threadpool
      (core.raiseEvent traits moved eventTrait args).2.1.m_event_system.m_threadpool,
    task.2.args = args.map Arg.value)

theorem sameArguments_iff (traits : Traits τ) (moved : α → α) (core : Core τ δ α ε ρ)
    (eventTrait : τ) (args : List (Arg α)) :
    SameArguments traits moved core eventTrait args ↔
      (delegatesOf traits core.m_event_system eventTrait).length ≤ 1 ∨
        ∀ arg ∈ args, arg.category = .rvalue → moved arg.value = arg.value := by
  simp only [SameArguments, Core.raiseEvent, submitted_raiseEvent, and_self]
  exact boundTasks_args moved _ _ args

section TwoSubscribers

def oneTrait : Traits Unit := ⟨fun _ => "evIncr", String.length⟩

def noSubscriber : Core Unit Nat String Unit Unit :=
  Core.registerEvent oneTrait { m_event_system := { m_threadpool := { m_threads := 1 } } } ()

def twoSubscribers : Core Unit Nat String Unit Unit :=
  (((noSubscriber.addFunctor oneTrait () 7).2).addFunctor oneTrait () 8).2

theorem twoSubscribers_differ :
    ¬ SameArguments oneTrait (fun _ => "") twoSubscribers () [⟨"abc", .rvalue⟩] := by
  intro same
  exact absurd (same.1 (1, ⟨8, [""]⟩) (by decide)) (by decide)

end TwoSubscribers

theorem find_modifyEvent (eventTrait : τ) (spec : SpecEvent δ) :
    (system.modifyEvent traits eventTrait spec).find_spec_event traits eventTrait =
      (system.find_spec_event traits eventTrait).map fun _ => spec := by
  unfold modifyEvent find_spec_event
  cases found : system.m_events.lookup (traits.get_event_trait_hash eventTrait) with
  | none => simp only [found, Option.map_none]
  | some event => simp only [found, AList.lookup_insert, Option.map_some]

theorem find_modifyEvent_of_ne (injective : Function.Injective traits.get_event_trait_hash)
    {eventTrait other : τ} (apart : other ≠ eventTrait) (spec : SpecEvent δ) :
    (system.modifyEvent traits eventTrait spec).find_spec_event traits other =
      system.find_spec_event traits other := by
  unfold modifyEvent
  cases found : system.m_events.lookup (traits.get_event_trait_hash eventTrait) with
  | none => simp only [found]
  | some event =>
      simp only [found, find_spec_event, AList.lookup_insert_ne (injective.ne apart)]

theorem find_registerEvent (eventTrait : τ) :
    (system.registerEvent traits eventTrait).find_spec_event traits eventTrait = some {} := by
  rw [registerEvent, find_spec_event, AList.lookup_insert, Option.map_some]

theorem find_registerEvent_of_ne (injective : Function.Injective traits.get_event_trait_hash)
    {eventTrait other : τ} (apart : other ≠ eventTrait) :
    (system.registerEvent traits eventTrait).find_spec_event traits other =
      system.find_spec_event traits other := by
  rw [registerEvent, find_spec_event, AList.lookup_insert_ne (injective.ne apart), find_spec_event]

theorem find_subscribeToEvent (eventTrait : τ) (fn : δ) :
    (system.subscribeToEvent traits eventTrait fn).2.find_spec_event traits eventTrait =
      (system.find_spec_event traits eventTrait).map fun evt => (evt.bind fn).2 := by
  unfold subscribeToEvent
  cases found : system.find_spec_event traits eventTrait with
  | none => exact found
  | some evt => simp only [find_modifyEvent, found, Option.map_some]

theorem find_subscribeToEvent_of_ne (injective : Function.Injective traits.get_event_trait_hash)
    {eventTrait other : τ} (apart : other ≠ eventTrait) (fn : δ) :
    (system.subscribeToEvent traits eventTrait fn).2.find_spec_event traits other =
      system.find_spec_event traits other := by
  unfold subscribeToEvent
  cases system.find_spec_event traits eventTrait with
  | none => rfl
  | some evt => exact find_modifyEvent_of_ne injective apart _

theorem find_unSubscribeFromEvent (eventTrait : τ) (evh : Nat) :
    (system.unSubscribeFromEvent traits eventTrait evh).find_spec_event traits eventTrait =
      (system.find_spec_event traits eventTrait).map fun evt => evt.unbind evh := by
  unfold unSubscribeFromEvent
  cases found : system.find_spec_event traits eventTrait with
  | none => exact found
  | some evt => simp only [find_modifyEvent, found, Option.map_some]

theorem find_unSubscribeFromEvent_of_ne
    (injective : Function.Injective traits.get_event_trait_hash) {eventTrait other : τ}
    (apart : other ≠ eventTrait) (evh : Nat) :
    (system.unSubscribeFromEvent traits eventTrait evh).find_spec_event traits other =
      system.find_spec_event traits other := by
  unfold unSubscribeFromEvent
  cases system.find_spec_event traits eventTrait with
  | none => rfl
  | some evt => exact find_modifyEvent_of_ne injective apart _

theorem delegatesOf_eq (system : EventSystem τ δ α ε ρ) (eventTrait : τ) :
    delegatesOf traits system eventTrait =
      ((system.find_spec_event traits eventTrait).map SpecEvent.m_delegates).getD [] := by
  unfold delegatesOf
  cases system.find_spec_event traits eventTrait with
  | none => rfl
  | some evt => rfl

theorem delegatesOf_subscribeToEvent (eventTrait : τ) (fn : δ) :
    let subscribed := system.subscribeToEvent traits eventTrait fn
    delegatesOf traits subscribed.2 eventTrait =
      delegatesOf traits system eventTrait ++
        if (system.find_spec_event traits eventTrait).isSome then [⟨fn, subscribed.1⟩] else [] := by
  simp only [delegatesOf_eq, find_subscribeToEvent]
  unfold subscribeToEvent
  cases system.find_spec_event traits eventTrait with
  | none => rfl
  | some evt => rfl

theorem delegatesOf_unSubscribeFromEvent (eventTrait : τ) (evh : Nat) :
    delegatesOf traits (system.unSubscribeFromEvent traits eventTrait evh) eventTrait =
      (delegatesOf traits system eventTrait).filter fun d => d.object ≠ evh := by
  simp only [delegatesOf_eq, find_unSubscribeFromEvent]
  cases system.find_spec_event traits eventTrait with
  | none => rfl
  | some evt => rfl

theorem find_raiseEvent (moved : α → α) (eventTrait other : τ) (args : List (Arg α)) :
    (system.raiseEvent traits moved eventTrait args).2.1.find_spec_event traits other =
      system.find_spec_event traits other := by
  rw [find_spec_event, (raiseEvent_tasks traits moved system eventTrait args).2.2, find_spec_event]

end EventSystem
end PackagedTask.Events
