import Mathlib.Data.List.Nodup
import PackagedTask.Library.Runs
import PackagedTask.Events.EventSystem

namespace PackagedTask.Events
open Library Tasks

/-- A call as a history records it, with the handle it returned. -/
inductive Event (τ δ : Type)
  | registered (eventTrait : τ)
  | subscribed (eventTrait : τ) (fn : δ) (evh : Nat)
  | unsubscribed (eventTrait : τ) (evh : Nat)
  | raised (eventTrait : τ)
  | worked

section Histories
variable {τ δ : Type} [DecidableEq τ]

def Event.eventTrait : Event τ δ → Option τ
  | .registered eventTrait | .subscribed eventTrait _ _ | .unsubscribed eventTrait _
  | .raised eventTrait => some eventTrait
  | .worked => none

def Event.registration : Event τ δ → Option τ
  | .registered eventTrait => some eventTrait
  | _ => none

def registeredIn (eventTrait : τ) (history : List (Event τ δ)) : Prop :=
  eventTrait ∈ history.filterMap Event.registration

instance (eventTrait : τ) (history : List (Event τ δ)) :
    Decidable (registeredIn eventTrait history) :=
  inferInstanceAs (Decidable (eventTrait ∈ history.filterMap Event.registration))

def Event.unsubscribes (eventTrait : τ) (evh : Nat) : Event τ δ → Bool
  | .unsubscribed other handle => other = eventTrait ∧ handle = evh
  | _ => false

def subscribedBy (eventTrait : τ) (before : List (Event τ δ)) :
    Event τ δ → List (DelegateHolder δ)
  | .subscribed other fn evh =>
      if other = eventTrait ∧ registeredIn eventTrait before then [⟨fn, evh⟩] else []
  | _ => []

/-- The delegates subscribed after `before` and not unsubscribed later, in subscription order. -/
def activeAfter (eventTrait : τ) : List (Event τ δ) → List (Event τ δ) → List (DelegateHolder δ)
  | _, [] => []
  | before, event :: later =>
      (subscribedBy eventTrait before event).filter
          (fun d => !later.any (Event.unsubscribes eventTrait d.object)) ++
        activeAfter eventTrait (before ++ [event]) later

def active (eventTrait : τ) (history : List (Event τ δ)) : List (DelegateHolder δ) :=
  activeAfter eventTrait [] history

variable {eventTrait : τ}

theorem activeAfter_concat (before history : List (Event τ δ)) (event : Event τ δ) :
    activeAfter eventTrait before (history ++ [event]) =
      (activeAfter eventTrait before history).filter
          (fun d => !event.unsubscribes eventTrait d.object) ++
        subscribedBy eventTrait (before ++ history) event := by
  induction history generalizing before with
  | nil => simp [activeAfter]
  | cons first history ih =>
      simp only [List.cons_append, activeAfter, List.any_append, List.any_cons, List.any_nil,
        Bool.or_false, Bool.not_or, ih, List.filter_append, List.filter_filter, List.append_assoc,
        List.nil_append]
      simp only [Bool.and_comm]

theorem active_concat (history : List (Event τ δ)) (event : Event τ δ) :
    active eventTrait (history ++ [event]) =
      (active eventTrait history).filter (fun d => !event.unsubscribes eventTrait d.object) ++
        subscribedBy eventTrait history event :=
  activeAfter_concat [] history event

omit [DecidableEq τ] in
theorem registeredIn_concat (history : List (Event τ δ)) (event : Event τ δ) :
    registeredIn eventTrait (history ++ [event]) ↔
      registeredIn eventTrait history ∨ event.registration = some eventTrait := by
  rw [registeredIn, List.filterMap_append, List.mem_append, registeredIn]
  simp

theorem active_unregistered {history : List (Event τ δ)}
    (unregistered : ¬ registeredIn eventTrait history) : active eventTrait history = [] := by
  induction history using List.reverseRecOn with
  | nil => rfl
  | append_singleton history event ih =>
      rw [registeredIn_concat, not_or] at unregistered
      rw [active_concat, ih unregistered.1]
      cases event with
      | subscribed other fn evh => simp [subscribedBy, unregistered.1]
      | _ => rfl

theorem active_other {history : List (Event τ δ)} {event : Event τ δ}
    (apart : event.eventTrait ≠ some eventTrait) :
    active eventTrait (history ++ [event]) = active eventTrait history := by
  rw [active_concat]
  cases event with
  | subscribed other fn evh =>
      have apart : other ≠ eventTrait := fun same => apart (congrArg some same)
      simp [Event.unsubscribes, subscribedBy, apart]
  | unsubscribed other evh =>
      have apart : other ≠ eventTrait := fun same => apart (congrArg some same)
      simp [Event.unsubscribes, subscribedBy, apart]
  | _ => simp [Event.unsubscribes, subscribedBy]

end Histories

section Runs
variable {τ δ α ε ρ : Type}

inductive Step (traits : Traits τ) (moved : α → α) :
    Event τ δ → EventSystem τ δ α ε ρ → EventSystem τ δ α ε ρ → Prop
  | registerEvent {system} (eventTrait : τ) :
      Step traits moved (.registered eventTrait) system (system.registerEvent traits eventTrait)
  | subscribeToEvent {system} (eventTrait : τ) (fn : δ) :
      Step traits moved
        (.subscribed eventTrait fn (system.subscribeToEvent traits eventTrait fn).1) system
        (system.subscribeToEvent traits eventTrait fn).2
  | unSubscribeFromEvent {system} (eventTrait : τ) (evh : Nat) :
      Step traits moved (.unsubscribed eventTrait evh) system
        (system.unSubscribeFromEvent traits eventTrait evh)
  | raiseEvent {system} (eventTrait : τ) (args : List (Arg α)) :
      Step traits moved (.raised eventTrait) system
        (system.raiseEvent traits moved eventTrait args).2.1
  | work {system : EventSystem τ δ α ε ρ} {op pool}
      (next : ThreadPool.Step op system.m_threadpool pool) :
      Step traits moved .worked system { system with m_threadpool := pool }

open EventSystem
variable {traits : Traits τ} {moved : α → α}

theorem Step.find_other {event : Event τ δ} {system next : EventSystem τ δ α ε ρ}
    (step : Step traits moved event system next)
    (injective : Function.Injective traits.get_event_trait_hash) {other : τ}
    (apart : event.eventTrait ≠ some other) :
    next.find_spec_event traits other = system.find_spec_event traits other := by
  have differ {eventTrait : τ} (named : event.eventTrait = some eventTrait) :
      other ≠ eventTrait := fun same => apart (same ▸ named)
  cases step with
  | registerEvent eventTrait => exact find_registerEvent_of_ne injective (differ rfl)
  | subscribeToEvent eventTrait fn => exact find_subscribeToEvent_of_ne injective (differ rfl) fn
  | unSubscribeFromEvent eventTrait evh =>
      exact find_unSubscribeFromEvent_of_ne injective (differ rfl) evh
  | raiseEvent eventTrait args => exact find_raiseEvent moved eventTrait other args
  | work next => rfl

theorem Step.delegatesOf_other {event : Event τ δ} {system next : EventSystem τ δ α ε ρ}
    (step : Step traits moved event system next)
    (injective : Function.Injective traits.get_event_trait_hash) {other : τ}
    (apart : event.eventTrait ≠ some other) :
    delegatesOf traits next other = delegatesOf traits system other := by
  rw [delegatesOf, step.find_other injective apart, delegatesOf]

variable [DecidableEq τ]

/-- What the table holds of an event is what the history says. -/
structure Matches (traits : Traits τ) (history : List (Event τ δ))
    (system : EventSystem τ δ α ε ρ) (eventTrait : τ) : Prop where
  registered : (system.find_spec_event traits eventTrait).isSome ↔ registeredIn eventTrait history
  delegates : delegatesOf traits system eventTrait = active eventTrait history

theorem Matches.other {history : List (Event τ δ)} {system next : EventSystem τ δ α ε ρ}
    {event : Event τ δ} {eventTrait : τ} (matched : Matches traits history system eventTrait)
    (step : Step traits moved event system next)
    (injective : Function.Injective traits.get_event_trait_hash)
    (apart : event.eventTrait ≠ some eventTrait) :
    Matches traits (history ++ [event]) next eventTrait where
  registered := by
    have notThis : event.registration ≠ some eventTrait := by
      intro this
      cases event with
      | registered other => exact apart this
      | _ => cases this
    rw [step.find_other injective apart, registeredIn_concat, or_iff_left notThis]
    exact matched.registered
  delegates := by
    rw [step.delegatesOf_other injective apart, active_other apart, matched.delegates]

theorem Matches.same {history : List (Event τ δ)} {system next : EventSystem τ δ α ε ρ}
    {event : Event τ δ} {eventTrait : τ} (matched : Matches traits history system eventTrait)
    (step : Step traits moved event system next) (here : event.eventTrait = some eventTrait)
    (fresh : event.registration = some eventTrait → ¬ registeredIn eventTrait history) :
    Matches traits (history ++ [event]) next eventTrait := by
  have registered := matched.registered
  have delegates := matched.delegates
  cases step with
  | registerEvent other =>
      obtain rfl : other = eventTrait := Option.some.inj here
      have empty := active_unregistered (fresh rfl)
      constructor
      · simp [find_registerEvent, registeredIn_concat, Event.registration]
      · rw [delegatesOf_eq, find_registerEvent, active_concat, empty]
        rfl
  | subscribeToEvent other fn =>
      obtain rfl : other = eventTrait := Option.some.inj here
      constructor
      · rw [find_subscribeToEvent, Option.isSome_map, registered, registeredIn_concat]
        simp [Event.registration]
      · rw [delegatesOf_subscribeToEvent, active_concat, delegates]
        simp [Event.unsubscribes, subscribedBy, registered]
  | unSubscribeFromEvent other evh =>
      obtain rfl : other = eventTrait := Option.some.inj here
      constructor
      · rw [find_unSubscribeFromEvent, Option.isSome_map, registered, registeredIn_concat]
        simp [Event.registration]
      · rw [delegatesOf_unSubscribeFromEvent, active_concat, delegates]
        simp [Event.unsubscribes, subscribedBy, eq_comm]
  | raiseEvent other args =>
      constructor
      · rw [find_raiseEvent, registered, registeredIn_concat]
        simp [Event.registration]
      · rw [delegatesOf_eq, find_raiseEvent, ← delegatesOf_eq, active_concat, delegates]
        simp [Event.unsubscribes, subscribedBy]
  | work next => cases here

structure ExactDelivery (traits : Traits τ) (moved : α → α) (history : List (Event τ δ))
    (system : EventSystem τ δ α ε ρ) : Prop where
  /-- One task for each active delegate, under names of its own, and one future for each task. -/
  raised : ∀ eventTrait args,
    let raised := system.raiseEvent traits moved eventTrait args
    ∃ tasks : List (TaskRef × Bound δ α),
      tasks.map (fun task => task.2.delegate) =
        (active eventTrait history).map DelegateHolder.delegate ∧
      tasks.map Prod.fst = List.range' system.m_threadpool.nextTask tasks.length ∧
      raised.2.1.m_threadpool.m_io_serv = system.m_threadpool.m_io_serv ++ tasks ∧
      raised.1 = tasks.map Prod.fst
  others : ∀ event next, Step traits moved event system next →
    ∀ other, event.eventTrait ≠ some other →
      delegatesOf traits next other = delegatesOf traits system other
  unregistered : ∀ eventTrait, ¬ registeredIn eventTrait history →
    ∀ fn, system.subscribeToEvent traits eventTrait fn = (0, system)

theorem matches_of_run {pool : ThreadPool (Bound δ α) ε ρ}
    {past : List (EventSystem τ δ α ε ρ × Event τ δ)} {last : EventSystem τ δ α ε ρ}
    (run : Run (Step traits moved) { m_threadpool := pool } past last)
    (injective : Function.Injective traits.get_event_trait_hash)
    (once : ((past.map Prod.snd).filterMap Event.registration).Nodup) (eventTrait : τ) :
    Matches traits (past.map Prod.snd) last eventTrait := by
  induction run with
  | nil => exact ⟨by simp [find_spec_event, registeredIn], rfl⟩
  | @snoc past system event next before step ih =>
      rw [List.map_append, List.filterMap_append, List.nodup_append] at once
      have matched := ih once.1
      rw [List.map_append]
      by_cases here : event.eventTrait = some eventTrait
      · refine matched.same step here fun registers earlier => ?_
        have again : eventTrait ∈ ([(system, event)].map Prod.snd).filterMap Event.registration := by
          simp [registers]
        exact once.2.2 eventTrait earlier eventTrait again rfl
      · exact matched.other step injective here

theorem exactDelivery {pool : ThreadPool (Bound δ α) ε ρ}
    {past : List (EventSystem τ δ α ε ρ × Event τ δ)} {last : EventSystem τ δ α ε ρ}
    (run : Run (Step traits moved) { m_threadpool := pool } past last)
    (injective : Function.Injective traits.get_event_trait_hash)
    (once : ((past.map Prod.snd).filterMap Event.registration).Nodup) :
    ExactDelivery traits moved (past.map Prod.snd) last where
  raised := by
    intro eventTrait args
    have matched := matches_of_run run injective once eventTrait
    obtain ⟨futures, queue, -⟩ := raiseEvent_tasks traits moved last eventTrait args
    refine ⟨raisedTasks traits moved last eventTrait args, ?_, ?_, queue, futures⟩
    · rw [raisedTasks, boundTasks_delegates, matched.delegates]
    · have names := boundTasks_names moved last.m_threadpool.nextTask
        (delegatesOf traits last eventTrait) args
      have count := congrArg List.length names
      rw [List.length_map, List.length_range'] at count
      rw [raisedTasks, names, count]
  others := fun _ _ step _ apart => step.delegatesOf_other injective apart
  unregistered := by
    intro eventTrait unregistered fn
    have absent := (matches_of_run run injective once eventTrait).registered.not.mpr unregistered
    rw [Option.not_isSome_iff_eq_none] at absent
    rw [subscribeToEvent, absent]

end Runs

section TwoTraits

def twoTraits : Traits Bool :=
  ⟨fun eventTrait => if eventTrait then "evStart" else "evIncr", String.length⟩

def emptySystem : EventSystem Bool Nat Nat Unit Unit := { m_threadpool := { m_threads := 1 } }

theorem exactDelivery_twoTraits : ∃ past last,
    Run (Step twoTraits id) emptySystem past last ∧
    past.map Prod.snd = [.registered true, .registered false, .subscribed true 7 1,
      .subscribed false 8 1, .subscribed true 9 2, .unsubscribed true 1] ∧
    ExactDelivery twoTraits id (past.map Prod.snd) last := by
  have start : Run (Step twoTraits id) emptySystem [] emptySystem := .nil
  have run := start
    |>.snoc (.registerEvent true)
    |>.snoc (.registerEvent false)
    |>.snoc (.subscribeToEvent true 7)
    |>.snoc (.subscribeToEvent false 8)
    |>.snoc (.subscribeToEvent true 9)
    |>.snoc (.unSubscribeFromEvent true 1)
  have injective : Function.Injective twoTraits.get_event_trait_hash := by decide
  exact ⟨_, _, run, rfl, exactDelivery run injective (by decide)⟩

end TwoTraits
end PackagedTask.Events
