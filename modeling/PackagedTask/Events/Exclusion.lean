import PackagedTask.Events.Concurrent

namespace PackagedTask.Events.Concurrent
open Library Tasks Threads

variable {θ τ δ α ε ρ : Type}

def Call.HashesInside : Call τ δ α → Prop
  | .registerEvent _ => False
  | _ => True

def Stage.Holds (call : Call τ δ α) : Stage δ α → Prop
  | .testing | .storing | .loading => call.HashesInside
  | .locking _ | .leaving _ => False
  | _ => True

def Position.Holds : Position τ δ α → Prop
  | none => False
  | some (call, stage) => stage.Holds call

abbrev EventsMap (τ δ : Type) := AList fun _ : Nat => BasicEvent τ δ

/-- What a call returns and does to the table when it runs alone. -/
inductive Sequential (ε ρ : Type) (traits : Traits τ) (moved : α → α) :
    Call τ δ α × Result δ α → EventsMap τ δ → EventsMap τ δ → Prop
  | registerEvent (system : EventSystem τ δ α ε ρ) (eventTrait : τ) :
      Sequential ε ρ traits moved (.registerEvent eventTrait, .nothing) system.m_events
        (system.registerEvent traits eventTrait).m_events
  | subscribeToEvent (system : EventSystem τ δ α ε ρ) (eventTrait : τ) (fn : δ) :
      Sequential ε ρ traits moved
        (.subscribeToEvent eventTrait fn,
          .handle (system.subscribeToEvent traits eventTrait fn).1) system.m_events
        (system.subscribeToEvent traits eventTrait fn).2.m_events
  | unSubscribeFromEvent (system : EventSystem τ δ α ε ρ) (eventTrait : τ) (evh : Nat) :
      Sequential ε ρ traits moved (.unSubscribeFromEvent eventTrait evh, .nothing) system.m_events
        (system.unSubscribeFromEvent traits eventTrait evh).m_events
  | raiseEvent (system : EventSystem τ δ α ε ρ) (eventTrait : τ) (args : List (Arg α))
      {res : List (Future δ α)}
      (same : res.map Prod.snd =
        (EventSystem.raisedTasks traits moved system eventTrait args).map Prod.snd) :
      Sequential ε ρ traits moved (.raiseEvent eventTrait args, .futures res) system.m_events
        (system.raiseEvent traits moved eventTrait args).2.1.m_events

/-- The table in memory is `table`. The lock of `held` is taken, and `spare` is not stored yet. -/
structure Table (shared : Shared τ δ α ε ρ) (table : EventsMap τ δ) (held spare : Option Ptr) :
    Prop where
  shows : ∀ eventHash, ((shared.m_events.lookup eventHash).bind shared.deref).map
    SpecObject.event = table.lookup eventHash
  live : ∀ eventHash evt, shared.m_events.lookup eventHash = some evt →
    ∃ object, shared.deref evt = some object
  apart : ∀ eventHash other evt, shared.m_events.lookup eventHash = some evt →
    shared.m_events.lookup other = some evt → eventHash = other
  flags : ∀ evt object, shared.deref evt = some object →
    object.m_access_flag = decide (held = some evt)
  fresh : ∀ evt, shared.nextObject ≤ evt → shared.deref evt = none
  owned : ∀ evt object, shared.deref evt = some object → spare = some evt ∨
    ∃ eventHash, shared.m_events.lookup eventHash = some evt

def closures (moved : α → α) : List (DelegateHolder δ) → List (Arg α) → List (Bound δ α)
  | [], _ => []
  | d :: delegates, args =>
      ⟨d.delegate, args.map Arg.value⟩ :: closures moved delegates (args.map (Arg.forward moved))

/-- What holds at each stage inside the lock; `table` is what the thread found when it entered. -/
def Inside (traits : Traits τ) (moved : α → α) (call : Call τ δ α) (shared : Shared τ δ α ε ρ)
    (table : EventsMap τ δ) : Stage δ α → Prop
  | .testing | .storing => Table shared table none none
  | .loading => Table shared table none none ∧
      shared.result call.eventTrait = traits.get_event_trait_hash call.eventTrait
  | .making eventHash => Table shared table none none ∧
      eventHash = traits.get_event_trait_hash call.eventTrait ∧
      call = .registerEvent call.eventTrait
  | .assigning eventHash evt => Table shared table none (some evt) ∧
      eventHash = traits.get_event_trait_hash call.eventTrait ∧
      call = .registerEvent call.eventTrait ∧
      shared.deref evt = some { event := { eventTrait := call.eventTrait } } ∧
      ∀ other, shared.m_events.lookup other ≠ some evt
  | .finding eventHash => Table shared table none none ∧
      eventHash = traits.get_event_trait_hash call.eventTrait ∧ call.HashesInside
  | .accessing evt => Table shared table none none ∧
      shared.m_events.lookup (traits.get_event_trait_hash call.eventTrait) = some evt ∧
      call.HashesInside
  | .counting evt fn => Table shared table (some evt) none ∧
      shared.m_events.lookup (traits.get_event_trait_hash call.eventTrait) = some evt ∧
      call = .subscribeToEvent call.eventTrait fn
  | .pushing evt fn evh => ∃ event,
      table.lookup (traits.get_event_trait_hash call.eventTrait) = some event ∧
      evh = (event.spec.m_next_available_ID + 1).toNat ∧
      Table shared (table.insert (traits.get_event_trait_hash call.eventTrait)
        { event with spec :=
          { event.spec with m_next_available_ID := event.spec.m_next_available_ID + 1 } })
        (some evt) none ∧
      shared.m_events.lookup (traits.get_event_trait_hash call.eventTrait) = some evt ∧
      call = .subscribeToEvent call.eventTrait fn
  | .erasing evt evh => Table shared table (some evt) none ∧
      shared.m_events.lookup (traits.get_event_trait_hash call.eventTrait) = some evt ∧
      call = .unSubscribeFromEvent call.eventTrait evh
  | .calling evt d args res => Table shared table (some evt) none ∧
      shared.m_events.lookup (traits.get_event_trait_hash call.eventTrait) = some evt ∧
      ∃ event passed, table.lookup (traits.get_event_trait_hash call.eventTrait) = some event ∧
        call = .raiseEvent call.eventTrait passed ∧
        res.map Prod.snd ++ closures moved (event.spec.m_delegates.drop d) args =
          closures moved event.spec.m_delegates passed
  | .releasing evt result => ∃ after, Sequential ε ρ traits moved (call, result) table after ∧
      Table shared after (some evt) none ∧
      shared.m_events.lookup (traits.get_event_trait_hash call.eventTrait) = some evt
  | .unlocking result => ∃ after, Sequential ε ρ traits moved (call, result) table after ∧
      Table shared after none none
  | .locking _ | .leaving _ => False

def Outside (traits : Traits τ) (call : Call τ δ α) (shared : Shared τ δ α ε ρ) :
    Stage δ α → Prop
  | .loading => shared.result call.eventTrait = traits.get_event_trait_hash call.eventTrait
  | .locking (some eventHash) => eventHash = traits.get_event_trait_hash call.eventTrait ∧
      call = .registerEvent call.eventTrait
  | .locking none => call.HashesInside
  | _ => True

def Caches (traits : Traits τ) (shared after : Shared τ δ α ε ρ) : Prop :=
  ∀ eventTrait, after.result eventTrait = shared.result eventTrait ∨
    after.result eventTrait = traits.get_event_trait_hash eventTrait

def Cached (traits : Traits τ) (shared : Shared τ δ α ε ρ) : Prop :=
  ∀ eventTrait, shared.result eventTrait = 0 ∨
    shared.result eventTrait = traits.get_event_trait_hash eventTrait

/-- Every thread is where it may be when the table is `table`. -/
structure Sound (traits : Traits τ) (moved : α → α) (machine : Machine θ τ δ α ε ρ)
    (table : EventsMap τ δ) : Prop where
  guarded : machine.Guarded Shared.m_access_flag Position.Holds
  cached : Cached traits machine.shared
  inside : ∀ t call stage, machine.position t = some (call, stage) → stage.Holds call →
    Inside traits moved call machine.shared table stage
  outside : ∀ t call stage, machine.position t = some (call, stage) → ¬ stage.Holds call →
    Outside traits call machine.shared stage
  free : machine.shared.m_access_flag = false → Table machine.shared table none none

theorem Inside.table {call : Call τ δ α} {shared : Shared τ δ α ε ρ} {table : EventsMap τ δ}
    {stage : Stage δ α} (inside : Inside traits moved call shared table stage) :
    ∃ table held spare, Table shared table held spare := by
  cases stage with
  | testing | storing => exact ⟨_, _, _, inside⟩
  | pushing evt fn evh =>
      obtain ⟨event, found, new, memory, stored⟩ := inside
      exact ⟨_, _, _, memory⟩
  | releasing evt result =>
      obtain ⟨after, serves, memory, stored⟩ := inside
      exact ⟨_, _, _, memory⟩
  | unlocking result =>
      obtain ⟨after, serves, memory⟩ := inside
      exact ⟨_, _, _, memory⟩
  | locking eventHash | leaving result => exact inside.elim
  | _ => exact ⟨_, _, _, inside.1⟩

section Tables
variable {shared after : Shared τ δ α ε ρ} {table table' : EventsMap τ δ} {held held' spare : Option Ptr}
  {evt : Ptr} {object : SpecObject τ δ} {eventHash : Nat}

theorem Table.congr (memory : Table shared table held spare)
    (same : ∀ eventHash, table'.lookup eventHash = table.lookup eventHash) :
    Table shared table' held spare :=
  { memory with shows := fun eventHash => (memory.shows eventHash).trans (same eventHash).symm }

theorem Table.keep (memory : Table shared table held spare) (events : after.m_events = shared.m_events)
    (objects : after.objects = shared.objects) (next : after.nextObject = shared.nextObject) :
    Table after table held spare := by
  have deref : after.deref = shared.deref := by
    funext evt
    rw [Shared.deref, objects, Shared.deref]
  constructor
  · simpa only [events, deref] using memory.shows
  · simpa only [events, deref] using memory.live
  · simpa only [events] using memory.apart
  · simpa only [deref] using memory.flags
  · simpa only [deref, next] using memory.fresh
  · simpa only [events, deref] using memory.owned

theorem Table.find (memory : Table shared table held spare)
    (here : shared.m_events.lookup eventHash = some evt) :
    ∃ object, shared.deref evt = some object ∧ table.lookup eventHash = some object.event := by
  obtain ⟨object, live⟩ := memory.live eventHash evt here
  refine ⟨object, live, ?_⟩
  rw [← memory.shows, here, Option.bind_some, live, Option.map_some]

theorem Table.missing (memory : Table shared table held spare)
    (absent : shared.m_events.lookup eventHash = none) : table.lookup eventHash = none := by
  rw [← memory.shows, absent]
  rfl

theorem deref_store : (shared.store evt object).deref evt = some object := AList.lookup_insert _

theorem deref_store_other {other : Ptr} (apart : other ≠ evt) :
    (shared.store evt object).deref other = shared.deref other := AList.lookup_insert_ne apart

@[simp] theorem store_m_events : (shared.store evt object).m_events = shared.m_events := rfl

@[simp] theorem store_m_threadpool :
    (shared.store evt object).m_threadpool = shared.m_threadpool := rfl

theorem Table.store (memory : Table shared table held none)
    (here : shared.m_events.lookup eventHash = some evt)
    (mine : object.m_access_flag = decide (held' = some evt))
    (others : ∀ other, other ≠ evt → (held' = some other ↔ held = some other)) :
    Table (shared.store evt object) (table.insert eventHash object.event) held' none where
  shows := by
    intro other
    rw [store_m_events]
    by_cases same : other = eventHash
    · rw [same, here, Option.bind_some, deref_store, AList.lookup_insert, Option.map_some]
    · rw [AList.lookup_insert_ne same, ← memory.shows]
      cases found : shared.m_events.lookup other with
      | none => rfl
      | some evt' =>
          have apart : evt' ≠ evt := by
            intro equal
            rw [equal] at found
            exact same (memory.apart other eventHash evt found here)
          rw [Option.bind_some, Option.bind_some, deref_store_other apart]
  live := by
    intro other evt' found
    by_cases same : evt' = evt
    · exact ⟨object, same ▸ deref_store⟩
    · rw [deref_store_other same]
      exact memory.live other evt' found
  apart := memory.apart
  flags := by
    intro other object' found
    by_cases same : other = evt
    · rw [same, deref_store] at found
      cases found
      rw [mine, same]
    · rw [deref_store_other same] at found
      rw [memory.flags other object' found]
      simp only [others other same]
  fresh := by
    intro other old
    have apart : other ≠ evt := by
      intro same
      obtain ⟨object', live⟩ := memory.live eventHash evt here
      rw [← same, memory.fresh other old] at live
      cases live
    rw [deref_store_other apart]
    exact memory.fresh other old
  owned := by
    intro other object' found
    by_cases same : other = evt
    · exact .inr ⟨eventHash, same ▸ here⟩
    · rw [deref_store_other same] at found
      exact memory.owned other object' found

theorem lookup_insert_self {event : BasicEvent τ δ} (here : table.lookup eventHash = some event)
    (other : Nat) : table.lookup other = (table.insert eventHash event).lookup other := by
  by_cases same : other = eventHash
  · rw [same, AList.lookup_insert, here]
  · rw [AList.lookup_insert_ne same]

theorem Table.relock (memory : Table shared table held none)
    (here : shared.m_events.lookup eventHash = some evt) (live : shared.deref evt = some object)
    {flag : Bool} (mine : flag = decide (held' = some evt))
    (others : ∀ other, other ≠ evt → (held' = some other ↔ held = some other)) :
    Table (shared.store evt { object with m_access_flag := flag }) table held' none := by
  obtain ⟨object', live', shown⟩ := memory.find here
  rw [live] at live'
  cases live'
  exact (memory.store here mine others).congr (lookup_insert_self shown)

theorem Table.made (memory : Table shared table none none) (object : SpecObject τ δ)
    (unlocked : object.m_access_flag = false) :
    Table { shared.store shared.nextObject object with nextObject := shared.nextObject + 1 } table
      none (some shared.nextObject) := by
  have stored : ∀ eventHash evt, shared.m_events.lookup eventHash = some evt →
      evt ≠ shared.nextObject := by
    intro eventHash evt found same
    obtain ⟨object', live⟩ := memory.live eventHash evt found
    rw [memory.fresh evt same.ge] at live
    cases live
  constructor
  · intro eventHash
    rw [← memory.shows eventHash]
    cases found : shared.m_events.lookup eventHash with
    | none => simp [found]
    | some evt =>
        have apart := stored eventHash evt found
        simp only [store_m_events, found, Option.bind_some]
        exact congrArg _ (deref_store_other apart)
  · intro eventHash evt found
    obtain ⟨object', live⟩ := memory.live eventHash evt found
    exact ⟨object', (deref_store_other (stored eventHash evt found)).trans live⟩
  · exact memory.apart
  · intro evt object' found
    by_cases same : evt = shared.nextObject
    · have equal : some object = some object' := by
        rw [← found, same]
        exact deref_store.symm
      cases equal
      simpa using unlocked
    · exact memory.flags evt object' ((deref_store_other same).symm.trans found)
  · intro evt old
    have later : shared.nextObject < evt := old
    exact (deref_store_other (Nat.ne_of_gt later)).trans (memory.fresh evt later.le)
  · intro evt object' found
    by_cases same : evt = shared.nextObject
    · exact .inl (congrArg some same.symm)
    · have old := (deref_store_other same).symm.trans found
      exact .inr ((memory.owned evt object' old).resolve_left (by simp))

theorem deref_assign (other : Ptr) : (shared.assign eventHash evt).deref other =
    if shared.m_events.lookup eventHash = some other then none else shared.deref other := by
  unfold Shared.assign Shared.deref
  cases found : shared.m_events.lookup eventHash with
  | none => simp
  | some old =>
      by_cases same : old = other
      · simp [same]
      · have apart : other ≠ old := fun equal => same equal.symm
        simp [same, AList.lookup_erase_ne apart]

theorem Table.assigned (memory : Table shared table none (some evt))
    (live : shared.deref evt = some object)
    (unstored : ∀ other, shared.m_events.lookup other ≠ some evt) :
    Table (shared.assign eventHash evt) (table.insert eventHash object.event) none none := by
  have kept : (shared.assign eventHash evt).deref evt = some object := by
    rw [deref_assign, if_neg (unstored eventHash), live]
  have others : ∀ other evt', other ≠ eventHash → shared.m_events.lookup other = some evt' →
      (shared.assign eventHash evt).deref evt' = shared.deref evt' := by
    intro other evt' apart found
    rw [deref_assign, if_neg]
    exact fun same => apart (memory.apart other eventHash evt' found same)
  have events : ∀ other, (shared.assign eventHash evt).m_events.lookup other =
      if other = eventHash then some evt else shared.m_events.lookup other := by
    intro other
    by_cases same : other = eventHash
    · rw [if_pos same, same]
      exact AList.lookup_insert _
    · rw [if_neg same]
      exact AList.lookup_insert_ne same
  constructor
  · intro other
    rw [events]
    by_cases same : other = eventHash
    · rw [if_pos same, same, Option.bind_some, kept, AList.lookup_insert, Option.map_some]
    · rw [if_neg same, AList.lookup_insert_ne same, ← memory.shows]
      cases found : shared.m_events.lookup other with
      | none => rfl
      | some evt' => rw [Option.bind_some, Option.bind_some, others other evt' same found]
  · intro other evt' found
    rw [events] at found
    by_cases same : other = eventHash
    · rw [if_pos same] at found
      cases found
      exact ⟨object, kept⟩
    · rw [if_neg same] at found
      rw [others other evt' same found]
      exact memory.live other evt' found
  · intro first second evt' here there
    rw [events] at here there
    by_cases one : first = eventHash
    · by_cases two : second = eventHash
      · rw [one, two]
      · rw [if_pos one] at here
        rw [if_neg two] at there
        cases here
        exact (unstored second there).elim
    · by_cases two : second = eventHash
      · rw [if_neg one] at here
        rw [if_pos two] at there
        cases there
        exact (unstored first here).elim
      · rw [if_neg one] at here
        rw [if_neg two] at there
        exact memory.apart first second evt' here there
  · intro other object' found
    rw [deref_assign] at found
    split at found
    · cases found
    · exact memory.flags other object' found
  · intro other old
    rw [deref_assign, memory.fresh other old, ite_self]
  · intro other object' found
    rw [deref_assign] at found
    split at found
    · cases found
    · next kept =>
        refine .inr ?_
        rcases memory.owned other object' found with spare | ⟨hash, stored⟩
        · exact ⟨eventHash, by rw [events, if_pos rfl, spare]⟩
        · refine ⟨hash, ?_⟩
          have apart : hash ≠ eventHash := fun same => kept (same ▸ stored)
          rw [events, if_neg apart, stored]

end Tables

section Alone
variable {traits : Traits τ} {moved : α → α} {table : EventsMap τ δ} {eventTrait : τ}
  {event : BasicEvent τ δ}

theorem boundTasks_closures (next : TaskRef) (delegates : List (DelegateHolder δ))
    (args : List (Arg α)) :
    (boundTasks moved next delegates args).map Prod.snd = closures moved delegates args := by
  induction delegates generalizing next args with
  | nil => rfl
  | cons d delegates ih => rw [boundTasks, List.map_cons, ih, closures]

theorem find_table {pool : ThreadPool (Bound δ α) ε ρ}
    (found : table.lookup (traits.get_event_trait_hash eventTrait) = some event) :
    EventSystem.find_spec_event traits { m_events := table, m_threadpool := pool } eventTrait =
      some event.spec := by
  simp [EventSystem.find_spec_event, found]

theorem modify_table {pool : ThreadPool (Bound δ α) ε ρ} (spec : SpecEvent δ)
    (found : table.lookup (traits.get_event_trait_hash eventTrait) = some event) :
    (EventSystem.modifyEvent traits { m_events := table, m_threadpool := pool } eventTrait
      spec).m_events =
      table.insert (traits.get_event_trait_hash eventTrait) { event with spec } := by
  simp [EventSystem.modifyEvent, found]

theorem sequential_register (table : EventsMap τ δ) (eventTrait : τ) :
    Sequential ε ρ traits moved (.registerEvent eventTrait, .nothing) table
      (table.insert (traits.get_event_trait_hash eventTrait) { eventTrait }) :=
  .registerEvent ⟨table, { m_threads := 1 }⟩ eventTrait

theorem sequential_subscribe (fn : δ)
    (found : table.lookup (traits.get_event_trait_hash eventTrait) = some event) :
    Sequential ε ρ traits moved
      (.subscribeToEvent eventTrait fn, .handle (event.spec.bind fn).1) table
      (table.insert (traits.get_event_trait_hash eventTrait)
        { event with spec := (event.spec.bind fn).2 }) := by
  have step : Sequential ε ρ traits moved _ table _ :=
        .subscribeToEvent ⟨table, { m_threads := 1 }⟩ eventTrait fn
  simpa only [EventSystem.subscribeToEvent, find_table found, modify_table _ found] using step

theorem sequential_unSubscribe (evh : Nat)
    (found : table.lookup (traits.get_event_trait_hash eventTrait) = some event) :
    Sequential ε ρ traits moved (.unSubscribeFromEvent eventTrait evh, .nothing) table
      (table.insert (traits.get_event_trait_hash eventTrait)
        { event with spec := event.spec.unbind evh }) := by
  have step : Sequential ε ρ traits moved _ table _ :=
        .unSubscribeFromEvent ⟨table, { m_threads := 1 }⟩ eventTrait evh
  simpa only [EventSystem.unSubscribeFromEvent, find_table found, modify_table _ found] using step

theorem sequential_raise {args : List (Arg α)} {res : List (Future δ α)}
    (found : table.lookup (traits.get_event_trait_hash eventTrait) = some event)
    (bound : res.map Prod.snd = closures moved event.spec.m_delegates args) :
    Sequential ε ρ traits moved (.raiseEvent eventTrait args, .futures res) table table := by
  have same : res.map Prod.snd = (EventSystem.raisedTasks traits moved
      (⟨table, { m_threads := 1 }⟩ : EventSystem τ δ α ε ρ) eventTrait args).map Prod.snd := by
    simp only [EventSystem.raisedTasks, EventSystem.delegatesOf, find_table found,
      boundTasks_closures, bound]
  have step := Sequential.raiseEvent _ eventTrait args same
  rwa [(EventSystem.raiseEvent_tasks traits moved _ eventTrait args).2.2] at step

theorem sequential_absent {call : Call τ δ α} (inside : call.HashesInside)
    (absent : table.lookup (traits.get_event_trait_hash call.eventTrait) = none) :
    Sequential ε ρ traits moved (call, call.absent) table table := by
  have missing : ∀ eventTrait : τ, table.lookup (traits.get_event_trait_hash eventTrait) = none →
      EventSystem.find_spec_event traits
        (⟨table, { m_threads := 1 }⟩ : EventSystem τ δ α ε ρ) eventTrait = none := by
    intro eventTrait absent
    simp [EventSystem.find_spec_event, absent]
  cases call with
  | registerEvent eventTrait => exact inside.elim
  | subscribeToEvent eventTrait fn =>
      have step : Sequential ε ρ traits moved _ table _ :=
        .subscribeToEvent ⟨table, { m_threads := 1 }⟩ eventTrait fn
      simpa only [Call.absent, EventSystem.subscribeToEvent, missing eventTrait absent] using step
  | unSubscribeFromEvent eventTrait evh =>
      have step : Sequential ε ρ traits moved _ table _ :=
        .unSubscribeFromEvent ⟨table, { m_threads := 1 }⟩ eventTrait evh
      simpa only [Call.absent, EventSystem.unSubscribeFromEvent, missing eventTrait absent] using step
  | raiseEvent eventTrait args =>
      have same : ([] : List (Future δ α)).map Prod.snd = (EventSystem.raisedTasks traits moved
          (⟨table, { m_threads := 1 }⟩ : EventSystem τ δ α ε ρ) eventTrait args).map Prod.snd := by
        simp [EventSystem.raisedTasks, EventSystem.delegatesOf, missing eventTrait absent, boundTasks]
      have step := Sequential.raiseEvent _ eventTrait args same
      rwa [(EventSystem.raiseEvent_tasks traits moved _ eventTrait args).2.2] at step

end Alone

theorem Table.access {shared : Shared τ δ α ε ρ} {table : EventsMap τ δ} {eventHash : Nat} {evt : Ptr}
    (memory : Table shared table none none) (here : shared.m_events.lookup eventHash = some evt) :
    ∃ object, shared.deref evt = some object ∧ object.m_access_flag = false ∧
      Table (shared.store evt { object with m_access_flag := true }) table (some evt) none := by
  obtain ⟨object, live, -⟩ := memory.find here
  refine ⟨object, live, memory.flags evt object live, memory.relock here live (by simp) ?_⟩
  intro other apart
  simp [Ne.symm apart]

section Steps
variable [DecidableEq τ] {traits : Traits τ} {moved : α → α} {call : Call τ δ α}
  {shared : Shared τ δ α ε ρ} {table : EventsMap τ δ} {evt : Ptr}

/-- The next step stays inside the lock, at a stage where what should hold does. -/
def Goes (traits : Traits τ) (moved : α → α) (call : Call τ δ α) (shared : Shared τ δ α ε ρ)
    (table : EventsMap τ δ) (stage : Stage δ α) : Prop :=
  ∃ next, advance traits moved call shared stage = some next ∧ next.stage.Holds call ∧
    next.shared.m_access_flag = shared.m_access_flag ∧
    Inside traits moved call next.shared table next.stage

theorem goes_testing (cached : Cached traits shared) (holds : call.HashesInside)
    (memory : Table shared table none none) : Goes traits moved call shared table .testing := by
  by_cases unknown : shared.result call.eventTrait = 0
  · exact ⟨⟨.storing, shared, none⟩, by simp [advance, unknown], holds, rfl, memory⟩
  · have known := (cached call.eventTrait).resolve_left unknown
    exact ⟨⟨.loading, shared, none⟩, by simp [advance, unknown], holds, rfl, memory, known⟩

theorem goes_storing (holds : call.HashesInside) (memory : Table shared table none none) :
    Goes traits moved call shared table .storing :=
  ⟨_, rfl, holds, rfl, memory.keep rfl rfl rfl, Function.update_self ..⟩

theorem goes_loading (holds : call.HashesInside) (memory : Table shared table none none)
    (known : shared.result call.eventTrait = traits.get_event_trait_hash call.eventTrait) :
    Goes traits moved call shared table .loading := by
  refine ⟨⟨.finding (shared.result call.eventTrait), shared, none⟩, ?_, trivial, rfl, memory, known,
    holds⟩
  cases call with
  | registerEvent eventTrait => exact holds.elim
  | _ => rfl

theorem goes_making {eventHash : Nat} (memory : Table shared table none none)
    (hash : eventHash = traits.get_event_trait_hash call.eventTrait)
    (this : call = .registerEvent call.eventTrait) :
    Goes traits moved call shared table (.making eventHash) := by
  refine ⟨_, rfl, trivial, rfl, memory.made _ rfl, hash, this, deref_store, ?_⟩
  intro other stored
  obtain ⟨object, live⟩ := memory.live other shared.nextObject stored
  rw [memory.fresh shared.nextObject le_rfl] at live
  cases live

theorem goes_assigning {eventHash : Nat} (memory : Table shared table none (some evt))
    (hash : eventHash = traits.get_event_trait_hash call.eventTrait)
    (this : call = .registerEvent call.eventTrait)
    (made : shared.deref evt = some { event := { eventTrait := call.eventTrait } })
    (unstored : ∀ other, shared.m_events.lookup other ≠ some evt) :
    Goes traits moved call shared table (.assigning eventHash evt) := by
  have does : Sequential ε ρ traits moved _ table _ := sequential_register table call.eventTrait
  rw [← this, ← hash] at does
  exact ⟨_, rfl, trivial, rfl, _, does, memory.assigned made unstored⟩

theorem goes_finding {eventHash : Nat} (memory : Table shared table none none)
    (hash : eventHash = traits.get_event_trait_hash call.eventTrait) (holds : call.HashesInside) :
    Goes traits moved call shared table (.finding eventHash) := by
  cases found : shared.m_events.lookup eventHash with
  | none =>
      have absent := memory.missing found
      rw [hash] at absent
      exact ⟨⟨.unlocking call.absent, shared, none⟩, by simp [advance, found], trivial, rfl, table,
        sequential_absent holds absent, memory⟩
  | some evt =>
      exact ⟨⟨.accessing evt, shared, none⟩, by simp [advance, found], trivial, rfl, memory,
        hash ▸ found, holds⟩

theorem goes_accessing (memory : Table shared table none none)
    (here : shared.m_events.lookup (traits.get_event_trait_hash call.eventTrait) = some evt)
    (holds : call.HashesInside) : Goes traits moved call shared table (.accessing evt) := by
  obtain ⟨object, live, free, entered⟩ := memory.access here
  have goes : advance traits moved call shared (.accessing evt) = _ := advance_accessing live free
  cases call with
  | registerEvent eventTrait => exact holds.elim
  | subscribeToEvent eventTrait fn => exact ⟨_, goes, trivial, rfl, entered, here, rfl⟩
  | unSubscribeFromEvent eventTrait evh => exact ⟨_, goes, trivial, rfl, entered, here, rfl⟩
  | raiseEvent eventTrait args =>
      obtain ⟨event, -, shown⟩ := entered.find here
      exact ⟨_, goes, trivial, rfl, entered, here, event.event, args, shown, rfl, rfl⟩

theorem goes_counting {fn : δ} (memory : Table shared table (some evt) none)
    (here : shared.m_events.lookup (traits.get_event_trait_hash call.eventTrait) = some evt)
    (this : call = .subscribeToEvent call.eventTrait fn) :
    Goes traits moved call shared table (.counting evt fn) := by
  obtain ⟨object, live, shown⟩ := memory.find here
  refine ⟨_, advance_counting live fn, trivial, rfl, object.event, shown, rfl, ?_, here, this⟩
  exact memory.store here (memory.flags evt object live) fun _ _ => Iff.rfl

theorem goes_pushing {fn : δ} {evh : Nat} {event : BasicEvent τ δ}
    (found : table.lookup (traits.get_event_trait_hash call.eventTrait) = some event)
    (handle : evh = (event.spec.m_next_available_ID + 1).toNat)
    (memory : Table shared (table.insert (traits.get_event_trait_hash call.eventTrait)
        { event with spec :=
          { event.spec with m_next_available_ID := event.spec.m_next_available_ID + 1 } })
        (some evt) none)
    (here : shared.m_events.lookup (traits.get_event_trait_hash call.eventTrait) = some evt)
    (this : call = .subscribeToEvent call.eventTrait fn) :
    Goes traits moved call shared table (.pushing evt fn evh) := by
  obtain ⟨object, live, shown⟩ := memory.find here
  rw [AList.lookup_insert] at shown
  have same := Option.some.inj shown
  have does : Sequential ε ρ traits moved _ table _ := sequential_subscribe fn found
  rw [← this] at does
  subst handle
  refine ⟨_, advance_pushing live fn _, trivial, rfl, _, does, ?_, here⟩
  have stored : Table (shared.store evt { object with event := { object.event with spec :=
      { object.event.spec with m_delegates := object.event.spec.m_delegates ++
        [⟨fn, (event.spec.m_next_available_ID + 1).toNat⟩] } } }) _ (some evt) none :=
    memory.store here (memory.flags evt object live) fun _ _ => Iff.rfl
  rw [AList.insert_insert] at stored
  simpa only [← same, SpecEvent.bind] using stored

theorem goes_erasing {evh : Nat} (memory : Table shared table (some evt) none)
    (here : shared.m_events.lookup (traits.get_event_trait_hash call.eventTrait) = some evt)
    (this : call = .unSubscribeFromEvent call.eventTrait evh) :
    Goes traits moved call shared table (.erasing evt evh) := by
  obtain ⟨object, live, shown⟩ := memory.find here
  have does : Sequential ε ρ traits moved _ table _ := sequential_unSubscribe evh shown
  rw [← this] at does
  refine ⟨_, advance_erasing live evh, trivial, rfl, _, does, ?_, here⟩
  exact memory.store here (memory.flags evt object live) fun _ _ => Iff.rfl

theorem goes_calling {d : Nat} {args passed : List (Arg α)} {res : List (Future δ α)}
    {event : BasicEvent τ δ} (memory : Table shared table (some evt) none)
    (here : shared.m_events.lookup (traits.get_event_trait_hash call.eventTrait) = some evt)
    (found : table.lookup (traits.get_event_trait_hash call.eventTrait) = some event)
    (this : call = .raiseEvent call.eventTrait passed)
    (rest : res.map Prod.snd ++ closures moved (event.spec.m_delegates.drop d) args =
      closures moved event.spec.m_delegates passed) :
    Goes traits moved call shared table (.calling evt d args res) := by
  obtain ⟨object, live, shown⟩ := memory.find here
  rw [found] at shown
  have same : object.event = event := (Option.some.inj shown).symm
  cases delegate : event.spec.m_delegates[d]? with
  | none =>
      rw [List.drop_eq_nil_of_le (List.getElem?_eq_none_iff.mp delegate), closures,
        List.append_nil] at rest
      have does : Sequential ε ρ traits moved _ table _ := sequential_raise found rest
      rw [← this] at does
      exact ⟨_, advance_calling_end live args res (same ▸ delegate), trivial, rfl, table, does,
        memory, here⟩
  | some holder =>
      refine ⟨_, advance_calling live args res (same ▸ delegate), trivial, rfl,
        memory.keep rfl rfl rfl, here, event, passed, found, this, ?_⟩
      obtain ⟨bound, rfl⟩ := List.getElem?_eq_some_iff.mp delegate
      rw [List.drop_eq_getElem_cons bound, closures] at rest
      rw [List.map_append, List.append_assoc]
      exact rest

theorem goes_releasing {result : Result δ α} {after : EventsMap τ δ}
    (does : Sequential ε ρ traits moved (call, result) table after)
    (memory : Table shared after (some evt) none)
    (here : shared.m_events.lookup (traits.get_event_trait_hash call.eventTrait) = some evt) :
    Goes traits moved call shared table (.releasing evt result) := by
  obtain ⟨object, live, -⟩ := memory.find here
  refine ⟨_, advance_releasing live result, trivial, rfl, after, does, ?_⟩
  apply memory.relock here live (by simp)
  intro other apart
  simp [Ne.symm apart]

end Steps
end PackagedTask.Events.Concurrent
