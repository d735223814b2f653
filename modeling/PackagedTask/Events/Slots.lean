import Mathlib.Data.Set.Function
import PackagedTask.Events.Delivery

namespace PackagedTask.Events
open Library Tasks

/-! The slot that a trait finds is its name's. What registering puts there, over whole runs: whose
event another trait finds in it, and what becomes of the event that was there before. -/

namespace EventSystem
variable {τ δ α ε ρ : Type} {traits : Traits τ} {moved : α → α}

def creatorAt (system : EventSystem τ δ α ε ρ) (eventHash : Nat) : Option τ :=
  (system.m_events.lookup eventHash).map BasicEvent.eventTrait

/-- What `find_spec_event` returns is an event of the type it is cast to. -/
def TypeSafe (traits : Traits τ) (system : EventSystem τ δ α ε ρ) : Prop :=
  ∀ eventTrait, (system.find_spec_event traits eventTrait).isSome →
    system.creatorAt (traits.get_event_trait_hash eventTrait) = some eventTrait

def NamedAlone (traits : Traits τ) (eventTrait : τ) : Prop :=
  ∀ other, traits.name other = traits.name eventTrait → other = eventTrait

theorem find_isSome_iff {system : EventSystem τ δ α ε ρ} {eventTrait : τ} :
    (system.find_spec_event traits eventTrait).isSome ↔
      ∃ creator, system.creatorAt (traits.get_event_trait_hash eventTrait) = some creator := by
  rw [find_spec_event, creatorAt, Option.isSome_map, Option.isSome_iff_exists]
  simp

theorem creatorAt_modifyEvent (system : EventSystem τ δ α ε ρ) (eventTrait : τ)
    (spec : SpecEvent δ) (eventHash : Nat) :
    (system.modifyEvent traits eventTrait spec).creatorAt eventHash =
      system.creatorAt eventHash := by
  unfold modifyEvent
  cases found : system.m_events.lookup (traits.get_event_trait_hash eventTrait) with
  | none => simp only [found]
  | some event =>
      simp only [found, creatorAt]
      by_cases here : eventHash = traits.get_event_trait_hash eventTrait
      · rw [here, AList.lookup_insert, found]
        rfl
      · rw [AList.lookup_insert_ne here]

theorem creatorAt_registerEvent (system : EventSystem τ δ α ε ρ) (eventTrait : τ) (eventHash : Nat) :
    (system.registerEvent traits eventTrait).creatorAt eventHash =
      if eventHash = traits.get_event_trait_hash eventTrait then some eventTrait
      else system.creatorAt eventHash := by
  rw [registerEvent, creatorAt]
  split
  · rename_i here
    rw [here, AList.lookup_insert, Option.map_some]
  · rename_i apart
    rw [AList.lookup_insert_ne apart, creatorAt]

end EventSystem

section TypeSafety
open EventSystem
variable {τ δ α ε ρ : Type} {traits : Traits τ} {moved : α → α}

theorem Step.creatorAt_eq {event : Event τ δ} {system next : EventSystem τ δ α ε ρ}
    (step : Step traits moved event system next) (eventHash : Nat)
    (apart : ∀ eventTrait, event.registration = some eventTrait →
      eventHash ≠ traits.get_event_trait_hash eventTrait) :
    next.creatorAt eventHash = system.creatorAt eventHash := by
  cases step with
  | registerEvent eventTrait =>
      rw [creatorAt_registerEvent, if_neg (apart eventTrait rfl)]
  | subscribeToEvent eventTrait fn =>
      unfold EventSystem.subscribeToEvent
      cases system.find_spec_event traits eventTrait with
      | none => rfl
      | some evt => exact creatorAt_modifyEvent _ _ _ _
  | unSubscribeFromEvent eventTrait evh =>
      unfold EventSystem.unSubscribeFromEvent
      cases system.find_spec_event traits eventTrait with
      | none => rfl
      | some evt => exact creatorAt_modifyEvent _ _ _ _
  | raiseEvent eventTrait args =>
      rw [EventSystem.creatorAt, (raiseEvent_tasks traits moved system eventTrait args).2.2,
        EventSystem.creatorAt]
  | work next => rfl

theorem Step.find_isSome {eventTrait : τ} {event : Event τ δ} {system next : EventSystem τ δ α ε ρ}
    (step : Step traits moved event system next)
    (found : (system.find_spec_event traits eventTrait).isSome) :
    (next.find_spec_event traits eventTrait).isSome := by
  rw [find_isSome_iff] at found ⊢
  by_cases registers : ∃ other, event.registration = some other ∧
      traits.get_event_trait_hash eventTrait = traits.get_event_trait_hash other
  · obtain ⟨other, registered, same⟩ := registers
    cases step with
    | registerEvent first =>
        obtain rfl : first = other := Option.some.inj registered
        exact ⟨first, by rw [creatorAt_registerEvent, if_pos same]⟩
    | _ => cases registered
  · rwa [step.creatorAt_eq _ fun other registered same => registers ⟨other, registered, same⟩]

/-- Every event sits at the hash of its own trait, which no other trait is named like. -/
def Separated (traits : Traits τ) (system : EventSystem τ δ α ε ρ) : Prop :=
  ∀ eventHash creator, system.creatorAt eventHash = some creator →
    eventHash = traits.get_event_trait_hash creator ∧ NamedAlone traits creator

theorem Separated.typeSafe {system : EventSystem τ δ α ε ρ} (separated : Separated traits system)
    (injective : Set.InjOn traits.hash (Set.range traits.name)) : TypeSafe traits system := by
  intro eventTrait found
  obtain ⟨creator, here⟩ := find_isSome_iff.mp found
  obtain ⟨same, alone⟩ := separated _ creator here
  have named : traits.name eventTrait = traits.name creator :=
    injective ⟨eventTrait, rfl⟩ ⟨creator, rfl⟩ same
  rw [here, alone eventTrait named]

def RegistersAlone (traits : Traits τ) (event : Event τ δ) : Prop :=
  ∀ eventTrait, event.registration = some eventTrait → NamedAlone traits eventTrait

theorem Separated.step {event : Event τ δ} {system next : EventSystem τ δ α ε ρ}
    (separated : Separated traits system) (step : Step traits moved event system next)
    (alone : RegistersAlone traits event) : Separated traits next := by
  intro eventHash creator here
  by_cases registers : ∃ eventTrait, event.registration = some eventTrait ∧
      eventHash = traits.get_event_trait_hash eventTrait
  · obtain ⟨eventTrait, registered, rfl⟩ := registers
    cases step with
    | registerEvent other =>
        obtain rfl : other = eventTrait := Option.some.inj registered
        rw [creatorAt_registerEvent, if_pos rfl] at here
        obtain rfl : other = creator := Option.some.inj here
        exact ⟨rfl, alone other rfl⟩
    | _ => cases registered
  · rw [step.creatorAt_eq eventHash fun eventTrait registered same =>
      registers ⟨eventTrait, registered, same⟩] at here
    exact separated eventHash creator here

theorem namedAlone_of_typeSafe {system : EventSystem τ δ α ε ρ} {eventTrait : τ}
    (safe : TypeSafe traits (system.registerEvent traits eventTrait)) :
    NamedAlone traits eventTrait := by
  intro other named
  have hashed : traits.get_event_trait_hash other = traits.get_event_trait_hash eventTrait :=
    congrArg traits.hash named
  have found : (system.registerEvent traits eventTrait).creatorAt
      (traits.get_event_trait_hash other) = some eventTrait := by
    rw [creatorAt_registerEvent, if_pos hashed]
  have own := safe other (find_isSome_iff.mpr ⟨eventTrait, found⟩)
  exact Option.some.inj (own.symm.trans found)

theorem typeSafe_iff {pool : ThreadPool (Bound δ α) ε ρ}
    {past : List (EventSystem τ δ α ε ρ × Event τ δ)} {last : EventSystem τ δ α ε ρ}
    (run : Run (Step traits moved) { m_threadpool := pool } past last)
    (injective : Set.InjOn traits.hash (Set.range traits.name)) :
    Always (TypeSafe traits) past last ↔ ∀ entry ∈ past, RegistersAlone traits entry.2 := by
  have empty : Separated traits { m_threadpool := pool } := by
    intro eventHash creator here
    cases here
  refine @Run.always_iff _ _ _ _ _ _ (TypeSafe traits) (Separated traits)
    (fun event _ => RegistersAlone traits event) run empty
    (fun separated => separated.typeSafe injective) ?_
  intro event system next separated step
  refine ⟨⟨?_, fun alone => (separated.step step alone).typeSafe injective⟩,
    separated.step step⟩
  intro safe eventTrait registered
  cases step with
  | registerEvent other =>
      obtain rfl : other = eventTrait := Option.some.inj registered
      exact namedAlone_of_typeSafe safe
  | _ => cases registered

theorem typeSafe_iff_twoTraits : ∃ past last,
    Run (Step twoTraits id) emptySystem past last ∧
    past.map Prod.snd = [.registered true, .registered false, .subscribed true 7 1] ∧
    (Always (TypeSafe twoTraits) past last ↔
      ∀ entry ∈ past, RegistersAlone twoTraits entry.2) := by
  have start : Run (Step twoTraits id) emptySystem [] emptySystem := .nil
  have run := start
    |>.snoc (.registerEvent true)
    |>.snoc (.registerEvent false)
    |>.snoc (.subscribeToEvent true 7)
  have injective : Set.InjOn twoTraits.hash (Set.range twoTraits.name) := by
    rintro _ ⟨first, rfl⟩ _ ⟨second, rfl⟩
    revert first second
    decide
  exact ⟨_, _, run, rfl, typeSafe_iff run injective⟩

def namesakes : Traits Bool := ⟨fun _ => "evStart", String.length⟩

theorem namesakes_unsafe : Set.InjOn namesakes.hash (Set.range namesakes.name) ∧
    ¬ ∀ past last, Run (Step namesakes id) emptySystem past last →
      Always (TypeSafe namesakes) past last := by
  constructor
  · rintro _ ⟨first, rfl⟩ _ ⟨second, rfl⟩ _
    rfl
  · intro always
    have start : Run (Step namesakes id) emptySystem [] emptySystem := .nil
    have safe := (always _ _ (start.snoc (.registerEvent true))).2 false (by decide)
    exact absurd safe (by decide)

end TypeSafety

section Reregistering
open EventSystem
variable {τ δ α ε ρ : Type} [DecidableEq τ] {traits : Traits τ} {moved : α → α} {eventTrait : τ}

def subscribedIn (eventTrait : τ) : List (Event τ δ) → List (Event τ δ) → List (DelegateHolder δ)
  | _, [] => []
  | before, event :: later =>
      subscribedBy eventTrait before event ++ subscribedIn eventTrait (before ++ [event]) later

/-- `later` follows a call that registers an event registered in `before` already. -/
structure Reregistered (eventTrait : τ) (history before later : List (Event τ δ)) : Prop where
  split : history = before ++ .registered eventTrait :: later
  already : registeredIn eventTrait before

/-- What registering an event once more owes the subscribers from before and after. -/
structure Harmless (traits : Traits τ) (moved : α → α) (eventTrait : τ)
    (history : List (Event τ δ)) (system : EventSystem τ δ α ε ρ) : Prop where
  invoked : ∀ before later, Reregistered eventTrait history before later →
    ∀ d ∈ active eventTrait before, later.any (Event.unsubscribes eventTrait d.object) = false →
      ∀ args, ∃ task ∈ submitted system.m_threadpool
          (system.raiseEvent traits moved eventTrait args).2.1.m_threadpool,
        task.2.delegate = d.delegate
  unaliased : ∀ before later, Reregistered eventTrait history before later →
    ∀ old ∈ subscribedIn eventTrait [] before,
      ∀ d ∈ subscribedIn eventTrait (before ++ [.registered eventTrait]) later,
        d ∈ delegatesOf traits system eventTrait →
          d ∈ delegatesOf traits (system.unSubscribeFromEvent traits eventTrait old.object) eventTrait

/-- Nobody is subscribed when the event is registered once more, and the next handle is none that
was given out before such a registration. -/
def ReusesNothing (traits : Traits τ) (eventTrait : τ) (call : Event τ δ)
    (state : List (Event τ δ) × EventSystem τ δ α ε ρ) : Prop :=
  match call with
  | .registered other => other = eventTrait → registeredIn eventTrait state.1 →
      active eventTrait state.1 = []
  | .subscribed other _ _ => other = eventTrait → ∀ before later,
      Reregistered eventTrait state.1 before later → ∀ old ∈ subscribedIn eventTrait [] before,
        ∀ evt, state.2.find_spec_event traits eventTrait = some evt →
          old.object ≠ (evt.m_next_available_ID + 1).toNat
  | _ => True

/-- At every registration but the first nobody was subscribed, and no handle came twice. -/
structure KeptApart (eventTrait : τ) (history : List (Event τ δ)) : Prop where
  nobody : ∀ before later, Reregistered eventTrait history before later →
    active eventTrait before = []
  apart : ∀ before later, Reregistered eventTrait history before later →
    ∀ old ∈ subscribedIn eventTrait [] before,
      ∀ d ∈ subscribedIn eventTrait (before ++ [.registered eventTrait]) later,
        old.object ≠ d.object

theorem subscribedIn_concat (before history : List (Event τ δ)) (event : Event τ δ) :
    subscribedIn eventTrait before (history ++ [event]) =
      subscribedIn eventTrait before history ++
        subscribedBy eventTrait (before ++ history) event := by
  induction history generalizing before with
  | nil => simp [subscribedIn]
  | cons first history ih =>
      simp only [List.cons_append, subscribedIn, ih, List.append_assoc, List.nil_append]

omit [DecidableEq τ] in
theorem reregistered_concat {history before later : List (Event τ δ)} {event : Event τ δ} :
    Reregistered eventTrait (history ++ [event]) before later ↔
      (before = history ∧ event = .registered eventTrait ∧ later = [] ∧
        registeredIn eventTrait history) ∨
      ∃ earlier, later = earlier ++ [event] ∧ Reregistered eventTrait history before earlier := by
  constructor
  · rintro ⟨split, already⟩
    induction later using List.reverseRecOn with
    | nil =>
        obtain ⟨rfl, same⟩ := List.append_inj' split rfl
        exact .inl ⟨rfl, List.singleton_inj.mp same, rfl, already⟩
    | append_singleton earlier last _ =>
        rw [← List.cons_append, ← List.append_assoc] at split
        obtain ⟨front, same⟩ := List.append_inj' split rfl
        obtain rfl := List.singleton_inj.mp same
        exact .inr ⟨earlier, rfl, front, already⟩
  · rintro (⟨rfl, rfl, rfl, already⟩ | ⟨earlier, rfl, split, already⟩)
    · exact ⟨rfl, already⟩
    · refine ⟨?_, already⟩
      rw [split, List.append_assoc, List.cons_append]

omit [DecidableEq τ] in
theorem Reregistered.whole {history before later : List (Event τ δ)}
    (again : Reregistered eventTrait history before later) :
    before ++ [.registered eventTrait] ++ later = history := by
  rw [again.split, List.append_assoc]
  rfl

omit [DecidableEq τ] in
theorem Reregistered.registered {history before later : List (Event τ δ)}
    (again : Reregistered eventTrait history before later) : registeredIn eventTrait history := by
  rw [again.split, registeredIn, List.filterMap_append]
  exact List.mem_append_left _ again.already

omit [DecidableEq τ] in
theorem Reregistered.concat {history before later : List (Event τ δ)}
    (again : Reregistered eventTrait history before later) (event : Event τ δ) :
    Reregistered eventTrait (history ++ [event]) before (later ++ [event]) :=
  reregistered_concat.mpr (.inr ⟨later, rfl, again⟩)

theorem KeptApart.harmless {history : List (Event τ δ)} (apart : KeptApart eventTrait history)
    (system : EventSystem τ δ α ε ρ) : Harmless traits moved eventTrait history system where
  invoked := by
    intro before later again d member
    rw [apart.nobody before later again] at member
    exact (List.not_mem_nil member).elim
  unaliased := by
    intro before later again old gone d new bound
    rw [delegatesOf_unSubscribeFromEvent, List.mem_filter]
    exact ⟨bound, decide_eq_true (apart.apart before later again old gone d new).symm⟩

theorem reusesNothing_of_harmless {history : List (Event τ δ)} {event : Event τ δ}
    {system next : EventSystem τ δ α ε ρ} (step : Step traits moved event system next)
    (present : registeredIn eventTrait history →
      (system.find_spec_event traits eventTrait).isSome)
    (harmless : Harmless traits moved eventTrait (history ++ [event]) next) :
    ReusesNothing traits eventTrait event (history, system) := by
  cases step with
  | registerEvent other =>
      rintro rfl already
      rw [List.eq_nil_iff_forall_not_mem]
      intro d subscribed
      obtain ⟨task, member, -⟩ :=
        harmless.invoked history [] ⟨rfl, already⟩ d subscribed rfl []
      rw [submitted_raiseEvent, raisedTasks, delegatesOf_eq, find_registerEvent] at member
      exact List.not_mem_nil member
  | subscribeToEvent other fn =>
      rintro rfl before later again old gone evt found same
      have registered : registeredIn other history := again.registered
      have handle : (system.subscribeToEvent traits other fn).1 =
          (evt.m_next_available_ID + 1).toNat := by
        rw [EventSystem.subscribeToEvent, found]
        rfl
      have whole : before ++ [.registered other] ++ later = history := again.whole
      have kept := harmless.unaliased before _ (again.concat _) old gone
        ⟨fn, (system.subscribeToEvent traits other fn).1⟩
        (by simp [subscribedIn_concat, whole, subscribedBy, registered])
        (by simp [delegatesOf_subscribeToEvent, present registered])
      rw [delegatesOf_unSubscribeFromEvent, List.mem_filter, handle, same] at kept
      exact of_decide_eq_true kept.2 rfl
  | unSubscribeFromEvent other evh => trivial
  | raiseEvent other args => trivial
  | work next => trivial

theorem KeptApart.step {history : List (Event τ δ)} {event : Event τ δ}
    {system next : EventSystem τ δ α ε ρ} (apart : KeptApart eventTrait history)
    (step : Step traits moved event system next)
    (present : registeredIn eventTrait history →
      (system.find_spec_event traits eventTrait).isSome)
    (reuses : ReusesNothing traits eventTrait event (history, system)) :
    KeptApart eventTrait (history ++ [event]) where
  nobody := by
    intro before later again
    rcases reregistered_concat.mp again with ⟨rfl, rfl, -, already⟩ | ⟨earlier, -, again⟩
    · exact reuses rfl already
    · exact apart.nobody before earlier again
  apart := by
    intro before later again old gone d new
    rcases reregistered_concat.mp again with ⟨-, -, rfl, -⟩ | ⟨earlier, rfl, already⟩
    · exact (List.not_mem_nil new).elim
    · rw [subscribedIn_concat, already.whole, List.mem_append] at new
      rcases new with new | new
      · exact apart.apart before earlier already old gone d new
      · cases step with
        | subscribeToEvent other fn =>
            simp only [subscribedBy] at new
            split at new
            · rename_i here
              obtain ⟨rfl, registered⟩ := here
              obtain rfl := List.mem_singleton.mp new
              obtain ⟨evt, found⟩ := Option.isSome_iff_exists.mp (present registered)
              have fresh := reuses rfl before earlier already old gone evt found
              rw [EventSystem.subscribeToEvent, found]
              exact fresh
            · exact (List.not_mem_nil new).elim
        | _ => exact (List.not_mem_nil new).elim

structure Tracked (traits : Traits τ) (eventTrait : τ)
    (state : List (Event τ δ) × EventSystem τ δ α ε ρ) : Prop where
  apart : KeptApart eventTrait state.1
  present : registeredIn eventTrait state.1 →
    (state.2.find_spec_event traits eventTrait).isSome

omit [DecidableEq τ] in
theorem present_step {history : List (Event τ δ)} {event : Event τ δ}
    {system next : EventSystem τ δ α ε ρ} (step : Step traits moved event system next)
    (present : registeredIn eventTrait history →
      (system.find_spec_event traits eventTrait).isSome)
    (registered : registeredIn eventTrait (history ++ [event])) :
    (next.find_spec_event traits eventTrait).isSome := by
  rcases registeredIn_concat _ _ |>.mp registered with earlier | now
  · exact step.find_isSome (present earlier)
  · cases step with
    | registerEvent other =>
        obtain rfl : other = eventTrait := Option.some.inj now
        rw [find_registerEvent]
        rfl
    | _ => cases now

/-- Runs that also list the calls made so far, from a system with no events on. -/
theorem harmless_iff (eventTrait : τ) {pool : ThreadPool (Bound δ α) ε ρ}
    {past : List ((List (Event τ δ) × EventSystem τ δ α ε ρ) × Event τ δ)}
    {last : List (Event τ δ) × EventSystem τ δ α ε ρ}
    (run : Run (Recorded (Step traits moved)) ([], { m_threadpool := pool }) past last) :
    Always (fun state => Harmless traits moved eventTrait state.1 state.2) past last ↔
      ∀ entry ∈ past, ReusesNothing traits eventTrait entry.2 entry.1 := by
  have base : Tracked traits eventTrait ([], { m_threadpool := pool }) := by
    refine ⟨⟨?_, ?_⟩, fun registered => (List.not_mem_nil registered).elim⟩
    · intro before later again
      exact (List.not_mem_nil (again.split ▸ List.mem_append_right _ List.mem_cons_self)).elim
    · intro before later again
      exact (List.not_mem_nil (again.split ▸ List.mem_append_right _ List.mem_cons_self)).elim
  refine run.always_iff base (fun tracked => tracked.apart.harmless _) ?_
  rintro event ⟨history, system⟩ ⟨_, next⟩ ⟨apart, present⟩ ⟨step, rfl⟩
  refine ⟨⟨reusesNothing_of_harmless step present, fun reuses =>
    (apart.step step present reuses).harmless _⟩, fun reuses => ?_⟩
  exact ⟨apart.step step present reuses, present_step step present⟩

theorem harmless_iff_emptied : ∃ past last,
    Run (Recorded (Step twoTraits id)) ([], emptySystem) past last ∧
    last.1 = [.registered true, .subscribed true 7 1, .unsubscribed true 1, .registered true] ∧
    (Always (fun state => Harmless twoTraits id true state.1 state.2) past last ↔
      ∀ entry ∈ past, ReusesNothing twoTraits true entry.2 entry.1) := by
  have start : Run (Recorded (Step twoTraits id)) ([], emptySystem) [] ([], emptySystem) := .nil
  have run := start
    |>.record (.registerEvent true)
    |>.record (.subscribeToEvent true 7)
    |>.record (.unSubscribeFromEvent true 1)
    |>.record (.registerEvent true)
  exact ⟨_, _, run, rfl, harmless_iff true run⟩

theorem reregistered_harms : ¬ ∀ past last,
    Run (Recorded (Step twoTraits id)) ([], emptySystem) past last →
      Always (fun state => Harmless twoTraits id true state.1 state.2) past last := by
  intro always
  have start : Run (Recorded (Step twoTraits id)) ([], emptySystem) [] ([], emptySystem) := .nil
  have run := start
    |>.record (.registerEvent true)
    |>.record (.subscribeToEvent true 7)
    |>.record (.registerEvent true)
  have again : Reregistered true [.registered true, .subscribed true 7 1, .registered true]
      [.registered true, .subscribed true 7 1] [] := ⟨rfl, by decide⟩
  obtain ⟨task, member, -⟩ := (always _ _ run).2.invoked _ _ again ⟨7, 1⟩ (by decide) rfl []
  exact absurd member (by decide +revert)

end Reregistering
end PackagedTask.Events
