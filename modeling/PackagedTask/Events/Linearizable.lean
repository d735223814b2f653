import PackagedTask.Events.Exclusion

namespace PackagedTask.Events.Concurrent
open Library Tasks Threads

variable {θ τ δ α ε ρ : Type} [DecidableEq τ] {traits : Traits τ} {moved : α → α}
  {call : Call τ δ α} {shared after : Shared τ δ α ε ρ} {table table' : EventsMap τ δ}
  {stage : Stage δ α} {next : Next τ δ α ε ρ}

/-- Inside the lock a call never waits and never reaches an object that is gone. -/
theorem inside_goes (cached : Cached traits shared) (holds : stage.Holds call)
    (inside : Inside traits moved call shared table stage)
    (before : ∀ result, stage ≠ .unlocking result) : Goes traits moved call shared table stage := by
  cases stage with
  | testing => exact goes_testing cached holds inside
  | storing => exact goes_storing holds inside
  | loading => exact goes_loading holds inside.1 inside.2
  | locking eventHash => exact holds.elim
  | making eventHash => exact goes_making inside.1 inside.2.1 inside.2.2
  | assigning eventHash evt =>
      obtain ⟨memory, hash, this, made, unstored⟩ := inside
      exact goes_assigning memory hash this made unstored
  | finding eventHash => exact goes_finding inside.1 inside.2.1 inside.2.2
  | accessing evt => exact goes_accessing inside.1 inside.2.1 inside.2.2
  | counting evt fn => exact goes_counting inside.1 inside.2.1 inside.2.2
  | pushing evt fn evh =>
      obtain ⟨event, found, handle, memory, here, this⟩ := inside
      exact goes_pushing found handle memory here this
  | erasing evt evh => exact goes_erasing inside.1 inside.2.1 inside.2.2
  | calling evt d args res =>
      obtain ⟨memory, here, event, passed, found, this, rest⟩ := inside
      exact goes_calling memory here found this rest
  | releasing evt result =>
      obtain ⟨after, does, memory, here⟩ := inside
      exact goes_releasing does memory here
  | unlocking result => exact (before result rfl).elim
  | leaving result => exact holds.elim

theorem advance_caches (goes : advance traits moved call shared stage = some next) :
    Caches traits shared next.shared := by
  intro eventTrait
  by_cases stores : stage = .storing
  · subst stores
    cases goes
    by_cases here : eventTrait = call.eventTrait
    · exact .inr (by simp [here])
    · exact .inl (Function.update_of_ne here ..)
  · exact .inl (congrFun ((advance_effects goes).statics stores) eventTrait)

/-- Outside the lock a call touches nothing but a static and the flag that lets it in. -/
structure Enters (traits : Traits τ) (moved : α → α) (call : Call τ δ α) (shared : Shared τ δ α ε ρ)
    (next : Next τ δ α ε ρ) : Prop where
  events : next.shared.m_events = shared.m_events
  objects : next.shared.objects = shared.objects
  nextObject : next.shared.nextObject = shared.nextObject
  pool : next.shared.m_threadpool = shared.m_threadpool
  posted : next.posted = none
  stays : ∀ result, next.stage ≠ .leaving result
  lock : (¬ next.stage.Holds call ∧ next.shared.m_access_flag = shared.m_access_flag ∧
      Outside traits call next.shared next.stage) ∨
    (shared.m_access_flag = false ∧ next.stage.Holds call ∧ next.shared.m_access_flag = true ∧
      ∀ table, Table shared table none none → Inside traits moved call next.shared table next.stage)

theorem outside_step (cached : Cached traits shared) (holds : ¬ stage.Holds call)
    (outside : Outside traits call shared stage)
    (goes : advance traits moved call shared stage = some next) :
    Enters traits moved call shared next := by
  cases stage with
  | testing =>
      by_cases unknown : shared.result call.eventTrait = 0
      · simp only [advance, if_pos unknown] at goes
        cases goes
        exact ⟨rfl, rfl, rfl, rfl, rfl, by simp, .inl ⟨holds, rfl, trivial⟩⟩
      · simp only [advance, if_neg unknown] at goes
        cases goes
        have known := (cached call.eventTrait).resolve_left unknown
        exact ⟨rfl, rfl, rfl, rfl, rfl, by simp, .inl ⟨holds, rfl, known⟩⟩
  | storing =>
      cases goes
      exact ⟨rfl, rfl, rfl, rfl, rfl, by simp, .inl ⟨holds, rfl, Function.update_self ..⟩⟩
  | loading =>
      cases call with
      | registerEvent eventTrait =>
          cases goes
          exact ⟨rfl, rfl, rfl, rfl, rfl, by simp, .inl ⟨id, rfl, outside, rfl⟩⟩
      | _ => exact (holds trivial).elim
  | locking eventHash =>
      unfold advance at goes
      cases free : shared.m_access_flag with
      | true =>
          simp only [exchange, free, Bool.not_true] at goes
          cases goes
          refine ⟨rfl, rfl, rfl, rfl, rfl, by simp, .inl ⟨id, free.symm, ?_⟩⟩
          cases eventHash with
          | none => exact outside
          | some eventHash => exact outside
      | false =>
          simp only [exchange, free, Bool.not_false, if_true] at goes
          cases eventHash with
          | none =>
              cases goes
              refine ⟨rfl, rfl, rfl, rfl, rfl, by simp, .inr ⟨free, outside, rfl, ?_⟩⟩
              exact fun table memory => memory.keep rfl rfl rfl
          | some eventHash =>
              cases goes
              refine ⟨rfl, rfl, rfl, rfl, rfl, by simp, .inr ⟨free, trivial, rfl, ?_⟩⟩
              exact fun table memory => ⟨memory.keep rfl rfl rfl, outside⟩
  | leaving result => cases goes
  | _ => exact (holds trivial).elim

theorem unlocks {result : Result δ α} (goes : advance traits moved call shared (.unlocking result) =
      some next) (inside : Inside traits moved call shared table (.unlocking result)) :
    next.stage = .leaving result ∧ next.shared.m_access_flag = false ∧
      ∃ after, Sequential ε ρ traits moved (call, result) table after ∧
        Table next.shared after none none := by
  cases goes
  obtain ⟨after, does, memory⟩ := inside
  exact ⟨rfl, rfl, after, does, memory.keep rfl rfl rfl⟩

omit [DecidableEq τ] in
theorem Outside.keep (outside : Outside traits call shared stage)
    (caches : Caches traits shared after) : Outside traits call after stage := by
  cases stage with
  | loading => exact (caches call.eventTrait).elim (fun same => same.trans outside) id
  | locking eventHash => cases eventHash <;> exact outside
  | _ => trivial

omit [DecidableEq τ] in
theorem Inside.keep (inside : Inside traits moved call shared table stage)
    (caches : Caches traits shared after) (events : after.m_events = shared.m_events)
    (objects : after.objects = shared.objects) (nextObject : after.nextObject = shared.nextObject) :
    Inside traits moved call after table stage := by
  have keep : ∀ {table : EventsMap τ δ} {held spare}, Table shared table held spare →
      Table after table held spare := fun memory => memory.keep events objects nextObject
  have deref : after.deref = shared.deref := by
    funext evt
    rw [Shared.deref, objects, Shared.deref]
  cases stage with
  | testing => exact keep inside
  | storing => exact keep inside
  | loading =>
      exact ⟨keep inside.1, (caches call.eventTrait).elim (fun same => same.trans inside.2) id⟩
  | locking eventHash => exact inside
  | leaving result => exact inside
  | making eventHash => exact ⟨keep inside.1, inside.2⟩
  | assigning eventHash evt =>
      obtain ⟨memory, hash, this, made, unstored⟩ := inside
      exact ⟨keep memory, hash, this, deref ▸ made, events ▸ unstored⟩
  | finding eventHash => exact ⟨keep inside.1, inside.2⟩
  | accessing evt => exact ⟨keep inside.1, events ▸ inside.2.1, inside.2.2⟩
  | counting evt fn => exact ⟨keep inside.1, events ▸ inside.2.1, inside.2.2⟩
  | pushing evt fn evh =>
      obtain ⟨event, found, handle, memory, here, this⟩ := inside
      exact ⟨event, found, handle, keep memory, events ▸ here, this⟩
  | erasing evt evh => exact ⟨keep inside.1, events ▸ inside.2.1, inside.2.2⟩
  | calling evt d args res => exact ⟨keep inside.1, events ▸ inside.2.1, inside.2.2⟩
  | releasing evt result =>
      obtain ⟨end', does, memory, here⟩ := inside
      exact ⟨end', does, keep memory, events ▸ here⟩
  | unlocking result =>
      obtain ⟨end', does, memory⟩ := inside
      exact ⟨end', does, keep memory⟩

omit [DecidableEq τ] in
theorem Cached.keep (cached : Cached traits shared) (caches : Caches traits shared after) :
    Cached traits after := by
  intro eventTrait
  rcases caches eventTrait with same | known
  · rw [same]
    exact cached eventTrait
  · exact .inr known

section Machines
variable [DecidableEq θ] {machine : Machine θ τ δ α ε ρ} {t : θ}

theorem Sound.run_outside (sound : Sound traits moved machine table)
    (here : machine.position t = some (call, stage)) (holds : ¬ stage.Holds call)
    (goes : advance traits moved call machine.shared stage = some next) :
    Sound traits moved (machine.move t (some (call, next.stage)) next.shared) table := by
  have entered := outside_step sound.cached holds (sound.outside t call stage here holds) goes
  have caches := advance_caches goes
  have idle : ¬ Position.Holds (machine.position t) := by
    rw [here]
    exact holds
  constructor
  · apply sound.guarded.move
    rcases entered.lock with ⟨out, same, -⟩ | ⟨free, inside, taken, -⟩
    · exact .keep (iff_of_false out idle) same
    · exact .acquire idle free inside taken
  · exact sound.cached.keep caches
  · intro u call' stage' position holds'
    by_cases same : u = t
    · rw [same, move_self] at position
      cases position
      rcases entered.lock with ⟨out, -, -⟩ | ⟨free, -, -, inside⟩
      · exact (out holds').elim
      · exact inside table (sound.free free)
    · rw [move_other same] at position
      exact (sound.inside u call' stage' position holds').keep caches entered.events
        entered.objects entered.nextObject
  · intro u call' stage' position holds'
    by_cases same : u = t
    · rw [same, move_self] at position
      cases position
      rcases entered.lock with ⟨-, -, outside⟩ | ⟨-, inside, -, -⟩
      · exact outside
      · exact (holds' inside).elim
    · rw [move_other same] at position
      exact (sound.outside u call' stage' position holds').keep caches
  · intro free
    rcases entered.lock with ⟨-, same, -⟩ | ⟨-, -, taken, -⟩
    · exact (sound.free (same.symm.trans free)).keep entered.events entered.objects
        entered.nextObject
    · rw [move_shared, taken] at free
      cases free

theorem Sound.run_inside (sound : Sound traits moved machine table)
    (here : machine.position t = some (call, stage)) (holds : stage.Holds call)
    (before : ∀ result, stage ≠ .unlocking result)
    (goes : advance traits moved call machine.shared stage = some next) :
    Sound traits moved (machine.move t (some (call, next.stage)) next.shared) table := by
  obtain ⟨next', goes', stays, same, inside⟩ := inside_goes sound.cached holds
    (sound.inside t call stage here holds) before
  rw [goes] at goes'
  cases goes'
  have caches := advance_caches goes
  have within : Position.Holds (machine.position t) := by
    rw [here]
    exact holds
  have taken := sound.guarded.flagged t within
  constructor
  · exact sound.guarded.move (.keep (iff_of_true stays within) same)
  · exact sound.cached.keep caches
  · intro u call' stage' position holds'
    by_cases same : u = t
    · rw [same, move_self] at position
      cases position
      exact inside
    · rw [move_other same] at position
      refine (sound.guarded.others within same ?_).elim
      rw [position]
      exact holds'
  · intro u call' stage' position holds'
    by_cases same : u = t
    · rw [same, move_self] at position
      cases position
      exact (holds' stays).elim
    · rw [move_other same] at position
      exact (sound.outside u call' stage' position holds').keep caches
  · intro free
    rw [move_shared, same, taken] at free
    cases free

theorem Sound.run (sound : Sound traits moved machine table)
    (here : machine.position t = some (call, stage)) (before : ∀ result, stage ≠ .unlocking result)
    (goes : advance traits moved call machine.shared stage = some next) :
    Sound traits moved (machine.move t (some (call, next.stage)) next.shared) table ∧
      ∀ result, next.stage ≠ .leaving result := by
  by_cases holds : stage.Holds call
  · refine ⟨sound.run_inside here holds before goes, ?_⟩
    obtain ⟨next', goes', stays, -⟩ := inside_goes sound.cached holds
      (sound.inside t call stage here holds) before
    rw [goes] at goes'
    cases goes'
    intro result left
    rw [left] at stays
    exact stays
  · refine ⟨sound.run_outside here holds goes, ?_⟩
    exact (outside_step sound.cached holds (sound.outside t call stage here holds) goes).stays

theorem Sound.run_unlocking {result : Result δ α} (sound : Sound traits moved machine table)
    (here : machine.position t = some (call, .unlocking result))
    (goes : advance traits moved call machine.shared (.unlocking result) = some next) :
    next.stage = .leaving result ∧ ∃ after, Sequential ε ρ traits moved (call, result) table after ∧
      Sound traits moved (machine.move t (some (call, next.stage)) next.shared) after := by
  obtain ⟨left, free, after, does, memory⟩ :=
    unlocks goes (sound.inside t call _ here trivial)
  have caches := advance_caches goes
  have within : Position.Holds (machine.position t) := by
    rw [here]
    trivial
  have out : ¬ next.stage.Holds call := by
    rw [left]
    exact id
  refine ⟨left, after, does, ?_, ?_, ?_, ?_, ?_⟩
  · exact sound.guarded.move (.release within out free)
  · exact sound.cached.keep caches
  · intro u call' stage' position holds'
    by_cases same : u = t
    · rw [same, move_self] at position
      cases position
      exact (out holds').elim
    · rw [move_other same] at position
      refine (sound.guarded.others within same ?_).elim
      rw [position]
      exact holds'
  · intro u call' stage' position holds'
    by_cases same : u = t
    · rw [same, move_self] at position
      cases position
      rw [left]
      trivial
    · rw [move_other same] at position
      exact (sound.outside u call' stage' position holds').keep caches
  · exact fun _ => memory

omit [DecidableEq τ] in
theorem Sound.called (sound : Sound traits moved machine table) (call : Call τ δ α)
    (idle : machine.position t = none) :
    Sound traits moved (machine.move t (some (call, call.entry)) machine.shared) table := by
  have out : ¬ call.entry.Holds call := by
    cases call <;> exact id
  have was : ¬ Position.Holds (machine.position t) := by
    rw [idle]
    exact id
  constructor
  · exact sound.guarded.move (.keep (iff_of_false out was) rfl)
  · exact sound.cached
  · intro u call' stage' position holds'
    by_cases same : u = t
    · rw [same, move_self] at position
      cases position
      exact (out holds').elim
    · rw [move_other same] at position
      exact sound.inside u call' stage' position holds'
  · intro u call' stage' position holds'
    by_cases same : u = t
    · rw [same, move_self] at position
      cases position
      cases call <;> trivial
    · rw [move_other same] at position
      exact sound.outside u call' stage' position holds'
  · exact sound.free

omit [DecidableEq τ] in
theorem Sound.returned {result : Result δ α} (sound : Sound traits moved machine table)
    (here : machine.position t = some (call, .leaving result)) :
    Sound traits moved (machine.move t none machine.shared) table := by
  have was : ¬ Position.Holds (machine.position t) := by
    rw [here]
    exact id
  constructor
  · exact sound.guarded.move (.keep (iff_of_false id was) rfl)
  · exact sound.cached
  · intro u call' stage' position holds'
    by_cases same : u = t
    · rw [same, move_self] at position
      cases position
    · rw [move_other same] at position
      exact sound.inside u call' stage' position holds'
  · intro u call' stage' position holds'
    by_cases same : u = t
    · rw [same, move_self] at position
      cases position
    · rw [move_other same] at position
      exact sound.outside u call' stage' position holds'
  · exact sound.free

omit [DecidableEq τ] [DecidableEq θ] in
theorem Sound.worked (sound : Sound traits moved machine table) (pool : ThreadPool (Bound δ α) ε ρ) :
    Sound traits moved (machine.disturb { machine.shared with m_threadpool := pool }) table where
  guarded := sound.guarded.disturb rfl
  cached := sound.cached
  inside := fun t call stage here holds =>
    (sound.inside t call stage here holds).keep (fun _ => .inl rfl) rfl rfl rfl
  outside := fun t call stage here holds =>
    (sound.outside t call stage here holds).keep fun _ => .inl rfl
  free := fun free => (sound.free free).keep rfl rfl rfl

omit [DecidableEq τ] [DecidableEq θ] in
theorem sound_start (pool : ThreadPool (Bound δ α) ε ρ) :
    Sound traits moved (start pool : Machine θ τ δ α ε ρ) ∅ where
  guarded := by
    refine ⟨?_, fun _ => False.elim, fun _ _ => False.elim⟩
    intro taken
    cases taken
  cached := fun _ => .inl rfl
  inside := fun _ _ _ here => nomatch here
  outside := fun _ _ _ here => nomatch here
  free := by
    intro _
    constructor <;> simp [start, Shared.deref]

def client : Position τ δ α → Client (Call τ δ α) (Result δ α)
  | none => .idle
  | some (_, .leaving result) => .answered result
  | some (call, _) => .called call

abbrev Atomic (θ τ δ α : Type) := AtomicObject θ (Call τ δ α) (Result δ α) (EventsMap τ δ)

structure Abstracts (traits : Traits τ) (moved : α → α) (machine : Machine θ τ δ α ε ρ)
    (object : Atomic θ τ δ α) : Prop where
  sound : Sound traits moved machine object.shared
  clients : ∀ t, object.position t = client (machine.position t)

omit [DecidableEq τ] in
theorem clients_move {object : Atomic θ τ δ α} {p : Position τ δ α} {s : Shared τ δ α ε ρ}
    (clients : ∀ t, object.position t = client (machine.position t)) (table : EventsMap τ δ) (u : θ) :
    (object.move t (client p) table).position u = client ((machine.move t p s).position u) := by
  by_cases same : u = t
  · rw [same, move_self, move_self]
  · rw [move_other same, move_other same, clients u]

omit [DecidableEq τ] in
theorem clients_stay {object : Atomic θ τ δ α} {p : Position τ δ α} {s : Shared τ δ α ε ρ}
    (clients : ∀ t, object.position t = client (machine.position t))
    (same : client p = client (machine.position t)) (u : θ) :
    object.position u = client ((machine.move t p s).position u) := by
  by_cases here : u = t
  · rw [here, move_self, same, clients t]
  · rw [move_other here, clients u]

omit [DecidableEq τ] in
theorem client_called (apart : ∀ result, stage ≠ .leaving result) :
    client (some (call, stage)) = .called call := by
  cases stage with
  | leaving result => exact (apart result rfl).elim
  | _ => rfl

theorem Abstracts.follows {object : Atomic θ τ δ α} {action : Action θ τ δ α ε ρ}
    {after : Machine θ τ δ α ε ρ} (abstracts : Abstracts traits moved machine object)
    (step : Step traits moved action machine after) :
    ∃ past object', Run (AtomicObject.Step (Sequential ε ρ traits moved)) object past object' ∧
      Abstracts traits moved after object' ∧ observed Moment.shown past = action.shown.toList := by
  obtain ⟨sound, clients⟩ := abstracts
  cases step with
  | call t call idle =>
      have waits : object.position t = .idle := by rw [clients, idle, client]
      refine ⟨_, _, Run.nil.snoc (.call call waits), ⟨sound.called call idle, ?_⟩, rfl⟩
      have entered : client (some (call, call.entry)) = .called call := by
        cases call <;> rfl
      rw [← entered]
      exact clients_move clients object.shared
  | @run _ t call stage next here goes =>
      by_cases unlocking : ∃ result, stage = .unlocking result
      · obtain ⟨result, rfl⟩ := unlocking
        obtain ⟨left, table, does, sound⟩ := sound.run_unlocking here goes
        have waits : object.position t = .called call := by
          rw [clients, here]
          exact client_called (by simp)
        refine ⟨_, _, Run.nil.snoc (.effect waits does), ⟨sound, ?_⟩, rfl⟩
        have answered : client (some (call, next.stage)) = .answered result := by rw [left, client]
        rw [← answered]
        exact clients_move clients table
      · have before : ∀ result, stage ≠ .unlocking result :=
          fun result same => unlocking ⟨result, same⟩
        have now : ∀ result, stage ≠ .leaving result := by
          intro result same
          rw [same] at goes
          cases goes
        obtain ⟨sound', later⟩ := sound.run here before goes
        refine ⟨[], object, .nil, ⟨sound', clients_stay clients ?_⟩, rfl⟩
        rw [here, client_called now, client_called later]
  | @respond _ t call result here =>
      have answered : object.position t = .answered result := by rw [clients, here, client]
      refine ⟨_, _, Run.nil.snoc (.respond answered), ⟨sound.returned here, ?_⟩, rfl⟩
      exact clients_move (p := none) clients object.shared
  | work next => exact ⟨[], object, .nil, ⟨sound.worked _, clients⟩, rfl⟩

omit [DecidableEq τ] [DecidableEq θ] in
theorem abstracts_start (pool : ThreadPool (Bound δ α) ε ρ) :
    Abstracts traits moved (start pool : Machine θ τ δ α ε ρ) (AtomicObject.start ∅) :=
  ⟨sound_start pool, fun _ => rfl⟩

variable {pool : ThreadPool (Bound δ α) ε ρ} {last : Machine θ τ δ α ε ρ}
  {past : List (Machine θ τ δ α ε ρ × Action θ τ δ α ε ρ)}

theorem atomic_of_run (run : Run (Step traits moved) (start pool) past last) :
    ∃ atomic object, Run (AtomicObject.Step (Sequential ε ρ traits moved)) (AtomicObject.start ∅)
        atomic object ∧ Abstracts traits moved last object ∧
      observed Moment.shown atomic = observed Action.shown past :=
  run.simulated (abstracts_start pool) Abstracts.follows

def Stage.member : Stage δ α → Option Ptr
  | .counting evt _ | .pushing evt _ _ | .erasing evt _ | .calling evt _ _ _ | .releasing evt _ =>
      some evt
  | _ => none

structure Safe (traits : Traits τ) (moved : α → α) (machine : Machine θ τ δ α ε ρ) : Prop where
  exclusive : ∀ t u, Position.Holds (machine.position t) → Position.Holds (machine.position u) →
    t = u
  members : ∀ t u call call' stage stage' evt, machine.position t = some (call, stage) →
    machine.position u = some (call', stage') → stage.member = some evt →
    stage'.member = some evt → t = u
  /-- The lock of a `SpecEvent` is free whenever a thread comes to take it. -/
  uncontended : ∀ t call evt, machine.position t = some (call, .accessing evt) →
    ∃ object, machine.shared.deref evt = some object ∧ object.m_access_flag = false
  defined : ∀ t call stage, machine.position t = some (call, stage) →
    (∀ result, stage ≠ .leaving result) →
    ∃ next, advance traits moved call machine.shared stage = some next
  live : ∀ eventHash evt, machine.shared.m_events.lookup eventHash = some evt →
    ∃ object, machine.shared.deref evt = some object
  stored : machine.shared.m_access_flag = false → ∀ evt object,
    machine.shared.deref evt = some object →
    ∃ eventHash, machine.shared.m_events.lookup eventHash = some evt

omit [DecidableEq τ] [DecidableEq θ] in
theorem Stage.member_holds {evt : Ptr} (has : stage.member = some evt) : stage.Holds call := by
  cases stage <;> trivial

omit [DecidableEq τ] [DecidableEq θ] in
theorem Sound.memory (sound : Sound traits moved machine table) :
    ∃ table held spare, Table machine.shared table held spare := by
  cases free : machine.shared.m_access_flag with
  | false => exact ⟨table, none, none, sound.free free⟩
  | true =>
      obtain ⟨t, holds⟩ := sound.guarded.holder free
      match here : machine.position t with
      | none =>
          rw [here] at holds
          exact holds.elim
      | some (call, stage) =>
          rw [here] at holds
          exact (sound.inside t call stage here holds).table

omit [DecidableEq θ] in
theorem Sound.safe (sound : Sound traits moved machine table) : Safe traits moved machine where
  exclusive := sound.guarded.exclusive
  members := by
    intro t u call call' stage stage' evt here there has also
    apply sound.guarded.exclusive
    · rw [here]
      exact Stage.member_holds has
    · rw [there]
      exact Stage.member_holds also
  uncontended := by
    intro t call evt here
    obtain ⟨memory, found, -⟩ := sound.inside t call _ here trivial
    obtain ⟨object, live, -⟩ := memory.find found
    exact ⟨object, live, memory.flags evt object live⟩
  defined := by
    intro t call stage here stays
    by_cases holds : stage.Holds call
    · by_cases unlocking : ∃ result, stage = .unlocking result
      · obtain ⟨result, rfl⟩ := unlocking
        exact ⟨_, rfl⟩
      · obtain ⟨next, goes, -⟩ := inside_goes sound.cached holds
          (sound.inside t call stage here holds) fun result same => unlocking ⟨result, same⟩
        exact ⟨next, goes⟩
    · cases stage with
      | testing => exact ⟨_, rfl⟩
      | storing => exact ⟨_, rfl⟩
      | loading => cases call <;> exact ⟨_, rfl⟩
      | locking eventHash =>
          unfold advance
          cases machine.shared.m_access_flag <;> cases eventHash <;> exact ⟨_, rfl⟩
      | leaving result => exact (stays result rfl).elim
      | _ => exact (holds trivial).elim
  live := by
    obtain ⟨table, held, spare, memory⟩ := sound.memory
    exact memory.live
  stored := by
    intro free evt object live
    exact ((sound.free free).owned evt object live).resolve_left (by simp)

theorem safe_of_run (run : Run (Step traits moved) (start pool) past last) :
    Safe traits moved last := by
  obtain ⟨-, object, -, abstracts, -⟩ := atomic_of_run run
  exact abstracts.sound.safe

/-- All that the callers see of a run, whatever the threads and the workers do in between, an
`EventSystem` could show whose calls happen at once. -/
theorem linearizable (run : Run (Step traits moved) (start pool) past last) :
    ∃ atomic object, Run (AtomicObject.Step (Sequential ε ρ traits moved)) (AtomicObject.start ∅)
        atomic object ∧ observed Moment.shown atomic = observed Action.shown past := by
  obtain ⟨atomic, object, runs, -, shown⟩ := atomic_of_run run
  exact ⟨atomic, object, runs, shown⟩

end Machines

theorem twoThreads_safe : ∃ past last,
    Run (Step EventSystem.oneTrait id) emptyMachine past last ∧
      observed Action.shown past = twoThreadsShown ∧ Safe EventSystem.oneTrait id last := by
  obtain ⟨past, last, run, shown, -⟩ := twoThreads_run
  exact ⟨past, last, run, shown, safe_of_run run⟩

theorem twoThreads_linearizable : ∃ past last,
    Run (Step EventSystem.oneTrait id) emptyMachine past last ∧
      ∃ atomic object, Run (AtomicObject.Step (Sequential Unit Unit EventSystem.oneTrait id))
          (AtomicObject.start ∅) atomic object ∧
        observed Moment.shown atomic = twoThreadsShown := by
  obtain ⟨past, last, run, shown, -⟩ := twoThreads_run
  obtain ⟨atomic, object, runs, same⟩ := linearizable run
  exact ⟨past, last, run, atomic, object, runs, same.trans shown⟩

end PackagedTask.Events.Concurrent
