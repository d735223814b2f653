import PackagedTask.Events.Delivery
import PackagedTask.Events.Linearizable

namespace PackagedTask.Events.Concurrent
open Library Tasks Threads

section Histories
variable {τ δ α ε ρ : Type} {traits : Traits τ} {moved : α → α}

def eventOf : Call τ δ α × Result δ α → Event τ δ
  | (.registerEvent eventTrait, _) => .registered eventTrait
  | (.subscribeToEvent eventTrait fn, .handle evh) => .subscribed eventTrait fn evh
  | (.unSubscribeFromEvent eventTrait evh, _) => .unsubscribed eventTrait evh
  | (.raiseEvent eventTrait _, _) => .raised eventTrait
  | _ => .worked

variable (system : EventSystem τ δ α ε ρ) (pool : ThreadPool (Bound δ α) ε ρ)

theorem subscribeToEvent_pool (eventTrait : τ) (fn : δ) :
    EventSystem.subscribeToEvent traits ⟨system.m_events, pool⟩ eventTrait fn =
      ((system.subscribeToEvent traits eventTrait fn).1,
        ⟨(system.subscribeToEvent traits eventTrait fn).2.m_events, pool⟩) := by
  unfold EventSystem.subscribeToEvent EventSystem.modifyEvent EventSystem.find_spec_event
  cases found : system.m_events.lookup (traits.get_event_trait_hash eventTrait) <;> simp [found]

theorem unSubscribeFromEvent_pool (eventTrait : τ) (evh : Nat) :
    EventSystem.unSubscribeFromEvent traits ⟨system.m_events, pool⟩ eventTrait evh =
      ⟨(system.unSubscribeFromEvent traits eventTrait evh).m_events, pool⟩ := by
  unfold EventSystem.unSubscribeFromEvent EventSystem.modifyEvent EventSystem.find_spec_event
  cases found : system.m_events.lookup (traits.get_event_trait_hash eventTrait) <;> simp [found]

theorem raisedTasks_closures (eventTrait : τ) (args : List (Arg α)) :
    (EventSystem.raisedTasks traits moved system eventTrait args).map Prod.snd =
      closures moved (EventSystem.delegatesOf traits system eventTrait) args :=
  boundTasks_closures ..

variable {system pool}

theorem Sequential.step {entry : Call τ δ α × Result δ α} {table table' : EventsMap τ δ}
    (does : Sequential ε ρ traits moved entry table table') (pool : ThreadPool (Bound δ α) ε ρ) :
    ∃ pool', Events.Step traits moved (eventOf entry)
      (⟨table, pool⟩ : EventSystem τ δ α ε ρ) ⟨table', pool'⟩ := by
  cases does with
  | registerEvent system eventTrait => exact ⟨pool, .registerEvent eventTrait⟩
  | subscribeToEvent system eventTrait fn =>
      have step : Events.Step traits moved _ (⟨system.m_events, pool⟩ : EventSystem τ δ α ε ρ) _ :=
        .subscribeToEvent eventTrait fn
      rw [subscribeToEvent_pool] at step
      exact ⟨pool, step⟩
  | unSubscribeFromEvent system eventTrait evh =>
      have step : Events.Step traits moved _ (⟨system.m_events, pool⟩ : EventSystem τ δ α ε ρ) _ :=
        .unSubscribeFromEvent eventTrait evh
      rw [unSubscribeFromEvent_pool] at step
      exact ⟨pool, step⟩
  | raiseEvent system eventTrait args same =>
      have step : Events.Step traits moved _ (⟨system.m_events, pool⟩ : EventSystem τ δ α ε ρ) _ :=
        .raiseEvent eventTrait args
      rw [(EventSystem.raiseEvent_tasks traits moved system eventTrait args).2.2]
      have kept := (EventSystem.raiseEvent_tasks traits moved
        (⟨system.m_events, pool⟩ : EventSystem τ δ α ε ρ) eventTrait args).2.2
      have shape : ∀ raised : EventSystem τ δ α ε ρ, raised.m_events = system.m_events →
          raised = ⟨system.m_events, raised.m_threadpool⟩ := by
        rintro ⟨events, pool⟩ rfl
        rfl
      rw [shape _ kept] at step
      exact ⟨_, step⟩

theorem delivery_run {serial : List (EventsMap τ δ × (Call τ δ α × Result δ α))}
    {table : EventsMap τ δ} (run : Run (Sequential ε ρ traits moved) ∅ serial table)
    (pool : ThreadPool (Bound δ α) ε ρ) :
    ∃ past pool', Run (Events.Step traits moved) ({ m_threadpool := pool } : EventSystem τ δ α ε ρ)
        past ⟨table, pool'⟩ ∧
      past.map Prod.snd = (serial.map Prod.snd).map eventOf := by
  induction run with
  | nil => exact ⟨[], pool, .nil, rfl⟩
  | @snoc serial table entry table' before does ih =>
      obtain ⟨past, pool', run, same⟩ := ih
      obtain ⟨pool'', step⟩ := does.step pool'
      refine ⟨_, pool'', run.snoc step, ?_⟩
      rw [List.map_append, same, List.map_append, List.map_append]
      rfl

theorem closures_active [DecidableEq τ]
    {serial : List (EventsMap τ δ × (Call τ δ α × Result δ α))} {table table' : EventsMap τ δ}
    {eventTrait : τ} {args : List (Arg α)} {res : List (Future δ α)}
    (run : Run (Sequential ε ρ traits moved) ∅ serial table)
    (does : Sequential ε ρ traits moved (.raiseEvent eventTrait args, .futures res) table table')
    (pool : ThreadPool (Bound δ α) ε ρ)
    (injective : Function.Injective traits.get_event_trait_hash)
    (once : (((serial.map Prod.snd).map eventOf).filterMap Event.registration).Nodup) :
    res.map Prod.snd =
      closures moved (active eventTrait ((serial.map Prod.snd).map eventOf)) args := by
  obtain ⟨past, pool', delivery, same⟩ := delivery_run run pool
  rw [← same] at once ⊢
  have matched := matches_of_run delivery injective once eventTrait
  rw [← matched.delegates]
  cases does with
  | raiseEvent system _ _ bound =>
      rw [bound, raisedTasks_closures, EventSystem.delegatesOf_eq, EventSystem.delegatesOf_eq]
      rfl

end Histories

section Machines
variable {θ τ δ α ε ρ : Type} [DecidableEq τ] [DecidableEq θ] {traits : Traits τ} {moved : α → α}
  {pool : ThreadPool (Bound δ α) ε ρ} {last : Machine θ τ δ α ε ρ}
  {past : List (Machine θ τ δ α ε ρ × Action θ τ δ α ε ρ)}

/-- Every raise returns one future for each delegate that is active when it takes effect, in
subscription order, each bound to its own copy of the arguments. -/
def DeliversActive (moved : α → α) (atomic : List (Atomic θ τ δ α × Moment θ (Call τ δ α) (Result δ α))) :
    Prop :=
  ∀ before after object t eventTrait args res,
    atomic = before ++ (object, .effect t (.raiseEvent eventTrait args) (.futures res)) :: after →
    let history := (observed Moment.effects before).map eventOf
    (history.filterMap Event.registration).Nodup →
    res.map Prod.snd = closures moved (active eventTrait history) args

theorem linearizable_delivers (run : Run (Step traits moved) (start pool) past last)
    (injective : Function.Injective traits.get_event_trait_hash) :
    ∃ atomic object, Run (AtomicObject.Step (Sequential ε ρ traits moved)) (AtomicObject.start ∅)
        atomic object ∧ observed Moment.shown atomic = observed Action.shown past ∧
      DeliversActive moved atomic := by
  obtain ⟨atomic, object, runs, -, shown⟩ := atomic_of_run run
  refine ⟨atomic, object, runs, shown, ?_⟩
  rintro before after object' t eventTrait args res rfl history once
  obtain ⟨next, first, here, -⟩ := runs.split
  obtain ⟨serial, calls, same⟩ := AtomicObject.serial first
  cases here with
  | effect waits does =>
      have delivered := closures_active calls does pool injective
      rw [same] at delivered
      exact delivered once

def Action.posts (t : θ) : Action θ τ δ α ε ρ → List (Future δ α)
  | .ran u posted => if u = t then posted.toList else []
  | _ => []

def Action.returns (t : θ) : Action θ τ δ α ε ρ → List (Future δ α)
  | .returned u result => if u = t then result.res else []
  | _ => []

def Action.posted : Action θ τ δ α ε ρ → Option (Future δ α)
  | .ran _ posted => posted
  | _ => none

def Position.pending : Position τ δ α → List (Future δ α)
  | none => []
  | some (_, stage) => stage.pending

/-- No future is lost, given twice or given to another caller, and no two tasks share a name. -/
structure Accounts (traits : Traits τ) (moved : α → α)
    (past : List (Machine θ τ δ α ε ρ × Action θ τ δ α ε ρ)) (last : Machine θ τ δ α ε ρ) :
    Prop where
  accounted : ∀ t, past.flatMap (fun entry => entry.2.posts t) =
    past.flatMap (fun entry => entry.2.returns t) ++ (last.position t).pending
  named : (observed Action.posted past).Pairwise fun first second => first.1 < second.1
  below : ∀ future ∈ observed Action.posted past, future.1 < last.shared.m_threadpool.nextTask
  /-- The pool has the task before any other step, under the name of its future. -/
  submitted : ∀ before after machine t future, past = before ++ (machine, .ran t (some future)) :: after →
    ∃ next, Run (Step traits moved) next after last ∧
      machine.shared.m_threadpool.submit future.2 = (future.1, next.shared.m_threadpool)

omit [DecidableEq τ] [DecidableEq θ] in
theorem nextTask_le {op : ThreadPool.Operation (Bound δ α) ε ρ} {pool after : ThreadPool (Bound δ α) ε ρ}
    (next : ThreadPool.Step op pool after) : pool.nextTask ≤ after.nextTask := by
  cases next with
  | submit f room => exact Nat.le_succ _
  | start thread idle waits => exact le_rfl
  | finish f busy =>
      rw [ThreadPool.finish_eq]

theorem accounted_step {action : Action θ τ δ α ε ρ} {machine after : Machine θ τ δ α ε ρ}
    (step : Step traits moved action machine after) (t : θ) :
    (machine.position t).pending ++ action.posts t =
      action.returns t ++ (after.position t).pending := by
  cases step with
  | call u call idle =>
      by_cases same : t = u
      · rw [same, move_self, idle]
        cases call <;> rfl
      · simp [move_other same, Action.posts, Action.returns]
  | @run _ u call stage next here goes =>
      by_cases same : t = u
      · rw [same, move_self, here]
        rcases (advance_effects goes).posts with ⟨none', -, pending⟩ | ⟨fn, posted, -, pending⟩
        · simp [Action.posts, Action.returns, Position.pending, none', pending]
        · simp [Action.posts, Action.returns, Position.pending, posted, pending]
      · simp [move_other same, Action.posts, Action.returns, Ne.symm same]
  | @respond _ u call result here =>
      by_cases same : t = u
      · rw [same, move_self, here]
        simp [Action.posts, Action.returns, Position.pending, Stage.pending]
      · simp [move_other same, Action.posts, Action.returns, Ne.symm same]
  | work next => simp [Action.posts, Action.returns]

theorem posted_step {action : Action θ τ δ α ε ρ} {machine after : Machine θ τ δ α ε ρ}
    (step : Step traits moved action machine after) :
    machine.shared.m_threadpool.nextTask ≤ after.shared.m_threadpool.nextTask ∧
      ∀ future, action.posted = some future →
        machine.shared.m_threadpool.submit future.2 = (future.1, after.shared.m_threadpool) := by
  cases step with
  | call u call idle => exact ⟨le_rfl, by simp [Action.posted]⟩
  | run here goes =>
      rcases (advance_effects goes).posts with ⟨nothing, pool, -⟩ | ⟨fn, posted, pool, -⟩
      · rw [move_shared, pool]
        exact ⟨le_rfl, by simp [Action.posted, nothing]⟩
      · rw [move_shared, pool]
        refine ⟨Nat.le_succ _, ?_⟩
        intro future same
        cases posted.symm.trans same
        rfl
  | respond here => exact ⟨le_rfl, by simp [Action.posted]⟩
  | work next => exact ⟨nextTask_le next, by simp [Action.posted]⟩

theorem posted_names (run : Run (Step traits moved) (start pool) past last) :
    ((observed Action.posted past).Pairwise fun first second => first.1 < second.1) ∧
      ∀ future ∈ observed Action.posted past, future.1 < last.shared.m_threadpool.nextTask := by
  induction run with
  | nil => simp [observed]
  | @snoc past machine action after before step ih =>
      obtain ⟨grows, submits⟩ := posted_step step
      rw [observed_append, observed_singleton]
      cases posted : action.posted with
      | none =>
          rw [Option.toList_none, List.append_nil]
          exact ⟨ih.1, fun future member => (ih.2 future member).trans_le grows⟩
      | some future =>
          -- the pool names its tasks in the order in which they come
          have submitted := submits future posted
          have name : future.1 = machine.shared.m_threadpool.nextTask :=
            (congrArg Prod.fst submitted).symm
          have after' : after.shared.m_threadpool.nextTask = future.1 + 1 := by
            have pool : (machine.shared.m_threadpool.submit future.2).2 =
                after.shared.m_threadpool := congrArg Prod.snd submitted
            rw [← pool, name]
            rfl
          constructor
          · rw [List.pairwise_append]
            refine ⟨ih.1, by simp, ?_⟩
            intro earlier member last' same
            rw [Option.toList_some, List.mem_singleton] at same
            rw [same, name]
            exact ih.2 earlier member
          · intro other member
            rw [Option.toList_some, List.mem_append, List.mem_singleton] at member
            rcases member with earlier | rfl
            · exact (ih.2 other earlier).trans_le grows
            · rw [after']
              exact Nat.lt_succ_self _

theorem accounts (run : Run (Step traits moved) (start pool) past last) :
    Accounts traits moved past last where
  accounted := by
    intro t
    induction run with
    | nil => rfl
    | snoc before step ih =>
        rw [List.flatMap_append, List.flatMap_append, ih, List.append_assoc, List.append_assoc]
        congr 1
        simpa using accounted_step step t
  named := (posted_names run).1
  below := (posted_names run).2
  submitted := by
    rintro before after machine t future rfl
    obtain ⟨next, -, step, later⟩ := run.split
    exact ⟨next, later, (posted_step step).2 future rfl⟩

end Machines

theorem twoThreads_delivers : ∃ past last,
    Run (Step EventSystem.oneTrait id) emptyMachine past last ∧
      ∃ atomic object, Run (AtomicObject.Step (Sequential Unit Unit EventSystem.oneTrait id))
          (AtomicObject.start ∅) atomic object ∧
        observed Moment.shown atomic = twoThreadsShown ∧ DeliversActive id atomic := by
  obtain ⟨past, last, run, shown, -⟩ := twoThreads_run
  have injective : Function.Injective EventSystem.oneTrait.get_event_trait_hash :=
    Function.injective_of_subsingleton _
  obtain ⟨atomic, object, runs, same, delivers⟩ := linearizable_delivers run injective
  exact ⟨past, last, run, atomic, object, runs, same.trans shown, delivers⟩

theorem twoThreads_accounts : ∃ past last,
    Run (Step EventSystem.oneTrait id) emptyMachine past last ∧
      observed Action.shown past = twoThreadsShown ∧ Accounts EventSystem.oneTrait id past last := by
  obtain ⟨past, last, run, shown, -⟩ := twoThreads_run
  exact ⟨past, last, run, shown, accounts run⟩

end PackagedTask.Events.Concurrent
