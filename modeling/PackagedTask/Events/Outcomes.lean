import PackagedTask.Events.EventSystem
import PackagedTask.Tasks.Lifetime

namespace PackagedTask.Events
open Library Tasks

variable {τ δ α ε ρ : Type} {traits : Traits τ} {moved : α → α}
  {ends : Bound δ α → Except ε ρ → Prop} {life last : Lifetime (Bound δ α) ε ρ}
  {past : List (Lifetime (Bound δ α) ε ρ × Lifetime.Operation (Bound δ α) ε ρ)}

theorem submitAll_run (moved : α → α) (delegates : List (DelegateHolder δ)) (args : List (Arg α))
    (alive : life.destroyed = false) :
    ∃ rest, Run (Lifetime.Step ends) life rest
      { life with
        pool := (SpecEvent.call.submitAll moved delegates life.pool args).2.1
        wrapped := life.wrapped ++
          (boundTasks moved life.pool.nextTask delegates args).map Prod.snd } := by
  induction delegates generalizing life args with
  | nil => exact ⟨[], by simpa [SpecEvent.call.submitAll, boundTasks] using Run.nil⟩
  | cons d delegates ih =>
      have step : Lifetime.Step ends _ life _ := .submit ⟨d.delegate, args.map Arg.value⟩ alive
      obtain ⟨rest, run⟩ := @ih { life with
        pool := (life.pool.submit ⟨d.delegate, args.map Arg.value⟩).2
        wrapped := life.wrapped ++ [⟨d.delegate, args.map Arg.value⟩] }
        (args.map (Arg.forward moved)) alive
      rw [List.append_assoc] at run
      exact ⟨_, (Run.nil.snoc step).trans run⟩

theorem wrapped_prefix {first : Lifetime (Bound δ α) ε ρ}
    (run : Run (Lifetime.Step ends) first past last) : first.wrapped <+: last.wrapped := by
  induction run with
  | nil => exact List.prefix_rfl
  | snoc before step ih =>
      refine ih.trans ?_
      cases step with
      | submit f alive => exact List.prefix_append _ _
      | _ => exact List.prefix_rfl

theorem bound_wrapped {delegates : List (DelegateHolder δ)} {args : List (Arg α)} {wrapped : List (Bound δ α)}
    {task : TaskRef × Bound δ α} (member : task ∈ boundTasks moved wrapped.length delegates args) :
    (wrapped ++ (boundTasks moved wrapped.length delegates args).map Prod.snd)[task.1]? =
      some task.2 := by
  induction delegates generalizing wrapped args with
  | nil => cases member
  | cons d delegates ih =>
      rw [boundTasks, List.mem_cons] at member
      rw [boundTasks, List.map_cons]
      rcases member with rfl | later
      · simp
      · have grown : (wrapped ++ [(⟨d.delegate, args.map Arg.value⟩ : Bound δ α)]).length =
            wrapped.length + 1 := by simp
        rw [← grown] at later
        have rest := ih later
        rw [List.append_assoc, grown] at rest
        exact rest

/-- What a raise returned, once the pool goes on: a future gets what a call of its delegate on its
copy of the arguments returned or threw, or its promise is broken. -/
structure Delivers (ends : Bound δ α → Except ε ρ → Prop) (tasks : List (TaskRef × Bound δ α))
    (last : Lifetime (Bound δ α) ε ρ) : Prop where
  own : ∀ task ∈ tasks, ∀ result, last.pool.ready.lookup task.1 = some result → ends task.2 result
  settled : last.destroyed = true → ∀ task ∈ tasks,
    task.1 ∈ last.pool.ready ∨ task.1 ∈ last.broken
  distinct : (tasks.map Prod.fst).Nodup

theorem raiseEvent_pool {system : EventSystem τ δ α ε ρ} (eventTrait : τ) (args : List (Arg α)) :
    (system.raiseEvent traits moved eventTrait args).2.1.m_threadpool =
      (SpecEvent.call.submitAll moved (EventSystem.delegatesOf traits system eventTrait)
        system.m_threadpool args).2.1 := by
  unfold EventSystem.raiseEvent EventSystem.delegatesOf
  cases system.find_spec_event traits eventTrait <;> rfl

theorem delivers_of_run {pool_size : Nat} {tasks : List (TaskRef × Bound δ α)}
    (run : Run (Lifetime.Step ends) (Lifetime.construct pool_size) past last)
    (wraps : ∀ task ∈ tasks, last.wrapped[task.1]? = some task.2) (distinct : (tasks.map Prod.fst).Nodup) :
    Delivers ends tasks last where
  own := by
    intro task member result ready
    obtain ⟨conserved, -⟩ := Lifetime.constructed_run run
    obtain ⟨f, wrapped, ending⟩ := conserved.own task.1 result ready
    rw [wraps task member] at wrapped
    cases wrapped
    exact ending
  settled := by
    intro gone task member
    obtain ⟨conserved, -⟩ := Lifetime.constructed_run run
    obtain ⟨-, ready, whole⟩ := conserved.settled gone
    have named : task.1 ∈ List.range last.pool.nextTask := by
      rw [List.mem_range, ← conserved.named]
      exact (List.getElem?_eq_some_iff.mp (wraps task member)).1
    rw [← whole.mem_iff, List.mem_append] at named
    exact named.imp (fun began => ready.mem_iff.mpr began) id
  distinct := distinct

theorem raise_delivers {pool_size : Nat}
    (run : Run (Lifetime.Step ends) (Lifetime.construct pool_size) past life)
    (alive : life.destroyed = false) {system : EventSystem τ δ α ε ρ}
    (same : system.m_threadpool = life.pool) (eventTrait : τ) (args : List (Arg α)) :
    let raised := system.raiseEvent traits moved eventTrait args
    let tasks := EventSystem.raisedTasks traits moved system eventTrait args
    raised.1 = tasks.map Prod.fst ∧
      ∃ rest raising, Run (Lifetime.Step ends) life rest raising ∧
        raising.pool = raised.2.1.m_threadpool ∧
        ∀ later last, Run (Lifetime.Step ends) raising later last → Delivers ends tasks last := by
  intro raised tasks
  obtain ⟨conserved, -⟩ := Lifetime.constructed_run run
  obtain ⟨rest, raising⟩ :=
    submitAll_run moved (EventSystem.delegatesOf traits system eventTrait) args alive
  refine ⟨(EventSystem.raiseEvent_tasks traits moved system eventTrait args).1, rest, _, raising, ?_,
    ?_⟩
  · rw [raiseEvent_pool, same]
  · intro later last goesOn
    refine delivers_of_run (run.trans (raising.trans goesOn)) ?_ ?_
    · intro task member
      obtain ⟨more, grown⟩ := wrapped_prefix goesOn
      have member' : task ∈ boundTasks moved life.wrapped.length
          (EventSystem.delegatesOf traits system eventTrait) args := by
        rw [conserved.named, ← same]
        exact member
      have bound := bound_wrapped member'
      rw [← grown, List.getElem?_append_left]
      · rw [← conserved.named]
        exact bound
      · rw [← conserved.named]
        exact (List.getElem?_eq_some_iff.mp bound).1
    · simp only [tasks, EventSystem.raisedTasks, boundTasks_names]
      exact List.nodup_range'

section TwoDelegates

def returns (_ : Bound Nat String) (result : Except Unit Unit) : Prop := result = .ok ()

theorem twoDelegates_deliver :
    ∃ rest raising, Run (Lifetime.Step returns) (Lifetime.construct 1) rest raising ∧
      ∀ later last, Run (Lifetime.Step returns) raising later last →
        Delivers returns [(0, ⟨7, ["abc"]⟩), (1, ⟨8, ["abc"]⟩)] last := by
  have start : Run (Lifetime.Step returns) (Lifetime.construct 1) [] (Lifetime.construct 1) := .nil
  have same : EventSystem.twoSubscribers.m_event_system.m_threadpool =
      (Lifetime.construct 1 : Lifetime (Bound Nat String) Unit Unit).pool := rfl
  obtain ⟨-, rest, raising, run, -, delivers⟩ :=
    @raise_delivers _ _ _ _ _ EventSystem.oneTrait id _ _ _ _ start rfl _ same () [⟨"abc", .lvalue⟩]
  exact ⟨rest, raising, run, delivers⟩

end TwoDelegates
end PackagedTask.Events
