import PackagedTask.Events.Linearizable

namespace PackagedTask.Events.Concurrent
open Library Tasks Threads

/-! A thread can always finish its call: whoever has the lock gives it up, and a free lock lets any
thread in. Nothing says that the exchange of a given thread succeeds under every schedule. -/

variable {θ τ δ α ε ρ : Type} [DecidableEq τ] {traits : Traits τ} {moved : α → α}
  {call : Call τ δ α} {shared : Shared τ δ α ε ρ} {table : EventsMap τ δ}
  {stage : Stage δ α} {next : Next τ δ α ε ρ}

def Stage.inside (delegates : Nat) : Stage δ α → Nat
  | .testing => delegates + 9
  | .storing => delegates + 8
  | .loading => delegates + 7
  | .finding _ => delegates + 6
  | .accessing _ => delegates + 5
  | .calling _ d _ _ => delegates - d + 3
  | .counting _ _ => 4
  | .pushing _ _ _ | .erasing _ _ | .making _ => 3
  | .releasing _ _ | .assigning _ _ => 2
  | .unlocking _ => 1
  | .locking _ | .leaving _ => 0

def subscribers (traits : Traits τ) (table : EventsMap τ δ) (call : Call τ δ α) : Nat :=
  match table.lookup (traits.get_event_trait_hash call.eventTrait) with
  | some event => event.spec.m_delegates.length
  | none => 0

theorem inside_decreases (inside : Inside traits moved call shared table stage)
    (before : ∀ result, stage ≠ .unlocking result) (holds : stage.Holds call)
    (goes : advance traits moved call shared stage = some next) :
    next.stage.inside (subscribers traits table call) <
      stage.inside (subscribers traits table call) := by
  cases stage with
  | testing =>
      by_cases unknown : shared.result call.eventTrait = 0 <;> simp [advance, unknown] at goes <;>
        simp [← goes, Stage.inside]
  | storing =>
      cases goes
      exact Nat.lt_succ_self _
  | loading =>
      cases call with
      | registerEvent eventTrait => exact holds.elim
      | _ =>
          cases goes
          exact Nat.lt_succ_self _
  | locking eventHash => exact holds.elim
  | leaving result => cases goes
  | making eventHash =>
      cases goes
      exact Nat.lt_succ_self _
  | assigning eventHash evt =>
      cases goes
      exact Nat.lt_succ_self _
  | finding eventHash =>
      cases found : shared.m_events.lookup eventHash <;> simp [advance, found] at goes <;>
        simp [← goes, Stage.inside]
  | accessing evt =>
      obtain ⟨memory, here, holds⟩ := inside
      obtain ⟨object, live, free, -⟩ := memory.access here
      rw [advance_accessing live free] at goes
      cases call with
      | registerEvent eventTrait => exact holds.elim
      | _ =>
          cases goes
          simp [Stage.inside]
  | counting evt fn =>
      obtain ⟨object, live, -⟩ := inside.1.find inside.2.1
      rw [advance_counting live] at goes
      cases goes
      exact Nat.lt_succ_self _
  | pushing evt fn evh =>
      obtain ⟨event, -, -, memory, here, -⟩ := inside
      obtain ⟨object, live, -⟩ := memory.find here
      rw [advance_pushing live] at goes
      cases goes
      exact Nat.lt_succ_self _
  | erasing evt evh =>
      obtain ⟨object, live, -⟩ := inside.1.find inside.2.1
      rw [advance_erasing live] at goes
      cases goes
      exact Nat.lt_succ_self _
  | calling evt d args res =>
      obtain ⟨object, live, shown⟩ := inside.1.find inside.2.1
      have count : subscribers traits table call = object.event.spec.m_delegates.length := by
        rw [subscribers, shown]
      cases delegate : object.event.spec.m_delegates[d]? with
      | none =>
          rw [advance_calling_end live args res delegate] at goes
          cases goes
          simp only [Stage.inside]
          omega
      | some holder =>
          obtain ⟨bound, -⟩ := List.getElem?_eq_some_iff.mp delegate
          rw [advance_calling live args res delegate] at goes
          cases goes
          simp only [Stage.inside, count]
          omega
  | releasing evt result =>
      obtain ⟨after, -, memory, here⟩ := inside
      obtain ⟨object, live, -⟩ := memory.find here
      rw [advance_releasing live] at goes
      cases goes
      exact Nat.lt_succ_self _
  | unlocking result => exact (before result rfl).elim

section Machines
variable [DecidableEq θ] {machine : Machine θ τ δ α ε ρ} {t : θ}

def Action.By (those : θ → Prop) (action : Action θ τ δ α ε ρ) : Prop :=
  ∃ t posted, action = .ran t posted ∧ those t

def Only (those : θ → Prop) (past : List (Machine θ τ δ α ε ρ × Action θ τ δ α ε ρ)) : Prop :=
  ∀ entry ∈ past, entry.2.By those

def stepsLeft (t : θ) (measure : Stage δ α → Nat) (machine : Machine θ τ δ α ε ρ) : Nat :=
  match machine.position t with
  | some (_, stage) => measure stage
  | none => 0

omit [DecidableEq τ] [DecidableEq θ] in
theorem stepsLeft_at {measure : Stage δ α → Nat} (here : machine.position t = some (call, stage)) :
    stepsLeft t measure machine = measure stage := by
  rw [stepsLeft, here]

omit [DecidableEq τ] [DecidableEq θ] in
theorem Only.append {those : θ → Prop} {first second : List (Machine θ τ δ α ε ρ × Action θ τ δ α ε ρ)}
    (before : Only those first) (after : Only those second) : Only those (first ++ second) :=
  List.forall_mem_append.mpr ⟨before, after⟩

omit [DecidableEq τ] [DecidableEq θ] in
theorem Only.mono {those others : θ → Prop}
    {past : List (Machine θ τ δ α ε ρ × Action θ τ δ α ε ρ)} (only : Only those past)
    (more : ∀ u, those u → others u) : Only others past := by
  intro entry listed
  obtain ⟨u, posted, same, this⟩ := only entry listed
  exact ⟨u, posted, same, more u this⟩

theorem unlocking_of_holds (sound : Sound traits moved machine table)
    (here : machine.position t = some (call, stage)) (holds : stage.Holds call) :
    ∃ past after, Run (Step traits moved) machine past after ∧ Only (· = t) past ∧
      (Sound traits moved after table ∧
        (∃ stage, after.position t = some (call, stage) ∧ stage.Holds call) ∧
        ∀ u, u ≠ t → after.position u = machine.position u) ∧
      ∃ result, after.position t = some (call, .unlocking result) := by
  refine Run.reaches (stepsLeft t (Stage.inside (subscribers traits table call))) ?_
    ⟨sound, ⟨stage, here, holds⟩, fun _ _ => rfl⟩
  rintro machine' ⟨sound, ⟨stage, here, holds⟩, others⟩ short
  have before : ∀ result, stage ≠ .unlocking result := by
    rintro result rfl
    exact short ⟨result, here⟩
  have inside := sound.inside t call stage here holds
  obtain ⟨next, goes, stays, -⟩ := inside_goes sound.cached holds inside before
  refine ⟨_, _, .run here goes, ⟨t, next.posted, rfl, rfl⟩,
    ⟨(sound.run here before goes).1, ⟨next.stage, move_self, stays⟩, ?_⟩, ?_⟩
  · intro u apart
    rw [move_other apart, others u apart]
  · rw [stepsLeft_at here, stepsLeft_at move_self]
    exact inside_decreases inside before holds goes

theorem finishes (sound : Sound traits moved machine table)
    (here : machine.position t = some (call, stage)) (holds : stage.Holds call) :
    ∃ past after table' result, Run (Step traits moved) machine past after ∧ Only (· = t) past ∧
      Sound traits moved after table' ∧ after.shared.m_access_flag = false ∧
      after.position t = some (call, .leaving result) ∧
      ∀ u, u ≠ t → after.position u = machine.position u := by
  obtain ⟨past, middle, run, only, ⟨sound', -, others⟩, result, there⟩ :=
    unlocking_of_holds sound here holds
  have goes : advance traits moved call middle.shared (.unlocking result) = some _ := rfl
  obtain ⟨-, table', -, sound''⟩ := sound'.run_unlocking there goes
  refine ⟨_, _, table', result, run.snoc (.run there goes), ?_, sound'', rfl, move_self, ?_⟩
  · exact only.append (by simp [Only, Action.By])
  · intro u apart
    rw [move_other apart, others u apart]

def Stage.outside : Call τ δ α → Stage δ α → Nat
  | .registerEvent _, .testing => 4
  | .registerEvent _, .storing => 3
  | .registerEvent _, .loading => 2
  | _, .locking _ => 1
  | _, _ => 0

omit [DecidableEq θ] in
theorem outside_decreases (free : shared.m_access_flag = false) (holds : ¬ stage.Holds call)
    (outside : Outside traits call shared stage)
    (goes : advance traits moved call shared stage = some next) :
    next.stage.outside call < stage.outside call := by
  cases stage with
  | testing =>
      cases call with
      | registerEvent eventTrait =>
          by_cases unknown : shared.result eventTrait = 0 <;>
            simp [advance, Call.eventTrait, unknown] at goes <;> simp [← goes, Stage.outside]
      | _ => exact (holds trivial).elim
  | storing =>
      cases call with
      | registerEvent eventTrait =>
          cases goes
          exact Nat.lt_succ_self _
      | _ => exact (holds trivial).elim
  | loading =>
      cases call with
      | registerEvent eventTrait =>
          cases goes
          exact Nat.lt_succ_self _
      | _ => exact (holds trivial).elim
  | locking eventHash =>
      cases eventHash with
      | none =>
          simp [advance, exchange, free] at goes
          cases goes
          cases call with
          | registerEvent eventTrait => exact outside.elim
          | _ => exact Nat.zero_lt_one
      | some eventHash =>
          simp [advance, exchange, free] at goes
          cases goes
          cases call <;> exact Nat.zero_lt_one
  | leaving result => cases goes
  | _ => exact (holds trivial).elim

theorem enters (sound : Sound traits moved machine table)
    (free : machine.shared.m_access_flag = false)
    (here : machine.position t = some (call, stage)) :
    ∃ past after, Run (Step traits moved) machine past after ∧ Only (· = t) past ∧
      (Sound traits moved after table ∧ ∃ stage, after.position t = some (call, stage) ∧
        (stage.Holds call ∨ after.shared.m_access_flag = false)) ∧
      ∃ stage, after.position t = some (call, stage) ∧
        (stage.Holds call ∨ ∃ result, stage = .leaving result) := by
  refine Run.reaches (stepsLeft t (Stage.outside call)) ?_ ⟨sound, stage, here, .inr free⟩
  rintro machine' ⟨sound, stage, here, arrived⟩ short
  have holds : ¬ stage.Holds call := fun holds => short ⟨stage, here, .inl holds⟩
  have stays : ∀ result, stage ≠ .leaving result :=
    fun result same => short ⟨stage, here, .inr ⟨result, same⟩⟩
  have free := arrived.resolve_left holds
  have outside := sound.outside t call stage here holds
  obtain ⟨next, goes⟩ := sound.safe.defined t call stage here stays
  have before : ∀ result, stage ≠ .unlocking result := by
    rintro result rfl
    exact holds trivial
  refine ⟨_, _, .run here goes, ⟨t, next.posted, rfl, rfl⟩,
    ⟨(sound.run here before goes).1, next.stage, move_self, ?_⟩, ?_⟩
  · -- a thread that is not in yet leaves the flag as it is
    rcases (outside_step sound.cached holds outside goes).lock with ⟨-, same, -⟩ | ⟨-, inside, -, -⟩
    · exact .inr (same.trans free)
    · exact .inl inside
  · rw [stepsLeft_at here, stepsLeft_at move_self]
    exact outside_decreases free holds outside goes

theorem leaves (sound : Sound traits moved machine table)
    (free : machine.shared.m_access_flag = false)
    (here : machine.position t = some (call, stage)) :
    ∃ past after result, Run (Step traits moved) machine past after ∧ Only (· = t) past ∧
      after.position t = some (call, .leaving result) := by
  obtain ⟨past, middle, run, only, ⟨sound', -⟩, stage', there, holds | ⟨result, rfl⟩⟩ :=
    enters sound free here
  · obtain ⟨past', after, -, result, run', only', -, -, left, -⟩ := finishes sound' there holds
    exact ⟨past ++ past', after, result, run.trans run', only.append only', left⟩
  · exact ⟨past, middle, result, run, only, there⟩

theorem can_return {pool : ThreadPool (Bound δ α) ε ρ} {last : Machine θ τ δ α ε ρ}
    {past : List (Machine θ τ δ α ε ρ × Action θ τ δ α ε ρ)}
    (run : Run (Step traits moved) (start pool) past last)
    (here : last.position t = some (call, stage)) :
    ∃ rest after result, Run (Step traits moved) last rest after ∧
      Only (fun u => u = t ∨ Position.Holds (last.position u)) rest ∧
      Step traits moved (.returned t result) after (after.move t none after.shared) := by
  obtain ⟨-, object, -, abstracts, -⟩ := atomic_of_run run
  have sound := abstracts.sound
  by_cases taken : last.shared.m_access_flag = true
  · obtain ⟨u, within⟩ := sound.guarded.holder taken
    cases there : last.position u with
    | none =>
        rw [there] at within
        exact within.elim
    | some frame =>
        obtain ⟨call', stage'⟩ := frame
        have holds : stage'.Holds call' := by
          rw [there] at within
          exact within
        obtain ⟨first, middle, table', result', run', only, sound', free, left, others⟩ :=
          finishes sound there holds
        have mine : ∃ stage, middle.position t = some (call, stage) := by
          by_cases same : t = u
          · subst same
            rw [here] at there
            cases there
            exact ⟨_, left⟩
          · exact ⟨stage, (others t same).trans here⟩
        obtain ⟨stage, mine⟩ := mine
        obtain ⟨second, after, result, run'', only', gone⟩ := leaves sound' free mine
        refine ⟨first ++ second, after, result, run'.trans run'', ?_, .respond gone⟩
        apply Only.append
        · exact only.mono fun v same => .inr (same ▸ within)
        · exact only'.mono fun v same => .inl same
  · obtain ⟨rest, after, result, run', only, gone⟩ :=
      leaves sound (Bool.not_eq_true _ ▸ taken) here
    exact ⟨rest, after, result, run', only.mono fun v same => .inl same, .respond gone⟩

end Machines

theorem twoThreads_return : ∃ past last,
    Run (Step EventSystem.oneTrait id) emptyMachine past last ∧
      last.position true = some (.subscribeToEvent () 8, .locking none) ∧
      ∃ rest after result, Run (Step EventSystem.oneTrait id) last rest after ∧
        Only (fun u => u = true ∨ Position.Holds (last.position u)) rest ∧
        Step EventSystem.oneTrait id (.returned true result) after
          (after.move true none after.shared) := by
  obtain ⟨past, last, run, -, here⟩ := twoThreads_run
  exact ⟨past, last, run, here, can_return run here⟩

end PackagedTask.Events.Concurrent
