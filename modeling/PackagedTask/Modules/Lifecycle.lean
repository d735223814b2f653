import PackagedTask.Modules.Module

namespace PackagedTask.Modules
open Streams Library

/-! The life of a module whose constructors do not start it: one object at most is started, told to shut
down and deleted, in that order. -/

def Tries (frames : List Frame) : Prop := ∀ frame ∈ frames, ∃ this, frame = .constructing this

/-- The hooks of an object that calls may be in while others are made from them. -/
def Hooks (this : Nat) (stack : List Frame) : Prop :=
  ∀ frame ∈ stack, frame = .onStartUp this ∨ frame = .onShutDown this

/-- The code of an object up to its destructor; it may be told more than once to shut down. -/
def life (this stops : Nat) : List Frame := .onStartUp this :: List.replicate stops (.onShutDown this)

/-- Where a module is, and the code of `T` that it has entered. -/
inductive Phase : State → List Frame → Prop
  | fresh {module : Module} {stack tries} (up : module.isStartedUp = false)
      (down : module.isDestroyed = false) (empty : module._instance = none)
      (within : stack = [] ∨ ∃ this, stack = [.constructing this]) (only : Tries tries) :
      Phase ⟨module, stack⟩ tries
  | live {module : Module} {stack tries} (this stops : Nat) (up : module.isStartedUp = true)
      (down : module.isDestroyed = false) (here : module._instance = some this)
      (within : Hooks this stack) (only : Tries tries) : Phase ⟨module, stack⟩ (tries ++ life this stops)
  | dying {module : Module} {stack tries} (this stops : Nat) (up : module.isStartedUp = true)
      (down : module.isDestroyed = false) (empty : module._instance = none)
      (within : Hooks this stack) (only : Tries tries) :
      Phase ⟨module, .deleting this :: stack⟩ (tries ++ life this stops ++ [.deleting this])
  | gone {module : Module} {stack tries} (this stops : Nat) (up : module.isStartedUp = true)
      (down : module.isDestroyed = true) (empty : module._instance = none)
      (within : Hooks this stack) (only : Tries tries) :
      Phase ⟨module, stack⟩ (tries ++ life this stops ++ [.deleting this])

theorem life_stop (this stops : Nat) : life this stops ++ [.onShutDown this] = life this (stops + 1) := by
  simp [life, List.replicate_succ']

theorem Tries.concat {tries : List Frame} (only : Tries tries) (this : Nat) :
    Tries (tries ++ [.constructing this]) := by
  intro frame listed
  rcases List.mem_append.mp listed with old | new
  · exact only frame old
  · exact ⟨this, List.mem_singleton.mp new⟩

theorem Hooks.tail {this : Nat} {frame : Frame} {rest : List Frame} (within : Hooks this (frame :: rest)) :
    Hooks this rest :=
  fun other listed => within other (List.mem_cons_of_mem _ listed)

theorem Hooks.push {this : Nat} {stack : List Frame} (within : Hooks this stack) :
    Hooks this (.onShutDown this :: stack) := by
  intro frame listed
  rcases List.mem_cons.mp listed with rfl | old
  · exact .inr rfl
  · exact within frame old

variable {state after : State} {entered : List Frame} {action : Action} {call : Call} {reply : Reply}
  {module : Module}

theorem Phase.called (phase : Phase state entered)
    (plain : call = .startUp → ∀ this, .constructing this ∉ state.stack)
    (goes : state.module.call call = some (reply, module)) :
    Phase ⟨module, reply.frames ++ state.stack⟩
      (entered ++ (Action.called call reply).entered.toList) := by
  cases phase with
  | fresh up down empty within only =>
      cases call with
      | startUp =>
          simp [Module.call, up] at goes
          obtain ⟨rfl, rfl⟩ := goes
          have outside := plain rfl
          rcases within with rfl | ⟨this, rfl⟩
          · exact .fresh rfl down empty (.inr ⟨_, rfl⟩) (only.concat _)
          · exact (outside this (List.mem_singleton_self _)).elim
      | _ =>
          simp [Module.call, up, down] at goes
          obtain ⟨rfl, rfl⟩ := goes
          simpa [Reply.frames, Action.entered] using Phase.fresh up down empty within only
  | live this stops up down here within only =>
      cases call with
      | shutDown =>
          simp [Module.call, up, down, here] at goes
          obtain ⟨rfl, rfl⟩ := goes
          have next := Phase.live this (stops + 1) up down here within.push only
          simpa [Reply.frames, Action.entered, ← life_stop] using next
      | _ =>
          simp [Module.call, up, down, here] at goes
          obtain ⟨rfl, rfl⟩ := goes
          simpa [Reply.frames, Action.entered] using Phase.live this stops up down here within only
  | dying this stops up down empty within only =>
      cases call with
      | instanceRef => simp [Module.call, up, down, empty] at goes
      | shutDown => simp [Module.call, up, down, empty] at goes
      | _ =>
          simp [Module.call, up, down, empty] at goes
          obtain ⟨rfl, rfl⟩ := goes
          simpa [Reply.frames, Action.entered] using Phase.dying this stops up down empty within only
  | gone this stops up down empty within only =>
      cases call with
      | _ =>
          simp [Module.call, up, down] at goes
          obtain ⟨rfl, rfl⟩ := goes
          simpa [Reply.frames, Action.entered] using Phase.gone this stops up down empty within only

theorem Phase.left {frame : Frame} {rest : List Frame} (phase : Phase state entered)
    (top : state.stack = frame :: rest) (goes : state.module.leave frame = some (reply, module)) :
    Phase ⟨module, reply.frames ++ rest⟩ (entered ++ (Action.left frame reply).entered.toList) := by
  cases phase with
  | @fresh was _ _ up down empty within only =>
      rcases within with rfl | ⟨this, rfl⟩
      · cases top
      · cases top
        simp only [Module.leave, empty] at goes
        cases goes
        have next := @Phase.live { was with _instance := some this, isStartedUp := true }
          [.onStartUp this] _ this 0 rfl down rfl (by simp [Hooks]) only
        simpa [Reply.frames, Action.entered, life] using next
  | @live was _ _ this stops up down here within only =>
      simp only at top
      subst top
      rcases within frame (List.mem_cons_self ..) with rfl | rfl
      · cases goes
        simpa [Reply.frames, Action.entered] using Phase.live this stops up down here within.tail only
      · simp only [Module.leave, here] at goes
        cases goes
        have next := @Phase.dying { was with _instance := none } _ _ this stops up down rfl
          within.tail only
        simpa [Reply.frames, Action.entered] using next
  | @dying was _ _ this stops up down empty within only =>
      cases top
      cases goes
      have next := @Phase.gone { was with isDestroyed := true } _ _ this stops up rfl empty
        within only
      simpa [Reply.frames, Action.entered] using next
  | @gone was _ _ this stops up down empty within only =>
      simp only at top
      subst top
      rcases within frame (List.mem_cons_self ..) with rfl | rfl
      · cases goes
        simpa [Reply.frames, Action.entered] using Phase.gone this stops up down empty within.tail only
      · simp only [Module.leave, empty] at goes
        cases goes
        have next := @Phase.gone { was with _instance := none, isDestroyed := true } _ _ this stops
          up rfl rfl within.tail only
        simpa [Reply.frames, Action.entered] using next

theorem Phase.threw {frame : Frame} {rest : List Frame} (phase : Phase state entered)
    (top : state.stack = frame :: rest) (throws : frame.Throws) :
    Phase ⟨state.module, rest⟩ entered := by
  cases phase with
  | fresh up down empty within only =>
      rcases within with rfl | ⟨this, rfl⟩
      · cases top
      · cases top
        exact .fresh up down empty (.inl rfl) only
  | live this stops up down here within only =>
      simp only at top
      subst top
      exact .live this stops up down here within.tail only
  | dying this stops up down empty within only =>
      cases top
      exact throws.elim
  | gone this stops up down empty within only =>
      simp only at top
      subst top
      exact .gone this stops up down empty within.tail only

theorem Phase.step (phase : Phase state entered) (plain : Plain action state)
    (step : Step action state after) : Phase after (entered ++ action.entered.toList) := by
  cases step with
  | call goes =>
      apply phase.called _ goes
      rintro rfl
      exact plain _ rfl
  | leave top goes => exact phase.left top goes
  | throw top throws => simpa [Action.entered] using phase.threw top throws

variable {past : List (State × Action)} {last : State}

theorem phase_of_run (run : Run Step {} past last) (plain : ∀ entry ∈ past, Plain entry.2 entry.1) :
    Phase last (observed Action.entered past) := by
  induction run with
  | nil => exact .fresh rfl rfl rfl (.inl rfl) (by simp [Tries, observed])
  | @snoc past s action t before next ih =>
      rw [List.forall_mem_append] at plain
      rw [observed_append, observed_singleton]
      exact (ih plain.1).step (plain.2 _ (List.mem_singleton_self _)) next

/-- What the program sees of the module in a state it can come to. -/
structure Lifecycle (last : State) (entered : List Frame) : Prop where
  /-- After the constructors that threw, one object, from its start to its destructor. -/
  once : ∃ tries rest this stops, entered = tries ++ rest ∧ Tries tries ∧
    rest <+: life this stops ++ [.deleting this]
  started : last.module.isStartedUp = true ↔ ∃ this, .onStartUp this ∈ entered
  owned : ∀ this, last.module._instance = some this ↔
    .onStartUp this ∈ entered ∧ .deleting this ∉ entered
  destroyed : last.module.isDestroyed = true ↔
    (∃ this, .deleting this ∈ entered) ∧ ∀ this, .deleting this ∉ last.stack
  /-- A null pointer is followed only from the destructor, and there by these two. -/
  undefined : ∀ call, last.module.call call = none ↔
    (∃ this, .deleting this ∈ last.stack) ∧ (call = .instanceRef ∨ call = .shutDown)
  returns : ∀ frame rest, last.stack = frame :: rest → last.module.leave frame ≠ none

section Facts
variable {tries stack : List Frame} {this stops : Nat} {frame : Frame}

theorem Tries.not_mem (only : Tries tries) (other : ∀ this, frame ≠ .constructing this) :
    frame ∉ tries := by
  intro listed
  obtain ⟨this, same⟩ := only frame listed
  exact other this same

theorem Hooks.not_mem (within : Hooks this stack) (old : Nat) : .deleting old ∉ stack := by
  intro listed
  simpa using within _ listed

theorem onStartUp_mem (only : Tries tries) {u : Nat} :
    .onStartUp u ∈ tries ++ life this stops ↔ u = this := by
  have other : Frame.onStartUp u ∉ tries := only.not_mem (by simp)
  simp [life, other]

theorem deleting_not_mem (only : Tries tries) {u : Nat} : .deleting u ∉ tries ++ life this stops := by
  have other : Frame.deleting u ∉ tries := only.not_mem (by simp)
  simp [life, other]

theorem ended_onStartUp_mem (only : Tries tries) {u : Nat} :
    .onStartUp u ∈ tries ++ life this stops ++ [.deleting this] ↔ u = this := by
  rw [List.mem_append, onStartUp_mem only]
  simp

theorem ended_deleting_mem (only : Tries tries) {u : Nat} :
    .deleting u ∈ tries ++ life this stops ++ [.deleting this] ↔ u = this := by
  rw [List.mem_append]
  simp [deleting_not_mem only]

end Facts

theorem Phase.lifecycle (phase : Phase state entered) : Lifecycle state entered := by
  cases phase with
  | @fresh module stack _ up down empty within only =>
      have started (u : Nat) : Frame.onStartUp u ∉ entered := only.not_mem (by simp)
      have deleted (u : Nat) : Frame.deleting u ∉ entered := only.not_mem (by simp)
      have away (u : Nat) : Frame.deleting u ∉ stack := by
        rcases within with rfl | ⟨this, rfl⟩ <;> simp
      constructor
      · exact ⟨entered, [], 0, 0, (List.append_nil _).symm, only, List.nil_prefix⟩
      · simp [up, started]
      · simp [empty, started]
      · simp [down, deleted]
      · intro call
        cases call <;> simp [Module.call, up, down, away]
      · intro frame rest top
        rcases within with rfl | ⟨this, rfl⟩
        · cases top
        · cases top
          simp [Module.leave, Module.started, empty]
  | @live module stack tries this stops up down here within only =>
      have away := within.not_mem
      constructor
      · exact ⟨tries, _, this, stops, rfl, only, List.prefix_append ..⟩
      · simp only [up, onStartUp_mem only, exists_eq]
      · intro u
        simp only [here, onStartUp_mem only, deleting_not_mem only, not_false_eq_true, and_true,
          Option.some.injEq, eq_comm]
      · simp [down, deleting_not_mem only]
      · intro call
        cases call <;> simp [Module.call, up, down, here, away]
      · intro frame rest top
        simp only at top
        subst top
        rcases within frame (List.mem_cons_self ..) with rfl | rfl <;> simp [Module.leave, here]
  | @dying module stack tries this stops up down empty within only =>
      constructor
      · exact ⟨tries, _, this, stops, List.append_assoc .., only, List.prefix_refl _⟩
      · simp only [up, ended_onStartUp_mem only, exists_eq]
      · intro u
        rw [ended_onStartUp_mem only, ended_deleting_mem only]
        simp [empty]
      · apply iff_of_false (by simp [down])
        intro both
        exact both.2 this (List.mem_cons_self ..)
      · intro call
        cases call <;> simp [Module.call, up, down, empty]
      · intro frame rest top
        cases top
        simp [Module.leave]
  | @gone module stack tries this stops up down empty within only =>
      have away := within.not_mem
      constructor
      · exact ⟨tries, _, this, stops, List.append_assoc .., only, List.prefix_refl _⟩
      · simp only [up, ended_onStartUp_mem only, exists_eq]
      · intro u
        rw [ended_onStartUp_mem only, ended_deleting_mem only]
        simp [empty]
      · exact iff_of_true down ⟨⟨this, (ended_deleting_mem only).mpr rfl⟩, away⟩
      · intro call
        cases call <;> simp [Module.call, up, down, away]
      · intro frame rest top
        simp only at top
        subst top
        rcases within frame (List.mem_cons_self ..) with rfl | rfl <;> simp [Module.leave, empty]

theorem module_lifecycle (run : Run Step {} past last)
    (plain : ∀ entry ∈ past, Plain entry.2 entry.1) :
    Lifecycle last (observed Action.entered past) :=
  (phase_of_run run plain).lifecycle

/-- A constructor that throws, a module that is shut down from its own `onStartUp`, and a destructor
that asks for the module. -/
theorem shutDownEarly_lifecycle : ∃ past last, Run Step {} past last ∧
    observed Action.entered past =
      [.constructing 0, .constructing 1, .onStartUp 1, .onShutDown 1, .deleting 1] ∧
    last.module.call .instanceRef = none ∧ Lifecycle last (observed Action.entered past) := by
  have run := @Run.nil State Action Step {}
    |>.snoc (@Step.call _ .startUp _ _ rfl)
    |>.snoc (.throw rfl trivial)
    |>.snoc (@Step.call _ .startUp _ _ rfl)
    |>.snoc (.leave rfl rfl)
    |>.snoc (@Step.call _ .shutDown _ _ rfl)
    |>.snoc (.leave rfl rfl)
  refine ⟨_, _, run, rfl, rfl, module_lifecycle run ?_⟩
  simp [Plain]

end PackagedTask.Modules
