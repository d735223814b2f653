import PackagedTask.Objects.Linearization

namespace PackagedTask.Objects.Sharing
open Library Library.Threads

/-! A call of a shared manager can always come to its end: the thread that is inside the lock gives it
up, and a free lock lets any thread in. -/

variable {θ : Type} {call : Call} {stage stage' : Stage} {shared shared' : Shared} {order : List Nat}

def Stage.left (shared : Shared) : Stage → Nat
  | .fetching => shared.mObjects.card + 5
  | .locking _ => shared.mObjects.card + 4
  | .scanning => shared.mObjects.card + 3
  | .finding => 3
  | .sweeping rest => rest.length + 2
  | .inserting _ | .copying | .releasing => 2
  | .unlocking _ | .counting | .destroying _ => 1
  | .leaving _ => 0

theorem find_left (found : shared.find call = some stage) :
    stage ≠ .fetching ∧ stage.left shared < 3 := by
  cases call with
  | getObject id =>
      cases found
      by_cases listed : id ∈ shared.mObjects <;> simp [Stage.left, listed]
  | objectExists id | getObjectPtr id =>
      cases found
      simp [Stage.left]
  | _ => cases found

theorem advance_left (goes : advance order call shared stage = some (stage', shared')) :
    stage' ≠ .fetching ∧ stage'.left shared' < stage.left shared := by
  cases advance_goes goes with
  | locking new =>
      cases new with
      | some id => simp [Stage.left]
      | none => cases call <;> simp [Stage.left, Call.section]
  | finding found => exact find_left found
  | scanning distinct whole =>
      have length := List.toFinset_card_of_nodup distinct
      simp [Stage.left, ← whole, length]
  | @releasing id =>
      by_cases last : shared.uses id = 1 <;> simp [Stage.left, last]
  | _ => simp [Stage.left, Shared.create]

variable [DecidableEq θ] [Fintype θ] {machine : Machine θ} {registry : Registry} {t : θ}

def Action.By (those : θ → Prop) (action : Action θ) : Prop := ∃ u, action = .ran u ∧ those u

def Only (those : θ → Prop) (past : List (Machine θ × Action θ)) : Prop :=
  ∀ entry ∈ past, entry.2.By those

def stepsLeft (t : θ) (machine : Machine θ) : Nat :=
  match machine.position t with
  | some (_, stage) => stage.left machine.shared
  | none => 0

omit [DecidableEq θ] [Fintype θ] in
theorem Only.append {those : θ → Prop} {first second : List (Machine θ × Action θ)}
    (before : Only those first) (after : Only those second) : Only those (first ++ second) :=
  List.forall_mem_append.mpr ⟨before, after⟩

omit [DecidableEq θ] [Fintype θ] in
theorem Only.mono {those others : θ → Prop} {past : List (Machine θ × Action θ)}
    (only : Only those past) (more : ∀ u, those u → others u) : Only others past := by
  intro entry listed
  obtain ⟨u, same, this⟩ := only entry listed
  exact ⟨u, same, more u this⟩

omit [DecidableEq θ] in
theorem Sound.lock_free (sound : Sound machine registry)
    (alone : ∀ u, u ≠ t → ¬ Inside (machine.position u)) (outside : ¬ Inside (machine.position t)) :
    machine.shared.mMutex = false := by
  rw [Bool.eq_false_iff]
  intro taken
  obtain ⟨u, within⟩ := sound.guarded.holder taken
  by_cases same : u = t
  · exact outside (same ▸ within)
  · exact alone u same within

theorem leaves (sound : Sound machine registry) (here : machine.position t = some (call, stage))
    (fetched : stage ≠ .fetching) (alone : ∀ u, u ≠ t → ¬ Inside (machine.position u)) :
    ∃ past after, Run Step machine past after ∧ Only (· = t) past ∧
      ((∃ registry, Sound after registry) ∧
        (∃ stage, after.position t = some (call, stage) ∧ stage ≠ .fetching) ∧
        ∀ u, u ≠ t → after.position u = machine.position u) ∧
      ∃ result, after.position t = some (call, .leaving result) := by
  refine Run.reaches (stepsLeft t) ?_ ⟨⟨registry, sound⟩, ⟨stage, here, fetched⟩, fun _ _ => rfl⟩
  rintro machine' ⟨⟨registry, sound⟩, ⟨stage, here, fetched⟩, others⟩ short
  have stays : ∀ result, stage ≠ .leaving result := by
    rintro result rfl
    exact short ⟨result, here⟩
  have free : ∀ new, stage = .locking new → machine'.shared.mMutex = false := by
    rintro new rfl
    apply sound.lock_free (t := t)
    · intro u apart
      rw [others u apart]
      exact alone u apart
    · simp [here]
  obtain ⟨order, ⟨stage', shared'⟩, goes⟩ :=
    sound.defined here stays free fun same => (fetched same).elim
  obtain ⟨registry', sound', -⟩ := sound.run here goes
  obtain ⟨fetched', less⟩ := advance_left goes
  refine ⟨_, _, .run order here goes, ⟨t, rfl, rfl⟩,
    ⟨⟨registry', sound'⟩, ⟨stage', move_self, fetched'⟩, ?_⟩, ?_⟩
  · intro u apart
    rw [move_other apart, others u apart]
  · simpa [stepsLeft, here] using less

theorem leaves_behind (sound : Sound machine registry)
    (here : machine.position t = some (call, stage)) (fetched : stage ≠ .fetching) :
    ∃ past after result, Run Step machine past after ∧
      Only (fun u => u = t ∨ Inside (machine.position u)) past ∧
      after.position t = some (call, .leaving result) := by
  by_cases blocked : ∃ u, u ≠ t ∧ Inside (machine.position u)
  · obtain ⟨u, apart, within⟩ := blocked
    cases there : machine.position u with
    | none => simp [there] at within
    | some frame =>
        obtain ⟨call', stage'⟩ := frame
        have fetched' : stage' ≠ .fetching := by
          rintro rfl
          simp [there] at within
        have single : ∀ v, v ≠ u → ¬ Inside (machine.position v) :=
          fun v other => sound.guarded.others within other
        obtain ⟨first, middle, run, only, ⟨⟨registry', sound'⟩, -, others⟩, result', left⟩ :=
          leaves sound there fetched' single
        have nobody : ∀ v, v ≠ t → ¬ Inside (middle.position v) := by
          intro v other
          by_cases same : v = u
          · simp [same, left]
          · rw [others v same]
            exact single v same
        have mine : middle.position t = some (call, stage) := (others t apart.symm).trans here
        obtain ⟨second, after, run', only', -, result, gone⟩ := leaves sound' mine fetched nobody
        refine ⟨first ++ second, after, result, run.trans run', ?_, gone⟩
        apply Only.append
        · exact only.mono fun v same => .inr (same ▸ within)
        · exact only'.mono fun v same => .inl same
  · have alone : ∀ u, u ≠ t → ¬ Inside (machine.position u) :=
      fun u apart within => blocked ⟨u, apart, within⟩
    obtain ⟨past, after, run, only, -, result, gone⟩ := leaves sound here fetched alone
    exact ⟨past, after, result, run, only.mono fun v same => .inl same, gone⟩

variable {past : List (Machine θ × Action θ)}

theorem shared_manager_returns (run : Run Step start past machine)
    (here : machine.position t = some (call, stage))
    (ids : stage = .fetching → machine.shared.mNextAvailableID < 2 ^ 32 - 1) :
    ∃ rest after result, Run Step machine rest after ∧
      Only (fun u => u = t ∨ Inside (machine.position u)) rest ∧
      Step (.returned t result) after (after.move t none ((after.shared.giveBack call).give result)) := by
  obtain ⟨registry, sound⟩ := sound_of_run run
  by_cases fetching : stage = .fetching
  · subst fetching
    have goes : advance [] call machine.shared .fetching = some _ := if_pos (ids rfl)
    obtain ⟨registry', sound', -⟩ := sound.run here goes
    obtain ⟨rest, after, result, run', only, gone⟩ :=
      leaves_behind sound' move_self (advance_left goes).1
    refine ⟨_, after, result, (Run.nil.snoc (.run [] here goes)).trans run', ?_, .respond gone⟩
    apply Only.append (by simp [Only, Action.By])
    apply only.mono
    intro u other
    by_cases same : u = t
    · exact .inl same
    · rwa [move_other same] at other
  · obtain ⟨rest, after, result, run', only, gone⟩ := leaves_behind sound here fetching
    exact ⟨rest, after, result, run', only, .respond gone⟩

theorem blocked_returns : ∃ past last, Run Step (start : Machine Bool) past last ∧
    last.shared.mMutex = true ∧ last.position true = some (.registerObj, .locking (some 1)) ∧
    ∃ rest after result, Run Step last rest after ∧
      Only (fun u => u = true ∨ Inside (last.position u)) rest ∧
      Step (.returned true result) after (after.move true none ((after.shared.giveBack .registerObj).give result)) := by
  have performed : perform choose (start : Machine Bool)
    [.call true .registerObj, .call false .releaseUnusedObjects, .go true [], .go false []] =
      some _ := rfl
  have run := perform_run choose_step performed
  exact ⟨_, _, run, rfl, rfl, shared_manager_returns run rfl (by simp)⟩

end PackagedTask.Objects.Sharing
