import PackagedTask.Objects.Linearization

namespace PackagedTask.Objects.Sharing
open Library Library.Threads

/-! What a sweep takes, whatever the other threads do meanwhile. -/

variable {θ : Type} [DecidableEq θ] [Fintype θ] {machine after : Machine θ} {registry : Registry}
  {t : θ} {id : Nat} {shared shared' : Shared} {call : Call} {stage stage' : Stage} {order : List Nat}

namespace Shared

structure Gone (shared : Shared) (id : Nat) : Prop where
  issued : id < shared.mNextAvailableID
  missing : id ∉ shared.mObjects
  deleted : shared.is_del_it id = none

structure Marked (shared : Shared) (id : Nat) : Prop where
  issued : id < shared.mNextAvailableID
  listed : id ∈ shared.mObjects
  flag : shared.is_del_it id = some true

end Shared

/-- All that an access can do to the map and to the objects. -/
inductive Alters (shared : Shared) : Stage → Shared → Prop
  | none {stage : Stage} {shared' : Shared} (objects : shared'.mObjects = shared.mObjects)
      (flags : shared'.is_del_it = shared.is_del_it)
      (next : shared'.mNextAvailableID = shared.mNextAvailableID) : Alters shared stage shared'
  | create : Alters shared .fetching (shared.create shared.mNextAvailableID)
  | insert (id : Nat) :
      Alters shared (.inserting id) { shared with mObjects := insert id shared.mObjects }
  | erase (id : Nat) (rest : List Nat) (flag : shared.is_del_it id = some true) :
      Alters shared (.sweeping (id :: rest)) (shared.erase id)
  | mark (id : Nat) (alive : shared.is_del_it id ≠ none) :
      Alters shared (.destroying id) (shared.deleteObj id)

theorem advance_alters (goes : advance order call shared stage = some (stage', shared')) :
    Alters shared stage shared' := by
  cases advance_goes goes with
  | fetching => exact .create
  | inserting id => exact .insert id
  | @sweeping id rest deleted flag =>
      cases deleted with
      | false => exact .none rfl rfl rfl
      | true => exact .erase id rest flag
  | destroying flag => exact .mark _ (by simp [flag])
  | _ => exact .none rfl rfl rfl

theorem Shared.Gone.alters (gone : shared.Gone id) (alters : Alters shared stage shared')
    (known : stage ≠ .inserting id) : shared'.Gone id := by
  obtain ⟨issued, missing, deleted⟩ := gone
  cases alters with
  | none objects flags next => exact ⟨next ▸ issued, objects ▸ missing, flags ▸ deleted⟩
  | create =>
      refine ⟨Nat.lt_succ_of_lt issued, missing, ?_⟩
      simpa [Shared.create, issued.ne] using deleted
  | insert other =>
      have apart : id ≠ other := by
        rintro rfl
        exact known rfl
      exact ⟨issued, by simp [apart, missing], deleted⟩
  | erase other rest flag =>
      refine ⟨issued, by simp [Shared.erase, missing], ?_⟩
      by_cases same : id = other <;> simp [Shared.erase, same, deleted]
  | mark other alive =>
      have apart : id ≠ other := by
        rintro rfl
        exact alive deleted
      exact ⟨issued, missing, by simpa [Shared.deleteObj, apart] using deleted⟩

theorem Shared.Marked.alters (marked : shared.Marked id) (alters : Alters shared stage shared') :
    shared'.Marked id ∨ (∃ rest, stage = .sweeping (id :: rest)) ∧ shared'.Gone id := by
  obtain ⟨issued, listed, flag⟩ := marked
  cases alters with
  | none objects flags next => exact .inl ⟨next ▸ issued, objects ▸ listed, flags ▸ flag⟩
  | create =>
      refine .inl ⟨Nat.lt_succ_of_lt issued, listed, ?_⟩
      simpa [Shared.create, issued.ne] using flag
  | insert other => exact .inl ⟨issued, Finset.mem_insert_of_mem listed, flag⟩
  | erase other rest =>
      by_cases same : id = other
      · subst same
        refine .inr ⟨⟨rest, rfl⟩, issued, ?_, ?_⟩
        · simp [Shared.erase]
        · simp [Shared.erase]
      · refine .inl ⟨issued, ?_, ?_⟩
        · simp [Shared.erase, same, listed]
        · simpa [Shared.erase, same] using flag
  | mark other alive =>
      refine .inl ⟨issued, listed, ?_⟩
      by_cases same : id = other
      · simp [Shared.deleteObj, same]
      · simpa [Shared.deleteObj, same] using flag

def Ahead (id : Nat) : Position → Prop
  | some (_, .scanning) => True
  | some (_, .sweeping rest) => id ∈ rest
  | _ => False

def Collecting (t : θ) (id : Nat) (machine : Machine θ) : Prop :=
  machine.shared.Gone id ∨ machine.shared.Marked id ∧ Ahead id (machine.position t)

theorem Ahead.inside {p : Position} (ahead : Ahead id p) : Inside p := by
  match p with
  | none => exact ahead
  | some (call, stage) => cases stage <;> trivial

omit [DecidableEq θ] in
theorem Sound.not_inserting (sound : Sound machine registry) (gone : machine.shared.Gone id) :
    machine.position t ≠ some (call, .inserting id) := by
  intro here
  have registering : 0 < registers id (machine.position t) := by simp [here]
  have flag := (sound.unlisted registering).1
  rw [gone.deleted] at flag
  cases flag

theorem ahead_advance (marked : shared.Marked id) (ahead : Ahead id (some (call, stage)))
    (goes : advance order call shared stage = some (stage', shared')) :
    shared'.Gone id ∨ Ahead id (some (call, stage')) := by
  cases advance_goes goes with
  | scanning distinct whole =>
      have listed := marked.listed
      rw [← whole, List.mem_toFinset] at listed
      exact .inr listed
  | swept => cases ahead
  | @sweeping other rest deleted flag =>
      by_cases same : id = other
      · subst same
        rw [marked.flag] at flag
        cases flag
        exact .inl ⟨marked.issued, by simp [Shared.erase], by simp [Shared.erase]⟩
      · exact .inr (List.mem_of_ne_of_mem same ahead)
  | _ => exact ahead.elim

theorem Sound.gone_step {action : Action θ} (sound : Sound machine registry)
    (gone : machine.shared.Gone id) (step : Step action machine after) : after.shared.Gone id := by
  cases step with
  | call u call idle has => cases call <;> exact ⟨gone.issued, gone.missing, gone.deleted⟩
  | @run _ u call stage stage' shared order here goes =>
      apply gone.alters (advance_alters goes)
      rintro rfl
      exact sound.not_inserting gone here
  | @respond _ u call result here =>
      cases call <;> cases result <;> exact ⟨gone.issued, gone.missing, gone.deleted⟩

omit [Fintype θ] in
theorem marked_step {action : Action θ} (marked : machine.shared.Marked id)
    (ahead : Ahead id (machine.position t)) (step : Step action machine after) :
    Collecting t id after ∧ ∀ result, action.shown ≠ some (.returned t result) := by
  cases step with
  | call u call idle has =>
      have apart : t ≠ u := by
        rintro rfl
        rw [idle] at ahead
        exact ahead
      refine ⟨.inr ⟨?_, ?_⟩, by simp [Action.shown]⟩
      · cases call <;> exact ⟨marked.issued, marked.listed, marked.flag⟩
      · rwa [move_other apart]
  | @run _ u call stage stage' shared order here goes =>
      refine ⟨?_, by simp [Action.shown]⟩
      rcases marked.alters (advance_alters goes) with marked' | ⟨-, gone⟩
      · by_cases same : t = u
        · subst same
          rw [here] at ahead
          rcases ahead_advance marked ahead goes with gone | ahead
          · exact .inl gone
          · exact .inr ⟨marked', by rwa [move_self]⟩
        · exact .inr ⟨marked', by rwa [move_other same]⟩
      · exact .inl gone
  | @respond _ u call result here =>
      have apart : t ≠ u := by
        rintro rfl
        rw [here] at ahead
        exact ahead
      refine ⟨.inr ⟨?_, ?_⟩, by simp [Action.shown, apart.symm]⟩
      · cases call <;> cases result <;> exact ⟨marked.issued, marked.listed, marked.flag⟩
      · rwa [move_other apart]

section Runs
variable {before later : List (Machine θ × Action θ)} {middle last : Machine θ}

theorem collecting_of_run (first : Run Step start before middle) (run : Run Step middle later last)
    (collecting : Collecting t id middle) : Collecting t id last ∧
      ∀ result, .returned t result ∈ observed Action.shown later → last.shared.Gone id := by
  induction run with
  | nil => exact ⟨collecting, by simp [observed]⟩
  | @snoc later machine action after earlier step ih =>
      obtain ⟨registry, sound⟩ := sound_of_run (first.trans earlier)
      obtain ⟨collecting, returned⟩ := ih
      rcases collecting with gone | ⟨marked, ahead⟩
      · have gone' := sound.gone_step gone step
        exact ⟨.inl gone', fun _ _ => gone'⟩
      · obtain ⟨next, other⟩ := marked_step marked ahead step
        refine ⟨next, ?_⟩
        intro result shown
        rw [observed_append, observed_singleton, List.mem_append, Option.mem_toList] at shown
        rcases shown with past | here
        · exact sound.gone_step (returned result past) step
        · exact (other result here).elim

omit [DecidableEq θ] in
theorem Sound.marked (sound : Sound machine registry) (listed : id ∈ machine.shared.mObjects)
    (unused : machine.shared.uses id = 0)
    (dropped : ∀ u call, machine.position u ≠ some (call, .destroying id)) :
    machine.shared.Marked id := by
  have entry := sound.entries id
  have stored := entry.stored listed
  refine ⟨?_, listed, ?_⟩
  · by_contra later
    exact stored (entry.future (Nat.le_of_not_lt later)).2.1
  · have nobody : machine.total (destroys id) = 0 := by
      apply Finset.sum_eq_zero
      intro u _
      have away := dropped u
      match here : machine.position u with
      | none => rfl
      | some (call, stage) =>
          cases stage with
          | destroying other =>
              have apart : other ≠ id := by
                rintro rfl
                exact away call here
              simp [apart]
          | _ => rfl
    have known : machine.shared.is_del_it id ≠ some false := by
      intro flag
      have waits : 0 < machine.shared.unmarked id := Shared.unmarked_pos.mpr ⟨flag, listed, unused⟩
      rw [← sound.destroying id, nobody] at waits
      exact waits.false
    cases flag : machine.shared.is_del_it id with
    | none => exact (stored flag).elim
    | some deleted => cases deleted <;> simp_all

theorem sweep_collects {result : Result} (first : Run Step start before middle)
    (scans : middle.position t = some (call, .scanning)) (listed : id ∈ middle.shared.mObjects)
    (unused : middle.shared.uses id = 0)
    (dropped : ∀ u call, middle.position u ≠ some (call, .destroying id))
    (second : Run Step middle later last)
    (returned : .returned t result ∈ observed Action.shown later) : last.shared.Gone id := by
  obtain ⟨registry, sound⟩ := sound_of_run first
  have ahead : Ahead id (middle.position t) := by
    rw [scans]
    trivial
  have collecting : Collecting t id middle := .inr ⟨sound.marked listed unused dropped, ahead⟩
  exact (collecting_of_run first second collecting).2 result returned

end Runs

def raced : Machine Bool := ((perform choose start dropRace).map Prod.snd).getD start

theorem raced_dropped (u : Bool) (call : Call) : raced.position u ≠ some (call, .destroying 1) := by
  have idle : raced.position true = none := rfl
  have scans : raced.position false = some (.releaseUnusedObjects, .scanning) := rfl
  cases u with
  | true => simp [idle]
  | false => simp [scans]

theorem dropRace_collects : ∃ before later last,
    Run Step (start : Machine Bool) before raced ∧ Run Step raced later last ∧
      raced.shared.mObjects = {1, 2} ∧ last.shared.mObjects = {2} ∧ last.shared.Gone 1 := by
  have first : perform choose start dropRace = some (_, raced) := rfl
  have second : perform choose raced sweepRace = some _ := rfl
  have before := perform_run choose_step first
  have later := perform_run choose_step second
  refine ⟨_, _, _, before, later, rfl, rfl, ?_⟩
  apply sweep_collects before (t := false) rfl (by decide) rfl raced_dropped later
  exact List.mem_cons_self (a := Shown.returned false Result.nothing)

end PackagedTask.Objects.Sharing
