import PackagedTask.Objects.Sharing

namespace PackagedTask.Objects.Sharing
open Library Library.Threads

/-! What holds of the threads and of the registry together. -/

@[simp] def Stage.Inside : Stage → Prop
  | .inserting _ | .finding | .copying | .scanning | .sweeping _ | .unlocking _ => True
  | _ => False

@[simp] def Inside : Position → Prop
  | none => False
  | some (_, stage) => stage.Inside

@[simp] def Sweeping : Position → Prop
  | some (_, .sweeping _) => True
  | _ => False

@[simp] def Call.takes (id : Nat) : Call → Nat
  | .drop other => if other = id then 1 else 0
  | _ => 0

@[simp] def Call.copies (id : Nat) : Call → Nat
  | .copy other => if other = id then 1 else 0
  | _ => 0

@[simp] def Result.gives (id : Nat) : Result → Nat
  | .handle new => if new = id then 1 else 0
  | _ => 0

@[simp] def carries (id : Nat) : Position → Nat
  | none => 0
  | some (call, stage) =>
      match stage with
      | .locking new => if new = some id then 1 else 0
      | .inserting new => if new = id then 1 else 0
      | .releasing => call.takes id
      | .unlocking result | .leaving result => result.gives id
      | _ => 0

@[simp] def copies (id : Nat) : Position → Nat
  | none => 0
  | some (call, _) => call.copies id

@[simp] def registers (id : Nat) : Position → Nat
  | some (_, .locking new) => if new = some id then 1 else 0
  | some (_, .inserting new) => if new = id then 1 else 0
  | _ => 0

@[simp] def destroys (id : Nat) : Position → Nat
  | some (_, .destroying other) => if other = id then 1 else 0
  | _ => 0

namespace Shared
variable (shared : Shared)

/-- One for an object that `registerObj` has not put into the map yet. -/
def unlisted (id : Nat) : Nat :=
  if shared.is_del_it id = some false ∧ id ∉ shared.mObjects then 1 else 0

/-- One for an object whose last handle is gone, and that is not marked yet. -/
def unmarked (id : Nat) : Nat :=
  if shared.is_del_it id = some false ∧ id ∈ shared.mObjects ∧ shared.uses id = 0 then 1 else 0

end Shared

/-- What is in memory of an id, and what the registry says of it. -/
structure Entry (shared : Shared) (registry : Registry) (id : Nat) : Prop where
  alive : shared.uses id ≠ 0 → shared.is_del_it id = some false
  stored : id ∈ shared.mObjects → shared.is_del_it id ≠ none
  future : shared.mNextAvailableID ≤ id →
    shared.uses id = 0 ∧ shared.is_del_it id = none ∧ id ∉ registry.issued
  unlisted : id ∉ shared.mObjects → shared.is_del_it id ≠ none →
    0 < id ∧ id ∉ registry.issued ∧ shared.uses id = 1
  listed : id ∈ shared.mObjects →
    id ∈ registry.issued ∧ registry.handles id = some (shared.uses id)
  gone : id ∉ shared.mObjects → registry.handles id ≠ none → registry.handles id = some 0

/-- The calls that get to a stage, and what they find there. -/
def Local (shared : Shared) : Position → Prop
  | none => True
  | some (call, stage) =>
      match stage with
      | .fetching | .inserting _ => call = .registerObj
      | .locking new => (call = .registerObj ↔ new ≠ none) ∧ ∀ id, call ≠ .drop id ∧ call ≠ .copy id
      | .finding => ∃ stage, shared.find call = some stage
      | .copying => ∃ id ∈ shared.mObjects, call = .getObject id
      | .scanning => call = .releaseUnusedObjects
      | .sweeping rest =>
          call = .releaseUnusedObjects ∧ rest.Nodup ∧ ∀ id ∈ rest, id ∈ shared.mObjects
      | .counting => ∃ id, call = .copy id
      | .releasing => ∃ id, call = .drop id
      | .destroying id => call = .drop id
      | .unlocking _ | .leaving _ => True

variable {θ : Type} [DecidableEq θ] [Fintype θ]

structure Sound (machine : Machine θ) (registry : Registry) : Prop where
  guarded : machine.Guarded Shared.mMutex Inside
  positive : 0 < machine.shared.mNextAvailableID
  places : ∀ t, Local machine.shared (machine.position t)
  counts : ∀ id, machine.shared.uses id = machine.shared.held id + machine.total (carries id)
  borrowers : ∀ id, machine.total (copies id) = machine.shared.borrowed id
  lent : ∀ id, 0 < machine.shared.borrowed id → 0 < machine.shared.held id
  registering : ∀ id, machine.total (registers id) = machine.shared.unlisted id
  destroying : ∀ id, machine.total (destroys id) = machine.shared.unmarked id
  entries : ∀ id, Entry machine.shared registry id
  /-- Objects that are gone are still in the registry only while a sweep goes on. -/
  settled : (∀ t, ¬ Sweeping (machine.position t)) → ∀ id ∉ machine.shared.mObjects,
    registry.handles id = none

section Moves
variable {machine : Machine θ} {registry registry' : Registry} {t : θ} {p : Position}
  {call : Call} {shared shared' : Shared} {id : Nat}

theorem Entry.congr (entry : Entry shared registry id) (uses : shared'.uses id = shared.uses id)
    (objects : id ∈ shared'.mObjects ↔ id ∈ shared.mObjects)
    (flag : shared'.is_del_it id = shared.is_del_it id)
    (next : shared.mNextAvailableID ≤ shared'.mNextAvailableID)
    (issued : id ∈ registry'.issued ↔ id ∈ registry.issued)
    (handles : registry'.handles id = registry.handles id) : Entry shared' registry' id := by
  constructor
  · simpa only [uses, flag] using entry.alive
  · simpa only [objects, flag] using entry.stored
  · intro later
    simpa only [uses, flag, issued] using entry.future (next.trans later)
  · simpa only [objects, uses, flag, issued] using entry.unlisted
  · simpa only [objects, uses, issued, handles] using entry.listed
  · simpa only [objects, handles] using entry.gone

theorem Local.keep (place : Local shared p) (objects : Inside p → shared'.mObjects = shared.mObjects) :
    Local shared' p := by
  match p with
  | none => trivial
  | some (call, stage) =>
      cases stage with
      | finding =>
          have same := objects trivial
          obtain ⟨stage, found⟩ := place
          refine ⟨stage, ?_⟩
          rw [← found]
          cases call <;> simp [Shared.find, same]
      | copying =>
          have same := objects trivial
          simpa only [Local, same] using place
      | sweeping rest =>
          have same := objects trivial
          simpa only [Local, same] using place
      | _ => exact place

theorem Sound.placed (sound : Sound machine registry)
    (access : Access Shared.mMutex Inside (machine.position t) machine.shared p shared)
    (positive : 0 < shared.mNextAvailableID) (place : Local shared p)
    (objects : shared.mObjects = machine.shared.mObjects ∨ Inside (machine.position t))
    (counts : ∀ id, shared.uses id + machine.shared.held id + carries id (machine.position t) =
      machine.shared.uses id + shared.held id + carries id p)
    (borrowers : ∀ id, shared.borrowed id + copies id (machine.position t) =
      machine.shared.borrowed id + copies id p)
    (lent : ∀ id, 0 < shared.borrowed id → 0 < shared.held id)
    (registering : ∀ id, shared.unlisted id + registers id (machine.position t) =
      machine.shared.unlisted id + registers id p)
    (destroying : ∀ id, shared.unmarked id + destroys id (machine.position t) =
      machine.shared.unmarked id + destroys id p)
    (entries : ∀ id, Entry shared registry' id)
    (settled : ¬ Sweeping p → (¬ Sweeping (machine.position t) →
      ∀ id ∉ machine.shared.mObjects, registry.handles id = none) →
        ∀ id ∉ shared.mObjects, registry'.handles id = none) :
    Sound (machine.move t p shared) registry' where
  guarded := sound.guarded.move access
  positive := positive
  places := by
    intro u
    by_cases same : u = t
    · rw [same, move_self]
      exact place
    · rw [move_other same]
      apply (sound.places u).keep
      intro inside
      rcases objects with kept | holder
      · exact kept
      · exact absurd (sound.guarded.exclusive u t inside holder) same
  counts := by
    intro id
    have total : (machine.move t p shared).total (carries id) + carries id (machine.position t) =
      machine.total (carries id) + carries id p := total_move
    have before := sound.counts id
    have change := counts id
    simp only [move_shared]
    omega
  borrowers := fun id => total_of_change (sound.borrowers id) (borrowers id)
  lent := lent
  registering := fun id => total_of_change (sound.registering id) (registering id)
  destroying := fun id => total_of_change (sound.destroying id) (destroying id)
  entries := entries
  settled := by
    intro still
    apply settled
    · simpa using still t
    · intro apart
      apply sound.settled
      intro u
      by_cases same : u = t
      · exact same ▸ apart
      · simpa only [move_other same] using still u

omit [DecidableEq θ] in
theorem Sound.place (sound : Sound machine registry) (here : machine.position t = p) :
    Local machine.shared p :=
  here ▸ sound.places t

theorem Sound.quiet (sound : Sound machine registry) {flag : Bool}
    (access : Access Shared.mMutex Inside (machine.position t) machine.shared p
      { machine.shared with mMutex := flag })
    (place : Local machine.shared p)
    (handles : ∀ id, carries id p = carries id (machine.position t))
    (reads : ∀ id, copies id p = copies id (machine.position t))
    (new : ∀ id, registers id p = registers id (machine.position t))
    (last : ∀ id, destroys id p = destroys id (machine.position t))
    (sweeps : Sweeping (machine.position t) → Sweeping p) :
    Sound (machine.move t p { machine.shared with mMutex := flag }) registry := by
  apply sound.placed access sound.positive (place.keep fun _ => rfl) (.inl rfl)
  · intro id
    simp only [handles]
  · intro id
    simp only [reads]
  · exact sound.lent
  · intro id
    simp only [new]
    rfl
  · intro id
    simp only [last]
    rfl
  · exact fun id => (sound.entries id).congr rfl .rfl rfl le_rfl .rfl rfl
  · exact fun still settled => settled fun sweeping => still (sweeps sweeping)

theorem Sound.holding (sound : Sound machine registry)
    (rest : shared = { machine.shared with held := shared.held, borrowed := shared.borrowed })
    (apart : ¬ Inside (machine.position t)) (outside : ¬ Inside p) (place : Local machine.shared p)
    (moves : ∀ id, shared.held id + carries id p =
      machine.shared.held id + carries id (machine.position t))
    (borrowers : ∀ id, shared.borrowed id + copies id (machine.position t) =
      machine.shared.borrowed id + copies id p)
    (lent : ∀ id, 0 < shared.borrowed id → 0 < shared.held id)
    (new : ∀ id, registers id p = registers id (machine.position t))
    (last : ∀ id, destroys id p = destroys id (machine.position t)) :
    Sound (machine.move t p shared) registry := by
  have free : shared.mMutex = machine.shared.mMutex := by rw [rest]
  have objects : shared.mObjects = machine.shared.mObjects := by rw [rest]
  have uses : shared.uses = machine.shared.uses := by rw [rest]
  have flags : shared.is_del_it = machine.shared.is_del_it := by rw [rest]
  have next : shared.mNextAvailableID = machine.shared.mNextAvailableID := by rw [rest]
  have access : Access Shared.mMutex Inside (machine.position t) machine.shared p shared :=
    .keep (iff_of_false outside apart) free
  apply sound.placed access (next ▸ sound.positive) (place.keep fun _ => objects) (.inl objects)
  · intro id
    have change := moves id
    rw [uses]
    omega
  · exact borrowers
  · exact lent
  · intro id
    simp only [new, Shared.unlisted, objects, flags]
  · intro id
    simp only [last, Shared.unmarked, objects, flags, uses]
  · intro id
    apply (sound.entries id).congr <;> simp [objects, uses, flags, next]
  · intro _ settled
    rw [objects]
    apply settled
    intro sweeping
    revert apart sweeping
    match machine.position t with
    | none => simp
    | some (call, stage) => cases stage <;> simp

omit [DecidableEq θ] [Fintype θ] in
theorem Shared.unlisted_pos : 0 < shared.unlisted id ↔
    shared.is_del_it id = some false ∧ id ∉ shared.mObjects := by
  unfold unlisted
  split <;> simp_all

theorem Shared.unmarked_pos : 0 < shared.unmarked id ↔
    shared.is_del_it id = some false ∧ id ∈ shared.mObjects ∧ shared.uses id = 0 := by
  unfold unmarked
  split <;> simp_all

omit [DecidableEq θ] in
theorem Sound.unlisted (sound : Sound machine registry) (here : 0 < registers id (machine.position t)) :
    machine.shared.is_del_it id = some false ∧ id ∉ machine.shared.mObjects ∧
      0 < id ∧ id ∉ registry.issued ∧ machine.shared.uses id = 1 := by
  have positive := here.trans_le (machine.share_le_total t)
  rw [sound.registering, Shared.unlisted_pos] at positive
  obtain ⟨flag, missing⟩ := positive
  exact ⟨flag, missing, (sound.entries id).unlisted missing (by simp [flag])⟩

omit [DecidableEq θ] in
theorem Sound.unmarked (sound : Sound machine registry) (here : 0 < destroys id (machine.position t)) :
    machine.shared.is_del_it id = some false ∧ id ∈ machine.shared.mObjects ∧
      machine.shared.uses id = 0 := by
  have positive := here.trans_le (machine.share_le_total t)
  rwa [sound.destroying, Shared.unmarked_pos] at positive

theorem registers_le_carries (id : Nat) (p : Position) : registers id p ≤ carries id p := by
  match p with
  | none => exact le_rfl
  | some (call, stage) => cases stage <;> simp

omit [DecidableEq θ] in
theorem Sound.stored (sound : Sound machine registry) (used : 0 < machine.shared.uses id)
    (more : ∀ u, 0 < registers id (machine.position u) → 1 < machine.shared.uses id) :
    machine.shared.is_del_it id = some false ∧ id ∈ machine.shared.mObjects := by
  have flag := (sound.entries id).alive used.ne'
  refine ⟨flag, ?_⟩
  by_contra missing
  have one := ((sound.entries id).unlisted missing (by simp [flag])).2.2
  have registering : 0 < machine.total (registers id) := by
    rw [sound.registering, Shared.unlisted_pos]
    exact ⟨flag, missing⟩
  obtain ⟨u, positive⟩ := exists_share registering
  have two := more u positive
  omega

omit [DecidableEq θ] in
theorem Sound.held (sound : Sound machine registry) (held : 0 < machine.shared.held id) :
    machine.shared.is_del_it id = some false ∧ id ∈ machine.shared.mObjects := by
  have counted := sound.counts id
  apply sound.stored (by omega)
  intro u registering
  have share : carries id (machine.position u) ≤ machine.total (carries id) := share_le_total u
  have handle := registers_le_carries id (machine.position u)
  omega

omit [DecidableEq θ] in
theorem Sound.copied (sound : Sound machine registry) (here : 0 < copies id (machine.position t)) :
    machine.shared.is_del_it id = some false ∧ id ∈ machine.shared.mObjects ∧
      0 < machine.shared.uses id := by
  have borrowed := here.trans_le (machine.share_le_total t)
  rw [sound.borrowers] at borrowed
  have held := sound.lent id borrowed
  have counted := sound.counts id
  have stored := sound.held held
  exact ⟨stored.1, stored.2, by omega⟩

theorem Sound.carried (sound : Sound machine registry) (here : 0 < carries id (machine.position t))
    (known : registers id (machine.position t) = 0) :
    machine.shared.is_del_it id = some false ∧ id ∈ machine.shared.mObjects ∧
      0 < machine.shared.uses id := by
  have counted := sound.counts id
  have share : carries id (machine.position t) ≤ machine.total (carries id) := share_le_total t
  have used : 0 < machine.shared.uses id := by omega
  have stored := sound.stored used ?_
  · exact ⟨stored.1, stored.2, used⟩
  intro u registering
  have apart : u ≠ t := by
    rintro rfl
    omega
  have shares : carries id (machine.position t) + carries id (machine.position u) ≤
    machine.total (carries id) := shares_le_total apart
  have handle := registers_le_carries id (machine.position u)
  omega

omit [DecidableEq θ] in
theorem Sound.missing (sound : Sound machine registry) (inside : Inside (machine.position t))
    (still : ¬ Sweeping (machine.position t)) (missing : id ∉ machine.shared.mObjects) :
    registry.handles id = none := by
  apply sound.settled ?_ id missing
  intro u sweeping
  have within : Inside (machine.position u) := by
    revert sweeping
    match machine.position u with
    | none => simp
    | some (call, stage) => cases stage <;> simp
  have same := sound.guarded.exclusive u t within inside
  exact still (same ▸ sweeping)

omit [DecidableEq θ] in
theorem Sound.recorded (sound : Sound machine registry) (inside : Inside (machine.position t))
    (still : ¬ Sweeping (machine.position t)) (id : Nat) :
    (registry.handles id).isSome = decide (id ∈ machine.shared.mObjects) := by
  by_cases listed : id ∈ machine.shared.mObjects
  · simp [listed, ((sound.entries id).listed listed).2]
  · simp [listed, sound.missing inside still listed]

theorem Shared.take_held (has : shared.Has call) (id : Nat) :
    (shared.take call).held id + call.takes id = shared.held id := by
  cases call with
  | drop other =>
      by_cases same : id = other
      · subst same
        have held : 0 < shared.held id := lt_of_le_of_lt (Nat.zero_le _) has
        simp [take, hold]
        omega
      · simp [take, hold, same, Ne.symm same]
  | _ => rfl

theorem Shared.take_borrowed (call : Call) (id : Nat) :
    (shared.take call).borrowed id = shared.borrowed id + call.copies id := by
  cases call with
  | copy other =>
      by_cases same : id = other
      · simp [take, borrow, same]
      · simp [take, borrow, same, Ne.symm same]
  | _ => rfl

theorem Shared.take_lent (has : shared.Has call)
    (lent : ∀ id, 0 < shared.borrowed id → 0 < shared.held id) (id : Nat)
    (reads : 0 < (shared.take call).borrowed id) : 0 < (shared.take call).held id := by
  cases call with
  | drop other =>
      by_cases same : id = other
      · subst same
        have borrowed : shared.borrowed id ≠ 0 := Nat.pos_iff_ne_zero.mp reads
        simp only [Has, borrowed, if_false] at has
        simpa [take, hold] using has
      · simpa [take, hold, same] using lent id reads
  | copy other =>
      by_cases same : id = other
      · exact same ▸ has
      · have before : 0 < shared.borrowed id := by simpa [take, borrow, same] using reads
        exact lent id before
  | _ => exact lent id reads

theorem Sound.called (sound : Sound machine registry) (call : Call)
    (idle : machine.position t = none) (has : machine.shared.Has call) :
    Sound (machine.move t (some (call, call.entry)) (machine.shared.take call)) registry := by
  apply sound.holding
  · cases call <;> rfl
  · simp [idle]
  · cases call <;> simp [Call.entry]
  · cases call <;> simp [Call.entry, Local]
  · intro id
    have taken := Shared.take_held has id
    have entered : carries id (some (call, call.entry)) = call.takes id := by
      cases call <;> simp [Call.entry]
    rw [idle, entered]
    exact taken
  · intro id
    simp [idle, Shared.take_borrowed]
  · exact Shared.take_lent has sound.lent
  · intro id
    rw [idle]
    cases call <;> simp [Call.entry]
  · intro id
    rw [idle]
    cases call <;> simp [Call.entry]

theorem Shared.giveBack_borrowed (call : Call) (id : Nat) :
    (shared.giveBack call).borrowed id = shared.borrowed id - call.copies id := by
  cases call with
  | copy other =>
      by_cases same : id = other
      · simp [giveBack, borrow, same]
      · simp [giveBack, borrow, same, Ne.symm same]
  | _ => rfl

theorem Shared.give_held (result : Result) (id : Nat) :
    (shared.give result).held id = shared.held id + result.gives id := by
  cases result with
  | handle other =>
      by_cases same : id = other
      · simp [give, hold, same]
      · simp [give, hold, same, Ne.symm same]
  | _ => rfl

theorem Shared.give_borrowed (result : Result) : (shared.give result).borrowed = shared.borrowed := by
  cases result <;> rfl

theorem Shared.giveBack_held (call : Call) : (shared.giveBack call).held = shared.held := by
  cases call <;> rfl

theorem Sound.returned {result : Result} (sound : Sound machine registry)
    (here : machine.position t = some (call, .leaving result)) :
    Sound (machine.move t none ((machine.shared.giveBack call).give result)) registry := by
  have borrowed (id : Nat) : ((machine.shared.giveBack call).give result).borrowed id =
      machine.shared.borrowed id - call.copies id := by
    rw [Shared.give_borrowed, Shared.giveBack_borrowed]
  have held (id : Nat) : ((machine.shared.giveBack call).give result).held id =
      machine.shared.held id + result.gives id := by
    rw [Shared.give_held, Shared.giveBack_held]
  apply sound.holding
  · cases call <;> cases result <;> rfl
  · simp [here]
  · simp
  · trivial
  · intro id
    simp [held, here]
  · intro id
    have counted := sound.borrowers id
    have share : copies id (machine.position t) ≤ machine.total (copies id) := share_le_total t
    rw [here, copies] at share
    rw [borrowed, here, copies, copies]
    omega
  · intro id reads
    rw [borrowed] at reads
    have before := sound.lent id (by omega)
    rw [held]
    omega
  · simp [here]
  · simp [here]

end Moves

omit [DecidableEq θ] in
theorem sound_start : Sound (start : Machine θ) {} where
  guarded := by
    refine ⟨?_, fun _ => False.elim, fun _ _ => False.elim⟩
    intro taken
    cases taken
  positive := Nat.one_pos
  places := fun _ => trivial
  counts := by simp [start, total]
  borrowers := by simp [start, total]
  lent := fun _ borrowed => borrowed
  registering := by simp [start, total, Shared.unlisted]
  destroying := by simp [start, total, Shared.unmarked]
  entries := by
    intro id
    constructor <;> simp [start]
  settled := fun _ _ _ => rfl

end PackagedTask.Objects.Sharing
