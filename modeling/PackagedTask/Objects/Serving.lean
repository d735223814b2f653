import PackagedTask.Objects.Counts

namespace PackagedTask.Objects.Sharing
open Library Library.Threads

/-! What each access of a thread does to the invariant, and what it serves of the registry. -/

@[simp] def client : Position → Client Call Result
  | none => .idle
  | some (call, stage) =>
      match stage with
      | .unlocking result | .leaving result => .answered result
      | .destroying _ => .answered .nothing
      | _ => .called call

inductive Effect (before after : Client Call Result) (registry : Registry) : Registry → Prop
  | idle (same : after = before) : Effect before after registry registry
  | serve {call result registry'} (waits : before = .called call) (answered : after = .answered result)
      (serves : Serves (call, result) registry registry') : Effect before after registry registry'

variable {θ : Type} [DecidableEq θ] [Fintype θ] {machine : Machine θ} {registry : Registry} {t : θ}
  {p : Position} {call : Call} {shared : Shared} {id : Nat}

def Follows (machine : Machine θ) (registry : Registry) (t : θ) (p : Position) (shared : Shared) :
    Prop :=
  ∃ registry', Sound (machine.move t p shared) registry' ∧
    Effect (client (machine.position t)) (client p) registry registry'

theorem Sound.follows_quiet (sound : Sound machine registry) {flag : Bool}
    (access : Access Shared.mMutex Inside (machine.position t) machine.shared p
      { machine.shared with mMutex := flag })
    (place : Local machine.shared p)
    (handles : ∀ id, carries id p = carries id (machine.position t))
    (reads : ∀ id, copies id p = copies id (machine.position t))
    (new : ∀ id, registers id p = registers id (machine.position t))
    (last : ∀ id, destroys id p = destroys id (machine.position t))
    (sweeps : Sweeping (machine.position t) → Sweeping p)
    (same : client p = client (machine.position t)) :
    Follows machine registry t p { machine.shared with mMutex := flag } :=
  ⟨registry, sound.quiet access place handles reads new last sweeps, .idle same⟩

theorem Sound.fetching (sound : Sound machine registry)
    (here : machine.position t = some (call, .fetching)) :
    Follows machine registry t (some (call, .locking (some machine.shared.mNextAvailableID)))
      (machine.shared.create machine.shared.mNextAvailableID) := by
  have place := sound.place here
  obtain ⟨unused, absent, unissued⟩ := (sound.entries _).future le_rfl
  have missing : machine.shared.mNextAvailableID ∉ machine.shared.mObjects := by
    intro stored
    exact (sound.entries _).stored stored absent
  have access : Access Shared.mMutex Inside (machine.position t) machine.shared
      (some (call, .locking (some machine.shared.mNextAvailableID)))
      (machine.shared.create machine.shared.mNextAvailableID) := .keep (by simp [here]) rfl
  refine ⟨registry, ?_, .idle (by simp [here])⟩
  apply sound.placed access (Nat.succ_pos _) _ (.inl rfl)
  · intro id
    by_cases same : id = machine.shared.mNextAvailableID
    · subst same
      simp [here, Shared.create, unused]
      omega
    · simp [here, Shared.create, same, Ne.symm same]
  · simp [here, Shared.create]
  · exact sound.lent
  · intro id
    by_cases same : id = machine.shared.mNextAvailableID
    · subst same
      simp [here, Shared.create, Shared.unlisted, absent, missing]
    · simp [here, Shared.create, Shared.unlisted, same, Ne.symm same]
  · intro id
    by_cases same : id = machine.shared.mNextAvailableID
    · subst same
      simp [here, Shared.create, Shared.unmarked, absent]
    · simp [here, Shared.create, Shared.unmarked, same]
  · intro id
    by_cases same : id = machine.shared.mNextAvailableID
    · subst same
      constructor <;> simp_all [Shared.create, sound.positive, (sound.entries _).gone missing]
    · apply (sound.entries id).congr <;> simp [Shared.create, same]
  · exact fun _ settled => settled (by simp [here])
  · simp_all [Local]

theorem Sound.locking {new : Option Nat} (sound : Sound machine registry)
    (here : machine.position t = some (call, .locking new)) (free : machine.shared.mMutex = false) :
    Follows machine registry t (some (call, new.elim call.section .inserting))
      { machine.shared with mMutex := true } := by
  have place := sound.place here
  obtain ⟨registering, others⟩ := place
  cases new with
  | some id =>
      apply sound.follows_quiet (.acquire _ free _ rfl) <;> simp_all [Local]
  | none =>
      cases call with
      | registerObj => simp at registering
      | drop id => simpa using others id
      | copy id => simpa using others id
      | _ =>
          apply sound.follows_quiet (.acquire _ free _ rfl) <;>
            simp_all [Local, Call.section, Shared.find]

theorem Sound.inserting (sound : Sound machine registry)
    (here : machine.position t = some (call, .inserting id)) :
    Follows machine registry t (some (call, .unlocking (.handle id)))
      { machine.shared with mObjects := insert id machine.shared.mObjects } := by
  have place := sound.place here
  obtain rfl : call = .registerObj := place
  have registering : 0 < registers id (machine.position t) := by simp [here]
  obtain ⟨flag, missing, positive, new, one⟩ := sound.unlisted registering
  refine ⟨registry.register id, ?_, .serve (by simp [here]) rfl (.registerObj positive new)⟩
  have access : Access Shared.mMutex Inside (machine.position t) machine.shared
      (some (.registerObj, .unlocking (.handle id)))
      { machine.shared with mObjects := insert id machine.shared.mObjects } :=
    .keep (by simp [here]) rfl
  apply sound.placed access sound.positive trivial (.inr (by simp [here]))
  · simp [here]
  · simp [here]
  · exact sound.lent
  · intro other
    by_cases same : other = id
    · subst same
      simp [here, Shared.unlisted, flag, missing]
    · simp [here, Shared.unlisted, same, Ne.symm same]
  · intro other
    by_cases same : other = id
    · subst same
      simp [here, Shared.unmarked, missing, one]
    · simp [here, Shared.unmarked, same]
  · intro other
    by_cases same : other = id
    · subst same
      have future := (sound.entries other).future
      constructor <;> simp_all [Registry.register]
    · apply (sound.entries other).congr <;> simp [Registry.register, same]
  · intro _ settled other absent
    have same : other ≠ id := by
      rintro rfl
      simp at absent
    have before := settled (by simp [here]) other (by simp_all)
    simpa [Registry.register, same] using before

theorem Sound.finding {stage : Stage} (sound : Sound machine registry)
    (here : machine.position t = some (call, .finding))
    (found : machine.shared.find call = some stage) :
    Follows machine registry t (some (call, stage)) machine.shared := by
  have inside : Inside (machine.position t) := by simp [here]
  have still : ¬ Sweeping (machine.position t) := by simp [here]
  have recorded := sound.recorded inside still
  have unheard {result : Result} (none : ∀ id, result.gives id = 0)
      (serves : Serves (call, result) registry registry) :
      Follows machine registry t (some (call, .unlocking result)) machine.shared := by
    refine ⟨registry, sound.quiet (.keep ?_ rfl) ?_ ?_ ?_ ?_ ?_ ?_, .serve ?_ rfl serves⟩ <;>
      simp_all [Local]
  cases call with
  | objectExists id =>
      cases found
      apply unheard (fun _ => rfl)
      rw [← recorded id]
      exact .objectExists id
  | getObject id =>
      cases found
      by_cases listed : id ∈ machine.shared.mObjects
      · rw [if_pos listed]
        apply sound.follows_quiet (.keep _ rfl) <;> simp_all [Local]
      · rw [if_neg listed]
        exact unheard (fun _ => rfl) (.getObject_missing (sound.missing inside still listed))
  | getObjectPtr id =>
      cases found
      by_cases listed : id ∈ machine.shared.mObjects
      · rw [if_pos listed]
        exact unheard (fun _ => rfl) (.getObjectPtr ((sound.entries id).listed listed).2)
      · rw [if_neg listed]
        exact unheard (fun _ => rfl) (.getObjectPtr_missing (sound.missing inside still listed))
  | _ => cases found

theorem Sound.counted {uses : Nat} (sound : Sound machine registry)
    (same : Inside p ↔ Inside (machine.position t)) (place : Local machine.shared p)
    (still : ¬ Sweeping (machine.position t))
    (stored : machine.shared.is_del_it id = some false ∧ id ∈ machine.shared.mObjects ∧
      0 < machine.shared.uses id)
    (change : uses + carries id (machine.position t) = machine.shared.uses id + carries id p)
    (others : ∀ other, id ≠ other → carries other p = carries other (machine.position t))
    (reads : ∀ id, copies id p = copies id (machine.position t))
    (new : ∀ id, registers id p = registers id (machine.position t))
    (before : ∀ id, destroys id (machine.position t) = 0)
    (last : ∀ other, destroys other p = if id = other ∧ uses = 0 then 1 else 0) :
    Sound (machine.move t p (machine.shared.count id uses)) (registry.count id uses) := by
  obtain ⟨flag, listed, used⟩ := stored
  have access : Access Shared.mMutex Inside (machine.position t) machine.shared p
    (machine.shared.count id uses) := .keep same rfl
  apply sound.placed access sound.positive (place.keep fun _ => rfl) (.inl rfl)
  · intro other
    by_cases here : id = other
    · subst here
      simp only [Shared.count, Function.update_self]
      omega
    · simp only [Shared.count, Function.update_of_ne (Ne.symm here), others other here]
  · intro other
    simp only [Shared.count, reads]
  · exact sound.lent
  · intro other
    simp only [new]
    rfl
  · intro other
    rw [before, last]
    by_cases here : id = other
    · subst here
      simp [Shared.count, Shared.unmarked, flag, listed, used.ne']
    · simp [Shared.count, Shared.unmarked, Ne.symm here, here]
  · intro other
    by_cases here : id = other
    · subst here
      have entry := sound.entries id
      have issued := (entry.listed listed).1
      have future := entry.future
      constructor <;> simp_all [Shared.count, Registry.count]
    · apply (sound.entries other).congr <;> simp [Shared.count, Registry.count, Ne.symm here]
  · intro _ settled other missing
    have apart : other ≠ id := by
      rintro rfl
      exact missing listed
    simpa [Registry.count, apart] using settled still other missing

omit [DecidableEq θ] in
theorem Sound.recount (sound : Sound machine registry) (listed : id ∈ machine.shared.mObjects)
    (used : 0 < machine.shared.uses id) :
    registry.handles id = some (machine.shared.uses id - 1 + 1) := by
  rw [Nat.sub_add_cancel used]
  exact ((sound.entries id).listed listed).2

theorem Sound.copying_unused (sound : Sound machine registry)
    (here : machine.position t = some (.getObject id, .copying))
    (unused : machine.shared.uses id = 0) :
    Follows machine registry t (some (.getObject id, .unlocking .null)) machine.shared := by
  have place := sound.place here
  have listed : id ∈ machine.shared.mObjects := by simpa [Local] using place
  have handles := ((sound.entries id).listed listed).2
  rw [unused] at handles
  refine ⟨registry, sound.quiet (.keep ?_ rfl) ?_ ?_ ?_ ?_ ?_ ?_, .serve ?_ rfl
    (.getObject_unused handles)⟩ <;> simp_all [Local]

theorem Sound.copying (sound : Sound machine registry)
    (here : machine.position t = some (.getObject id, .copying))
    (unused : machine.shared.uses id ≠ 0) :
    Follows machine registry t (some (.getObject id, .unlocking (.handle id)))
      (machine.shared.count id (machine.shared.uses id + 1)) := by
  have place := sound.place here
  have listed : id ∈ machine.shared.mObjects := by simpa [Local] using place
  have entry := sound.entries id
  have used : 0 < machine.shared.uses id := Nat.pos_of_ne_zero unused
  have serves := Serves.getObject (sound.recount listed used)
  rw [show machine.shared.uses id - 1 + 2 = machine.shared.uses id + 1 by omega] at serves
  refine ⟨registry.count id (machine.shared.uses id + 1), ?_, .serve ?_ rfl serves⟩
  · apply sound.counted <;> simp_all [Local, entry.alive]
  · simp [here]

theorem Sound.scanning {order : List Nat} (sound : Sound machine registry)
    (here : machine.position t = some (call, .scanning)) (distinct : order.Nodup)
    (whole : order.toFinset = machine.shared.mObjects) :
    Follows machine registry t (some (call, .sweeping order)) machine.shared := by
  have place := sound.place here
  obtain rfl : call = .releaseUnusedObjects := place
  apply sound.follows_quiet (.keep _ rfl) <;> simp_all [Local, ← whole]

theorem Sound.swept (sound : Sound machine registry)
    (here : machine.position t = some (call, .sweeping [])) :
    Follows machine registry t (some (call, .unlocking .nothing)) machine.shared := by
  have place := sound.place here
  obtain rfl : call = .releaseUnusedObjects := place.1
  let after : Registry := ⟨registry.issued, fun id =>
    if id ∈ machine.shared.mObjects then registry.handles id else none⟩
  have sweeps : registry.Sweeps after := by
    refine ⟨rfl, ?_⟩
    intro id
    by_cases listed : id ∈ machine.shared.mObjects
    · simp [after, listed]
    · have gone := (sound.entries id).gone listed
      cases handles : registry.handles id <;> simp_all [after]
  refine ⟨after, ?_, .serve (by simp [here]) rfl (.releaseUnusedObjects sweeps)⟩
  have access : Access Shared.mMutex Inside (machine.position t) machine.shared
    (some (.releaseUnusedObjects, .unlocking .nothing)) machine.shared := .keep (by simp [here]) rfl
  apply sound.placed access sound.positive trivial (.inl rfl)
  · simp [here]
  · simp [here]
  · exact sound.lent
  · simp [here]
  · simp [here]
  · intro id
    have entry := sound.entries id
    constructor
    · exact entry.alive
    · exact entry.stored
    · exact entry.future
    · exact entry.unlisted
    · intro listed
      simpa [after, listed] using entry.listed listed
    · intro missing
      simp [after, missing]
  · intro _ _ id missing
    simp [after, missing]

theorem Sound.sweeping {rest : List Nat} {deleted : Bool} (sound : Sound machine registry)
    (here : machine.position t = some (call, .sweeping (id :: rest)))
    (flag : machine.shared.is_del_it id = some deleted) :
    Follows machine registry t (some (call, .sweeping rest))
      (if deleted then machine.shared.erase id else machine.shared) := by
  have place := sound.place here
  obtain ⟨rfl, distinct, listed⟩ := place
  rw [List.nodup_cons] at distinct
  have stored : id ∈ machine.shared.mObjects := listed id (List.mem_cons_self ..)
  cases deleted with
  | false => apply sound.follows_quiet (.keep _ rfl) <;> simp_all [Local]
  | true =>
      have entry := sound.entries id
      have unused : machine.shared.uses id = 0 := by
        by_contra used
        simp [entry.alive used] at flag
      refine ⟨registry, ?_, .idle (by simp [here])⟩
      have access : Access Shared.mMutex Inside (machine.position t) machine.shared
        (some (.releaseUnusedObjects, .sweeping rest)) (machine.shared.erase id) :=
          .keep (by simp [here]) rfl
      apply sound.placed access sound.positive _ (.inr (by simp [here]))
      · simp [here, Shared.erase]
      · simp [here, Shared.erase]
      · exact sound.lent
      · intro other
        by_cases same : other = id
        · subst same
          simp [here, Shared.unlisted, Shared.erase, flag]
        · simp [here, Shared.unlisted, Shared.erase, same]
      · intro other
        by_cases same : other = id
        · subst same
          simp [here, Shared.unmarked, Shared.erase, flag]
        · simp [here, Shared.unmarked, Shared.erase, same]
      · intro other
        by_cases same : other = id
        · subst same
          have future := entry.future
          have kept := (entry.listed stored).2
          constructor <;> simp_all [Shared.erase]
        · apply (sound.entries other).congr <;> simp [Shared.erase, same]
      · simp
      · refine ⟨rfl, distinct.2, ?_⟩
        intro other later
        have apart : other ≠ id := by
          rintro rfl
          exact distinct.1 later
        simpa [Shared.erase, apart] using listed other (List.mem_cons_of_mem _ later)

theorem Sound.unlocking {result : Result} (sound : Sound machine registry)
    (here : machine.position t = some (call, .unlocking result)) :
    Follows machine registry t (some (call, .leaving result))
      { machine.shared with mMutex := false } := by
  apply sound.follows_quiet (.release _ _ rfl) <;> simp_all [Local]

theorem Sound.counting (sound : Sound machine registry)
    (here : machine.position t = some (.copy id, .counting)) :
    machine.shared.uses id ≠ 0 ∧ Follows machine registry t
      (some (.copy id, .leaving (.handle id)))
      (machine.shared.count id (machine.shared.uses id + 1)) := by
  have copied : 0 < copies id (machine.position t) := by simp [here]
  have stored := sound.copied copied
  have serves := Serves.copy (sound.recount stored.2.1 stored.2.2)
  rw [show machine.shared.uses id - 1 + 2 = machine.shared.uses id + 1 by omega] at serves
  refine ⟨stored.2.2.ne', registry.count id (machine.shared.uses id + 1), ?_, .serve ?_ rfl serves⟩
  · apply sound.counted <;> simp_all [Local]
  · simp [here]

theorem Sound.releasing (sound : Sound machine registry)
    (here : machine.position t = some (.drop id, .releasing)) :
    machine.shared.uses id ≠ 0 ∧ Follows machine registry t
      (some (.drop id, if machine.shared.uses id = 1 then .destroying id else .leaving .nothing))
      (machine.shared.count id (machine.shared.uses id - 1)) := by
  have carried : 0 < carries id (machine.position t) := by simp [here]
  have stored := sound.carried carried (by simp [here])
  have serves := Serves.drop (sound.recount stored.2.1 stored.2.2)
  refine ⟨stored.2.2.ne', registry.count id (machine.shared.uses id - 1), ?_, ?_⟩
  · by_cases one : machine.shared.uses id = 1
    · apply sound.counted <;> simp_all [Local]
    · have more : machine.shared.uses id - 1 ≠ 0 := by omega
      have rejoin : machine.shared.uses id - 1 + 1 = machine.shared.uses id := by omega
      apply sound.counted <;> simp_all [Local]
  · apply Effect.serve (by simp [here]) _ serves
    by_cases one : machine.shared.uses id = 1 <;> simp [one]

theorem Sound.destroying_last (sound : Sound machine registry)
    (here : machine.position t = some (call, .destroying id)) :
    machine.shared.is_del_it id = some false ∧ Follows machine registry t
      (some (call, .leaving .nothing)) (machine.shared.deleteObj id) := by
  have destroying : 0 < destroys id (machine.position t) := by simp [here]
  obtain ⟨flag, listed, unused⟩ := sound.unmarked destroying
  refine ⟨flag, registry, ?_, .idle (by simp [here])⟩
  have access : Access Shared.mMutex Inside (machine.position t) machine.shared
    (some (call, .leaving .nothing)) (machine.shared.deleteObj id) := .keep (by simp [here]) rfl
  apply sound.placed access sound.positive trivial (.inl rfl)
  · simp [here, Shared.deleteObj]
  · simp [here, Shared.deleteObj]
  · exact sound.lent
  · intro other
    by_cases same : other = id
    · subst same
      simp [here, Shared.unlisted, Shared.deleteObj, listed]
    · simp [here, Shared.unlisted, Shared.deleteObj, same]
  · intro other
    by_cases same : other = id
    · subst same
      simp [here, Shared.unmarked, Shared.deleteObj, flag, listed, unused]
    · simp [here, Shared.unmarked, Shared.deleteObj, same, Ne.symm same]
  · intro other
    by_cases same : other = id
    · subst same
      have entry := sound.entries other
      have issued := (entry.listed listed).1
      have handles := (entry.listed listed).2
      have future := entry.future
      constructor <;> simp_all [Shared.deleteObj]
    · apply (sound.entries other).congr <;> simp [Shared.deleteObj, same]
  · exact fun _ settled => settled (by simp [here])

theorem Sound.run {order : List Nat} {stage stage' : Stage} (sound : Sound machine registry)
    (here : machine.position t = some (call, stage))
    (goes : advance order call machine.shared stage = some (stage', shared)) :
    Follows machine registry t (some (call, stage')) shared := by
  cases advance_goes goes with
  | fetching => exact sound.fetching here
  | locking new free => exact sound.locking here free
  | inserting id => exact sound.inserting here
  | finding found => exact sound.finding here found
  | unused asks unused =>
      subst asks
      exact sound.copying_unused here unused
  | copying asks used =>
      subst asks
      exact sound.copying here used
  | scanning distinct whole => exact sound.scanning here distinct whole
  | swept => exact sound.swept here
  | sweeping flag => exact sound.sweeping here flag
  | unlocking result => exact sound.unlocking here
  | counting asks =>
      subst asks
      exact (sound.counting here).2
  | releasing asks =>
      subst asks
      exact (sound.releasing here).2
  | destroying => exact (sound.destroying_last here).2

end PackagedTask.Objects.Sharing
