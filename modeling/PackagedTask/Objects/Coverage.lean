import PackagedTask.Objects.Failure
import PackagedTask.Objects.Managers

namespace PackagedTask.Objects
open Streams Library Library.StateError Store

/-! The functions that change a manager in more than one statement, read as runs. -/

namespace Program

variable {program : Program} {store after : Store} {α β : Type}

/-- Whether it returns or throws. -/
def Takes (program : Program) (x : Managed α) (store : Store) : Prop :=
  (∀ a after, x store = .ok a after → program.Leads store after) ∧
    ∀ fault after, x store = .error fault after → program.Leads store after

theorem Takes.of_keeps {x : Managed α} (keeps : Keeps Eq x) (store : Store) :
    program.Takes x store := by
  constructor
  · intro a after ran
    exact (keeps store).1 a after ran ▸ .refl store
  · intro fault after ran
    exact (keeps store).2 fault after ran ▸ .refl store

theorem Takes.modify {change : Store → Store} (leads : program.Leads store (change store)) :
    program.Takes (modify change) store := by
  constructor
  · intro a after ran
    cases ran
    exact leads
  · intro fault after ran
    cases ran

theorem Takes.bind {x : Managed α} {f : α → Managed β} (first : program.Takes x store)
    (rest : ∀ a after, x store = .ok a after → program.Takes (f a) after) :
    program.Takes (x >>= f) store := by
  constructor
  · intro b last ran
    obtain ⟨a, after, ran, ran'⟩ := bind_ok_iff.mp ran
    exact (first.1 a after ran).trans ((rest a after ran).1 b last ran')
  · intro fault last ran
    rcases bind_error_iff.mp ran with stopped | ⟨a, after, ran, stopped⟩
    · exact first.2 fault last stopped
    · exact (first.1 a after ran).trans ((rest a after ran).2 fault last stopped)

theorem throw_takes (fault : Fault) (store : Store) :
    program.Takes (throw fault : Managed α) store := .of_keeps (.throw (fun _ => rfl) fault) store

variable {rt : Runtime} {id_remap : IdRemap}

theorem gameObject_link_takes {ref : ObjectRef} {slots : List (Σ _ : Int, PObjHandle)}
    {mComponents : ComponentMap} (here : store.bodyAt ref = some (.gameObject mComponents)) :
    program.Takes (GameObject.link id_remap ref slots) store := by
  induction slots generalizing store mComponents with
  | nil => exact .of_keeps (.pure (fun _ => rfl) _) store
  | cons slot slots ih =>
      obtain ⟨key, cmp⟩ := slot
      apply Takes.bind (.of_keeps (linkKey_keeps cmp) store)
      intro c_inst linking keyed
      obtain rfl := (linkKey_keeps cmp store).1 c_inst linking keyed
      cases id_remap.lookup c_inst with
      | none => exact throw_takes notLinked store
      | some id =>
          apply Takes.bind (.of_keeps (getObject_keeps id) store)
          intro ptr linking got
          have assigned : program.Leads store (linking.setComponent ref key ptr) :=
            .of_step (.linkComponent here got)
          obtain rfl := (getObject_keeps id store).1 ptr linking got
          apply Takes.bind (.modify assigned)
          intro _ next ran
          cases ran
          exact ih (setComponent_relinked here key ptr).2

theorem component_link_takes {ref : ObjectRef} {mGameObj : GameObjectPtr}
    (sound : Sound true [] store) (here : store.bodyAt ref = some (.component mGameObj)) :
    program.Takes (Component.link rt id_remap ref mGameObj) store := by
  unfold Component.link
  cases id_remap.lookup (rt.low32 mGameObj) with
  | none => exact throw_takes notLinked store
  | some id =>
      apply Takes.bind (.of_keeps (getObjectPtr_keeps id) store)
      intro go linking got
      obtain rfl := (getObjectPtr_keeps id store).1 go linking got
      apply Takes.modify
      apply Leads.of_step
      refine .setGameObject here ?_
      rw [getObjectPtr, bind_of_ok (get_apply store)] at got
      cases found : store.mObjects.lookup id with
      | none =>
          rw [found] at got
          cases got
      | some entry =>
          rw [found] at got
          cases got
          have carried := congrArg Option.isSome (sound.keyed id entry found).2.2
          simpa [idAt, bodyAt] using carried

theorem linkObject_takes (sound : Sound true [] store) (ref : ObjectRef) :
    program.Takes (linkObject rt id_remap ref) store := by
  apply Takes.bind (.of_keeps (.get fun _ => rfl) store)
  intro current linking got
  cases got
  cases here : store.objects.lookup ref with
  | none => exact throw_takes .undefined store
  | some object =>
      have known : store.bodyAt ref = some object.body := by rw [bodyAt, here, Option.map_some]
      simp only
      cases kind : object.body with
      | object => exact .of_keeps (.pure (fun _ => rfl) _) store
      | component mGameObj => exact component_link_takes sound (known.trans (congrArg some kind))
      | gameObject mComponents => exact gameObject_link_takes (known.trans (congrArg some kind))

theorem linkAll_takes (sound : Sound true [] store) (entries : List (Σ _ : Nat, ObjEntry)) :
    program.Takes (linkAll rt id_remap entries) store := by
  induction entries generalizing store with
  | nil => exact .of_keeps (.pure (fun _ => rfl) _) store
  | cons entry entries ih =>
      have first : program.Takes (linkObject rt id_remap entry.2.unique) store :=
        linkObject_takes sound _
      exact first.bind fun _ linked ran => ih ((first.1 _ linked ran).sound sound)

theorem dropHandles_leads (objects : List HandleRef) (store : Store) :
    program.Leads store (objects.foldl Store.dropHandle store) := by
  induction objects generalizing store with
  | nil => exact .refl store
  | cons handle objects ih => exact (Leads.of_step (.drop handle)).trans (ih _)

theorem nextObject_unmarked {stream next : InputMemoryStream} {obj : Object}
    (result : nextObject stream = .ok obj next) : obj.is_del_it = false := by
  obtain ⟨rtti, -, result⟩ := nextObject_ok result
  cases kind : rtti.factory with
  | object =>
      rw [kind, readObject, pure_apply] at result
      cases result
      rfl
  | component mGameObj =>
      rw [kind, readObject] at result
      obtain ⟨inst_id, id, rfl⟩ := component_read_ok result
      rfl
  | gameObject mComponents =>
      rw [kind, readObject] at result
      obtain ⟨inst_id, mComponents, rfl, -⟩ := gameObject_read_ok result
      rfl

theorem nextObject_registrable {stream next : InputMemoryStream} {obj : Object} (store : Store)
    (result : nextObject stream = .ok obj next) : Registrable store obj where
  unmarked := nextObject_unmarked result
  shares := fun handle owns => absurd owns ((nextObject_unlinked result).not_shared handle)
  owner := by
    intro ref same
    have unlinked := nextObject_unlinked result
    rw [same] at unlinked
    obtain ⟨id, cast⟩ := unlinked
    unfold GameObjectPtr.ofFileId at cast
    split at cast <;> cases cast

/-- The objects of a stream get ids that there are, and memory of the class that is written there. -/
structure Loadable (program : Program) (store : Store) (objs : List Object) : Prop where
  room : store.mNextAvailableID + objs.length < 2 ^ 32
  fits : ∀ i obj, objs[i]? = some obj → program.Fits (store.nextObject + i) obj.body

theorem registerAll_leads {loader : Loader} {stream last : InputMemoryStream} {objs : List Object}
    (sound : Sound true [] loader.store) (decoded : Decodes stream objs last)
    (loadable : program.Loadable loader.store objs) :
    program.Leads loader.store (loader.registerAll objs).store := by
  induction decoded generalizing loader with
  | nil => exact .refl _
  | @cons stream next last obj objs remaining read others ih =>
      obtain ⟨room, fits⟩ := loadable
      rw [List.length_cons] at room
      have first : program.Leads loader.store (loader.register obj).store :=
        .of_step (.registerObj (by omega) (nextObject_registrable _ read) (fits 0 obj rfl))
      have rest : program.Loadable (loader.register obj).store objs := by
        have counter : (loader.register obj).store.mNextAvailableID =
            loader.store.mNextAvailableID + 1 := by
          rw [Loader.register, sound.toValid.registerObj_eq]
          exact Nat.mod_eq_of_lt (by omega)
        refine ⟨by omega, fun i obj' there => ?_⟩
        have shifted := fits (i + 1) obj' there
        rwa [Loader.register, (registerObj_counters _ _).1, Nat.add_right_comm, Nat.add_assoc]
      exact first.trans (ih (first.sound sound) rest)

theorem deserializes_leads {objects : List HandleRef} {stream : InputMemoryStream}
    {outcome : Except Fault Unit} {loader : Loader} (sound : Sound true [] store)
    (loads : Deserializes rt store objects stream outcome loader)
    (loadable : ∀ objs last, Decodes stream objs last → program.Loadable store objs) :
    program.Leads store loader.store := by
  obtain ⟨objs, last, decoded, ended⟩ := deserializes_iff.mp loads
  have frame := start_frame store objects stream
  have start : program.Leads store (Loader.start store objects stream).store :=
    dropHandles_leads objects store
  have able : program.Loadable (Loader.start store objects stream).store objs := by
    obtain ⟨room, fits⟩ := loadable objs last decoded
    exact ⟨frame.mNextAvailableID.symm ▸ room, frame.nextObject.symm ▸ fits⟩
  have registered := registerAll_leads (start.sound sound) decoded able
  have before := start.trans registered
  rcases ended with ⟨-, linked, rfl, ran⟩ | ⟨-, fault, stopped, -, -, rfl⟩
  · have links := @linkAll_takes program _ rt
      ((Loader.start store objects stream).registerAll objs).istance_id_remap (before.sound sound)
      (rt.objectOrder ((Loader.start store objects stream).registerAll objs).store.mObjects)
    cases outcome with
    | ok value => exact before.trans (links.1 _ _ ran)
    | error fault => exact before.trans (links.2 _ _ ran)
  · exact before

theorem setComponent_none {ref : ObjectRef} (other : ∀ mComponents,
    store.bodyAt ref ≠ some (.gameObject mComponents)) (key : Int) (ptr : PObjHandle) :
    store.setComponent ref key ptr = store := by
  unfold setComponent
  split
  · rename_i mInstanceId is_del_it mComponents found
    exact absurd (by rw [bodyAt, found, Option.map_some]) (other mComponents)
  · rfl

theorem addComponent_leads {table : CmpMsgsTable} {effect : Call → Store → Store} {go : ObjectRef}
    {com : HandleRef} {calls : List Call} (conforms : program.Conforms ⟨true, store⟩)
    (present : (store.bodyAt go).isSome) (held : com ∈ store.held)
    (leads : ∀ call before, program.Leads store before → program.Leads before (effect call before))
    (keeps : ∀ call before, com ∈ before.held → com ∈ (effect call before).held)
    (result : program.addComponent rt table effect store go (.shared com) = .ok (after, calls)) :
    program.Leads store after := by
  obtain ⟨cmp_ptr, sent, cast, ran, rfl⟩ := addComponent_ok result
  obtain ⟨points, there, kind⟩ := dynamicCast_some cast
  obtain ⟨body, here⟩ := Option.isSome_iff_exists.mp there
  obtain ⟨mGameObj, rfl⟩ := (conforms.fits cmp_ptr body here).component.mpr kind
  have owned : program.Leads store (store.setGameObject cmp_ptr (.object go)) :=
    .of_step (.setGameObject here present)
  have still : com ∈ (store.setGameObject cmp_ptr (.object go)).held :=
    (setGameObject_relinked here (.object go)).1.sameHeld ▸ held
  obtain ⟨called, argument⟩ := @componentSendMessage_keeps program _ rt table effect
    (fun reached => program.Leads store reached ∧ com ∈ reached.held) sent calls
    (fun call before ⟨reached, kept⟩ => ⟨reached.trans (leads call before reached), keeps call before kept⟩)
    cmp_ptr msgDidAddComponent ⟨owned, still⟩ ran
  by_cases lists : ∃ mComponents, sent.bodyAt go = some (.gameObject mComponents)
  · obtain ⟨mComponents, owner⟩ := lists
    apply called.trans
    apply Leads.of_step
    refine .setComponent owner ?_ kind
    rw [(called.follows conforms.sound).resolve conforms.sound.toValid
      (called.sound conforms.sound).toValid (isHeld_iff.mpr (.inl held))
      (isHeld_iff.mpr (.inl argument))]
    exact points
  · rw [setComponent_none (not_exists.mp lists)]
    exact called

end Program
end PackagedTask.Objects
