import PackagedTask.Objects.Generations

namespace PackagedTask.Objects
open Streams Library Store

/-! `dump`: what is printed of a manager, against what is saved of it. `cout` is the text so far. -/

def indentation (indentLevel : Nat) : String := String.ofList (List.replicate (4 * indentLevel) ' ')

def dumpHead (className : String) (indentLevel : Nat) (classID : Int) (mInstanceId : Nat) : String :=
  className ++ " \x7b \n" ++
    indentation (indentLevel + 1) ++ "type: " ++ toString classID ++ "\n" ++
    indentation (indentLevel + 1) ++ "ID: " ++ toString mInstanceId ++ "\n"

def Component.dump (store : Store) (indentLevel mInstanceId : Nat) (mGameObj : GameObjectPtr)
    (cout : String) : Except Fault String :=
  let cout := cout ++ dumpHead "Component" indentLevel classComponent mInstanceId ++
    indentation (indentLevel + 1) ++ "mGameObj \x7b\n"
  match mGameObj with
  | .null => .ok (cout ++ "nullptr" ++ "\x7d\n" ++ indentation indentLevel ++ "\x7d")
  | .fileId _ => .error .undefined
  | .object ref =>
      match store.objects.lookup ref with
      | some go => .ok (cout ++ indentation (indentLevel + 2) ++ "Ptr object ID: " ++
          toString go.mInstanceId ++ "\n" ++ indentation (indentLevel + 1) ++ "\x7d\n" ++
          indentation indentLevel ++ "\x7d")
      | none => .error .undefined

def GameObject.dumpComponents (store : Store) (indentLevel : Nat) :
    List (Σ _ : Int, PObjHandle) → String → Except Fault String
  | [], cout => .ok cout
  | ⟨key, cmp⟩ :: rest, cout =>
      match store.targetId cmp with
      | .error fault => .error fault
      | .ok id => GameObject.dumpComponents store indentLevel rest
          (cout ++ indentation (indentLevel + 2) ++ "[type: " ++ toString key ++ ", ID: " ++
            toString id ++ "]\n")

def GameObject.dump (rt : Runtime) (store : Store) (ref : ObjectRef) (indentLevel mInstanceId : Nat)
    (mComponents : ComponentMap) (cout : String) : Except Fault String :=
  let cout := cout ++ dumpHead "GameObject" indentLevel classGameObject mInstanceId ++
    indentation (indentLevel + 1) ++ "std::unique_ptr<mComponents>" ++ "\x7b"
  if mComponents.entries.isEmpty then
    .ok (cout ++ "0\x7d" ++ "\n" ++ indentation indentLevel ++ "\x7d")
  else match GameObject.dumpComponents store indentLevel (rt.componentOrder ref mComponents)
      (cout ++ "\n") with
    | .error fault => .error fault
    | .ok cout => .ok (cout ++ indentation (indentLevel + 1) ++ "\x7d" ++ "\n" ++
        indentation indentLevel ++ "\x7d")

def dumpObject (rt : Runtime) (store : Store) (ref : ObjectRef) (object : Object) (cout : String) :
    Except Fault String :=
  match object.body with
  | .object => .ok cout
  | .component mGameObj => Component.dump store 0 object.mInstanceId mGameObj cout
  | .gameObject mComponents => GameObject.dump rt store ref 0 object.mInstanceId mComponents cout

def dumpEntries (rt : Runtime) (store : Store) :
    List (Σ _ : Nat, ObjEntry) → String → Except Fault String
  | [], cout => .ok cout
  | ⟨_, entry⟩ :: rest, cout =>
      match store.objects.lookup entry.unique with
      | none => .error .undefined
      | some object =>
          if object.is_del_it then dumpEntries rt store rest cout
          else match dumpObject rt store entry.unique object cout with
            | .error fault => .error fault
            | .ok cout => dumpEntries rt store rest (cout ++ "\n")

def dump (rt : Runtime) (store : Store) (cout : String) : Except Fault String :=
  dumpEntries rt store (rt.objectOrder store.mObjects) cout

/-! Both read the same of each object: its record, nothing of a plain `Object`, or something they
may not read. -/

namespace Store

def shownSlots (store : Store) : List (Σ _ : Int, PObjHandle) → Except Fault (List (Int × Nat))
  | [] => .ok []
  | ⟨key, cmp⟩ :: rest =>
      match store.targetId cmp with
      | .error fault => .error fault
      | .ok id => (store.shownSlots rest).map fun components => (key, id) :: components

def shown (rt : Runtime) (store : Store) (ref : ObjectRef) (object : Object) :
    Except Fault (Option Record) :=
  match object.body with
  | .object => .ok none
  | .component .null => .ok (some (.component object.mInstanceId none))
  | .component (.fileId _) => .error .undefined
  | .component (.object owner) =>
      match store.objects.lookup owner with
      | some go => .ok (some (.component object.mInstanceId (some go.mInstanceId)))
      | none => .error .undefined
  | .gameObject mComponents => (store.shownSlots (rt.componentOrder ref mComponents)).map
      fun components => some (.gameObject object.mInstanceId components)

def shownEntries (rt : Runtime) (store : Store) :
    List (Σ _ : Nat, ObjEntry) → Except Fault (List (Option Record))
  | [] => .ok []
  | ⟨_, entry⟩ :: rest =>
      match store.objects.lookup entry.unique with
      | none => .error .undefined
      | some object =>
          if object.is_del_it then store.shownEntries rt rest
          else match store.shown rt entry.unique object with
            | .error fault => .error fault
            | .ok record => (store.shownEntries rt rest).map (record :: ·)

end Store

def slotText (indentLevel : Nat) (slot : Int × Nat) : String :=
  indentation (indentLevel + 2) ++ "[type: " ++ toString slot.1 ++ ", ID: " ++ toString slot.2 ++ "]\n"

def Record.text (indentLevel : Nat) : Record → String
  | .component id owner =>
      dumpHead "Component" indentLevel classComponent id ++ indentation (indentLevel + 1) ++
        "mGameObj \x7b\n" ++
        (match owner with
        | none => "nullptr"
        | some owner => indentation (indentLevel + 2) ++ "Ptr object ID: " ++ toString owner ++ "\n" ++
            indentation (indentLevel + 1)) ++
        "\x7d\n" ++ indentation indentLevel ++ "\x7d"
  | .gameObject id components =>
      dumpHead "GameObject" indentLevel classGameObject id ++ indentation (indentLevel + 1) ++
        "std::unique_ptr<mComponents>" ++ "\x7b" ++
        (match components with
        | [] => "0"
        | _ :: _ => "\n" ++ String.join (components.map (slotText indentLevel)) ++
            indentation (indentLevel + 1)) ++
        "\x7d" ++ "\n" ++ indentation indentLevel ++ "\x7d"

def shownBytes (record : Option Record) : List UInt8 := (record.map Record.encode).getD []

def shownText (record : Option Record) : String := (record.map (Record.text 0)).getD "" ++ "\n"

variable {rt : Runtime} {store : Store}

theorem writeComponents_shown (slots : List (Σ _ : Int, PObjHandle)) (out : OutputMemoryStream) :
    GameObject.writeComponents store slots out = (store.shownSlots slots).map fun components =>
      out.write (components.flatMap fun entry => signedWord entry.1 ++ word entry.2) := by
  induction slots generalizing out with
  | nil => simp [GameObject.writeComponents, shownSlots, Except.map, OutputMemoryStream.write]
  | cons slot slots ih =>
      obtain ⟨key, cmp⟩ := slot
      rw [GameObject.writeComponents, shownSlots]
      cases store.targetId cmp with
      | error fault => rfl
      | ok id =>
          simp only [ih]
          cases store.shownSlots slots with
          | error fault => rfl
          | ok components =>
              simp [Except.map, writeInt32_eq, writeWord_eq, write_write]

theorem dumpComponents_shown (indentLevel : Nat) (slots : List (Σ _ : Int, PObjHandle))
    (cout : String) : GameObject.dumpComponents store indentLevel slots cout =
      (store.shownSlots slots).map fun components =>
        cout ++ String.join (components.map (slotText indentLevel)) := by
  induction slots generalizing cout with
  | nil => simp [GameObject.dumpComponents, shownSlots, Except.map]
  | cons slot slots ih =>
      obtain ⟨key, cmp⟩ := slot
      rw [GameObject.dumpComponents, shownSlots]
      cases store.targetId cmp with
      | error fault => rfl
      | ok id =>
          simp only [ih]
          cases store.shownSlots slots with
          | error fault => rfl
          | ok components => simp [Except.map, slotText, String.append_assoc]

theorem shownSlots_length {slots : List (Σ _ : Int, PObjHandle)} {components : List (Int × Nat)}
    (result : store.shownSlots slots = .ok components) : components.length = slots.length := by
  induction slots generalizing components with
  | nil =>
      cases result
      rfl
  | cons slot slots ih =>
      obtain ⟨key, cmp⟩ := slot
      rw [shownSlots] at result
      cases aimed : store.targetId cmp with
      | error fault =>
          rw [aimed] at result
          cases result
      | ok id =>
          rw [aimed] at result
          cases rest : store.shownSlots slots with
          | error fault =>
              simp only [rest] at result
              cases result
          | ok others =>
              simp only [rest] at result
              cases result
              simp [ih rest]

theorem writeObject_shown (rt : Runtime) (ref : ObjectRef) (object : Object)
    (out : OutputMemoryStream) : writeObject rt store ref object out =
      (store.shown rt ref object).map fun record => out.write (shownBytes record) := by
  obtain ⟨mInstanceId, is_del_it, body⟩ := object
  cases body with
  | object => simp [writeObject, shown, Except.map, shownBytes, OutputMemoryStream.write]
  | component mGameObj =>
      cases mGameObj with
      | null =>
          simp [writeObject, Component.write, shown, Except.map, shownBytes, writeInt32_eq,
            writeWord_eq, write_write, Record.encode, Record.classID, Record.id, Record.payload]
      | fileId id => rfl
      | object owner =>
          simp only [writeObject, Component.write, shown]
          cases store.objects.lookup owner with
          | none => rfl
          | some go =>
              simp [Except.map, shownBytes, writeInt32_eq, writeWord_eq, write_write, Record.encode,
                Record.classID, Record.id, Record.payload]
  | gameObject mComponents =>
      have count := (rt.componentOrder_perm ref mComponents).length_eq
      simp only [writeObject, GameObject.write, shown, writeComponents_shown]
      cases slots : store.shownSlots (rt.componentOrder ref mComponents) with
      | error fault =>
          split
          · rename_i empty
            rw [List.isEmpty_iff.mp empty, List.length_nil, List.length_eq_zero_iff] at count
            rw [count] at slots
            cases slots
          · rfl
      | ok components =>
          have length := shownSlots_length slots
          split
          · rename_i empty
            rw [List.isEmpty_iff.mp empty, List.length_nil] at count
            rw [count, List.length_eq_zero_iff] at length
            subst length
            simp only [Except.map, shownBytes, writeInt32_eq, writeWord_eq, write_write,
              Record.encode, Record.classID, Record.id, Record.payload, Option.map_some,
              Option.getD_some, List.flatMap_nil, List.append_nil, List.length_nil,
              List.append_assoc]
            rfl
          · simp [Except.map, shownBytes, writeInt32_eq, writeWord_eq, write_write, Record.encode,
              Record.classID, Record.id, Record.payload, length, count]

theorem dumpObject_shown (rt : Runtime) (ref : ObjectRef) (object : Object) (cout : String) :
    dumpObject rt store ref object cout = (store.shown rt ref object).map fun record =>
      cout ++ (record.map (Record.text 0)).getD "" := by
  obtain ⟨mInstanceId, is_del_it, body⟩ := object
  cases body with
  | object => simp [dumpObject, shown, Except.map]
  | component mGameObj =>
      cases mGameObj with
      | null => simp [dumpObject, Component.dump, shown, Except.map, Record.text, String.append_assoc]
      | fileId id => rfl
      | object owner =>
          simp only [dumpObject, Component.dump, shown]
          cases store.objects.lookup owner with
          | none => rfl
          | some go => simp [Except.map, Record.text, String.append_assoc]
  | gameObject mComponents =>
      have count := (rt.componentOrder_perm ref mComponents).length_eq
      simp only [dumpObject, GameObject.dump, shown, dumpComponents_shown]
      cases slots : store.shownSlots (rt.componentOrder ref mComponents) with
      | error fault =>
          split
          · rename_i empty
            rw [List.isEmpty_iff.mp empty, List.length_nil, List.length_eq_zero_iff] at count
            rw [count] at slots
            cases slots
          · rfl
      | ok components =>
          have length := shownSlots_length slots
          split
          · rename_i empty
            rw [List.isEmpty_iff.mp empty, List.length_nil] at count
            rw [count, List.length_eq_zero_iff] at length
            subst length
            simp [Except.map, Record.text, String.append_assoc]
          · rename_i filled
            cases components with
            | nil =>
                rw [List.length_nil, count, eq_comm, List.length_eq_zero_iff] at length
                exact absurd (List.isEmpty_iff.mpr length) filled
            | cons slot components =>
                simp only [Except.map, Record.text, Option.map_some, Option.getD_some,
                  String.append_assoc]

theorem serializeEntries_shown (rt : Runtime) (entries : List (Σ _ : Nat, ObjEntry))
    (out : OutputMemoryStream) : serializeEntries rt store entries out =
      (store.shownEntries rt entries).map fun records => out.write (records.flatMap shownBytes) := by
  induction entries generalizing out with
  | nil => simp [serializeEntries, shownEntries, Except.map, OutputMemoryStream.write]
  | cons entry entries ih =>
      obtain ⟨id, entry⟩ := entry
      rw [serializeEntries, shownEntries]
      cases store.objects.lookup entry.unique with
      | none => rfl
      | some object =>
          simp only [writeObject_shown]
          split
          · exact ih out
          · cases store.shown rt entry.unique object with
            | error fault => rfl
            | ok record =>
                simp only [Except.map, ih]
                cases store.shownEntries rt entries with
                | error fault => rfl
                | ok records => simp [write_write]

theorem dumpEntries_shown (rt : Runtime) (entries : List (Σ _ : Nat, ObjEntry)) (cout : String) :
    dumpEntries rt store entries cout = (store.shownEntries rt entries).map fun records =>
      cout ++ String.join (records.map shownText) := by
  induction entries generalizing cout with
  | nil => simp [dumpEntries, shownEntries, Except.map]
  | cons entry entries ih =>
      obtain ⟨id, entry⟩ := entry
      rw [dumpEntries, shownEntries]
      cases store.objects.lookup entry.unique with
      | none => rfl
      | some object =>
          simp only [dumpObject_shown]
          split
          · exact ih cout
          · cases store.shown rt entry.unique object with
            | error fault => rfl
            | ok record =>
                simp only [Except.map, ih]
                cases store.shownEntries rt entries with
                | error fault => rfl
                | ok records => simp [shownText, String.append_assoc]

theorem dump_serialize (rt : Runtime) (store : Store) : ∃ shown : Except Fault (List (Option Record)),
    serialize rt store {} = shown.map (fun records => ⟨records.flatMap shownBytes⟩) ∧
      dump rt store "" = shown.map fun records => String.join (records.map shownText) := by
  refine ⟨store.shownEntries rt (rt.objectOrder store.mObjects), ?_, ?_⟩
  · rw [serialize, serializeEntries_shown]
    simp [OutputMemoryStream.write]
  · rw [dump, dumpEntries_shown]
    simp

theorem shownSlots_writable {slots : List (Σ _ : Int, PObjHandle)}
    (writable : ∀ slot ∈ slots, ∃ ref, store.resolve slot.2 = some ref ∧ (store.idAt ref).isSome) :
    store.shownSlots slots = .ok (slots.map fun slot =>
      (slot.1, ((store.resolve slot.2).map store.writtenId).getD 0)) := by
  induction slots with
  | nil => rfl
  | cons slot slots ih =>
      obtain ⟨key, cmp⟩ := slot
      rw [List.forall_mem_cons] at writable
      obtain ⟨⟨ref, points, known⟩, rest⟩ := writable
      rw [shownSlots, targetId_of_resolve points known, ih rest]
      simp [Except.map, points]

theorem shown_writable (rt : Runtime) {ref : ObjectRef} {object : Object}
    (here : store.objects.lookup ref = some object) (writable : store.Writable object.body) :
    ∃ record, store.recordOf rt ref = some record ∧ store.shown rt ref object = .ok (some record) := by
  obtain ⟨mInstanceId, is_del_it, body⟩ := object
  cases body with
  | object => exact writable.elim
  | component mGameObj =>
      cases mGameObj with
      | null => exact ⟨_, by rw [Store.recordOf, here], rfl⟩
      | fileId id => exact writable.elim
      | object owner =>
          obtain ⟨id, carried⟩ := Option.isSome_iff_exists.mp writable
          obtain ⟨go, there, rfl⟩ := Option.map_eq_some_iff.mp carried
          refine ⟨_, by rw [Store.recordOf, here], ?_⟩
          simp only [shown, there, Store.writtenId, carried, Option.getD_some]
  | gameObject mComponents =>
      refine ⟨_, by rw [Store.recordOf, here], ?_⟩
      have slots := shownSlots_writable fun slot member =>
        writable slot.1 slot.2 ((mem_componentOrder rt ref).mp member)
      simp only [shown, slots, Except.map]

theorem shownEntries_writable (rt : Runtime) {entries : List (Σ _ : Nat, ObjEntry)}
    (writable : ∀ entry ∈ entries, ∃ object, store.objects.lookup entry.2.unique = some object ∧
      (object.is_del_it = false → store.Writable object.body)) :
    store.shownEntries rt entries = .ok (((entries.filter fun entry =>
      !store.isDeleted entry.2.unique).filterMap fun entry =>
        store.recordOf rt entry.2.unique).map some) := by
  induction entries with
  | nil => rfl
  | cons entry entries ih =>
      obtain ⟨id, entry⟩ := entry
      rw [List.forall_mem_cons] at writable
      obtain ⟨⟨object, here, able⟩, rest⟩ := writable
      have marked : store.isDeleted entry.unique = object.is_del_it := by
        rw [isDeleted, here]
        rfl
      rw [shownEntries, here]
      simp only
      cases deleted : object.is_del_it with
      | true => simp [marked, deleted, ih rest]
      | false =>
          obtain ⟨record, same, shows⟩ := shown_writable rt here (able deleted)
          rw [List.filter_cons_of_pos (by simp [marked, deleted]), List.filterMap_cons]
          simp [shows, same, ih rest, Except.map]

def listing (records : List Record) : String :=
  String.join (records.map fun record => record.text 0 ++ "\n")

theorem dump_eq (rt : Runtime) (valid : store.Valid) (writable : store.AllWritable) :
    dump rt store "" = .ok (String.join ((store.records rt).map fun record =>
      record.text 0 ++ "\n")) := by
  rw [dump, dumpEntries_shown, shownEntries_writable]
  · simp [Except.map, Store.records, Store.liveEntries, Function.comp_def, shownText]
  · rintro ⟨id, entry⟩ member
    have found := AList.mem_lookup_iff.mpr ((rt.objectOrder_perm store.mObjects).mem_iff.mp member)
    obtain ⟨object, here, -⟩ := Option.map_eq_some_iff.mp (valid.keyed id entry found).2.2
    exact ⟨object, here, writable id entry object found here⟩

/-- The record of the same object under other ids; the slots may come in another order. -/
def Record.Renames (f : Nat → Nat) : Record → Record → Prop
  | .component id owner, record => record = .component (f id) (owner.map f)
  | .gameObject id components, record => ∃ components', record = .gameObject (f id) components' ∧
      components'.Perm (components.map fun slot => (slot.1, f slot.2))

def Renamed (f : Nat → Nat) (before again : List Record) : Prop :=
  ∃ rearranged, again.Perm rearranged ∧ List.Forall₂ (Record.Renames f) before rearranged

def Store.renumber (rt : Runtime) (store : Store) (id : Nat) : Nat :=
  ((store.liveEntries rt).map Sigma.fst).idxOf id + 1

theorem renumber_at {i id : Nat} {entry : ObjEntry}
    (at_ : (store.liveEntries rt)[i]? = some ⟨id, entry⟩) : store.renumber rt id = i + 1 := by
  have there : ((store.liveEntries rt).map Sigma.fst)[i]? = some id := by
    rw [List.getElem?_map, at_, Option.map_some]
  obtain ⟨inside, rfl⟩ := List.getElem?_eq_some_iff.mp there
  rw [Store.renumber, (liveEntries_nodup rt store).idxOf_getElem]

theorem renumber_injOn (rt : Runtime) (store : Store) :
    Set.InjOn (store.renumber rt) store.liveIds := by
  intro id live id' live' same
  rw [← mem_liveIds rt] at live live'
  exact List.idxOf_inj live |>.mp (Nat.succ.inj same)

section Restored

variable {linked : Store}

theorem Restored.idAt_eq (restored : Restored rt store linked) {i : Nat}
    (inside : i < (store.liveEntries rt).length) : linked.writtenId i = i + 1 := by
  apply writtenId_of_idAt
  have found := (restored.entries (i + 1) ⟨i, i⟩).mpr
    ⟨i, by rwa [Store.fileObjects, List.length_map], rfl, rfl⟩
  exact (restored.sound.keyed _ _ found).2.2

theorem recordOf_body {ref : ObjectRef} {id : Nat} {body : Body}
    (here : store.bodyAt ref = some body) (carried : store.idAt ref = some id) :
    ∃ is_del_it, store.objects.lookup ref = some ⟨id, is_del_it, body⟩ := by
  obtain ⟨⟨mInstanceId, is_del_it, body'⟩, found, rfl⟩ := Option.map_eq_some_iff.mp here
  rw [idAt, found] at carried
  cases carried
  exact ⟨is_del_it, found⟩

def Store.slotId (store : Store) (ptr : PObjHandle) : Nat :=
  ((store.resolve ptr).map store.writtenId).getD 0

theorem Restored.slot_renamed (restored : Restored rt store linked) (sendable : store.Sendable)
    {mComponents linkedComponents : ComponentMap} {key : Int} {ptr : PObjHandle}
    (mirrored : store.Mirrored rt (.gameObject mComponents) (.gameObject linkedComponents))
    (filed : mComponents.lookup key = some ptr) : ∃ ptr', linkedComponents.lookup key = some ptr' ∧
      linked.slotId ptr' = store.renumber rt (store.slotId ptr) := by
  obtain ⟨_, same, slots, -⟩ := mirrored
  obtain rfl := Body.gameObject.inj same
  obtain ⟨i, id, entry, at_, points, final⟩ := slots key ptr filed
  have inside := (List.getElem?_eq_some_iff.mp at_).1
  have live := mem_liveEntries.mp (List.mem_of_getElem? at_)
  refine ⟨.shared i, final, ?_⟩
  rw [Store.slotId, restored.alive i (by rwa [Store.fileObjects, List.length_map]), Option.map_some,
    Option.getD_some, restored.idAt_eq inside, Store.slotId, points, Option.map_some,
    Option.getD_some, writtenId_of_found sendable live.1, renumber_at at_]

theorem mem_slots (rt : Runtime) (ref : ObjectRef) (mComponents : ComponentMap)
    (value : PObjHandle → Nat) {key : Int} {id : Nat} :
    (key, id) ∈ (rt.componentOrder ref mComponents).map (fun slot => (slot.1, value slot.2)) ↔
      ∃ ptr, mComponents.lookup key = some ptr ∧ value ptr = id := by
  rw [List.mem_map]
  constructor
  · rintro ⟨⟨_, ptr⟩, member, same⟩
    cases same
    exact ⟨ptr, (mem_componentOrder rt ref).mp member, rfl⟩
  · rintro ⟨ptr, filed, rfl⟩
    exact ⟨⟨key, ptr⟩, (mem_componentOrder rt ref).mpr filed, rfl⟩

theorem slots_nodup (rt : Runtime) (ref : ObjectRef) (mComponents : ComponentMap)
    (value : PObjHandle → Nat) :
    ((rt.componentOrder ref mComponents).map fun slot => (slot.1, value slot.2)).Nodup := by
  apply List.Nodup.of_map Prod.fst
  rw [List.map_map]
  exact componentOrder_keys_nodup rt ref mComponents

theorem Restored.slots_renamed (restored : Restored rt store linked) (sendable : store.Sendable)
    (rt' : Runtime) {ref ref' : ObjectRef} {mComponents linkedComponents : ComponentMap}
    (mirrored : store.Mirrored rt (.gameObject mComponents) (.gameObject linkedComponents)) :
    ((rt'.componentOrder ref' linkedComponents).map fun slot => (slot.1, linked.slotId slot.2)).Perm
      ((rt.componentOrder ref mComponents).map fun slot =>
        (slot.1, store.renumber rt (store.slotId slot.2))) := by
  rw [List.perm_ext_iff_of_nodup (slots_nodup rt' ref' linkedComponents linked.slotId)
    (slots_nodup rt ref mComponents fun ptr => store.renumber rt (store.slotId ptr))]
  rintro ⟨key, id⟩
  rw [mem_slots rt' ref' linkedComponents linked.slotId,
    mem_slots rt ref mComponents fun ptr => store.renumber rt (store.slotId ptr)]
  constructor
  · rintro ⟨ptr', final, rfl⟩
    obtain ⟨_, same, filed, -⟩ := mirrored.filed
    obtain rfl := Body.gameObject.inj same
    have there : (mComponents.lookup key).isSome := by
      rw [← filed, final]
      rfl
    obtain ⟨ptr, there⟩ := Option.isSome_iff_exists.mp there
    obtain ⟨ptr'', final', renamed⟩ := restored.slot_renamed sendable mirrored there
    obtain rfl := Option.some.inj (final.symm.trans final')
    exact ⟨ptr, there, renamed.symm⟩
  · rintro ⟨ptr, filed, rfl⟩
    exact restored.slot_renamed sendable mirrored filed

theorem Restored.record_renamed (restored : Restored rt store linked) (sendable : store.Sendable)
    (owners : store.OwnersLive) (rt' : Runtime) {i id : Nat} {entry : ObjEntry}
    (at_ : (store.liveEntries rt)[i]? = some ⟨id, entry⟩) : ∃ record record',
      store.recordOf rt entry.unique = some record ∧ linked.recordOf rt' i = some record' ∧
        record.Renames (store.renumber rt) record' := by
  have inside := (List.getElem?_eq_some_iff.mp at_).1
  have live := mem_liveEntries.mp (List.mem_of_getElem? at_)
  obtain ⟨source, here, known⟩ := sendable.valid.object_of_live live
  obtain ⟨body, there, mirrored⟩ := restored.mirrored sendable owners at_ known
  have found := (restored.entries (i + 1) ⟨i, i⟩).mpr
    ⟨i, by rwa [Store.fileObjects, List.length_map], rfl, rfl⟩
  obtain ⟨is_del_it, here'⟩ := recordOf_body there (restored.sound.keyed _ _ found).2.2
  cases source with
  | object => exact mirrored.elim
  | component mGameObj =>
      obtain ⟨j, id', entry', at', rfl, rfl⟩ := mirrored
      have live' := mem_liveEntries.mp (List.mem_of_getElem? at')
      refine ⟨_, _, by rw [Store.recordOf, here], by rw [Store.recordOf, here'], ?_⟩
      rw [writtenId_of_found sendable live'.1, Record.Renames, Option.map_some, renumber_at at_,
        renumber_at at', restored.idAt_eq (List.getElem?_eq_some_iff.mp at').1]
  | gameObject mComponents =>
      obtain ⟨linkedComponents, rfl, -⟩ := mirrored.filed
      refine ⟨_, _, by rw [Store.recordOf, here], by rw [Store.recordOf, here'], ?_⟩
      refine ⟨_, by rw [renumber_at at_], ?_⟩
      rw [List.map_map]
      exact restored.slots_renamed sendable rt' mirrored

theorem forall₂_range {α β γ : Type} {related : β → γ → Prop} {entries : List α}
    {first : α → Option β} {second : Nat → Option γ}
    (each : ∀ i entry, entries[i]? = some entry → ∃ b c, first entry = some b ∧
      second i = some c ∧ related b c) :
    List.Forall₂ related (entries.filterMap first)
      ((List.range entries.length).filterMap second) := by
  induction entries using List.reverseRecOn with
  | nil => exact .nil
  | append_singleton entries entry ih =>
      rw [List.length_append, List.length_singleton, List.range_succ, List.filterMap_append,
        List.filterMap_append]
      apply List.rel_append
      · apply ih
        intro i other at_
        apply each
        rw [List.getElem?_append_left (List.getElem?_eq_some_iff.mp at_).1, at_]
      · obtain ⟨b, c, same, same', holds⟩ := each entries.length entry (by simp)
        simpa [same, same'] using holds

theorem Restored.renamed (restored : Restored rt store linked) (sendable : store.Sendable)
    (owners : store.OwnersLive) (rt' : Runtime) :
    Renamed (store.renumber rt) (store.records rt) (linked.records rt') := by
  refine ⟨(List.range (store.liveEntries rt).length).filterMap (linked.recordOf rt'), ?_, ?_⟩
  · rw [Store.records]
    refine ((restored.liveEntries_perm rt').filterMap _).trans ?_
    rw [List.filterMap_map]
    exact .refl _
  · apply forall₂_range
    rintro i ⟨id, entry⟩ at_
    exact restored.record_renamed sendable owners rt' at_

end Restored

/-- The program of a save, a load and a dump before and after: the second text is the first with
the ids renamed and the objects in another order. -/
theorem dump_reload {past : List (Store × Edit)} {last : Store} {rt rt' : Runtime}
    {out : OutputMemoryStream} {stream : InputMemoryStream} {after : Loader}
    (run : Run Edits {} past last) (written : serialize rt last {} = .ok out)
    (small : out.buffer.length < 2 ^ 31) (carries : Carries stream out.buffer)
    (read : Deserializes rt' {} [] stream (.ok ()) after) (rt'' : Runtime) :
    ∃ f before again, Set.InjOn f last.liveIds ∧ Renamed f before again ∧
      out.buffer = before.flatMap Record.encode ∧
      dump rt last "" = .ok (listing before) ∧ dump rt'' after.store "" = .ok (listing again) := by
  have authored := authored_of_run run
  obtain rfl := Except.ok.inj ((authored.written rt).symm.trans written)
  obtain ⟨owners, restored⟩ := authored.restored small carries read
  have authored' := authored.reload small carries read
  exact ⟨last.renumber rt, last.records rt, after.store.records rt'', renumber_injOn rt last,
    restored.renamed authored.sendable owners rt'', rfl,
    dump_eq rt authored.sound.toValid authored.sendable.allWritable,
    dump_eq rt'' authored'.sound.toValid authored'.sendable.allWritable⟩

theorem adopted_dump : ∃ (after : Store) (f : Nat → Nat) (before again : List Record),
    Renamed f before again ∧ dump plainRuntime adopted "" = .ok (listing before) ∧
      dump plainRuntime after "" = .ok (listing again) := by
  have authored := authored_of_run adopted_edits
  have owners := (marked_closed none (by simp)).ownersLive
  have written := authored.written plainRuntime
  have small : ((adopted.records plainRuntime).flatMap Record.encode).length < 2 ^ 31 := by decide
  obtain ⟨after, read⟩ := (@Authored.accepted_iff plainRuntime adopted plainRuntime _ authored small
    (streamOf_carries _)).mpr owners
  obtain ⟨f, before, again, -, renamed, -, first, second⟩ :=
    dump_reload adopted_edits written small (streamOf_carries _) read plainRuntime
  exact ⟨after.store, f, before, again, renamed, first, second⟩

end PackagedTask.Objects
