import PackagedTask.Objects.Graph
import PackagedTask.Objects.Wire

namespace PackagedTask.Objects
open Streams Library Store

/-! The bytes of `serialize`: one record for each live object. -/

def Store.writtenId (store : Store) (ref : ObjectRef) : Nat := (store.idAt ref).getD 0

def Store.recordOf (rt : Runtime) (store : Store) (ref : ObjectRef) : Option Record :=
  match store.objects.lookup ref with
  | some ⟨mInstanceId, _, .component (.object owner)⟩ =>
      some (.component mInstanceId (some (store.writtenId owner)))
  | some ⟨mInstanceId, _, .component _⟩ => some (.component mInstanceId none)
  | some ⟨mInstanceId, _, .gameObject mComponents⟩ =>
      some (.gameObject mInstanceId ((rt.componentOrder ref mComponents).map fun slot =>
        (slot.1, ((store.resolve slot.2).map store.writtenId).getD 0)))
  | _ => none

def Store.Writable (store : Store) : Body → Prop
  | .object => False
  | .component .null => True
  | .component (.fileId _) => False
  | .component (.object ref) => (store.idAt ref).isSome
  | .gameObject mComponents => ∀ key ptr, mComponents.lookup key = some ptr →
      ∃ ref, store.resolve ptr = some ref ∧ (store.idAt ref).isSome

variable {rt : Runtime} {store : Store}

theorem write_write (out : OutputMemoryStream) (first second : List UInt8) :
    (out.write first).write second = out.write (first ++ second) := by
  simp [OutputMemoryStream.write]

theorem writeWord_eq (out : OutputMemoryStream) (value : Nat) :
    out.writeWord 4 value = out.write (word value) := rfl

theorem writeInt32_eq (out : OutputMemoryStream) (value : Int) :
    out.writeInt32 value = out.write (signedWord value) := rfl

theorem targetId_of_resolve {ptr : PObjHandle} {ref : ObjectRef}
    (points : store.resolve ptr = some ref) (known : (store.idAt ref).isSome) :
    store.targetId ptr = .ok (store.writtenId ref) := by
  obtain ⟨handle, m_link_key, rfl, found⟩ := resolve_eq_some_iff.mp points
  obtain ⟨id, carried⟩ := Option.isSome_iff_exists.mp known
  obtain ⟨object, here, rfl⟩ := Option.map_eq_some_iff.mp carried
  rw [Store.targetId, found]
  simp only [here, Store.writtenId, carried, Option.getD_some]

theorem writeComponents_eq {slots : List (Σ _ : Int, PObjHandle)} (out : OutputMemoryStream)
    (writable : ∀ slot ∈ slots, ∃ ref, store.resolve slot.2 = some ref ∧ (store.idAt ref).isSome) :
    GameObject.writeComponents store slots out = .ok (out.write
      ((slots.map fun slot => (slot.1, ((store.resolve slot.2).map store.writtenId).getD 0)).flatMap
        fun entry => signedWord entry.1 ++ word entry.2)) := by
  induction slots generalizing out with
  | nil => simp [GameObject.writeComponents, OutputMemoryStream.write]
  | cons slot slots ih =>
      obtain ⟨key, cmp⟩ := slot
      obtain ⟨ref, points, known⟩ := writable ⟨key, cmp⟩ List.mem_cons_self
      rw [GameObject.writeComponents, targetId_of_resolve points known]
      simp only
      rw [ih _ fun other member => writable other (List.mem_cons_of_mem _ member)]
      simp only [List.map_cons, List.flatMap_cons, points, Option.map_some, Option.getD_some,
        writeInt32_eq, writeWord_eq, write_write]

theorem writeObject_eq (rt : Runtime) {ref : ObjectRef} {object : Object} (out : OutputMemoryStream)
    (here : store.objects.lookup ref = some object) (writable : store.Writable object.body) :
    ∃ record, store.recordOf rt ref = some record ∧
      writeObject rt store ref object out = .ok (out.write record.encode) := by
  obtain ⟨mInstanceId, is_del_it, body⟩ := object
  cases body with
  | object => exact writable.elim
  | component mGameObj =>
      cases mGameObj with
      | null =>
          refine ⟨.component mInstanceId none, by simp [Store.recordOf, here], ?_⟩
          simp only [writeObject, Component.write, writeInt32_eq, writeWord_eq, write_write,
            Record.encode, Record.classID, Record.id, Record.payload, List.append_assoc]
      | fileId id => exact writable.elim
      | object owner =>
          refine ⟨.component mInstanceId (some (store.writtenId owner)),
            by simp [Store.recordOf, here], ?_⟩
          obtain ⟨id, carried⟩ := Option.isSome_iff_exists.mp writable
          obtain ⟨go, there, rfl⟩ := Option.map_eq_some_iff.mp carried
          simp only [writeObject, Component.write, there, writeInt32_eq, writeWord_eq, write_write,
            Record.encode, Record.classID, Record.id, Record.payload, List.append_assoc,
            Store.writtenId, carried, Option.getD_some]
  | gameObject mComponents =>
      refine ⟨_, by rw [Store.recordOf, here], ?_⟩
      have slots : ∀ slot ∈ rt.componentOrder ref mComponents,
          ∃ target, store.resolve slot.2 = some target ∧ (store.idAt target).isSome :=
        fun slot member => writable slot.1 slot.2 ((mem_componentOrder rt ref).mp member)
      have count : (rt.componentOrder ref mComponents).length = mComponents.entries.length :=
        (rt.componentOrder_perm ref mComponents).length_eq
      simp only [writeObject, GameObject.write]
      split
      · rename_i empty
        have none_ : mComponents.entries = [] := List.isEmpty_iff.mp empty
        rw [none_, List.length_nil] at count
        rw [List.length_eq_zero_iff.mp count]
        simp only [List.map_nil, writeInt32_eq, writeWord_eq, write_write, Record.encode,
          Record.classID, Record.id, Record.payload, List.append_assoc, List.flatMap_nil,
          List.append_nil, List.length_nil]
        rfl
      · rw [writeComponents_eq _ slots]
        simp only [writeInt32_eq, writeWord_eq, write_write, Record.encode, Record.classID,
          Record.id, Record.payload, List.append_assoc, List.length_map, count]

def Store.liveEntries (rt : Runtime) (store : Store) : List (Σ _ : Nat, ObjEntry) :=
  (rt.objectOrder store.mObjects).filter fun entry => !store.isDeleted entry.2.unique

def Store.records (rt : Runtime) (store : Store) : List Record :=
  (store.liveEntries rt).filterMap fun entry => store.recordOf rt entry.2.unique

theorem serializeEntries_eq {entries : List (Σ _ : Nat, ObjEntry)} (out : OutputMemoryStream)
    (writable : ∀ entry ∈ entries, ∃ object, store.objects.lookup entry.2.unique = some object ∧
      (object.is_del_it = false → store.Writable object.body)) :
    serializeEntries rt store entries out = .ok (out.write
      (((entries.filter fun entry => !store.isDeleted entry.2.unique).filterMap fun entry =>
        store.recordOf rt entry.2.unique).flatMap Record.encode)) := by
  induction entries generalizing out with
  | nil => simp [serializeEntries, OutputMemoryStream.write]
  | cons entry entries ih =>
      obtain ⟨id, entry⟩ := entry
      obtain ⟨object, here, able⟩ := writable ⟨id, entry⟩ List.mem_cons_self
      have rest := fun out => ih out fun e member => writable e (List.mem_cons_of_mem _ member)
      have marked : store.isDeleted entry.unique = object.is_del_it := by
        rw [isDeleted, here]
        rfl
      rw [serializeEntries, here]
      simp only
      cases deleted : object.is_del_it with
      | true => simp [marked, deleted, rest]
      | false =>
          obtain ⟨record, same, written⟩ := writeObject_eq rt out here (able deleted)
          simp only [Bool.false_eq_true, ↓reduceIte, written, rest, write_write]
          rw [List.filter_cons_of_pos (by simp [marked, deleted]), List.filterMap_cons]
          simp only [same, List.flatMap_cons]

def Store.AllWritable (store : Store) : Prop :=
  ∀ id entry object, store.mObjects.lookup id = some entry →
    store.objects.lookup entry.unique = some object → object.is_del_it = false →
      store.Writable object.body

theorem serialize_eq (rt : Runtime) (valid : store.Valid) (writable : store.AllWritable) :
    serialize rt store {} = .ok ⟨(store.records rt).flatMap Record.encode⟩ := by
  rw [serialize, serializeEntries_eq]
  · simp [OutputMemoryStream.write, Store.records, Store.liveEntries]
  · rintro ⟨id, entry⟩ member
    have found := AList.mem_lookup_iff.mpr ((rt.objectOrder_perm store.mObjects).mem_iff.mp member)
    obtain ⟨object, here, -⟩ := Option.map_eq_some_iff.mp (valid.keyed id entry found).2.2
    exact ⟨object, here, writable id entry object found here⟩

end PackagedTask.Objects
