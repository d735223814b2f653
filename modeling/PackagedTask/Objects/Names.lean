import PackagedTask.Objects.Subtyping

namespace PackagedTask.Objects

/-! The lookups between the ids and the names of the classes. -/

/-- The loop over the unordered map, in the order that the map gives. -/
def stringToClassID : List (Σ _ : Int, RTTI) → String → Int
  | [], _ => -1
  | entry :: order, classString =>
      if entry.2.className = classString then entry.1 else stringToClassID order classString

def classIDToString (registry : Registry) (classID : Int) : String :=
  match registry.lookup classID with
  | some rtti => rtti.className
  | none => ""

namespace Hierarchy
variable {hierarchy : Hierarchy} {order : List (Σ _ : Int, RTTI)}

def names (hierarchy : Hierarchy) : List String := hierarchy.classes.map ClassDecl.inName

/-- What `StringToClassID` finds is a class of that name. -/
structure FindsNames (hierarchy : Hierarchy) (order : List (Σ _ : Int, RTTI)) : Prop where
  unknown : ∀ classString, stringToClassID order classString = -1 ↔ classString ∉ hierarchy.names
  known : ∀ classString ∈ hierarchy.names, ∃ decl ∈ hierarchy.classes, decl.inName = classString ∧
    stringToClassID order classString = decl.inClassID
  restored : ∀ classString ∈ hierarchy.names,
    classIDToString hierarchy.registry (stringToClassID order classString) = classString

def Undoes (hierarchy : Hierarchy) (order : List (Σ _ : Int, RTTI)) : Prop :=
  ∀ classID ∈ hierarchy.classes.map ClassDecl.inClassID,
    stringToClassID order (classIDToString hierarchy.registry classID) = classID

theorem mem_entries {classID : Int} {rtti : RTTI} : ⟨classID, rtti⟩ ∈ hierarchy.registry.entries ↔
    ∃ decl ∈ hierarchy.classes,
      decl.inClassID = classID ∧ ⟨decl.inBaseClass, decl.inName, decl.inFunc⟩ = rtti := by
  rw [← AList.mem_lookup_iff, Option.mem_def]
  exact registerAll_lookup hierarchy.distinct

theorem classIDToString_declared {decl : ClassDecl} (declared : decl ∈ hierarchy.classes) :
    classIDToString hierarchy.registry decl.inClassID = decl.inName := by
  have found : hierarchy.registry.lookup decl.inClassID =
      some ⟨decl.inBaseClass, decl.inName, decl.inFunc⟩ :=
    (registerAll_lookup hierarchy.distinct).mpr ⟨decl, declared, rfl, rfl⟩
  rw [classIDToString, found]

theorem stringToClassID_cases (order : List (Σ _ : Int, RTTI)) (classString : String) :
    (stringToClassID order classString = -1 ∧ ∀ entry ∈ order, entry.2.className ≠ classString) ∨
      ∃ entry ∈ order, entry.2.className = classString ∧
        stringToClassID order classString = entry.1 := by
  induction order with
  | nil => simp [stringToClassID]
  | cons entry order ih =>
      rw [stringToClassID]
      by_cases named : entry.2.className = classString
      · rw [if_pos named]
        exact .inr ⟨entry, List.mem_cons_self, named, rfl⟩
      · rw [if_neg named]
        rcases ih with ⟨missed, others⟩ | ⟨other, listed, found, result⟩
        · exact .inl ⟨missed, List.forall_mem_cons.mpr ⟨named, others⟩⟩
        · exact .inr ⟨other, List.mem_cons_of_mem _ listed, found, result⟩

theorem findsNames (iterates : order.Perm hierarchy.registry.entries) :
    hierarchy.FindsNames order := by
  have cases (classString : String) :
      (stringToClassID order classString = -1 ∧ classString ∉ hierarchy.names) ∨
        ∃ decl ∈ hierarchy.classes, decl.inName = classString ∧
          stringToClassID order classString = decl.inClassID := by
    rcases stringToClassID_cases order classString with ⟨missed, others⟩ | ⟨entry, listed, found, result⟩
    · refine .inl ⟨missed, fun declared => ?_⟩
      obtain ⟨decl, here, named⟩ := List.mem_map.mp declared
      exact others _ (iterates.mem_iff.mpr (mem_entries.mpr ⟨decl, here, rfl, rfl⟩)) named
    · obtain ⟨decl, here, same, record⟩ := mem_entries.mp (iterates.mem_iff.mp listed)
      exact .inr ⟨decl, here, (congrArg RTTI.className record).trans found, result.trans same.symm⟩
  constructor
  · intro classString
    rcases cases classString with ⟨missed, absent⟩ | ⟨decl, here, named, result⟩
    · exact ⟨fun _ => absent, fun _ => missed⟩
    · rw [result]
      constructor
      · exact fun undefined => absurd undefined (hierarchy.named decl here)
      · exact fun absent => absurd (List.mem_map.mpr ⟨decl, here, named⟩) absent
  · intro classString declared
    rcases cases classString with ⟨-, absent⟩ | ⟨decl, here, named, result⟩
    · exact absurd declared absent
    · exact ⟨decl, here, named, result⟩
  · intro classString declared
    rcases cases classString with ⟨-, absent⟩ | ⟨decl, here, named, result⟩
    · exact absurd declared absent
    · rw [result, classIDToString_declared here, named]

theorem undoes_of_distinct (distinct : hierarchy.names.Nodup)
    (iterates : order.Perm hierarchy.registry.entries) : hierarchy.Undoes order := by
  intro classID declared
  obtain ⟨decl, here, rfl⟩ := List.mem_map.mp declared
  rw [classIDToString_declared here]
  rcases stringToClassID_cases order decl.inName with ⟨-, others⟩ | ⟨entry, listed, found, result⟩
  · have listed := iterates.mem_iff.mpr (mem_entries.mpr ⟨decl, here, rfl, rfl⟩)
    exact absurd rfl (others _ listed)
  · obtain ⟨other, there, same, record⟩ := mem_entries.mp (iterates.mem_iff.mp listed)
    have named : other.inName = decl.inName := (congrArg RTTI.className record).trans found
    rw [result, ← same, List.inj_on_of_nodup_map distinct there here named]

theorem distinct_of_undoes
    (undoes : ∀ order, order.Perm hierarchy.registry.entries → hierarchy.Undoes order) :
    hierarchy.names.Nodup := by
  have classes := hierarchy.distinct.of_map
  rw [names, List.nodup_map_iff_inj_on classes]
  intro first declared second others named
  have listed := mem_entries.mpr ⟨second, others, rfl, rfl⟩
  obtain ⟨rest, middle⟩ : ∃ rest, hierarchy.registry.entries.Perm
      (⟨second.inClassID, second.inBaseClass, second.inName, second.inFunc⟩ :: rest) := by
    obtain ⟨before, after, split⟩ := List.append_of_mem listed
    exact ⟨before ++ after, (List.Perm.of_eq split).trans List.perm_middle⟩
  have undone := undoes _ middle.symm first.inClassID (List.mem_map_of_mem declared)
  rw [classIDToString_declared declared, stringToClassID, if_pos named.symm] at undone
  exact List.inj_on_of_nodup_map hierarchy.distinct declared others undone.symm

theorem class_names (hierarchy : Hierarchy) :
    (∀ order, order.Perm hierarchy.registry.entries → hierarchy.FindsNames order) ∧
      ((∀ order, order.Perm hierarchy.registry.entries → hierarchy.Undoes order) ↔
        hierarchy.names.Nodup) :=
  ⟨fun _ => findsNames, distinct_of_undoes, fun distinct _ => undoes_of_distinct distinct⟩

end Hierarchy
end PackagedTask.Objects
