import PackagedTask.Objects.Registry

namespace PackagedTask.Objects
open Library Library.Iteration

/-! The class hierarchies that registration builds, and the subtyping that the run time decides. -/

/-- What one `IMPLEMENT_STRUCT` passes to `RegisterClass`. -/
structure ClassDecl where
  inClassID : Int
  inBaseClass : Int
  inName : String
  inFunc : Body

def Derives (classes : List ClassDecl) (classID base : Int) : Prop :=
  ∃ decl ∈ classes, decl.inClassID = classID ∧ decl.inBaseClass = base

/-- Classes in the order of their registration. -/
structure Hierarchy where
  classes : List ClassDecl
  distinct : (classes.map ClassDecl.inClassID).Nodup
  named : ∀ decl ∈ classes, decl.inClassID ≠ -1
  acyclic : ∀ classID, ¬ Relation.TransGen (Derives classes) classID classID

def registerAll (classes : List ClassDecl) (registry : Registry) : Registry :=
  classes.foldl (fun registry decl =>
    registerClass registry decl.inClassID decl.inBaseClass decl.inName decl.inFunc) registry

namespace Hierarchy

def registry (hierarchy : Hierarchy) : Registry := registerAll hierarchy.classes ∅

def Below (hierarchy : Hierarchy) : Int → Int → Prop :=
  Relation.ReflTransGen (Derives hierarchy.classes)

def Registered (hierarchy : Hierarchy) : Type :=
  {classID // classID ∈ hierarchy.classes.map ClassDecl.inClassID}

/-- The run time's subtyping is the inheritance order. -/
structure Subtyping (hierarchy : Hierarchy) : Prop where
  terminates : ∀ classID derivedFromClassID, ∃ fuel,
    runFor (derivationPass hierarchy.registry derivedFromClassID) fuel classID =
      some (isDerivedFromClassID hierarchy.registry classID derivedFromClassID)
  reaches : ∀ classID derivedFromClassID,
    isDerivedFromClassID hierarchy.registry classID derivedFromClassID = true ↔
      derivedFromClassID ≠ -1 ∧ hierarchy.Below classID derivedFromClassID
  order : IsPartialOrder hierarchy.Registered fun classID derivedFrom =>
    isDerivedFromClassID hierarchy.registry classID.val derivedFrom.val = true
  unordered : ∀ other : Hierarchy, other.classes.Perm hierarchy.classes → ∀ classID derivedFromClassID,
    isDerivedFromClassID other.registry classID derivedFromClassID =
      isDerivedFromClassID hierarchy.registry classID derivedFromClassID

end Hierarchy

theorem registerAll_lookup {classes : List ClassDecl} {classID : Int} {rtti : RTTI}
    (distinct : (classes.map ClassDecl.inClassID).Nodup) :
    (registerAll classes ∅).lookup classID = some rtti ↔ ∃ decl ∈ classes,
      decl.inClassID = classID ∧ ⟨decl.inBaseClass, decl.inName, decl.inFunc⟩ = rtti := by
  induction classes using List.reverseRecOn with
  | nil => simp [registerAll]
  | append_singleton classes decl ih =>
      rw [List.map_append, List.nodup_append] at distinct
      have last : registerAll (classes ++ [decl]) ∅ = registerClass (registerAll classes ∅)
          decl.inClassID decl.inBaseClass decl.inName decl.inFunc := by
        rw [registerAll, List.foldl_append]
        rfl
      rw [last, registerClass]
      simp only [List.mem_append, List.mem_singleton, or_and_right, exists_or, exists_eq_left]
      by_cases here : classID = decl.inClassID
      · have earlier (other : ClassDecl) (listed : other ∈ classes) : other.inClassID ≠ classID :=
          here ▸ distinct.2.2 _ (List.mem_map_of_mem listed) _ (List.mem_singleton_self _)
        rw [here, AList.lookup_insert, Option.some.injEq]
        constructor
        · intro same
          exact .inr ⟨rfl, same⟩
        · rintro (⟨other, listed, same, -⟩ | ⟨-, same⟩)
          · exact absurd (same.trans here.symm) (earlier other listed)
          · exact same
      · rw [AList.lookup_insert_ne here, ih distinct.1]
        simp [Ne.symm here]

namespace Hierarchy
variable {hierarchy : Hierarchy} {classID base derivedFromClassID : Int}

theorem getSuperClassID_of_derives (derives : Derives hierarchy.classes classID base) :
    classID ≠ -1 ∧ getSuperClassID hierarchy.registry classID = base := by
  obtain ⟨decl, listed, rfl, rfl⟩ := derives
  have known := (registerAll_lookup hierarchy.distinct).mpr ⟨decl, listed, rfl, rfl⟩
  refine ⟨hierarchy.named decl listed, ?_⟩
  rw [getSuperClassID, registry, known]

theorem derives_or_sentinel (classID : Int) :
    Derives hierarchy.classes classID (getSuperClassID hierarchy.registry classID) ∨
      getSuperClassID hierarchy.registry classID = -1 := by
  cases known : hierarchy.registry.lookup classID with
  | none =>
      right
      rw [getSuperClassID, known]
  | some rtti =>
      left
      obtain ⟨decl, listed, same, rfl⟩ := (registerAll_lookup hierarchy.distinct).mp known
      exact ⟨decl, listed, same, by rw [getSuperClassID, known]⟩

theorem derivationPass_inl_iff {next : Int} :
    derivationPass hierarchy.registry derivedFromClassID classID = .inl next ↔
      classID ≠ -1 ∧ classID ≠ derivedFromClassID ∧
        next = getSuperClassID hierarchy.registry classID := by
  unfold derivationPass
  split_ifs with sentinel found
  · simp [sentinel]
  · simp [found]
  · simp [sentinel, found, eq_comm]

theorem derivationPass_true_iff :
    derivationPass hierarchy.registry derivedFromClassID classID = .inr true ↔
      classID ≠ -1 ∧ classID = derivedFromClassID := by
  unfold derivationPass
  split_ifs with sentinel found
  · simp [sentinel]
  · simp [← found, sentinel]
  · simp [found]

theorem transGen_of_steps {count : Nat} {last : Int}
    (walk : Steps (derivationPass hierarchy.registry derivedFromClassID) (count + 1) classID last)
    (inside : last ≠ -1) : Relation.TransGen (Derives hierarchy.classes) classID last := by
  induction count generalizing classID with
  | zero =>
      obtain ⟨next, pass, rfl⟩ := walk
      obtain ⟨-, -, rfl⟩ := derivationPass_inl_iff.mp pass
      exact .single ((derives_or_sentinel classID).resolve_right inside)
  | succ count ih =>
      obtain ⟨next, pass, rest⟩ := walk
      have onward := ih rest
      obtain ⟨-, -, rfl⟩ := derivationPass_inl_iff.mp pass
      rcases @derives_or_sentinel hierarchy classID with derives | sentinel
      · exact .head derives onward
      · obtain ⟨_, stopped, -⟩ := rest
        exact absurd sentinel (derivationPass_inl_iff.mp stopped).1

theorem not_cycles :
    ¬ Cycles (derivationPass hierarchy.registry derivedFromClassID) classID := by
  rintro ⟨-, count, last, -, positive, around⟩
  obtain ⟨count, rfl⟩ : ∃ before, count = before + 1 := ⟨count - 1, by omega⟩
  have onward := around
  obtain ⟨_, pass, -⟩ := onward
  exact hierarchy.acyclic last (transGen_of_steps around (derivationPass_inl_iff.mp pass).1)

def ahead (registry : Registry) (classID : Int) : Finset Int :=
  {classID, -1} ∪ (registry.entries.map fun entry => entry.2.base).toFinset

theorem steps_ahead (registry : Registry) {count : Nat} {last : Int}
    (walk : Steps (derivationPass registry derivedFromClassID) count classID last) :
    last ∈ ahead registry classID := by
  refine walk.invariant (fun s t _ pass => ?_) (by simp [ahead])
  unfold derivationPass at pass
  split_ifs at pass
  obtain rfl := Sum.inl.inj pass
  unfold getSuperClassID ahead
  split
  · rename_i rtti known
    have listed := List.mem_map_of_mem (f := fun entry : Sigma fun _ : Int => RTTI => entry.2.base)
      (AList.mem_lookup_iff.mp known)
    exact Finset.mem_union_right _ (List.mem_toFinset.mpr listed)
  · simp

theorem runs (hierarchy : Hierarchy) (classID derivedFromClassID : Int) :
    runFor (derivationPass hierarchy.registry derivedFromClassID)
      (hierarchy.registry.entries.length + 2) classID =
      some (isDerivedFromClassID hierarchy.registry classID derivedFromClassID) := by
  have stays (count : Nat) (last : Int) := @steps_ahead classID derivedFromClassID
    hierarchy.registry count last
  have halts := (halts_iff_not_cycles (ahead hierarchy.registry classID).finite_toSet stays).mpr
    not_cycles
  obtain ⟨count, last, result, walk, left⟩ := halts_iff.mp halts
  have card : (ahead hierarchy.registry classID).card ≤ hierarchy.registry.entries.length + 2 := by
    have bases := List.toFinset_card_le
      (hierarchy.registry.entries.map fun entry => entry.2.base)
    rw [List.length_map] at bases
    have both := Finset.card_le_two (a := classID) (b := -1)
    exact (Finset.card_union_le _ _).trans (by omega)
  have few := steps_lt_card id _ stays (fun _ _ _ _ _ _ same => same) walk left
  have ran := runFor_mono (runFor_of_steps walk left)
    (by omega : count + 1 ≤ hierarchy.registry.entries.length + 2)
  rw [isDerivedFromClassID, ran, Option.getD_some]

theorem true_of_below (sentinel : derivedFromClassID ≠ -1)
    (below : hierarchy.Below classID derivedFromClassID) :
    ∃ fuel, runFor (derivationPass hierarchy.registry derivedFromClassID) fuel classID =
      some true := by
  induction below using Relation.ReflTransGen.head_induction_on with
  | refl => exact ⟨1, by rw [runFor, derivationPass_true_iff.mpr ⟨sentinel, rfl⟩]⟩
  | @head classID base derives _ ih =>
      obtain ⟨fuel, ran⟩ := ih
      obtain ⟨registered, super⟩ := getSuperClassID_of_derives derives
      by_cases found : classID = derivedFromClassID
      · exact ⟨1, by rw [runFor, derivationPass_true_iff.mpr ⟨registered, found⟩]⟩
      · refine ⟨fuel + 1, ?_⟩
        rw [runFor, derivationPass_inl_iff.mpr ⟨registered, found, super.symm⟩]
        exact ran

theorem derived_iff :
    isDerivedFromClassID hierarchy.registry classID derivedFromClassID = true ↔
      derivedFromClassID ≠ -1 ∧ hierarchy.Below classID derivedFromClassID := by
  have ran := hierarchy.runs classID derivedFromClassID
  constructor
  · intro derived
    rw [derived] at ran
    obtain ⟨count, last, walk, left⟩ := steps_of_runFor ran
    obtain ⟨inside, rfl⟩ := derivationPass_true_iff.mp left
    refine ⟨inside, ?_⟩
    cases count with
    | zero =>
        obtain rfl : classID = last := walk
        exact .refl
    | succ count => exact (transGen_of_steps walk inside).to_reflTransGen
  · rintro ⟨sentinel, below⟩
    obtain ⟨fuel, found⟩ := true_of_below sentinel below
    rcases le_total fuel (hierarchy.registry.entries.length + 2) with less | more
    · exact (Option.some.inj ((runFor_mono found less).symm.trans ran)).symm
    · exact (Option.some.inj (found.symm.trans (runFor_mono ran more))).symm

theorem Below.antisymm {other : Int} (below : hierarchy.Below classID other)
    (above : hierarchy.Below other classID) : classID = other := by
  rcases Relation.reflTransGen_iff_eq_or_transGen.mp below with same | strict
  · exact same.symm
  · exact absurd (strict.trans_left above) (hierarchy.acyclic classID)

theorem subtyping (hierarchy : Hierarchy) : hierarchy.Subtyping where
  terminates := fun classID derivedFromClassID => ⟨_, hierarchy.runs classID derivedFromClassID⟩
  reaches := fun _ _ => derived_iff
  order :=
    { refl := by
        rintro ⟨classID, listed⟩
        obtain ⟨decl, declared, rfl⟩ := List.mem_map.mp listed
        exact derived_iff.mpr ⟨hierarchy.named decl declared, .refl⟩
      trans := by
        intro first second third below above
        have upper := derived_iff.mp above
        exact derived_iff.mpr ⟨upper.1, (derived_iff.mp below).2.trans upper.2⟩
      antisymm := by
        intro first second below above
        exact Subtype.ext ((derived_iff.mp below).2.antisymm (derived_iff.mp above).2) }
  unordered := by
    intro other reordered classID derivedFromClassID
    have same : Derives other.classes = Derives hierarchy.classes := by
      funext derived base
      simp only [Derives, reordered.mem_iff]
    rw [Bool.eq_iff_iff, derived_iff, derived_iff, Below, Below, same]

theorem acyclic_of_rank {classes : List ClassDecl} (rank : Int → Nat)
    (falls : ∀ decl ∈ classes, rank decl.inBaseClass < rank decl.inClassID) (classID : Int) :
    ¬ Relation.TransGen (Derives classes) classID classID := by
  have falling {first last : Int} (walk : Relation.TransGen (Derives classes) first last) :
      rank last < rank first := by
    induction walk with
    | single derives =>
        obtain ⟨decl, listed, rfl, rfl⟩ := derives
        exact falls decl listed
    | tail _ derives ih =>
        obtain ⟨decl, listed, rfl, rfl⟩ := derives
        exact (falls decl listed).trans ih
  exact fun around => lt_irrefl _ (falling around)

def standard : Hierarchy where
  classes := [⟨classObject, -1, "Object", .object⟩,
    ⟨classComponent, classObject, "Component", .component .null⟩,
    ⟨classGameObject, classObject, "GameObject", .gameObject ∅⟩]
  distinct := by decide
  named := by decide
  acyclic := acyclic_of_rank (fun classID => (classID - 999).toNat) (by decide)

theorem standard_registry : standard.registry = s_mClassIDToRttiMap := rfl

end Hierarchy
end PackagedTask.Objects
