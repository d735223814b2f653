import Mathlib

namespace PackagedTask.Library

variable {ι ι' ι'' κ lab : Type}

/-- A labelled graph whose edges leave through named ports: a port is absent, or present and
leading nowhere, or leading to a node. -/
structure PortGraph (ι κ lab : Type) where
  nodes : Set ι
  label : ι → lab
  port : ι → κ → Option (Option ι)

namespace PortGraph

def Closed (graph : PortGraph ι κ lab) : Prop :=
  ∀ x ∈ graph.nodes, ∀ k y, graph.port x k = some (some y) → y ∈ graph.nodes

structure IsIso (source : PortGraph ι κ lab) (target : PortGraph ι' κ lab) (f : ι → ι') : Prop where
  bijective : Set.BijOn f source.nodes target.nodes
  label : ∀ x ∈ source.nodes, target.label (f x) = source.label x
  port : ∀ x ∈ source.nodes, ∀ k, target.port (f x) k = (source.port x k).map (Option.map f)

variable {source : PortGraph ι κ lab} {middle : PortGraph ι' κ lab} {target : PortGraph ι'' κ lab}

theorem IsIso.refl (graph : PortGraph ι κ lab) : IsIso graph graph id where
  bijective := Set.bijOn_id graph.nodes
  label := fun _ _ => rfl
  port := by simp

theorem IsIso.trans {f : ι → ι'} {g : ι' → ι''} (first : IsIso source middle f)
    (second : IsIso middle target g) : IsIso source target (g ∘ f) where
  bijective := second.bijective.comp first.bijective
  label := by
    intro x member
    rw [Function.comp_apply, second.label _ (first.bijective.mapsTo member), first.label x member]
  port := by
    intro x member k
    rw [Function.comp_apply, second.port _ (first.bijective.mapsTo member), first.port x member,
      Option.map_map]
    congr 1
    funext y
    rw [Function.comp_apply, Option.map_map]

theorem IsIso.symm [Nonempty ι] {f : ι → ι'} (iso : IsIso source middle f)
    (closed : source.Closed) : IsIso middle source (Function.invFunOn f source.nodes) := by
  have back : Set.InvOn (Function.invFunOn f source.nodes) f source.nodes middle.nodes :=
    iso.bijective.invOn_invFunOn
  refine ⟨iso.bijective.symm back.symm, ?_, ?_⟩
  · intro y member
    obtain ⟨x, inside, rfl⟩ := iso.bijective.surjOn member
    rw [back.1 inside, iso.label x inside]
  · intro y member k
    obtain ⟨x, inside, rfl⟩ := iso.bijective.surjOn member
    rw [back.1 inside, iso.port x inside, Option.map_map]
    cases edge : source.port x k with
    | none => rfl
    | some end_ =>
        cases end_ with
        | none => rfl
        | some z => simp [back.1 (closed x inside k z edge)]

end PortGraph
end PackagedTask.Library
