import Mathlib.Algebra.Order.BigOperators.Group.Finset
import Mathlib.Algebra.BigOperators.Group.Finset.Piecewise
import Mathlib.Logic.Function.Basic

namespace PackagedTask.Library

/-! Threads that share a state, and the lock that one of them holds. A position is where a thread
is in its code, with its local variables. -/

structure Threads (θ σ π : Type) where
  shared : σ
  position : θ → π

namespace Threads
variable {θ σ π : Type} {threads : Threads θ σ π} {t u : θ} {p : π} {s : σ}

def disturb (threads : Threads θ σ π) (s : σ) : Threads θ σ π := ⟨s, threads.position⟩

@[simp] theorem disturb_shared : (threads.disturb s).shared = s := rfl

@[simp] theorem disturb_position : (threads.disturb s).position = threads.position := rfl

section Locks
variable (flag : σ → Bool) (holds : π → Prop)

/-- The lock is taken just while a thread is inside, and one is inside at most. -/
structure Guarded (threads : Threads θ σ π) : Prop where
  holder : flag threads.shared = true → ∃ t, holds (threads.position t)
  flagged : ∀ t, holds (threads.position t) → flag threads.shared = true
  exclusive : ∀ t u, holds (threads.position t) → holds (threads.position u) → t = u

/-- What a step may do to a lock. -/
inductive Access (p : π) (s : σ) (p' : π) (s' : σ) : Prop
  | acquire (outside : ¬ holds p) (free : flag s = false) (inside : holds p') (taken : flag s' = true)
  | release (inside : holds p) (outside : ¬ holds p') (free : flag s' = false)
  | keep (same : holds p' ↔ holds p) (flags : flag s' = flag s)

end Locks

variable {flag : σ → Bool} {holds : π → Prop}

theorem Guarded.free (guarded : threads.Guarded flag holds) (free : flag threads.shared = false)
    (t : θ) : ¬ holds (threads.position t) := by
  intro inside
  have taken := guarded.flagged t inside
  rw [free] at taken
  cases taken

theorem Guarded.others (guarded : threads.Guarded flag holds) (inside : holds (threads.position t))
    (apart : u ≠ t) : ¬ holds (threads.position u) :=
  fun also => apart (guarded.exclusive u t also inside)

theorem Guarded.disturb (guarded : threads.Guarded flag holds)
    (flags : flag s = flag threads.shared) : (threads.disturb s).Guarded flag holds where
  holder := by
    intro taken
    rw [disturb_shared, flags] at taken
    exact guarded.holder taken
  flagged := by
    intro t inside
    rw [disturb_shared, flags]
    exact guarded.flagged t inside
  exclusive := guarded.exclusive

variable [DecidableEq θ]

def move (threads : Threads θ σ π) (t : θ) (p : π) (s : σ) : Threads θ σ π :=
  ⟨s, Function.update threads.position t p⟩

@[simp] theorem move_shared : (threads.move t p s).shared = s := rfl

@[simp] theorem move_self : (threads.move t p s).position t = p := Function.update_self ..

theorem move_other (apart : u ≠ t) : (threads.move t p s).position u = threads.position u :=
  Function.update_of_ne apart ..

theorem Guarded.entered (guarded : threads.Guarded flag holds) (free : flag threads.shared = false)
    (inside : holds p) (taken : flag s = true) : (threads.move t p s).Guarded flag holds where
  holder := fun _ => ⟨t, by simpa using inside⟩
  flagged := fun _ _ => taken
  exclusive := by
    have only : ∀ u, holds ((threads.move t p s).position u) → u = t := by
      intro u within
      by_contra apart
      rw [move_other apart] at within
      exact guarded.free free u within
    intro u v first second
    rw [only u first, only v second]

theorem Guarded.left (guarded : threads.Guarded flag holds) (inside : holds (threads.position t))
    (outside : ¬ holds p) (free : flag s = false) : (threads.move t p s).Guarded flag holds := by
  have nobody : ∀ u, ¬ holds ((threads.move t p s).position u) := by
    intro u
    by_cases same : u = t
    · rw [same, move_self]
      exact outside
    · rw [move_other same]
      exact guarded.others inside same
  constructor
  · intro taken
    rw [move_shared, free] at taken
    cases taken
  · intro u within
    exact (nobody u within).elim
  · intro u v first
    exact (nobody u first).elim

theorem Guarded.kept (guarded : threads.Guarded flag holds)
    (same : holds p ↔ holds (threads.position t)) (flags : flag s = flag threads.shared) :
    (threads.move t p s).Guarded flag holds := by
  have unchanged : ∀ u, holds ((threads.move t p s).position u) ↔ holds (threads.position u) := by
    intro u
    by_cases here : u = t
    · rw [here, move_self]
      exact same
    · rw [move_other here]
  constructor
  · intro taken
    rw [move_shared, flags] at taken
    obtain ⟨u, within⟩ := guarded.holder taken
    exact ⟨u, (unchanged u).mpr within⟩
  · intro u within
    rw [move_shared, flags]
    exact guarded.flagged u ((unchanged u).mp within)
  · intro u v first second
    exact guarded.exclusive u v ((unchanged u).mp first) ((unchanged v).mp second)

theorem Guarded.move (guarded : threads.Guarded flag holds)
    (access : Access flag holds (threads.position t) threads.shared p s) :
    (threads.move t p s).Guarded flag holds := by
  cases access with
  | acquire outside free inside taken => exact guarded.entered free inside taken
  | release inside outside free => exact guarded.left inside outside free
  | keep same flags => exact guarded.kept same flags

section Totals
variable [Fintype θ] {share : π → Nat}

/-- What the threads have together, each by where it is. -/
def total (threads : Threads θ σ π) (share : π → Nat) : Nat :=
  ∑ t, share (threads.position t)

theorem total_move : (threads.move t p s).total share + share (threads.position t) =
    threads.total share + share p := by
  have others : ∑ u ∈ Finset.univ.erase t, share ((threads.move t p s).position u) =
      ∑ u ∈ Finset.univ.erase t, share (threads.position u) := by
    apply Finset.sum_congr rfl
    intro u listed
    rw [move_other (Finset.ne_of_mem_erase listed)]
  rw [total, total, ← Finset.add_sum_erase _ _ (Finset.mem_univ t), others, move_self,
    ← Finset.add_sum_erase Finset.univ (fun u => share (threads.position u)) (Finset.mem_univ t)]
  omega

theorem total_of_change {old new : Nat} (before : threads.total share = old)
    (change : new + share (threads.position t) = old + share p) :
    (threads.move t p s).total share = new := by
  have total : (threads.move t p s).total share + share (threads.position t) =
    threads.total share + share p := total_move
  omega

omit [DecidableEq θ] in
theorem share_le_total (t : θ) : share (threads.position t) ≤ threads.total share :=
  Finset.single_le_sum (f := fun u => share (threads.position u)) (fun _ _ => Nat.zero_le _)
    (Finset.mem_univ t)

omit [DecidableEq θ] in
theorem exists_share (some : 0 < threads.total share) : ∃ t, 0 < share (threads.position t) := by
  obtain ⟨t, -, nonzero⟩ := Finset.exists_ne_zero_of_sum_ne_zero some.ne'
  exact ⟨t, Nat.pos_of_ne_zero nonzero⟩

theorem shares_le_total (apart : u ≠ t) :
    share (threads.position t) + share (threads.position u) ≤ threads.total share := by
  have pair : ({t, u} : Finset θ) ⊆ Finset.univ := Finset.subset_univ _
  have bound := Finset.sum_le_sum_of_subset (f := fun v => share (threads.position v)) pair
  rwa [Finset.sum_pair apart.symm] at bound

end Totals

end Threads
end PackagedTask.Library
