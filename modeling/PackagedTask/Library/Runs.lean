import Mathlib.Data.List.Basic
import Mathlib.Data.List.Induction

namespace PackagedTask.Library

variable {σ ο : Type} {step : ο → σ → σ → Prop} {start last : σ} {past : List (σ × ο)}

/-- Steps from `start` on, each listed with the state it was taken in. -/
inductive Run (step : ο → σ → σ → Prop) (start : σ) : List (σ × ο) → σ → Prop
  | nil : Run step start [] start
  | snoc {past s op t} (before : Run step start past s) (next : step op s t) :
      Run step start (past ++ [(s, op)]) t

def Always (inv : σ → Prop) (past : List (σ × ο)) (last : σ) : Prop :=
  (∀ entry ∈ past, inv entry.1) ∧ inv last

variable {inv kept : σ → Prop} {good : ο → σ → Prop}

theorem always_snoc {s t : σ} {op : ο} :
    Always inv (past ++ [(s, op)]) t ↔ Always inv past s ∧ inv t := by
  simp only [Always, List.mem_append, List.mem_singleton, or_imp, forall_and, forall_eq]

/-- A step that also keeps the operations taken so far. -/
def Recorded (step : ο → σ → σ → Prop) (op : ο) (s t : List ο × σ) : Prop :=
  step op s.2 t.2 ∧ t.1 = s.1 ++ [op]

theorem Run.record {start : List ο × σ} {past : List ((List ο × σ) × ο)} {history : List ο} {s t : σ}
    {op : ο} (run : Run (Recorded step) start past (history, s)) (next : step op s t) :
    Run (Recorded step) start (past ++ [((history, s), op)]) (history ++ [op], t) :=
  run.snoc ⟨next, rfl⟩

theorem Run.trans {middle : σ} {past' : List (σ × ο)} (first : Run step start past middle)
    (second : Run step middle past' last) : Run step start (past ++ past') last := by
  induction second with
  | nil => simpa using first
  | snoc before next ih =>
      rw [← List.append_assoc]
      exact ih.snoc next

theorem Run.map {σ' ο' : Type} {step' : ο' → σ' → σ' → Prop} (see : σ → σ') (say : ο → ο')
    (run : Run step start past last) (base : kept start)
    (follows : ∀ {op s t}, kept s → step op s t → kept t ∧ step' (say op) (see s) (see t)) :
    Run step' (see start) (past.map fun entry => (see entry.1, say entry.2)) (see last) ∧
      kept last := by
  induction run with
  | nil => exact ⟨.nil, base⟩
  | snoc before next ih =>
      obtain ⟨run', keeps⟩ := ih
      obtain ⟨keeps', next'⟩ := follows keeps next
      rw [List.map_append]
      exact ⟨run'.snoc next', keeps'⟩

def perform {χ : Type} (choose : σ → χ → Option (ο × σ)) (s : σ) :
    List χ → Option (List (σ × ο) × σ)
  | [] => some ([], s)
  | choice :: choices => do
      let (op, next) ← choose s choice
      let (past, last) ← perform choose next choices
      pure ((s, op) :: past, last)

theorem perform_run {χ : Type} {choose : σ → χ → Option (ο × σ)} {choices : List χ}
    (chosen : ∀ {s choice op t}, choose s choice = some (op, t) → step op s t)
    (performed : perform choose start choices = some (past, last)) : Run step start past last := by
  induction choices generalizing start past with
  | nil =>
      cases performed
      exact .nil
  | cons choice choices ih =>
      simp only [perform, Option.bind_eq_bind, Option.bind_eq_some_iff] at performed
      obtain ⟨⟨op, next⟩, here, ⟨later, end'⟩, rest, same⟩ := performed
      cases same
      exact (Run.nil.snoc (chosen here)).trans (ih rest)

theorem Run.split {before after : List (σ × ο)} {s : σ} {op : ο}
    (run : Run step start (before ++ (s, op) :: after) last) :
    ∃ t, Run step start before s ∧ step op s t ∧ Run step t after last := by
  induction after using List.reverseRecOn generalizing last with
  | nil =>
      generalize shape : before ++ [(s, op)] = past at run
      cases run with
      | nil => simp at shape
      | snoc run next =>
          obtain ⟨rfl, same⟩ := List.append_inj' shape rfl
          cases same
          exact ⟨last, run, next, .nil⟩
  | append_singleton after entry ih =>
      rw [← List.cons_append, ← List.append_assoc] at run
      generalize shape : before ++ (s, op) :: after ++ [entry] = past at run
      cases run with
      | nil => simp at shape
      | snoc run next =>
          obtain ⟨rfl, same⟩ := List.append_inj' shape rfl
          cases same
          obtain ⟨t, first, here, later⟩ := ih run
          exact ⟨t, first, here, later.snoc next⟩

/-- A goal is within reach when every kept state short of it has a step that brings it closer. -/
theorem Run.reaches {allowed : ο → Prop} {goal : σ → Prop} (measure : σ → Nat)
    (closer : ∀ s, kept s → ¬ goal s → ∃ op t, step op s t ∧ allowed op ∧ kept t ∧
      measure t < measure s) (base : kept start) :
    ∃ rest last, Run step start rest last ∧ (∀ entry ∈ rest, allowed entry.2) ∧ kept last ∧
      goal last := by
  generalize size : measure start = n
  induction n using Nat.strongRecOn generalizing start with
  | ind n ih =>
      by_cases arrived : goal start
      · exact ⟨[], start, .nil, by simp, base, arrived⟩
      · obtain ⟨op, t, next, fine, keeps, less⟩ := closer start base arrived
        obtain ⟨rest, last, run, allowed', keeps', arrived'⟩ := ih _ (size ▸ less) keeps rfl
        refine ⟨_, last, (Run.nil.snoc next).trans run, ?_, keeps', arrived'⟩
        rw [List.nil_append, List.singleton_append, List.forall_mem_cons]
        exact ⟨fine, allowed'⟩

theorem Always.imp {other : σ → Prop} (always : Always inv past last)
    (implies : ∀ s, inv s → other s) : Always other past last :=
  ⟨fun entry listed => implies _ (always.1 entry listed), implies _ always.2⟩

/-- A run has the property in all its states just if every step meets a condition that is exact for
one step and keeps what makes it exact. -/
theorem Run.always_iff (run : Run step start past last) (base : kept start)
    (holds : ∀ {s}, kept s → inv s)
    (exact : ∀ {op s t}, kept s → step op s t → (inv t ↔ good op s) ∧ (good op s → kept t)) :
    Always inv past last ↔ ∀ entry ∈ past, good entry.2 entry.1 := by
  have both : (Always inv past last ↔ ∀ entry ∈ past, good entry.2 entry.1) ∧
      ((∀ entry ∈ past, good entry.2 entry.1) → kept last) := by
    induction run with
    | nil => exact ⟨by simp [Always, holds base], fun _ => base⟩
    | snoc before next ih =>
        rw [always_snoc, List.forall_mem_append, List.forall_mem_singleton, ih.1]
        refine ⟨and_congr_right fun met => (exact (ih.2 met) next).1, ?_⟩
        rintro ⟨met, now⟩
        exact (exact (ih.2 met) next).2 now
  exact both.1

end PackagedTask.Library
