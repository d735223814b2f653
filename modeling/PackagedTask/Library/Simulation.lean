import PackagedTask.Library.Runs
import PackagedTask.Library.Threads

namespace PackagedTask.Library

section Observers
variable {σ ο σ' ο' ν : Type} {step : ο → σ → σ → Prop} {step' : ο' → σ' → σ' → Prop}
  {see : ο → Option ν} {see' : ο' → Option ν}

def observed (see : ο → Option ν) (past : List (σ × ο)) : List ν :=
  past.filterMap fun entry => see entry.2

theorem observed_append (first second : List (σ × ο)) :
    observed see (first ++ second) = observed see first ++ observed see second :=
  List.filterMap_append

theorem observed_singleton (s : σ) (op : ο) : observed see [(s, op)] = (see op).toList := by
  cases shown : see op <;> simp [observed, shown]

/-- A forward simulation: the second system answers each step of the first by a run that shows the
same. -/
theorem Run.simulated {related : σ → σ' → Prop} {start last : σ} {start' : σ'} {past : List (σ × ο)}
    (run : Run step start past last) (base : related start start')
    (follows : ∀ {op s t s'}, related s s' → step op s t →
      ∃ past' t', Run step' s' past' t' ∧ related t t' ∧ observed see' past' = (see op).toList) :
    ∃ past' last', Run step' start' past' last' ∧ related last last' ∧
      observed see' past' = observed see past := by
  induction run with
  | nil => exact ⟨[], start', .nil, base, rfl⟩
  | @snoc past s op t before next ih =>
      obtain ⟨past', s', run', related', shown⟩ := ih
      obtain ⟨answer, t', extra, after, visible⟩ := follows related' next
      refine ⟨past' ++ answer, t', run'.trans extra, after, ?_⟩
      rw [observed_append, observed_append, shown, visible, observed_singleton]

end Observers

/-! The atomic object: each call takes effect at one moment between its start and its return. A
system is linearizable when all it shows of a run, an atomic object could show. -/

inductive Client (κ ω : Type)
  | idle
  | called (call : κ)
  | answered (result : ω)

inductive Moment (θ κ ω : Type)
  | called (t : θ) (call : κ)
  | effect (t : θ) (call : κ) (result : ω)
  | returned (t : θ) (result : ω)

inductive Shown (θ κ ω : Type)
  | called (t : θ) (call : κ)
  | returned (t : θ) (result : ω)

variable {θ κ ω σ : Type}

def Moment.shown : Moment θ κ ω → Option (Shown θ κ ω)
  | .called t call => some (.called t call)
  | .effect _ _ _ => none
  | .returned t result => some (.returned t result)

def Moment.effects : Moment θ κ ω → Option (κ × ω)
  | .effect _ call result => some (call, result)
  | _ => none

abbrev AtomicObject (θ κ ω σ : Type) := Threads θ σ (Client κ ω)

def AtomicObject.start (s : σ) : AtomicObject θ κ ω σ := ⟨s, fun _ => .idle⟩

/-- `spec` is what a call returns and does when no other is under way. -/
inductive AtomicObject.Step [DecidableEq θ] (spec : κ × ω → σ → σ → Prop) :
    Moment θ κ ω → AtomicObject θ κ ω σ → AtomicObject θ κ ω σ → Prop
  | call {object : AtomicObject θ κ ω σ} {t} (call : κ) (idle : object.position t = .idle) :
      Step spec (.called t call) object (object.move t (.called call) object.shared)
  | effect {object : AtomicObject θ κ ω σ} {t call result s}
      (waits : object.position t = .called call) (does : spec (call, result) object.shared s) :
      Step spec (.effect t call result) object (object.move t (.answered result) s)
  | respond {object : AtomicObject θ κ ω σ} {t result}
      (answered : object.position t = .answered result) :
      Step spec (.returned t result) object (object.move t .idle object.shared)

/-- The effects of an atomic run, in their order, are a run without concurrency. -/
theorem AtomicObject.serial [DecidableEq θ] {spec : κ × ω → σ → σ → Prop}
    {start last : AtomicObject θ κ ω σ} {past : List (AtomicObject θ κ ω σ × Moment θ κ ω)}
    (run : Run (AtomicObject.Step spec) start past last) :
    ∃ serial, Run spec start.shared serial last.shared ∧
      serial.map Prod.snd = observed Moment.effects past := by
  induction run with
  | nil => exact ⟨[], .nil, rfl⟩
  | @snoc past object moment next before step ih =>
      obtain ⟨serial, run, same⟩ := ih
      rw [observed_append, observed_singleton, ← same]
      cases step with
      | call call idle => exact ⟨serial, run, by simp [Moment.effects]⟩
      | effect waits does =>
          refine ⟨serial ++ [(object.shared, _)], run.snoc does, ?_⟩
          simp [Moment.effects]
      | respond answered => exact ⟨serial, run, by simp [Moment.effects]⟩

end PackagedTask.Library
