import Mathlib.Data.List.Basic
import Mathlib.Data.List.Pairwise
import PackagedTask.Tasks.ThreadPool

namespace PackagedTask.Events
open Tasks

/-! `SpecEvent` of `core/event.h`. A delegate is any value; what `std::bind` keeps is the delegate
with its own copies of the arguments. -/

structure DelegateHolder (δ : Type) where
  delegate : δ
  object : Nat
  deriving DecidableEq, Repr

structure SpecEvent (δ : Type) where
  m_delegates : List (DelegateHolder δ) := []
  m_next_available_ID : UInt32 := 0
  deriving DecidableEq, Repr

inductive ValueCategory
  | lvalue
  | rvalue
  deriving DecidableEq, Repr

/-- An argument passed by reference: the object it names, and whether it may be moved from. -/
structure Arg (α : Type) where
  value : α
  category : ValueCategory
  deriving DecidableEq, Repr

/-- What is left of a forwarded argument after `std::bind` made its copy; `moved` is what a move
leaves of a value. -/
def Arg.forward {α : Type} (moved : α → α) (arg : Arg α) : Arg α :=
  match arg.category with
  | .lvalue => arg
  | .rvalue => { arg with value := moved arg.value }

structure Bound (δ α : Type) where
  delegate : δ
  args : List α
  deriving DecidableEq, Repr

namespace SpecEvent
variable {δ α ε ρ : Type}

def bind (event : SpecEvent δ) (fn : δ) : Nat × SpecEvent δ :=
  let m_next_available_ID := event.m_next_available_ID + 1
  let evh := m_next_available_ID.toNat
  (evh, { m_delegates := event.m_delegates ++ [⟨fn, evh⟩], m_next_available_ID })

def unbind (event : SpecEvent δ) (evh : Nat) : SpecEvent δ :=
  { event with m_delegates := event.m_delegates.filter fun d => d.object ≠ evh }

/-- The loop of `call`, with the futures it returns and what it leaves of the arguments. -/
def call.submitAll (moved : α → α) : List (DelegateHolder δ) → ThreadPool (Bound δ α) ε ρ →
    List (Arg α) → List TaskRef × ThreadPool (Bound δ α) ε ρ × List (Arg α)
  | [], pool, args => ([], pool, args)
  | d :: delegates, pool, args =>
      let fn : Bound δ α := ⟨d.delegate, args.map Arg.value⟩
      let submitted := pool.submit fn
      let rest := submitAll moved delegates submitted.2 (args.map (Arg.forward moved))
      (submitted.1 :: rest.1, rest.2)

def call (moved : α → α) (event : SpecEvent δ) (pool : ThreadPool (Bound δ α) ε ρ)
    (args : List (Arg α)) : List TaskRef × ThreadPool (Bound δ α) ε ρ × List (Arg α) :=
  call.submitAll moved event.m_delegates pool args

inductive Operation (δ : Type)
  | bind (fn : δ)
  | unbind (evh : Nat)

def apply (event : SpecEvent δ) : Operation δ → SpecEvent δ
  | .bind fn => (event.bind fn).2
  | .unbind evh => event.unbind evh

def after (ops : List (Operation δ)) : SpecEvent δ := ops.foldl apply {}

def binds : List (Operation δ) → Nat
  | [] => 0
  | .bind _ :: ops => binds ops + 1
  | .unbind _ :: ops => binds ops

/-- The handles after `past`, of the delegates that are bound and of those that were. -/
structure Unambiguous (past : List (Operation δ)) : Prop where
  distinct : ((after past).m_delegates.map DelegateHolder.object).Nodup
  nonzero : ∀ d ∈ (after past).m_delegates, d.object ≠ 0
  removesOne : ∀ i d, (after past).m_delegates[i]? = some d →
    ((after past).unbind d.object).m_delegates = (after past).m_delegates.eraseIdx i
  removesNone : ∀ earlier fn later, past = earlier ++ .bind fn :: later →
    .unbind ((after earlier).bind fn).1 ∈ later →
    ((after past).unbind ((after earlier).bind fn).1).m_delegates = (after past).m_delegates

theorem after_concat (ops : List (Operation δ)) (op : Operation δ) :
    after (ops ++ [op]) = (after ops).apply op := by
  rw [after, List.foldl_append]
  rfl

theorem binds_append (first second : List (Operation δ)) :
    binds (first ++ second) = binds first + binds second := by
  induction first with
  | nil => simp [binds]
  | cons op first ih =>
      cases op with
      | bind fn => simp only [List.cons_append, binds, ih]; omega
      | unbind evh => simp only [List.cons_append, binds, ih]

/-- Handles are given out in order, and a delegate keeps the one it was bound under. -/
structure Counted (count : Nat) (event : SpecEvent δ) : Prop where
  counter : event.m_next_available_ID.toNat = count
  ordered : (event.m_delegates.map DelegateHolder.object).Pairwise (· < ·)
  range : ∀ d ∈ event.m_delegates, 0 < d.object ∧ d.object ≤ count

theorem Counted.handle {count : Nat} {event : SpecEvent δ} (counted : Counted count event)
    (room : count + 1 < 2 ^ 32) : (event.m_next_available_ID + 1).toNat = count + 1 := by
  rw [UInt32.toNat_add, counted.counter]
  exact Nat.mod_eq_of_lt room

theorem Counted.bind {count : Nat} {event : SpecEvent δ} (counted : Counted count event) (fn : δ)
    (room : count + 1 < 2 ^ 32) : Counted (count + 1) (event.bind fn).2 := by
  have handle := counted.handle room
  refine ⟨handle, ?_, ?_⟩
  · simp only [SpecEvent.bind, handle, List.map_append, List.map_cons, List.map_nil]
    rw [List.pairwise_append]
    refine ⟨counted.ordered, List.pairwise_singleton _ _, ?_⟩
    intro object member new same
    obtain ⟨d, bound, rfl⟩ := List.mem_map.mp member
    rw [List.mem_singleton.mp same]
    exact Nat.lt_succ_of_le (counted.range d bound).2
  · intro d member
    simp only [SpecEvent.bind, handle, List.mem_append, List.mem_singleton] at member
    rcases member with old | rfl
    · exact ⟨(counted.range d old).1, Nat.le_succ_of_le (counted.range d old).2⟩
    · exact ⟨Nat.succ_pos count, le_refl _⟩

theorem Counted.unbind {count : Nat} {event : SpecEvent δ} (counted : Counted count event)
    (evh : Nat) : Counted count (event.unbind evh) where
  counter := counted.counter
  ordered := counted.ordered.sublist (List.filter_sublist.map _)
  range := fun d member => counted.range d (List.mem_filter.mp member).1

theorem counted_after {ops : List (Operation δ)} (few : binds ops < 2 ^ 32) :
    Counted (binds ops) (after ops) := by
  induction ops using List.reverseRecOn with
  | nil => exact ⟨rfl, .nil, fun _ member => (List.not_mem_nil member).elim⟩
  | append_singleton ops op ih =>
      rw [binds_append] at few
      rw [after_concat, binds_append]
      cases op with
      | bind fn => exact (ih (by omega)).bind fn few
      | unbind evh => exact (ih (by omega)).unbind evh

theorem filter_eq_eraseIdx {delegates : List (DelegateHolder δ)}
    (distinct : (delegates.map DelegateHolder.object).Nodup) {i : Nat} {d : DelegateHolder δ}
    (here : delegates[i]? = some d) :
    delegates.filter (fun other => other.object ≠ d.object) = delegates.eraseIdx i := by
  induction delegates generalizing i with
  | nil => simp at here
  | cons first delegates ih =>
      rw [List.map_cons, List.nodup_cons] at distinct
      cases i with
      | zero =>
          obtain rfl : first = d := by simpa using here
          have others : ∀ d ∈ delegates, decide (d.object ≠ first.object) = true := by
            intro d member
            have apart : d.object ≠ first.object := fun same =>
              distinct.1 (same ▸ List.mem_map.mpr ⟨d, member, rfl⟩)
            exact decide_eq_true apart
          rw [List.filter_cons_of_neg (by simp), List.filter_eq_self.mpr others]
          rfl
      | succ i =>
          rw [List.getElem?_cons_succ] at here
          have apart : first.object ≠ d.object := fun same =>
            distinct.1 (same ▸ List.mem_map.mpr ⟨d, List.mem_of_getElem? here, rfl⟩)
          rw [List.filter_cons, if_pos (decide_eq_true apart), ih distinct.2 here]
          rfl

theorem unbound_after {first later : List (Operation δ)} {evh : Nat}
    (few : binds (first ++ later) < 2 ^ 32) (given : evh ≤ binds first)
    (gone : ∀ d ∈ (after first).m_delegates, d.object ≠ evh) :
    ∀ d ∈ (after (first ++ later)).m_delegates, d.object ≠ evh := by
  induction later using List.reverseRecOn with
  | nil => simpa using gone
  | append_singleton later op ih =>
      rw [← List.append_assoc, binds_append] at few
      rw [← List.append_assoc, after_concat]
      have before := ih (by omega)
      cases op with
      | bind fn =>
          have handle := (counted_after (by omega : binds (first ++ later) < 2 ^ 32)).handle few
          rw [binds_append] at handle
          intro d member
          simp only [apply, bind, handle, List.mem_append, List.mem_singleton] at member
          rcases member with old | rfl
          · exact before d old
          · have later : evh < binds first + binds later + 1 := by omega
            exact later.ne'
      | unbind other => exact fun d member => before d (List.mem_filter.mp member).1

theorem removesNone_after {past earlier later : List (Operation δ)} {fn : δ}
    (few : binds past < 2 ^ 32) (split : past = earlier ++ .bind fn :: later)
    (unbound : .unbind ((after earlier).bind fn).1 ∈ later) :
    ((after past).unbind ((after earlier).bind fn).1).m_delegates = (after past).m_delegates := by
  obtain ⟨middle, rest, rfl⟩ := List.append_of_mem unbound
  generalize evh_eq : ((after earlier).bind fn).1 = evh at split ⊢
  let first := earlier ++ .bind fn :: middle ++ [.unbind evh]
  have whole : past = first ++ rest := by simp [first, split]
  have count : binds first = binds earlier + binds middle + 1 := by
    simp only [first, binds_append, binds]
    omega
  have few' := few
  rw [whole, binds_append] at few'
  have given : evh ≤ binds first := by
    have handle := (counted_after (by omega : binds earlier < 2 ^ 32)).handle (by omega)
    rw [← evh_eq]
    simp only [bind, handle]
    omega
  have gone : ∀ d ∈ (after first).m_delegates, d.object ≠ evh := by
    intro d member
    rw [after_concat] at member
    exact of_decide_eq_true (List.mem_filter.mp member).2
  rw [whole] at few ⊢
  apply List.filter_eq_self.mpr
  intro d member
  exact decide_eq_true (unbound_after few given gone d member)

theorem unambiguous_after {past : List (Operation δ)} (few : binds past < 2 ^ 32) :
    Unambiguous past where
  distinct := (counted_after few).ordered.imp Nat.ne_of_lt
  nonzero := fun d member => Nat.ne_of_gt ((counted_after few).range d member).1
  removesOne := fun _ _ here => filter_eq_eraseIdx ((counted_after few).ordered.imp Nat.ne_of_lt) here
  removesNone := fun _ _ _ split unbound => removesNone_after few split unbound

theorem exists_bind {ops : List (Operation δ)} {n : Nat} (many : n < binds ops) :
    ∃ past fn, past ++ [.bind fn] <+: ops ∧ binds past = n := by
  induction ops using List.reverseRecOn with
  | nil => simp [binds] at many
  | append_singleton ops op ih =>
      by_cases earlier : n < binds ops
      · obtain ⟨past, fn, before, count⟩ := ih earlier
        exact ⟨past, fn, before.trans (List.prefix_append _ _), count⟩
      · rw [binds_append] at many
        cases op with
        | bind fn =>
            simp only [binds] at many
            exact ⟨ops, fn, List.prefix_rfl, by omega⟩
        | unbind evh =>
            simp only [binds] at many
            omega

theorem ambiguous_of_wrap {ops : List (Operation δ)} (many : 2 ^ 32 ≤ binds ops) :
    ∃ past, past <+: ops ∧ ¬ Unambiguous past := by
  obtain ⟨past, fn, before, count⟩ := exists_bind (show 2 ^ 32 - 1 < binds ops by omega)
  refine ⟨_, before, fun unambiguous => ?_⟩
  have full := (counted_after (by omega : binds past < 2 ^ 32)).counter
  -- the counter is at its largest value, and the next handle is 0
  have zero : ((after past).m_next_available_ID + 1).toNat = 0 := by
    rw [UInt32.toNat_add, full, count]
    rfl
  apply unambiguous.nonzero ⟨fn, 0⟩ _ rfl
  rw [after_concat]
  simp [apply, bind, zero]

theorem unambiguous_iff (ops : List (Operation δ)) :
    (∀ past, past <+: ops → Unambiguous past) ↔ binds ops < 2 ^ 32 := by
  constructor
  · intro always
    by_contra many
    obtain ⟨past, before, ambiguous⟩ := ambiguous_of_wrap (Nat.le_of_not_lt many)
    exact ambiguous (always past before)
  · rintro few past ⟨rest, rfl⟩
    rw [binds_append] at few
    exact unambiguous_after (by omega)

theorem binds_replicate (n : Nat) (fn : δ) : binds (List.replicate n (.bind fn)) = n := by
  induction n with
  | zero => rfl
  | succ n ih => rw [List.replicate_succ, binds, ih]

def allHandles : List (Operation Unit) := List.replicate (2 ^ 32) (.bind ())

theorem allHandles_ambiguous : ¬ ∀ past, past <+: allHandles → Unambiguous past := by
  intro always
  obtain ⟨past, before, ambiguous⟩ :=
    ambiguous_of_wrap (binds_replicate (2 ^ 32) ()).ge
  exact ambiguous (always past before)

end SpecEvent
end PackagedTask.Events
