import PackagedTask.Library.Simulation
import PackagedTask.Tasks.ThreadPool

namespace PackagedTask.Tasks
open Library

/-! A `ThreadPool` from its constructor to the end of its destructor. Destroying the `io_service`
destroys the handlers that are still queued, and a `packaged_task` that never ran breaks the
promise of its future. -/

def pool_size (num_cores : UInt32) : Nat := (max 1 (num_cores - 1)).toNat

structure Lifetime (φ ε ρ : Type) where
  pool : ThreadPool φ ε ρ
  /-- What each `packaged_task` wraps, in the order in which they were made. -/
  wrapped : List φ := []
  stopped : Bool := false
  exited : List Nat := []
  destroyed : Bool := false
  broken : List TaskRef := []

namespace Lifetime
variable {φ ε ρ : Type}

def construct (pool_size : Nat) : Lifetime φ ε ρ := { pool := { m_threads := pool_size } }

inductive Operation (φ ε ρ : Type)
  | submit (f : φ)
  | start (worker : Nat) (task : TaskRef)
  | finish (worker : Nat) (task : TaskRef) (result : Except ε ρ)
  | stop
  | exit (worker : Nat)
  | destroy

/-- `ends f result`: a call of `f` may end with `result`. A task that still runs may submit while
the destructor waits for it. -/
inductive Step (ends : φ → Except ε ρ → Prop) :
    Operation φ ε ρ → Lifetime φ ε ρ → Lifetime φ ε ρ → Prop
  | submit {life} (f : φ) (alive : life.destroyed = false) :
      Step ends (.submit f) life
        { life with pool := (life.pool.submit f).2, wrapped := life.wrapped ++ [f] }
  | start {life} (worker : Nat) {task f} (before rest : List (TaskRef × φ))
      (runs : life.stopped = false) (thread : worker < life.pool.m_threads)
      (idle : worker ∉ life.pool.running.map Prod.fst)
      (waits : life.pool.m_io_serv = before ++ (task, f) :: rest) :
      Step ends (.start worker task) life
        { life with pool := { life.pool with
            m_io_serv := before ++ rest, running := (worker, task) :: life.pool.running } }
  | finish {life} (worker : Nat) (task : TaskRef) {f} (result : Except ε ρ)
      (busy : (worker, task) ∈ life.pool.running) (wraps : life.wrapped[task]? = some f)
      (ending : ends f result) :
      Step ends (.finish worker task result) life
        { life with pool := life.pool.finish worker task result }
  | stop {life} (once : life.stopped = false) : Step ends .stop life { life with stopped := true }
  | exit {life} (worker : Nat) (stopped : life.stopped = true) (thread : worker < life.pool.m_threads)
      (idle : worker ∉ life.pool.running.map Prod.fst) (once : worker ∉ life.exited) :
      Step ends (.exit worker) life { life with exited := worker :: life.exited }
  | destroy {life} (stopped : life.stopped = true)
      (joined : ∀ worker < life.pool.m_threads, worker ∈ life.exited)
      (once : life.destroyed = false) :
      Step ends .destroy life
        { life with
          pool := { life.pool with m_io_serv := [] }
          destroyed := true
          broken := life.pool.m_io_serv.map Prod.fst }

def thrown (pool : ThreadPool φ ε ρ) : Nat :=
  pool.ready.entries.countP fun entry => !entry.2.isOk

/-- A task that was submitted has started once, waits, or was destroyed in the queue. One that has
started runs or has ended. -/
structure Conserved (ends : φ → Except ε ρ → Prop) (life : Lifetime φ ε ρ) (started : List TaskRef) :
    Prop where
  named : life.wrapped.length = life.pool.nextTask
  begun : (life.pool.running.map Prod.snd ++ life.pool.ready.keys).Perm started
  whole : (started ++ life.pool.m_io_serv.map Prod.fst ++ life.broken).Perm
    (List.range life.pool.nextTask)
  own : ∀ task result, life.pool.ready.lookup task = some result →
    ∃ f, life.wrapped[task]? = some f ∧ ends f result
  busy : ∀ entry ∈ life.pool.running, entry.1 < life.pool.m_threads ∧ entry.1 ∉ life.exited
  kept : life.destroyed = false → life.broken = []
  discarded : life.destroyed = true → life.pool.running = [] ∧ life.pool.m_io_serv = []
  counts : life.pool.m_num_tasks = (life.pool.m_io_serv.length + life.broken.length +
    life.pool.running.length + thrown life.pool) % 2 ^ 64

def Operation.started : Operation φ ε ρ → Option TaskRef
  | .start _ task => some task
  | _ => none

variable {ends : φ → Except ε ρ → Prop} {life after : Lifetime φ ε ρ} {started : List TaskRef}

theorem Conserved.constructed (pool_size : Nat) :
    Conserved ends (construct pool_size : Lifetime φ ε ρ) [] := by
  constructor <;> simp [construct, thrown]

theorem Conserved.distinct (conserved : Conserved ends life started) :
    (life.pool.running.map Prod.snd ++ life.pool.ready.keys).Nodup := by
  have all : (started ++ life.pool.m_io_serv.map Prod.fst ++ life.broken).Nodup :=
    conserved.whole.nodup_iff.mpr List.nodup_range
  exact conserved.begun.nodup_iff.mpr all.of_append_left.of_append_left

theorem Conserved.fresh (conserved : Conserved ends life started) {worker : Nat} {task : TaskRef}
    (busy : (worker, task) ∈ life.pool.running) : task ∉ life.pool.ready := by
  intro done
  exact List.disjoint_of_nodup_append conserved.distinct (List.mem_map.mpr ⟨_, busy, rfl⟩) done

theorem Conserved.submit (conserved : Conserved ends life started) (f : φ)
    (alive : life.destroyed = false) :
    Conserved ends { life with pool := (life.pool.submit f).2, wrapped := life.wrapped ++ [f] }
      started where
  named := by simp [ThreadPool.submit, conserved.named]
  begun := conserved.begun
  whole := by
    have whole := conserved.whole
    rw [conserved.kept alive, List.append_nil] at whole
    simp only [ThreadPool.submit, conserved.kept alive, List.map_append, List.map_cons,
      List.map_nil, List.append_nil, List.range_succ, ← List.append_assoc]
    exact whole.append_right _
  own := by
    intro task result ready
    obtain ⟨f', wraps, ending⟩ := conserved.own task result ready
    exact ⟨f', by rw [List.getElem?_append_left (List.getElem?_eq_some_iff.mp wraps).1, wraps], ending⟩
  busy := conserved.busy
  kept := conserved.kept
  discarded := by
    intro gone
    rw [alive] at gone
    cases gone
  counts := by
    have counts := conserved.counts
    simp only [ThreadPool.submit, increment, counts, List.length_append, List.length_singleton,
      thrown]
    omega

theorem Conserved.start (conserved : Conserved ends life started) {worker : Nat} {task : TaskRef}
    {f : φ} {before rest : List (TaskRef × φ)} (alive : life.destroyed = false)
    (thread : worker < life.pool.m_threads) (stays : worker ∉ life.exited)
    (waits : life.pool.m_io_serv = before ++ (task, f) :: rest) :
    Conserved ends
      { life with pool := { life.pool with
          m_io_serv := before ++ rest, running := (worker, task) :: life.pool.running } }
      (started ++ [task]) where
  named := conserved.named
  begun := by
    rw [List.map_cons, List.cons_append]
    exact (conserved.begun.cons task).trans (List.perm_append_singleton _ _).symm
  whole := by
    refine List.Perm.trans ?_ conserved.whole
    rw [waits]
    simp only [List.map_append, List.map_cons, List.append_assoc, List.cons_append, List.nil_append]
    exact List.Perm.append_left _ List.perm_middle.symm
  own := conserved.own
  busy := List.forall_mem_cons.mpr ⟨⟨thread, stays⟩, conserved.busy⟩
  kept := conserved.kept
  discarded := by
    intro gone
    rw [alive] at gone
    cases gone
  counts := by
    have counts := conserved.counts
    have lengths := ThreadPool.start_lengths worker waits
    simp only [counts, thrown]
    congr 1
    omega

theorem thrown_insert {pool : ThreadPool φ ε ρ} {task : TaskRef} (fresh : task ∉ pool.ready)
    (result : Except ε ρ) : (pool.ready.insert task result).entries.countP (fun entry => !entry.2.isOk) =
      thrown pool + if result.isOk then 0 else 1 := by
  rw [AList.insert_of_notMem fresh, List.countP_cons, thrown]
  cases result <;> rfl

theorem Conserved.finish (conserved : Conserved ends life started) {worker : Nat} {task : TaskRef}
    {f : φ} {result : Except ε ρ} (busy : (worker, task) ∈ life.pool.running)
    (wraps : life.wrapped[task]? = some f) (ending : ends f result) :
    Conserved ends { life with pool := life.pool.finish worker task result } started := by
  have fresh := conserved.fresh busy
  have fewer := List.length_erase_of_mem busy
  have some' := List.length_pos_of_mem busy
  rw [ThreadPool.finish_eq]
  constructor
  · exact conserved.named
  · rw [AList.keys_insert, List.erase_of_not_mem fresh]
    have split := (List.perm_cons_erase busy).map Prod.snd
    refine List.Perm.trans ?_ conserved.begun
    refine List.perm_middle.trans ?_
    rw [← List.cons_append]
    exact (split.append_right _).symm
  · exact conserved.whole
  · intro other result' ready
    rcases lookup_insert_cases ready with ⟨rfl, rfl⟩ | ⟨-, before⟩
    · exact ⟨f, wraps, ending⟩
    · exact conserved.own other result' before
  · exact fun entry member => conserved.busy entry (List.mem_of_mem_erase member)
  · exact conserved.kept
  · intro gone
    have none' := (conserved.discarded gone).1
    rw [none'] at busy
    cases busy
  · have counts := conserved.counts
    rw [thrown]
    simp only [thrown_insert fresh result]
    cases result with
    | ok res =>
        simp only [ThreadPool.countAfter, decrement, counts, fewer, Except.isOk, Except.toBool,
          if_true]
        omega
    | error e =>
        simp only [ThreadPool.countAfter, counts, fewer, Except.isOk, Except.toBool,
          Bool.false_eq_true, if_false]
        congr 1
        omega

theorem Conserved.exit (conserved : Conserved ends life started) {worker : Nat}
    (idle : worker ∉ life.pool.running.map Prod.fst) :
    Conserved ends { life with exited := worker :: life.exited } started where
  named := conserved.named
  begun := conserved.begun
  whole := conserved.whole
  own := conserved.own
  busy := by
    intro entry member
    refine ⟨(conserved.busy entry member).1, ?_⟩
    rw [List.mem_cons, not_or]
    refine ⟨fun same => idle ?_, (conserved.busy entry member).2⟩
    exact same ▸ List.mem_map_of_mem member
  kept := conserved.kept
  discarded := conserved.discarded
  counts := conserved.counts

theorem Conserved.destroy (conserved : Conserved ends life started) (alive : life.destroyed = false)
    (joined : ∀ worker < life.pool.m_threads, worker ∈ life.exited) :
    Conserved ends
      { life with
        pool := { life.pool with m_io_serv := [] }
        destroyed := true
        broken := life.pool.m_io_serv.map Prod.fst } started where
  named := conserved.named
  begun := conserved.begun
  whole := by
    have whole := conserved.whole
    rw [conserved.kept alive, List.append_nil] at whole
    rw [List.map_nil, List.append_nil]
    exact whole
  own := conserved.own
  busy := conserved.busy
  kept := by
    intro alive
    cases alive
  discarded := by
    intro _
    refine ⟨List.eq_nil_iff_forall_not_mem.mpr fun entry member => ?_, rfl⟩
    obtain ⟨thread, stays⟩ := conserved.busy entry member
    exact stays (joined entry.1 thread)
  counts := by
    have counts := conserved.counts
    rw [conserved.kept alive] at counts
    simp only [counts, thrown, List.length_map, List.length_nil]
    congr 1
    omega

structure Closing (life : Lifetime φ ε ρ) : Prop where
  left : ∀ worker ∈ life.exited, life.stopped = true
  closed : life.destroyed = true → life.stopped = true

theorem Closing.step {op : Operation φ ε ρ} (closing : Closing life) (step : Step ends op life after) :
    Closing after := by
  obtain ⟨left, closed⟩ := closing
  cases step with
  | stop once => exact ⟨fun _ _ => rfl, fun _ => rfl⟩
  | exit worker stopped thread idle once => exact ⟨fun _ _ => stopped, closed⟩
  | destroy stopped joined once => exact ⟨left, fun _ => stopped⟩
  | _ => exact ⟨left, closed⟩

theorem Conserved.step {op : Operation φ ε ρ} (conserved : Conserved ends life started)
    (closing : Closing life) (step : Step ends op life after) :
    Conserved ends after (started ++ op.started.toList) := by
  cases step with
  | submit f alive => simpa [Operation.started] using conserved.submit f alive
  | start worker before rest runs thread idle waits =>
      have alive : life.destroyed = false := by
        cases gone : life.destroyed with
        | false => rfl
        | true =>
            rw [closing.closed gone] at runs
            cases runs
      have stays : worker ∉ life.exited := by
        intro left
        rw [closing.left worker left] at runs
        cases runs
      exact conserved.start alive thread stays waits
  | finish worker task result busy wraps ending =>
      simpa [Operation.started] using conserved.finish busy wraps ending
  | stop once =>
      simp only [Operation.started, Option.toList_none, List.append_nil]
      exact ⟨conserved.named, conserved.begun, conserved.whole, conserved.own, conserved.busy,
        conserved.kept, conserved.discarded, conserved.counts⟩
  | exit worker stopped thread idle once =>
      simpa [Operation.started] using conserved.exit idle
  | destroy stopped joined once =>
      simpa [Operation.started] using conserved.destroy once joined

theorem ready_step {op : Operation φ ε ρ} (conserved : Conserved ends life started)
    (step : Step ends op life after) {task : TaskRef} {result : Except ε ρ}
    (ready : life.pool.ready.lookup task = some result) :
    after.pool.ready.lookup task = some result := by
  cases step with
  | @finish _ worker other f result' busy wraps ending =>
      have apart : task ≠ other := by
        intro same
        exact conserved.fresh busy (same ▸ AList.lookup_isSome.mp (by rw [ready]; rfl))
      simp only [ThreadPool.finish_eq]
      rw [AList.lookup_insert_ne apart, ready]
  | _ => exact ready

variable {past : List (Lifetime φ ε ρ × Operation φ ε ρ)} {last : Lifetime φ ε ρ}

theorem conserved_of_run {first : Lifetime φ ε ρ} (run : Run (Step ends) first past last)
    (conserved : Conserved ends first started) (closing : Closing first) :
    Conserved ends last (started ++ observed Operation.started past) ∧ Closing last ∧
      ∀ task result, first.pool.ready.lookup task = some result →
        last.pool.ready.lookup task = some result := by
  induction run with
  | nil => exact ⟨by simpa [observed] using conserved, closing, fun _ _ => id⟩
  | snoc before step ih =>
      obtain ⟨conserved', closing', kept⟩ := ih
      refine ⟨?_, closing'.step step, fun task result ready => ?_⟩
      · rw [observed_append, observed_singleton, ← List.append_assoc]
        exact conserved'.step closing' step
      · exact ready_step conserved' step (kept task result ready)

/-- What a pool owes to those who submit, whatever the order in which its workers take the tasks. -/
structure Reliable (ends : φ → Except ε ρ → Prop) (past : List (Lifetime φ ε ρ × Operation φ ε ρ))
    (last : Lifetime φ ε ρ) : Prop where
  /-- Each submitted task has been started once, waits, or was destroyed in the queue. -/
  conserved : (observed Operation.started past ++ last.pool.m_io_serv.map Prod.fst ++
    last.broken).Perm (List.range last.pool.nextTask)
  own : ∀ task result, last.pool.ready.lookup task = some result →
    ∃ f, last.wrapped[task]? = some f ∧ ends f result
  once : ∀ before after life op, past = before ++ (life, op) :: after → ∀ task result,
    life.pool.ready.lookup task = some result → last.pool.ready.lookup task = some result
  /-- After the destructor each future is ready or broken: the tasks that started are ready. -/
  settled : last.destroyed = true → last.pool.running = [] ∧
    last.pool.ready.keys.Perm (observed Operation.started past) ∧
    (observed Operation.started past ++ last.broken).Perm (List.range last.pool.nextTask)
  /-- A task that threw, or was destroyed in the queue, stays counted. -/
  counts : last.pool.getNumTasks = (last.pool.m_io_serv.length + last.broken.length +
    last.pool.running.length + thrown last.pool) % 2 ^ 64

theorem constructed_closing (pool_size : Nat) :
    Closing (construct pool_size : Lifetime φ ε ρ) :=
  ⟨fun _ left => (List.not_mem_nil left).elim, fun gone => Bool.noConfusion gone⟩

theorem constructed_run {pool_size : Nat} (run : Run (Step ends) (construct pool_size) past last) :
    Conserved ends last (observed Operation.started past) ∧ Closing last := by
  obtain ⟨conserved, closing, -⟩ :=
    conserved_of_run run (Conserved.constructed pool_size) (constructed_closing pool_size)
  exact ⟨by simpa using conserved, closing⟩

theorem Conserved.settled (conserved : Conserved ends life started) (gone : life.destroyed = true) :
    life.pool.running = [] ∧ life.pool.ready.keys.Perm started ∧
      (started ++ life.broken).Perm (List.range life.pool.nextTask) := by
  obtain ⟨idle, empty⟩ := conserved.discarded gone
  have begun := conserved.begun
  have whole := conserved.whole
  rw [idle] at begun
  rw [empty, List.map_nil, List.append_nil] at whole
  exact ⟨idle, begun, whole⟩

theorem reliable_of_run {pool_size : Nat} (run : Run (Step ends) (construct pool_size) past last) :
    Reliable ends past last := by
  obtain ⟨conserved, -⟩ := constructed_run run
  constructor
  · exact conserved.whole
  · exact conserved.own
  · rintro before after life op rfl task result ready
    obtain ⟨next, first, step, later⟩ := run.split
    obtain ⟨conserved', closing'⟩ := constructed_run first
    obtain ⟨-, -, kept⟩ :=
      conserved_of_run later (conserved'.step closing' step) (closing'.step step)
    exact kept task result (ready_step conserved' step ready)
  · exact conserved.settled
  · exact conserved.counts

section OneThrows

def throwing (f : Bool) (result : Except String Nat) : Prop :=
  result = if f then .error "thrown" else .ok 7

def oneThrows : Lifetime Bool String Nat := construct (pool_size 2)

theorem throwing_total (f : Bool) : ∃ result, throwing f result := ⟨_, rfl⟩

theorem oneThrows_queued : ∃ past life, Run (Step throwing) oneThrows past life ∧
    life.pool.nextTask = 2 ∧ life.stopped = false ∧ 0 < life.pool.m_threads := by
  have start : Run (Step throwing) oneThrows [] oneThrows := .nil
  have run := start
    |>.snoc (.submit true rfl)
    |>.snoc (.submit false rfl)
  exact ⟨_, _, run, rfl, rfl, by decide⟩

theorem oneThrows_run : ∃ past last, Run (Step throwing) oneThrows past last ∧
    last.destroyed = true ∧ last.broken = [2] ∧ last.pool.getNumTasks = 2 := by
  have start : Run (Step throwing) oneThrows [] oneThrows := .nil
  have run := start
    |>.snoc (.submit false rfl)
    |>.snoc (.submit true rfl)
    |>.snoc (.start 0 [(0, false)] [] rfl (by decide) (by decide) rfl)
    |>.snoc (.finish 0 1 (.error "thrown") (by decide) rfl rfl)
    |>.snoc (.start 0 [] [] rfl (by decide) (by decide) rfl)
    |>.snoc (.submit true rfl)
    |>.snoc (.stop rfl)
    |>.snoc (.finish 0 0 (.ok 7) (by decide) rfl rfl)
    |>.snoc (.exit 0 rfl (by decide) (by decide) (by decide))
    |>.snoc (.destroy rfl (by decide) rfl)
  exact ⟨_, _, run, rfl, rfl, rfl⟩

theorem oneThrows_reliable : ∃ past last, Run (Step throwing) oneThrows past last ∧
    last.broken = [2] ∧ Reliable throwing past last := by
  obtain ⟨past, last, run, -, broken, -⟩ := oneThrows_run
  exact ⟨past, last, run, broken, reliable_of_run run⟩

end OneThrows
end Lifetime
end PackagedTask.Tasks
