import PackagedTask.Library.Runs
import PackagedTask.Library.StateError
import PackagedTask.Library.Tables

namespace PackagedTask.Tasks
open Library Library.StateError

/-! `core/threadpool.h`. A task is an object in memory, so a `size_t` can count the tasks that are
waiting or running. -/

def increment (count : Nat) : Nat := (count + 1) % 2 ^ 64

def decrement (count : Nat) : Nat := (count + (2 ^ 64 - 1)) % 2 ^ 64

/-- A `packaged_task` and the future that shares its state. -/
abbrev TaskRef := Nat

structure ThreadPool (φ ε ρ : Type) where
  m_threads : Nat
  m_io_serv : List (TaskRef × φ) := []
  m_num_tasks : Nat := 0
  running : List (Nat × TaskRef) := []
  ready : AList (fun _ : TaskRef => Except ε ρ) := ∅
  nextTask : TaskRef := 0

namespace ThreadPool
variable {φ ε ρ : Type}

def getNumTasks (pool : ThreadPool φ ε ρ) : Nat := pool.m_num_tasks

def submit (pool : ThreadPool φ ε ρ) (f : φ) : TaskRef × ThreadPool φ ε ρ :=
  (pool.nextTask,
    { pool with
      m_num_tasks := increment pool.m_num_tasks
      m_io_serv := pool.m_io_serv ++ [(pool.nextTask, f)]
      nextTask := pool.nextTask + 1 })

/-- `f` is how the wrapped call ends; an exception leaves before the count goes down. -/
def wrap_task (f : Except ε ρ) : EStateM ε Nat ρ := do
  let res ← match f with
    | .ok res => pure res
    | .error e => throw e
  modify decrement
  pure res

/-- `packaged_task::operator()` stores what `wrap_task` returns or throws. -/
def finish (pool : ThreadPool φ ε ρ) (worker : Nat) (task : TaskRef) (f : Except ε ρ) :
    ThreadPool φ ε ρ :=
  let left := { pool with running := pool.running.erase (worker, task) }
  match wrap_task f pool.m_num_tasks with
  | .ok res count =>
      { left with m_num_tasks := count, ready := pool.ready.insert task (.ok res) }
  | .error e count =>
      { left with m_num_tasks := count, ready := pool.ready.insert task (.error e) }

inductive Operation (φ ε ρ : Type)
  | submit (f : φ)
  | start (worker : Nat)
  | finish (worker : Nat) (f : Except ε ρ)

/-- Any thread may submit, also one inside a task. The `io_service` promises no order between its
workers: a start takes any task that waits. -/
inductive Step : Operation φ ε ρ → ThreadPool φ ε ρ → ThreadPool φ ε ρ → Prop
  | submit {pool} (f : φ) (room : pool.m_io_serv.length + pool.running.length + 1 < 2 ^ 64) :
      Step (.submit f) pool (pool.submit f).2
  | start {pool worker task f before rest} (thread : worker < pool.m_threads)
      (idle : worker ∉ pool.running.map Prod.fst)
      (waits : pool.m_io_serv = before ++ (task, f) :: rest) :
      Step (.start worker) pool
        { pool with m_io_serv := before ++ rest, running := (worker, task) :: pool.running }
  | finish {pool worker task} (f : Except ε ρ) (busy : (worker, task) ∈ pool.running) :
      Step (.finish worker f) pool (pool.finish worker task f)

def pending (pool : ThreadPool φ ε ρ) : List TaskRef :=
  (List.range pool.nextTask).filter fun task => (pool.ready.lookup task).isNone

structure Accurate (pool : ThreadPool φ ε ρ) : Prop where
  atRest : pool.running = [] → pool.getNumTasks = pool.pending.length
  readyUncounted : pool.getNumTasks ≤ pool.pending.length
  noWrap : pool.running ≠ [] → 0 < pool.m_num_tasks

structure Tracked (pool : ThreadPool φ ε ρ) : Prop where
  tasks : (pool.m_io_serv.map Prod.fst ++ pool.running.map Prod.snd ++ pool.ready.keys).Perm
    (List.range pool.nextTask)
  room : pool.m_io_serv.length + pool.running.length < 2 ^ 64

variable {pool : ThreadPool φ ε ρ}

theorem wrap_task_ok (res : ρ) (count : Nat) :
    wrap_task (ε := ε) (.ok res) count = .ok res (decrement count) := rfl

theorem wrap_task_error (e : ε) (count : Nat) :
    wrap_task (ρ := ρ) (.error e) count = .error e count := rfl

theorem Tracked.unfinished (tracked : pool.Tracked) {task : TaskRef}
    (waits : task ∈ pool.m_io_serv.map Prod.fst ++ pool.running.map Prod.snd) :
    task ∉ pool.ready := by
  have distinct := tracked.tasks.nodup_iff.mpr List.nodup_range
  exact fun done => List.disjoint_of_nodup_append distinct waits done

theorem Tracked.pending_length (tracked : pool.Tracked) :
    pool.pending.length = pool.m_io_serv.length + pool.running.length := by
  have waiting : ∀ task ∈ pool.m_io_serv.map Prod.fst ++ pool.running.map Prod.snd,
      (pool.ready.lookup task).isNone = true := by
    intro task waits
    rw [AList.lookup_eq_none.mpr (tracked.unfinished waits)]
    rfl
  have done : ∀ task ∈ pool.ready.keys, ¬ (pool.ready.lookup task).isNone = true := by
    intro task member
    simp [AList.lookup_isSome.mpr member, Option.isNone_iff_eq_none, ← Option.isSome_iff_ne_none]
  rw [pending, (tracked.tasks.filter _).length_eq.symm, List.filter_append,
    List.filter_eq_self.mpr waiting, List.filter_eq_nil_iff.mpr done]
  simp

theorem increment_eq {count : Nat} (room : count + 1 < 2 ^ 64) : increment count = count + 1 :=
  Nat.mod_eq_of_lt room

theorem decrement_succ {count : Nat} (room : count + 1 < 2 ^ 64) : decrement (count + 1) = count := by
  unfold decrement
  omega

def countAfter (count : Nat) : Except ε ρ → Nat
  | .ok _ => decrement count
  | .error _ => count

theorem finish_eq (pool : ThreadPool φ ε ρ) (worker : Nat) (task : TaskRef) (f : Except ε ρ) :
    pool.finish worker task f =
      { pool with
        m_num_tasks := countAfter pool.m_num_tasks f
        running := pool.running.erase (worker, task)
        ready := pool.ready.insert task f } := by
  cases f with
  | ok res => rw [finish, wrap_task_ok, countAfter]
  | error e => rw [finish, wrap_task_error, countAfter]

theorem Tracked.submit (tracked : pool.Tracked) (f : φ)
    (room : pool.m_io_serv.length + pool.running.length + 1 < 2 ^ 64) :
    (pool.submit f).2.Tracked where
  tasks := by
    simp only [ThreadPool.submit, List.map_append, List.map_cons, List.map_nil, List.range_succ]
    rw [List.append_assoc, List.append_assoc]
    refine (List.perm_append_comm_assoc _ _ _).trans ?_
    refine List.perm_append_comm.trans (List.Perm.append_right _ ?_)
    rw [← List.append_assoc]
    exact tracked.tasks
  room := by
    simp only [ThreadPool.submit, List.length_append, List.length_singleton]
    omega

theorem start_lengths (worker : Nat) {task : TaskRef} {f : φ} {before rest : List (TaskRef × φ)}
    (waits : pool.m_io_serv = before ++ (task, f) :: rest) :
    (before ++ rest).length + ((worker, task) :: pool.running).length =
      pool.m_io_serv.length + pool.running.length := by
  rw [waits]
  simp only [List.length_append, List.length_cons]
  omega

theorem Tracked.start (tracked : pool.Tracked) {worker : Nat} {task : TaskRef} {f : φ}
    {before rest : List (TaskRef × φ)} (waits : pool.m_io_serv = before ++ (task, f) :: rest) :
    Tracked
      { pool with m_io_serv := before ++ rest, running := (worker, task) :: pool.running } where
  tasks := by
    refine List.Perm.trans ?_ tracked.tasks
    rw [waits]
    simp only [List.map_append, List.map_cons, List.append_assoc, List.cons_append]
    exact List.Perm.append_left _ List.perm_middle
  room := (start_lengths _ waits).trans_lt tracked.room

theorem Tracked.finish (tracked : pool.Tracked) {worker : Nat} {task : TaskRef} (f : Except ε ρ)
    (busy : (worker, task) ∈ pool.running) : (pool.finish worker task f).Tracked where
  tasks := by
    have split := (List.perm_cons_erase busy).map Prod.snd
    have fresh : task ∉ pool.ready.keys := tracked.unfinished
      (List.mem_append_right _ (List.mem_map.mpr ⟨_, busy, rfl⟩))
    rw [finish_eq, AList.keys_insert, List.erase_of_not_mem fresh]
    refine List.Perm.trans ?_ tracked.tasks
    rw [List.append_assoc, List.append_assoc]
    refine List.Perm.append_left _ (List.perm_middle.trans ?_)
    rw [← List.cons_append]
    exact (split.append_right _).symm
  room := by
    have fewer := List.length_erase_le (a := (worker, task)) (l := pool.running)
    have room := tracked.room
    rw [finish_eq]
    simp only
    omega

def Operation.Returns : Operation φ ε ρ → Prop
  | .finish _ (.error _) => False
  | _ => True

/-- Nothing has thrown so far: the count is exact whatever the workers do. -/
structure Exact (pool : ThreadPool φ ε ρ) : Prop where
  tracked : pool.Tracked
  count : pool.m_num_tasks = pool.m_io_serv.length + pool.running.length

theorem Exact.accurate (exact : pool.Exact) : pool.Accurate where
  atRest := fun _ => exact.count.trans exact.tracked.pending_length.symm
  readyUncounted := (exact.count.trans exact.tracked.pending_length.symm).le
  noWrap := by
    intro busy
    have some := List.length_pos_iff.mpr busy
    rw [exact.count]
    omega

theorem finish_lengths {worker : Nat} {task : TaskRef} (f : Except ε ρ)
    (busy : (worker, task) ∈ pool.running) :
    (pool.finish worker task f).m_io_serv.length + (pool.finish worker task f).running.length + 1 =
      pool.m_io_serv.length + pool.running.length := by
  have fewer := List.length_erase_of_mem busy
  have some := List.length_pos_of_mem busy
  rw [finish_eq]
  simp only
  omega

theorem Exact.step {pool after : ThreadPool φ ε ρ} {op : Operation φ ε ρ} (exact : pool.Exact)
    (next : Step op pool after) :
    (after.Accurate ↔ op.Returns) ∧ (op.Returns → after.Exact) := by
  cases next with
  | submit f room =>
      have exact' : (pool.submit f).2.Exact := by
        refine ⟨exact.tracked.submit f room, ?_⟩
        simp only [ThreadPool.submit, List.length_append, List.length_singleton]
        rw [exact.count, increment_eq room]
        omega
      exact ⟨iff_of_true exact'.accurate trivial, fun _ => exact'⟩
  | @start _ worker task f before rest thread idle waits =>
      have exact' : Exact
          { pool with m_io_serv := before ++ rest, running := (worker, task) :: pool.running } :=
        ⟨exact.tracked.start waits, exact.count.trans (start_lengths worker waits).symm⟩
      exact ⟨iff_of_true exact'.accurate trivial, fun _ => exact'⟩
  | @finish _ worker task f busy =>
      have tracked := exact.tracked.finish f busy
      have lengths := finish_lengths f busy
      have room := exact.tracked.room
      cases f with
      | ok res =>
          have exact' : (pool.finish worker task (.ok res)).Exact := by
            refine ⟨tracked, ?_⟩
            have count : (pool.finish worker task (.ok res)).m_num_tasks =
                decrement pool.m_num_tasks := by rw [finish_eq, countAfter]
            rw [count, exact.count, ← lengths, decrement_succ (by omega)]
          exact ⟨iff_of_true exact'.accurate trivial, fun _ => exact'⟩
      | error e =>
          refine ⟨iff_of_false ?_ id, fun returns => returns.elim⟩
          -- the exception skips the decrement, so the finished task stays counted
          intro accurate
          have count : (pool.finish worker task (.error e)).m_num_tasks = pool.m_num_tasks := by
            rw [finish_eq, countAfter]
          have bound := accurate.readyUncounted
          rw [getNumTasks, tracked.pending_length, count, exact.count] at bound
          omega

theorem initial_exact (m_threads : Nat) : ({ m_threads := m_threads } : ThreadPool φ ε ρ).Exact :=
  ⟨⟨.refl _, by simp⟩, rfl⟩

theorem accurate_iff {m_threads : Nat} {past : List (ThreadPool φ ε ρ × Operation φ ε ρ)}
    {last : ThreadPool φ ε ρ} (run : Run Step { m_threads := m_threads } past last) :
    Always Accurate past last ↔ ∀ entry ∈ past, entry.2.Returns :=
  run.always_iff (initial_exact m_threads) Exact.accurate Exact.step

section OneTask

def oneWorker : ThreadPool Unit String Nat := { m_threads := 1 }

def oneBusy : ThreadPool Unit String Nat :=
  { (oneWorker.submit ()).2 with m_io_serv := [], running := [(0, 0)] }

def oneTask (f : Except String Nat) :
    List (ThreadPool Unit String Nat × Operation Unit String Nat) :=
  [(oneWorker, .submit ()), ((oneWorker.submit ()).2, .start 0), (oneBusy, .finish 0 f)]

theorem oneTask_run (f : Except String Nat) :
    Run Step oneWorker (oneTask f) (oneBusy.finish 0 0 f) := by
  have room : oneWorker.m_io_serv.length + oneWorker.running.length + 1 < 2 ^ 64 := by
    simp [oneWorker]
  have waits : (oneWorker.submit ()).2.m_io_serv = [] ++ (0, ()) :: [] := rfl
  exact .snoc (.snoc (.snoc .nil (.submit () room)) (.start Nat.zero_lt_one List.not_mem_nil waits))
    (.finish f List.mem_cons_self)

theorem accurate_iff_returned :
    Always Accurate (oneTask (.ok 5)) (oneBusy.finish 0 0 (.ok 5)) :=
  (accurate_iff (oneTask_run (.ok 5))).mpr (by simp [oneTask, Operation.Returns])

theorem oneTask_miscounted : ∃ past last,
    Run Step oneWorker past last ∧ ¬ Always Accurate past last := by
  refine ⟨_, _, oneTask_run (.error "thrown"), fun always => ?_⟩
  have count := always.2.atRest (by simp [finish_eq, oneBusy])
  rw [getNumTasks, finish_eq, countAfter] at count
  exact absurd count (by decide)

end OneTask

end ThreadPool
end PackagedTask.Tasks
