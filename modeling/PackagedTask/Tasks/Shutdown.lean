import PackagedTask.Tasks.Lifetime

namespace PackagedTask.Tasks.Lifetime
open Library

variable {φ ε ρ : Type} {ends : φ → Except ε ρ → Prop} {life : Lifetime φ ε ρ} {started : List TaskRef}
  {past : List (Lifetime φ ε ρ × Operation φ ε ρ)}

def Operation.Works : Operation φ ε ρ → Prop
  | .start _ _ | .finish _ _ _ => True
  | _ => False

/-- The steps of the destructor, and of the workers that it waits for. -/
def Operation.Closes : Operation φ ε ρ → Prop
  | .finish _ _ _ | .stop | .exit _ | .destroy => True
  | _ => False

theorem Conserved.wraps (conserved : Conserved ends life started) {worker : Nat} {task : TaskRef}
    (busy : (worker, task) ∈ life.pool.running) : ∃ f, life.wrapped[task]? = some f := by
  have begun : task ∈ started :=
    conserved.begun.subset (List.mem_append_left _ (List.mem_map.mpr ⟨_, busy, rfl⟩))
  have bound : task < life.wrapped.length := by
    rw [conserved.named]
    exact List.mem_range.mp
      (conserved.whole.subset (List.mem_append_left _ (List.mem_append_left _ begun)))
  exact ⟨_, List.getElem?_eq_getElem bound⟩

theorem Conserved.ends_one (conserved : Conserved ends life started)
    (total : ∀ f, ∃ result, ends f result) {worker : Nat} {task : TaskRef}
    (busy : (worker, task) ∈ life.pool.running) :
    ∃ result, Step ends (.finish worker task result) life
        { life with pool := life.pool.finish worker task result } ∧
      Conserved ends { life with pool := life.pool.finish worker task result } started ∧
      (life.pool.finish worker task result).running.length + 1 = life.pool.running.length := by
  obtain ⟨f, wraps⟩ := conserved.wraps busy
  obtain ⟨result, ending⟩ := total f
  have fewer := List.length_erase_of_mem busy
  have some' := List.length_pos_of_mem busy
  refine ⟨result, .finish worker task result busy wraps ending, conserved.finish busy wraps ending, ?_⟩
  rw [ThreadPool.finish_eq]
  simp only
  omega

structure Draining (ends : φ → Except ε ρ → Prop) (threads nextTask : Nat) (life : Lifetime φ ε ρ) :
    Prop where
  conserved : ∃ started, Conserved ends life started
  closing : Closing life
  alive : life.destroyed = false
  goes : life.stopped = false
  size : life.pool.m_threads = threads
  tasks : life.pool.nextTask = nextTask

theorem Draining.closer {threads nextTask : Nat} (draining : Draining ends threads nextTask life)
    (total : ∀ f, ∃ result, ends f result) (some' : 0 < threads)
    (short : ¬ (life.pool.m_io_serv = [] ∧ life.pool.running = [])) :
    ∃ op after, Step ends op life after ∧ op.Works ∧ Draining ends threads nextTask after ∧
      2 * after.pool.m_io_serv.length + after.pool.running.length <
        2 * life.pool.m_io_serv.length + life.pool.running.length := by
  obtain ⟨⟨started, conserved⟩, closing, alive, goes, size, tasks⟩ := draining
  cases busy : life.pool.running with
  | cons entry running =>
      obtain ⟨worker, task⟩ := entry
      have member : (worker, task) ∈ life.pool.running := by simp [busy]
      obtain ⟨result, step, conserved', fewer⟩ := conserved.ends_one total member
      refine ⟨_, _, step, trivial,
        ⟨⟨started, conserved'⟩, closing.step step, alive, goes, ?_, ?_⟩, ?_⟩
      · rw [ThreadPool.finish_eq]
        exact size
      · rw [ThreadPool.finish_eq]
        exact tasks
      · rw [busy, List.length_cons] at fewer
        have queue : (life.pool.finish worker task result).m_io_serv = life.pool.m_io_serv := by
          rw [ThreadPool.finish_eq]
        simp only [queue, List.length_cons]
        omega
  | nil =>
      cases front : life.pool.m_io_serv with
      | nil => exact (short ⟨front, busy⟩).elim
      | cons entry rest =>
          obtain ⟨task, f⟩ := entry
          have stays : 0 ∉ life.exited := by
            intro left
            have stopped := closing.left 0 left
            rw [goes] at stopped
            cases stopped
          have thread : 0 < life.pool.m_threads := size ▸ some'
          have step : Step ends (.start 0 task) life _ :=
            .start 0 [] rest goes thread (by simp [busy]) front
          refine ⟨_, _, step, trivial, ⟨⟨_, conserved.start alive thread stays front⟩,
            closing.step step, alive, goes, size, tasks⟩, ?_⟩
          simp only [List.nil_append, List.length_cons, busy, List.length_nil]
          omega

theorem can_drain {pool_size : Nat} (run : Run (Step ends) (construct pool_size) past life)
    (total : ∀ f, ∃ result, ends f result) (goes : life.stopped = false)
    (threads : 0 < life.pool.m_threads) :
    ∃ rest last, Run (Step ends) life rest last ∧ (∀ entry ∈ rest, entry.2.Works) ∧
      last.pool.nextTask = life.pool.nextTask ∧
      last.pool.ready.keys.Perm (List.range last.pool.nextTask) := by
  obtain ⟨conserved, closing⟩ := constructed_run run
  have alive : life.destroyed = false := by
    cases gone : life.destroyed with
    | false => rfl
    | true =>
        rw [closing.closed gone] at goes
        cases goes
  obtain ⟨rest, last, run', works, draining, empty, idle⟩ :=
    Run.reaches (fun life : Lifetime φ ε ρ => 2 * life.pool.m_io_serv.length + life.pool.running.length)
      (fun _ draining short => draining.closer total threads short)
      (⟨⟨_, conserved⟩, closing, alive, goes, rfl, rfl⟩ :
        Draining ends life.pool.m_threads life.pool.nextTask life)
  refine ⟨rest, last, run', works, draining.tasks, ?_⟩
  obtain ⟨started', conserved'⟩ := draining.conserved
  have whole := conserved'.whole
  rw [empty, conserved'.kept draining.alive, List.map_nil, List.append_nil, List.append_nil] at whole
  have begun := conserved'.begun
  rw [idle] at begun
  exact begun.trans whole

def unjoined (life : Lifetime φ ε ρ) : List Nat :=
  (List.range life.pool.m_threads).filter fun worker => worker ∉ life.exited

theorem unjoined_exit (life : Lifetime φ ε ρ) (worker : Nat) :
    unjoined { life with exited := worker :: life.exited } = life.unjoined.erase worker := by
  have distinct : life.unjoined.Nodup := List.nodup_range.filter _
  rw [distinct.erase_eq_filter, unjoined, unjoined, List.filter_filter]
  apply List.filter_congr
  intro other _
  by_cases same : other = worker <;> simp [same]

def unfinished (life : Lifetime φ ε ρ) : Nat :=
  life.pool.running.length + life.unjoined.length + (if life.stopped then 0 else 1) +
    (if life.destroyed then 0 else 1)

theorem Conserved.closer (conserved : Conserved ends life started) (closing : Closing life)
    (total : ∀ f, ∃ result, ends f result) (alive : life.destroyed = false) :
    ∃ op after, Step ends op life after ∧ op.Closes ∧
      ((∃ started, Conserved ends after started) ∧ Closing after) ∧
      after.unfinished < life.unfinished := by
  cases busy : life.pool.running with
  | cons entry running =>
      obtain ⟨worker, task⟩ := entry
      have member : (worker, task) ∈ life.pool.running := by simp [busy]
      obtain ⟨result, step, conserved', fewer⟩ := conserved.ends_one total member
      refine ⟨_, _, step, trivial, ⟨⟨started, conserved'⟩, closing.step step⟩, ?_⟩
      have same : unjoined { life with pool := life.pool.finish worker task result } =
          life.unjoined := by
        rw [ThreadPool.finish_eq]
        rfl
      simp only [unfinished, same]
      omega
  | nil =>
      by_cases stopped : life.stopped = true
      · cases staying : life.unjoined with
        | cons worker others =>
            have member : worker ∈ life.unjoined := by simp [staying]
            have fewer := List.length_erase_of_mem member
            have some' := List.length_pos_of_mem member
            have exits := unjoined_exit life worker
            rw [unjoined, List.mem_filter, List.mem_range, decide_eq_true_iff] at member
            have step : Step ends (.exit worker) life _ :=
              .exit worker stopped member.1 (by simp [busy]) member.2
            refine ⟨_, _, step, trivial,
              ⟨⟨started, conserved.exit (by simp [busy])⟩, closing.step step⟩, ?_⟩
            simp only [unfinished, exits]
            omega
        | nil =>
            have joined : ∀ worker < life.pool.m_threads, worker ∈ life.exited := by
              intro worker thread
              by_contra staying'
              have member : worker ∈ life.unjoined := by
                simp [unjoined, thread, staying']
              rw [staying] at member
              cases member
            have step : Step ends .destroy life _ := .destroy stopped joined alive
            refine ⟨_, _, step, trivial,
              ⟨⟨started, conserved.destroy alive joined⟩, closing.step step⟩, ?_⟩
            simp [unfinished, alive, unjoined]
      · have step : Step ends .stop life _ := .stop (by simpa using stopped)
        refine ⟨_, _, step, trivial, ⟨⟨_, conserved.step closing step⟩, closing.step step⟩, ?_⟩
        simp [unfinished, stopped, unjoined]

theorem can_destroy {pool_size : Nat} (run : Run (Step ends) (construct pool_size) past life)
    (total : ∀ f, ∃ result, ends f result) :
    ∃ rest last, Run (Step ends) life rest last ∧ (∀ entry ∈ rest, entry.2.Closes) ∧
      last.destroyed = true ∧ last.pool.running = [] ∧
      (last.pool.ready.keys ++ last.broken).Perm (List.range last.pool.nextTask) := by
  obtain ⟨conserved, closing⟩ := constructed_run run
  have ending : ∃ rest last, Run (Step ends) life rest last ∧ (∀ entry ∈ rest, entry.2.Closes) ∧
      ((∃ started, Conserved ends last started) ∧ Closing last) ∧ last.destroyed = true := by
    refine Run.reaches unfinished ?_ ⟨⟨_, conserved⟩, closing⟩
    rintro life ⟨⟨started, conserved⟩, closing⟩ short
    exact conserved.closer closing total (by simpa using short)
  obtain ⟨rest, last, run', closes, -, gone⟩ := ending
  obtain ⟨idle, ready, whole⟩ := (constructed_run (run.trans run')).1.settled gone
  exact ⟨rest, last, run', closes, gone, idle, (ready.append_right _).trans whole⟩

section OneThrows

theorem oneThrows_drains : ∃ past life, Run (Step throwing) oneThrows past life ∧
    ∃ rest last, Run (Step throwing) life rest last ∧ (∀ entry ∈ rest, entry.2.Works) ∧
      last.pool.nextTask = 2 ∧ last.pool.ready.keys.Perm (List.range last.pool.nextTask) := by
  obtain ⟨past, life, run, tasks, goes, threads⟩ := oneThrows_queued
  obtain ⟨rest, last, run', works, same, ready⟩ := can_drain run throwing_total goes threads
  exact ⟨past, life, run, rest, last, run', works, same.trans tasks, ready⟩

theorem oneThrows_destroyed : ∃ past life, Run (Step throwing) oneThrows past life ∧
    ∃ rest last, Run (Step throwing) life rest last ∧ (∀ entry ∈ rest, entry.2.Closes) ∧
      last.destroyed = true ∧ last.pool.running = [] ∧
      (last.pool.ready.keys ++ last.broken).Perm (List.range last.pool.nextTask) := by
  obtain ⟨past, life, run, -⟩ := oneThrows_queued
  exact ⟨past, life, run, can_destroy run throwing_total⟩

end OneThrows
end PackagedTask.Tasks.Lifetime
