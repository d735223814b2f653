import PackagedTask.Network.Connections

namespace PackagedTask.Network.Connections
open Streams Library

/-! Each connection runs as it would with streams that were values. -/

variable {κ α ε : Type} [DecidableEq κ]

section Steps
variable {program next : Connections κ α} {this other : κ} {event : Event α ε}

/-- A pass that one connection by itself makes too. -/
structure Passed (program : Connections κ α) (this : κ) (event : Event α ε)
    (next : Connections κ α) : Prop where
  sound : next.Sound
  spares : program.Spares this next
  alike : Connection.Step event (program.seen this) (next.seen this)

theorem Sound.readPass (sound : program.Sound) {receivedPackedCount : Nat} {outcome : Outcome α}
    {now : Int} (inLoop : (program.connections this).position = .reading receivedPackedCount)
    (ran : program.readPass this receivedPackedCount outcome now = .ok (event, next)) :
    program.Passed this event next := by
  have others (other : κ) (apart : other ≠ this) :
      (program.connections other).position = .outside :=
    sound.others (by simp [inLoop]) apart
  have step := @Connection.Step.read α ε (program.seen this) receivedPackedCount outcome now
    (fun _ => 0) inLoop
  have stopped : (program.moveTo this .processing).Sound ∧
      program.Spares this (program.moveTo this .processing) ∧
      (program.moveTo this .processing).seen this =
        { program.seen this with position := .processing } :=
    ⟨sound.moveTo others, moveTo_spares _ _ _, moveTo_seen _ _ _⟩
  unfold Connections.readPass at ran
  unfold Connection.readPass at step
  split at ran
  · rename_i few
    rw [if_pos few] at step
    cases outcome with
    | datagram datagram =>
        obtain ⟨queued, queues, received⟩ := sound.receives this datagram now
        simp only [queues, bind, Except.bind, pure, Except.pure, Except.ok.injEq] at ran
        cases ran
        have spares := received.spares
        refine ⟨received.sound.moveTo fun other apart => ?_, ⟨?_, spares.streams⟩, ?_⟩
        · rw [spares.object other apart]
          exact others other apart
        · intro other apart
          rw [(moveTo_spares queued this _).object other apart, spares.object other apart]
        · rw [moveTo_seen, received.seen]
          exact step
    | empty =>
        cases ran
        exact ⟨stopped.1, stopped.2.1, stopped.2.2 ▸ step⟩
    | error connection_reset =>
        cases ran
        exact ⟨sound, ⟨fun _ _ => rfl, fun _ _ _ => .refl _ _⟩, step⟩
  · rename_i many
    rw [if_neg many] at step
    cases ran
    exact ⟨stopped.1, stopped.2.1, stopped.2.2 ▸ step⟩

theorem processPass_left {position : Position} (sound : program.Sound)
    (others : ∀ other, other ≠ this → (program.connections other).position = .outside)
    (alike : Connection.Step event (program.seen this) { program.seen this with position }) :
    program.Passed this event (program.moveTo this position) :=
  ⟨sound.moveTo others, moveTo_spares _ _ _, moveTo_seen program this position ▸ alike⟩

theorem step_of_processPass {connection after : Connection α} (now : Int)
    (processPacket : InputMemoryStream → α → Except ε Unit × InputMemoryStream)
    (inLoop : connection.position = .processing)
    (pass : connection.processPass now processPacket = (event, after)) :
    Connection.Step event connection after := by
  have step := Connection.Step.process now processPacket inLoop
  rwa [pass] at step

section Handing
variable {nextPacket : QueuedPacket α} {rest : List (QueuedPacket α)} {now : Int}

theorem Sound.popped (sound : program.Sound)
    (inLoop : (program.connections this).position = .processing)
    (front : (program.connections this).mPacketQueue = nextPacket :: rest)
    (late : now > nextPacket.mReceivedTime)
    (object : next.connections = Function.update program.connections this
      { program.connections this with mPacketQueue := rest }) (valid : next.streams.Valid)
    (streams : ∀ index, index ≠ some (this, nextPacket.packet) →
      program.streams.Unchanged index next.streams index) :
    program.Passed this (.handed nextPacket.packet
      (program.streams.view (some (this, nextPacket.packet))) nextPacket.mFromAddress now
        (.ok () : Except ε Unit)) next := by
  have static := streams none (Option.some_ne_none _).symm
  refine ⟨sound.touched valid static ?_ ?_ ?_, ⟨?_, ?_⟩, ?_⟩
  rotate_left 3
  · intro other apart
    rw [object, Function.update_of_ne apart]
  · exact fun other apart packet => streams _ (by simp [apart])
  · have after : next.seen this =
        { program.seen this with mPacketQueue := rest.map (program.node this) } := by
      rw [← rest_nodes sound front streams]
      simp only [seen, object, Function.update_self, static.view]
    refine step_of_processPass now (fun stream _ => (.ok (), stream)) inLoop ?_
    rw [after]
    simp [Connection.processPass, seen, front, node, late]
  all_goals
    intro other
    rw [object]
    by_cases here : other = this
    · subst here
      simp [front]
    · rw [Function.update_of_ne here]

theorem Sound.thrown {after : StreamStore (StreamRef κ)} (sound : program.Sound)
    (inLoop : (program.connections this).position = .processing)
    (front : (program.connections this).mPacketQueue = nextPacket :: rest)
    (late : now > nextPacket.mReceivedTime) (valid : after.Valid)
    (streams : ∀ index, index ≠ some (this, nextPacket.packet) →
      program.streams.Unchanged index after index) (e : ε) :
    program.Passed this (.handed nextPacket.packet
      (program.streams.view (some (this, nextPacket.packet))) nextPacket.mFromAddress now (.error e))
        ({ program with streams := after }.moveTo this .outside) := by
  generalize told : ({ program with streams := after } : Connections κ α) = read
  have object : read.connections = program.connections := by rw [← told]
  have kept : ∀ index, index ≠ some (this, nextPacket.packet) →
      program.streams.Unchanged index read.streams index := told ▸ streams
  have static := kept none (Option.some_ne_none _).symm
  have whole : read.Sound := sound.touched (told ▸ valid) static (by simp [object])
    (by simp [object]) (by simp [object])
  refine ⟨whole.moveTo fun other apart => ?_, ⟨?_, ?_⟩, ?_⟩
  · rw [object]
    exact sound.others (by simp [inLoop]) apart
  · intro other apart
    rw [(moveTo_spares read this _).object other apart, object]
  · exact fun other apart packet => kept _ (by simp [apart])
  · refine step_of_processPass now (fun _ _ =>
      (.error e, read.streams.view (some (this, nextPacket.packet)))) inLoop ?_
    rw [moveTo_seen]
    simp only [Connection.processPass, seen, front, List.map_cons, node, if_pos late, object,
      static.view]
    rw [rest_nodes sound front kept]

end Handing

theorem Sound.processPass (sound : program.Sound) {now : Int} {reads : Reads}
    {result : Except ε Unit} (inLoop : (program.connections this).position = .processing) :
    program.Passed this (program.processPass this now reads result).1
      (program.processPass this now reads result).2 := by
  have others (other : κ) (apart : other ≠ this) :
      (program.connections other).position = .outside :=
    sound.others (by simp [inLoop]) apart
  have left (event : Event α ε) (pass : ∀ processPacket,
      (program.seen this).processPass now processPacket =
        (event, { program.seen this with position := .outside })) :=
    processPass_left sound others
      (step_of_processPass now (fun stream _ => (result, stream)) inLoop (pass _))
  cases front : (program.connections this).mPacketQueue with
  | nil =>
      simp only [Connections.processPass, front]
      apply left
      intro processPacket
      simp [Connection.processPass, seen, front]
  | cons nextPacket rest =>
      have valid : (reads.run (some (this, nextPacket.packet)) program.streams).2.Valid :=
        StreamStore.run_reads_valid sound.valid reads
      have read (index : StreamRef κ) (apart : index ≠ some (this, nextPacket.packet)) :
          program.streams.Unchanged index
            (reads.run (some (this, nextPacket.packet)) program.streams).2 index :=
        StreamStore.run_unchanged reads apart
      simp only [Connections.processPass, front]
      by_cases late : now > nextPacket.mReceivedTime
      · rw [if_pos late]
        cases result with
        | ok done =>
            exact sound.popped inLoop front late rfl (StreamStore.destroy_valid valid)
              fun index apart =>
                (read index apart).trans (StreamStore.destroy_unchanged valid.owns apart)
        | error e => exact sound.thrown inLoop front late valid read e
      · rw [if_neg late]
        apply left
        intro processPacket
        simp [Connection.processPass, seen, front, node, late]

theorem Sound.step (sound : program.Sound) (step : Step (this, event) program next) :
    program.Passed this event next ∧
      ∀ other, other ≠ this → (program.connections other).position = .outside := by
  cases step with
  | call between =>
      refine ⟨⟨sound.moveTo fun other _ => between other, moveTo_spares program this _, ?_⟩,
        fun other _ => between other⟩
      rw [moveTo_seen]
      exact .call (between this)
  | read outcome now inLoop ran =>
      exact ⟨sound.readPass inLoop ran, fun other => sound.others (by simp [inLoop])⟩
  | process now reads result inLoop inside =>
      exact ⟨sound.processPass inLoop, fun other => sound.others (by simp [inLoop])⟩

end Steps

omit [DecidableEq κ] in
theorem start_sound : (start : Connections κ α).Sound where
  valid := by
    refine ⟨⟨?_, ?_, ?_⟩, ?_⟩
    · intro index ref owned
      cases index <;> simp_all [start]
    · intro first second ref owned also
      cases first <;> cases second <;> simp_all [start]
    · intro ref used
      simp only [start] at used ⊢
      split at used
      · next first => exact first ▸ Nat.zero_lt_one
      · exact absurd rfl used
    · intro index
      cases index <;> simp [StreamStore.Fits, StreamStore.allocation, start]
  owned := by simp [start]
  room := by simp [StreamStore.allocation, start]
  reset := by simp [start]
  numbered := by simp [start]
  distinct := by simp [start]
  alone := by simp [start]

omit [DecidableEq κ] in
theorem start_seen (this : κ) : (start : Connections κ α).seen this = Connection.first := by
  simp only [seen, start, List.map_nil, Connection.first, Connection.mk.injEq, and_self, and_true]
  simp [StreamStore.view, StreamStore.allocation]

/-- What a step is to one of the connections. -/
def share (this : κ) (step : κ × Event α ε) : Event α ε :=
  if step.1 = this then step.2 else .elsewhere

section Runs
variable {past : List (Connections κ α × κ × Event α ε)} {last : Connections κ α}

/-- Each connection runs as it would by itself, and the memory of the streams stays sound. -/
theorem seen_of_run (run : Run Step start past last) (this : κ) :
    Run Connection.Step Connection.first
      (past.map fun entry => (entry.1.seen this, share this entry.2)) (last.seen this) ∧
        last.Sound := by
  rw [← start_seen this]
  refine run.map (fun program => program.seen this) (share this) start_sound ?_
  rintro ⟨other, event⟩ program next sound step
  obtain ⟨passed, between⟩ := sound.step step
  refine ⟨passed.sound, ?_⟩
  rw [share]
  by_cases here : other = this
  · subst here
    rw [if_pos rfl]
    exact passed.alike
  · rw [if_neg here]
    exact passed.spares.elsewhere passed.sound (Ne.symm here) (between this (Ne.symm here))

theorem filterMap_share {ω : Type} {told : Event α ε → Option ω}
    (silent : told .elsewhere = none) (this : κ) :
    (past.map fun entry => share this entry.2).filterMap told =
      (eventsOf this past).filterMap told := by
  rw [eventsOf, List.filterMap_map, List.filterMap_filterMap]
  congr 1
  funext entry
  by_cases here : entry.2.1 = this <;> simp [share, here, silent]

/-- Whatever comes in, no pass that receives it leaves the memory of the streams, and each packet
that waits in some queue keeps its buffer, the bytes in it and its head. -/
def Isolates (ε : Type) (program : Connections κ α) : Prop :=
  ∀ this receivedPackedCount outcome now, ∃ (event : Event α ε) (next : Connections κ α),
    program.readPass this receivedPackedCount outcome now = .ok (event, next) ∧
      ∀ other, ∀ queued ∈ (program.connections other).mPacketQueue, program.streams.Unchanged
        (some (other, queued.packet)) next.streams (some (other, queued.packet))

theorem Sound.isolates (sound : last.Sound) : last.Isolates ε := by
  intro this receivedPackedCount outcome now
  by_cases few : receivedPackedCount < kMaxPacketsPerFrameCount
  · cases outcome with
    | datagram datagram =>
        obtain ⟨queued, queues, received⟩ := sound.receives this datagram now
        refine ⟨.received datagram now, queued.moveTo this (.reading (receivedPackedCount + 1)), ?_,
          fun _ packet listed => received.isolated sound packet listed⟩
        simp only [Connections.readPass, if_pos few, queues, bind, Except.bind, pure, Except.pure]
    | empty =>
        exact ⟨.readAll, last.moveTo this .processing, if_pos few, fun _ _ _ => .refl _ _⟩
    | error connection_reset =>
        exact ⟨.failed connection_reset, last, if_pos few, fun _ _ _ => .refl _ _⟩
  · exact ⟨.readAll, last.moveTo this .processing, if_neg few, fun _ _ _ => .refl _ _⟩

theorem handed_of_run (run : Run Step start past last)
    (returns : ∀ entry ∈ past, entry.2.2.Returns) (this : κ) :
    PrefixHanded (eventsOf this past) := by
  have returned : ∀ entry ∈ past.map fun entry => (entry.1.seen this, share this entry.2),
      entry.2.Returns := by
    intro entry listed
    obtain ⟨before, among, rfl⟩ := List.mem_map.mp listed
    dsimp only [share]
    split
    · exact returns before among
    · exact trivial
  obtain ⟨once, count, presents⟩ :=
    (Connection.faithful_of_run (seen_of_run run this).1 returned).handed
  have handed : handedOver _ = handedOver (eventsOf this past) := filterMap_share rfl this
  have received : received _ = received (eventsOf this past) := filterMap_share rfl this
  simp only [EachOnce, List.map_map, Function.comp_def, handed, received] at once count presents
  exact ⟨once, count, presents⟩

theorem prefixHanded (run : Run Step start past last)
    (returns : ∀ entry ∈ past, entry.2.2.Returns) (this : κ) :
    PrefixHanded (eventsOf this past) ∧ last.Isolates ε :=
  ⟨handed_of_run run returns this, (seen_of_run run this).2.isolates⟩

end Runs

section TwoDatagrams

inductive Choice
  | call (this : Bool)
  | read (this : Bool) (outcome : Outcome String) (now : Int)
  | process (this : Bool) (now : Int) (reads : Reads)

def choose (program : Connections Bool String) :
    Choice → Option ((Bool × Event String Unit) × Connections Bool String)
  | .call this =>
      if (program.connections true).position = .outside ∧
          (program.connections false).position = .outside then
        some ((this, .called), program.moveTo this (.reading 0))
      else none
  | .read this outcome now =>
      match (program.connections this).position with
      | .reading receivedPackedCount =>
          match program.readPass this receivedPackedCount outcome now with
          | .ok (event, next) => some ((this, event), next)
          | .error _ => none
      | _ => none
  | .process this now reads =>
      let pass := program.processPass this now reads (.ok ())
      if (program.connections this).position = .processing ∧
          (program.connections this).mPacketQueue.head?.all (fun nextPacket =>
            (reads.run (some (this, nextPacket.packet)) program.streams).1.all fun result =>
              result.toOption.isSome) = true then
        some ((this, pass.1), pass.2)
      else none

theorem choose_step {program next : Connections Bool String} {choice : Choice}
    {step : Bool × Event String Unit} (chosen : choose program choice = some (step, next)) :
    Step step program next := by
  cases choice with
  | call this =>
      simp only [choose, Option.ite_none_right_eq_some, Option.some.injEq, Prod.mk.injEq] at chosen
      obtain ⟨⟨first, second⟩, rfl, rfl⟩ := chosen
      exact .call fun other => by cases other <;> assumption
  | read this outcome now =>
      simp only [choose] at chosen
      split at chosen
      · rename_i inLoop
        split at chosen
        · rename_i ran
          cases chosen
          exact .read outcome now inLoop ran
        · cases chosen
      · cases chosen
  | process this now reads =>
      simp only [choose, Option.ite_none_right_eq_some, Option.some.injEq, Prod.mk.injEq] at chosen
      obtain ⟨⟨inLoop, inside⟩, rfl, rfl⟩ := chosen
      refine .process now reads (.ok ()) inLoop fun nextPacket front undefined => ?_
      rw [Option.mem_def] at front
      rw [front, Option.all_some, List.all_eq_true] at inside
      cases inside _ undefined

def oneByte : Datagram String := ⟨[9], "peer", by decide, by decide⟩

/-- Three bytes come in, then for another connection one, then one; the handler reads two bytes of
the first packet. -/
def twoDatagrams : List Choice :=
  [.call true, .read true (.datagram Connection.ping) 5, .read true .empty 5, .process true 5 .done,
    .call false, .read false (.datagram oneByte) 5, .read false .empty 5, .process false 5 .done,
    .call true, .read true (.datagram oneByte) 6, .read true .empty 6,
    .process true 7 (.read 2 fun _ => .done), .process true 7 (.read 1 fun _ => .done)]

theorem twoDatagrams_performed : ((perform choose start twoDatagrams).map fun run =>
    (run.1.all fun entry => entry.2.2.Returns,
      (received (eventsOf true run.1)).map Datagram.bytes,
      (handedOver (eventsOf true run.1)).length)) = some (true, [[1, 2, 3], [9]], 2) := by
  decide +kernel

theorem prefixHanded_twoDatagrams :
    ∃ (past : List (Connections Bool String × Bool × Event String Unit)) (last : _),
      Run Step start past last ∧
      (received (eventsOf true past)).map Datagram.bytes = [[1, 2, 3], [9]] ∧
      (handedOver (eventsOf true past)).length = 2 ∧
      PrefixHanded (eventsOf true past) ∧ last.Isolates Unit := by
  obtain ⟨⟨past, last⟩, performed, shown⟩ := Option.map_eq_some_iff.mp twoDatagrams_performed
  simp only [Prod.mk.injEq] at shown
  obtain ⟨returns, arrived, handed⟩ := shown
  have run : Run Step start past last := perform_run choose_step performed
  rw [List.all_eq_true] at returns
  exact ⟨past, last, run, arrived, handed,
    prefixHanded run (fun entry listed => of_decide_eq_true (returns entry listed)) true⟩

end TwoDatagrams

end PackagedTask.Network.Connections
