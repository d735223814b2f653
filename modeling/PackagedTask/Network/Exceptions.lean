import PackagedTask.Network.Handing

namespace PackagedTask.Network
open Streams Library

/-! What a handler that throws does to the queue. -/

variable {α ε : Type}

def Event.Calls : Event α ε → Prop
  | .called => True
  | _ => False

def Tolerated (events : List (Event α ε)) : Prop :=
  events.Pairwise fun event later => ¬ event.Returns → ¬ later.Calls

variable {events : List (Event α ε)} {event : Event α ε}

theorem tolerated_concat :
    Tolerated (events ++ [event]) ↔
      Tolerated events ∧ (event.Calls → ∀ earlier ∈ events, earlier.Returns) := by
  rw [Tolerated, List.pairwise_append, Tolerated]
  simp only [List.pairwise_singleton, true_and, List.mem_singleton, forall_eq]
  refine and_congr_right fun _ => ⟨?_, ?_⟩
  · intro tolerated calls earlier member
    by_contra throws
    exact tolerated earlier member throws calls
  · exact fun returns earlier member throws calls => throws (returns calls earlier member)

theorem tolerated_of_returns (returns : ∀ event ∈ events, event.Returns) : Tolerated events := by
  rw [Tolerated, List.pairwise_iff_getElem]
  exact fun i _ inside _ _ throws => (throws (returns _ (List.getElem_mem inside))).elim

theorem EachOnce.of_concat (once : EachOnce (events ++ [event])) : EachOnce events := by
  rw [EachOnce, handedOver_concat, List.map_append] at once
  have taken := congrArg (List.take (handedOver events).length) once
  rw [List.take_left' (List.length_map _), List.take_range, List.length_append] at taken
  rw [EachOnce, taken, min_eq_left (by omega)]

namespace Connection

/-- The packet whose handler threw is still at the front, and its time has passed. -/
structure Stuck (events : List (Event α ε)) (connection : Connection α) (packet : PacketRef) :
    Prop where
  thrower : ∃ event ∈ events, ¬ event.Returns
  front : ∃ nextPacket rest, ∃ now : Int, connection.mPacketQueue = (packet, nextPacket) :: rest ∧
    nextPacket.mReceivedTime < now ∧ now ∈ events.filterMap Event.clock?
  handed : (handedOver events).map Prod.fst = List.range (packet + 1)

inductive Stage (events : List (Event α ε)) (connection : Connection α) : Prop
  | clean (returns : ∀ event ∈ events, event.Returns) (faithful : Faithful events connection)
  | thrown (packet : PacketRef) (stuck : Stuck events connection packet)
      (tolerated : Tolerated events) (outside : connection.position = .outside)
  | recalled (packet : PacketRef) (stuck : Stuck events connection packet)
      (again : ¬ Tolerated events) (inside : connection.position ≠ .outside)
  | repeated (again : ¬ Tolerated events) (twice : ¬ EachOnce events)

variable {connection next : Connection α} {packet : PacketRef}

theorem Stuck.idle {more : List (PacketRef × ReceivedPacket α)}
    (stuck : Stuck events connection packet) (noHanding : event.handed? = none)
    (queue : next.mPacketQueue = connection.mPacketQueue ++ more) :
    Stuck (events ++ [event]) next packet where
  thrower := by
    obtain ⟨thrower, member, throws⟩ := stuck.thrower
    exact ⟨thrower, List.mem_append_left _ member, throws⟩
  front := by
    obtain ⟨nextPacket, rest, now, front, late, clock⟩ := stuck.front
    refine ⟨nextPacket, rest ++ more, now, ?_, late, ?_⟩
    · rw [queue, front, List.cons_append]
    · rw [List.filterMap_append]
      exact List.mem_append_left _ clock
  handed := by
    rw [handedOver_concat, noHanding, Option.toList_none, List.append_nil, stuck.handed]

theorem Stuck.eachOnce (stuck : Stuck events connection packet) : EachOnce events := by
  have length := congrArg List.length stuck.handed
  rw [List.length_map, List.length_range] at length
  rw [EachOnce, stuck.handed, length]

theorem Stuck.twice {stream : InputMemoryStream} {fromAddress : α}
    (stuck : Stuck events connection packet)
    (handing : event.handed? = some (packet, stream, fromAddress)) :
    ¬ EachOnce (events ++ [event]) := by
  intro once
  have length := congrArg List.length stuck.handed
  rw [List.length_map, List.length_range] at length
  rw [EachOnce, handedOver_concat, handing, Option.toList_some, List.map_append, stuck.handed,
    List.length_append, length, List.length_singleton, List.range_succ (n := packet + 1),
    List.append_cancel_left_eq] at once
  simp at once

theorem Stage.repeats (again : ¬ Tolerated events) (twice : ¬ EachOnce events) :
    Stage (events ++ [event]) next :=
  .repeated (fun tolerated => again (tolerated_concat.mp tolerated).1)
    fun once => twice once.of_concat

theorem Stuck.stage_recalled {more : List (PacketRef × ReceivedPacket α)}
    (stuck : Stuck events connection packet) (again : ¬ Tolerated events)
    (noHanding : event.handed? = none)
    (queue : next.mPacketQueue = connection.mPacketQueue ++ more)
    (inside : next.position ≠ .outside) : Stage (events ++ [event]) next :=
  .recalled packet (stuck.idle noHanding queue)
    (fun tolerated => again (tolerated_concat.mp tolerated).1) inside

theorem Stuck.late (stuck : Stuck events connection packet) {now : Int}
    (reads : event.clock? = some now)
    (clock : ((events ++ [event]).filterMap Event.clock?).Pairwise (· ≤ ·))
    {other : PacketRef} {nextPacket : ReceivedPacket α}
    {rest : List (PacketRef × ReceivedPacket α)}
    (front : connection.mPacketQueue = (other, nextPacket) :: rest) :
    other = packet ∧ nextPacket.mReceivedTime < now := by
  obtain ⟨stuckPacket, stuckRest, before, queue, late, read⟩ := stuck.front
  rw [front, List.cons.injEq, Prod.mk.injEq] at queue
  obtain ⟨⟨rfl, rfl⟩, -⟩ := queue
  rw [List.filterMap_append, List.pairwise_append] at clock
  have later := clock.2.2 before read now (by simp [reads])
  exact ⟨rfl, Int.lt_of_lt_of_le late later⟩

theorem Faithful.stuck (faithful : Faithful events connection) {nextPacket : ReceivedPacket α}
    {rest : List (PacketRef × ReceivedPacket α)} {now : Int} {e : ε} (left : InputMemoryStream)
    (front : connection.mPacketQueue = (packet, nextPacket) :: rest)
    (late : nextPacket.mReceivedTime < now) :
    Stuck (events ++
      [.handed packet nextPacket.mPacketBuffer nextPacket.mFromAddress now (.error e)])
      { connection with
        mPacketQueue := (packet, { nextPacket with mPacketBuffer := left }) :: rest
        position := .outside } packet where
  thrower := ⟨_, List.mem_append_right _ List.mem_cons_self, id⟩
  front := ⟨_, rest, now, rfl, late, by simp [Event.clock?]⟩
  handed := by
    have once := faithful.eachOnce
    have numbered := faithful.numbered
    rw [List.map_append, once, waiting, front] at numbered
    -- the front packet has the number of packets handed over before it
    have here := congrArg (fun numbers => numbers[(handedOver events).length]?) numbered
    have inside := congrArg List.length numbered
    simp only [List.length_append, List.length_range, List.length_map, List.length_cons] at inside
    rw [List.getElem?_append_right (by simp), List.getElem?_range (by omega)] at here
    simp only [List.map_cons, List.length_range, Nat.sub_self, List.getElem?_cons_zero,
      Option.some.injEq] at here
    rw [handedOver_concat, List.map_append, once, List.range_succ, here]
    rfl

theorem Stage.step (stage : Stage events connection) (passes : Passes connection event next)
    (clock : ((events ++ [event]).filterMap Event.clock?).Pairwise (· ≤ ·)) :
    Stage (events ++ [event]) next := by
  cases stage with
  | clean returns faithful =>
      by_cases now : event.Returns
      · refine .clean ?_ (faithful.step passes now)
        rw [List.forall_mem_append, List.forall_mem_singleton]
        exact ⟨returns, now⟩
      · cases passes with
        | thrown left e inLoop front late =>
            refine .thrown _ (faithful.stuck left front late) ?_ rfl
            rw [tolerated_concat]
            exact ⟨tolerated_of_returns returns, fun calls => calls.elim⟩
        | _ => exact (now trivial).elim
  | thrown packet stuck tolerated outside =>
      cases passes with
      | call between =>
          refine .recalled packet (stuck.idle rfl (List.append_nil _).symm) ?_ (by simp)
          · obtain ⟨thrower, member, throws⟩ := stuck.thrower
            exact fun tolerated => throws ((tolerated_concat.mp tolerated).2 trivial thrower member)
      | elsewhere inputStream between reset =>
          refine .thrown packet (stuck.idle rfl (List.append_nil _).symm) ?_ outside
          exact tolerated_concat.mpr ⟨tolerated, fun calls => calls.elim⟩
      | _ => simp_all
  | recalled packet stuck again inside =>
      cases passes with
      | call between => exact (inside between).elim
      | elsewhere inputStream between reset => exact (inside between).elim
      | arrived datagram now behind inLoop =>
          exact stuck.stage_recalled again rfl rfl (by simp)
      | failed connection_reset inLoop =>
          exact stuck.stage_recalled again rfl (List.append_nil _).symm (by simp [inLoop])
      | readAll inLoop =>
          exact stuck.stage_recalled again rfl (List.append_nil _).symm (by simp)
      | drained inLoop empty =>
          obtain ⟨nextPacket, rest, now, front, -⟩ := stuck.front
          rw [empty] at front
          cases front
      | popped inLoop front late =>
          obtain ⟨rfl, -⟩ := stuck.late rfl clock front
          exact .repeated (fun tolerated => again (tolerated_concat.mp tolerated).1)
            (stuck.twice rfl)
      | thrown left e inLoop front late =>
          obtain ⟨rfl, -⟩ := stuck.late rfl clock front
          exact .repeated (fun tolerated => again (tolerated_concat.mp tolerated).1)
            (stuck.twice rfl)
      | waited inLoop front early => exact (early (stuck.late rfl clock front).2).elim
  | repeated again twice => exact Stage.repeats again twice

theorem stage_of_run {past : List (Connection α × Event α ε)} {last : Connection α}
    (run : Run Step first past last)
    (clock : ((past.map Prod.snd).filterMap Event.clock?).Pairwise (· ≤ ·)) :
    Stage (past.map Prod.snd) last := by
  induction run with
  | nil => exact .clean (fun _ none => (List.not_mem_nil none).elim) first_faithful
  | snoc before step ih =>
      rw [List.map_append] at clock ⊢
      refine (ih ?_).step step.passes clock
      rw [List.filterMap_append, List.pairwise_append] at clock
      exact clock.1

theorem eachOnce_iff {past : List (Connection α × Event α ε)} {last : Connection α}
    (run : Run Step first past last)
    (clock : ((past.map Prod.snd).filterMap Event.clock?).Pairwise (· ≤ ·))
    (finished : last.position = .outside) :
    EachOnce (past.map Prod.snd) ↔ Tolerated (past.map Prod.snd) := by
  cases stage_of_run run clock with
  | clean returns faithful =>
      exact iff_of_true faithful.eachOnce (tolerated_of_returns returns)
  | thrown packet stuck tolerated outside => exact iff_of_true stuck.eachOnce tolerated
  | recalled packet stuck again inside => exact (inside finished).elim
  | repeated again twice => exact iff_of_false twice again

section OneDatagram

theorem eachOnce_ping : ∃ (past : List (Connection String × Event String Unit)) (last : _),
    Run Step first past last ∧ EachOnce (past.map Prod.snd) := by
  have run := (pingReceived_run.snoc (.process 6 (readPart (.ok ())) rfl)).snoc
    (.process 6 (readPart (.ok ())) rfl)
  refine ⟨_, _, run, (eachOnce_iff run (by decide) rfl).mpr ?_⟩
  apply tolerated_of_returns
  simp only [pingReceived, List.cons_append, List.nil_append, List.map_cons, List.map_nil,
    List.forall_mem_cons]
  exact ⟨trivial, trivial, trivial, trivial, trivial, fun _ none => (List.not_mem_nil none).elim⟩

/-- The handler reads two bytes and throws; the next call hands the same packet over again. -/
theorem ping_twice : ∃ (past : List (Connection String × Event String Unit)) (last : _),
    Run Step first past last ∧ ((past.map Prod.snd).filterMap Event.clock?).Pairwise (· ≤ ·) ∧
      last.position = .outside ∧ ¬ EachOnce (past.map Prod.snd) := by
  have thrown := (pingReceived_run.snoc (.process 6 (readPart (.error ())) rfl)).snoc (.call rfl)
  have again := ((thrown.snoc (.read .empty 7 (fun _ => 0) rfl)).snoc
    (.process 7 (readPart (.ok ())) rfl)).snoc (.process 7 (readPart (.ok ())) rfl)
  refine ⟨_, _, again, by decide, rfl, fun once => ?_⟩
  exact absurd (show [0, 0] = [0, 1] from once) (by decide)

end OneDatagram

end Connection
end PackagedTask.Network
