import PackagedTask.Library.Iteration
import PackagedTask.Network.Handing

namespace PackagedTask.Network
open Streams Library Library.Iteration

/-! Whole calls of the two loops of `processIncomingPackets`, and when the receive loop ends. -/

variable {α ε : Type}

def Position.isReading : Position → Bool
  | .reading _ => true
  | _ => false

def Position.isProcessing : Position → Bool
  | .processing => true
  | _ => false

def Outcome.isDatagram : Outcome α → Bool
  | .datagram _ => true
  | _ => false

structure Reception (α : Type) where
  outcome : Outcome α
  now : Int
  behind : Nat → UInt8

namespace Connection

/-- Passes are made, and listed, until one leaves the loop. -/
def loopPass (pass : Nat → Connection α → Event α ε × Connection α) (inLoop : Position → Bool)
    (s : List (Event α ε) × Connection α) :
    (List (Event α ε) × Connection α) ⊕ (List (Event α ε) × Connection α) :=
  let done := pass s.1.length s.2
  if inLoop done.2.position then .inl (s.1 ++ [done.1], done.2) else .inr (s.1 ++ [done.1], done.2)

def receivePass (world : Nat → Reception α) (number : Nat) (connection : Connection α) :
    Event α ε × Connection α :=
  match connection.position with
  | .reading receivedPackedCount => connection.readPass receivedPackedCount (world number).outcome
      (world number).now (world number).behind
  | _ => (.readAll, connection)

abbrev readLoop (world : Nat → Reception α) :
    List (Event α ε) × Connection α →
      (List (Event α ε) × Connection α) ⊕ (List (Event α ε) × Connection α) :=
  loopPass (receivePass world) Position.isReading

abbrev processLoop (clock : Nat → Int)
    (processPacket : Nat → InputMemoryStream → α → Except ε Unit × InputMemoryStream) :
    List (Event α ε) × Connection α →
      (List (Event α ε) × Connection α) ⊕ (List (Event α ε) × Connection α) :=
  loopPass (fun number connection => connection.processPass (clock number) (processPacket number))
    Position.isProcessing

/-- `none` is a loop still running after `fuel` passes. -/
def readIncomingPacketsIntoQueue (fuel : Nat) (world : Nat → Reception α)
    (connection : Connection α) : Option (List (Event α ε) × Connection α) :=
  runFor (readLoop world) fuel ([], { connection with position := .reading 0 })

def processQueuedPackets (fuel : Nat) (clock : Nat → Int)
    (processPacket : Nat → InputMemoryStream → α → Except ε Unit × InputMemoryStream)
    (connection : Connection α) : Option (List (Event α ε) × Connection α) :=
  runFor (processLoop clock processPacket) fuel ([], { connection with position := .processing })

end Connection

def delivered (world : Nat → Reception α) (count : Nat) : Nat :=
  (List.range count).countP fun number => (world number).outcome.isDatagram

/-- Nothing more is asked of the socket after this many receives. -/
def StopsAt (world : Nat → Reception α) (count : Nat) : Prop :=
  (world count).outcome = .empty ∨ kMaxPacketsPerFrameCount ≤ delivered world count

/-- The call returns, with at most so many packets more in the queue. -/
def ReadEnds (world : Nat → Reception α) (connection : Connection α) : Prop :=
  ∃ fuel, ∃ events : List (Event α Empty), ∃ last,
    connection.readIncomingPacketsIntoQueue fuel world = some (events, last) ∧
      ∃ packets, last.mPacketQueue = connection.mPacketQueue ++ packets ∧
        packets.length ≤ kMaxPacketsPerFrameCount

theorem delivered_succ (world : Nat → Reception α) (count : Nat) : delivered world (count + 1) =
    delivered world count + if (world count).outcome.isDatagram then 1 else 0 := by
  rw [delivered, List.range_succ, List.countP_append, List.countP_singleton, delivered]

namespace Connection

section Loops
variable {pass : Nat → Connection α → Event α ε × Connection α} {inLoop : Position → Bool}
  {s t : List (Event α ε) × Connection α}

theorem loopPass_inl_iff : loopPass pass inLoop s = .inl t ↔
    inLoop (pass s.1.length s.2).2.position = true ∧
      t = (s.1 ++ [(pass s.1.length s.2).1], (pass s.1.length s.2).2) := by
  unfold loopPass
  dsimp only
  split
  · rename_i stays
    simp [stays, eq_comm]
  · rename_i leaves
    simp [leaves]

theorem steps_length {n : Nat} (walk : Steps (loopPass pass inLoop) n s t) :
    t.1.length = s.1.length + n := by
  induction n generalizing s with
  | zero =>
      obtain rfl : s = t := walk
      rfl
  | succ n ih =>
      obtain ⟨next, first, rest⟩ := walk
      obtain ⟨-, rfl⟩ := loopPass_inl_iff.mp first
      have length := ih rest
      rw [List.length_append, List.length_singleton] at length
      omega

theorem run_of_loop (steps : ∀ number connection, inLoop connection.position = true →
      Step (pass number connection).1 connection (pass number connection).2)
    {fuel : Nat} {events : List (Event α ε)} {last : Connection α} (inside : inLoop s.2.position = true)
    (ran : runFor (loopPass pass inLoop) fuel s = some (events, last)) :
    ∃ past, Run Step s.2 past last ∧ events = s.1 ++ past.map Prod.snd := by
  induction fuel generalizing s with
  | zero => cases ran
  | succ fuel ih =>
      have step := steps s.1.length s.2 inside
      have one : Run Step s.2 [(s.2, (pass s.1.length s.2).1)] (pass s.1.length s.2).2 := .snoc .nil step
      cases done : loopPass pass inLoop s with
      | inl next =>
          rw [runFor, done] at ran
          obtain ⟨stays, rfl⟩ := loopPass_inl_iff.mp done
          obtain ⟨past, rest, listed⟩ := ih stays ran
          refine ⟨_, one.trans rest, ?_⟩
          rw [listed, List.map_append, ← List.append_assoc]
          rfl
      | inr result =>
          rw [runFor, done] at ran
          obtain rfl := Option.some.inj ran
          unfold loopPass at done
          dsimp only at done
          split at done
          · cases done
          · cases done
            exact ⟨_, one, rfl⟩

end Loops

section ReceiveLoop
variable {world : Nat → Reception α} {connection last : Connection α}
  {events : List (Event α ε)} {s : List (Event α ε) × Connection α}

theorem readIncomingPacketsIntoQueue_run {fuel : Nat}
    (ran : connection.readIncomingPacketsIntoQueue fuel world = some (events, last)) :
    ∃ past, Run Step { connection with position := .reading 0 } past last ∧
      events = past.map Prod.snd := by
  refine run_of_loop ?_ rfl ran
  intro number current reading
  unfold receivePass
  split
  · rename_i receivedPackedCount inLoop
    exact .read _ _ _ inLoop
  · rename_i outside
    cases here : current.position with
    | reading receivedPackedCount => exact absurd here (outside receivedPackedCount)
    | outside => rw [here] at reading; cases reading
    | processing => rw [here] at reading; cases reading

structure Receiving (world : Nat → Reception α) (connection : Connection α)
    (s : List (Event α ε) × Connection α) : Prop where
  position : s.2.position = .reading (delivered world s.1.length)
  going : ∀ number < s.1.length, ¬ StopsAt world number
  queued : ∃ packets, s.2.mPacketQueue = connection.mPacketQueue ++ packets ∧
    packets.length = delivered world s.1.length
  bound : delivered world s.1.length ≤ kMaxPacketsPerFrameCount

theorem start_receiving (world : Nat → Reception α) (connection : Connection α) :
    Receiving world connection (([] : List (Event α ε)),
      { connection with position := .reading 0 }) where
  position := rfl
  going := fun number before => absurd before (Nat.not_lt_zero number)
  queued := ⟨[], (List.append_nil _).symm, rfl⟩
  bound := Nat.zero_le _

theorem Receiving.receivePass_eq (receiving : Receiving world connection s) :
    receivePass (ε := ε) world s.1.length s.2 = s.2.readPass (delivered world s.1.length)
      (world s.1.length).outcome (world s.1.length).now (world s.1.length).behind := by
  rw [receivePass, receiving.position]

theorem Receiving.leaves (receiving : Receiving world connection s)
    (stops : StopsAt world s.1.length) : ∃ t,
      readLoop world s = .inr t ∧
        t.2.mPacketQueue = s.2.mPacketQueue := by
  have pass : receivePass (ε := ε) world s.1.length s.2 =
      (.readAll, { s.2 with position := .processing }) := by
    rw [receiving.receivePass_eq]
    unfold readPass
    rcases stops with empty | full
    · rw [empty]
      split <;> rfl
    · rw [if_neg (Nat.not_lt.mpr full)]
  refine ⟨(s.1 ++ [.readAll], { s.2 with position := .processing }), ?_, rfl⟩
  rw [readLoop, loopPass, pass]
  rfl

theorem Receiving.next {event : Event α ε} {next : Connection α}
    (arrived : List (PacketRef × ReceivedPacket α)) (receiving : Receiving world connection s)
    (goesOn : ¬ StopsAt world s.1.length)
    (count : delivered world (s.1.length + 1) = delivered world s.1.length + arrived.length)
    (single : arrived.length ≤ 1)
    (position : next.position = .reading (delivered world s.1.length + arrived.length))
    (queue : next.mPacketQueue = s.2.mPacketQueue ++ arrived) :
    Receiving world connection (s.1 ++ [event], next) where
  position := by
    rw [List.length_append, List.length_singleton, count]
    exact position
  going := by
    intro number before
    rw [List.length_append, List.length_singleton] at before
    rcases Nat.lt_succ_iff_lt_or_eq.mp before with earlier | rfl
    · exact receiving.going number earlier
    · exact goesOn
  queued := by
    obtain ⟨packets, before, length⟩ := receiving.queued
    refine ⟨packets ++ arrived, ?_, ?_⟩
    · rw [← List.append_assoc, ← before]
      exact queue
    · rw [List.length_append, List.length_append, List.length_singleton, count, length]
  bound := by
    have room := Nat.lt_of_not_le (not_or.mp goesOn).2
    rw [List.length_append, List.length_singleton, count]
    omega

theorem Receiving.goes (receiving : Receiving world connection s)
    (goesOn : ¬ StopsAt world s.1.length) : ∃ t,
      readLoop world s = .inl t ∧ Receiving world connection t := by
  obtain ⟨filled, full⟩ := not_or.mp goesOn
  have count := delivered_succ world s.1.length
  have pass := receiving.receivePass_eq
  unfold readPass at pass
  rw [if_pos (Nat.lt_of_not_le full)] at pass
  refine ⟨_, loopPass_inl_iff.mpr ⟨?_, rfl⟩, ?_⟩
  all_goals rw [pass]
  all_goals cases outcome : (world s.1.length).outcome with
    | empty => exact absurd outcome filled
    | datagram datagram => ?_
    | error connection_reset => ?_
  · rfl
  · rw [receiving.position]
    rfl
  · rw [outcome] at count
    exact receiving.next [_] goesOn count le_rfl rfl rfl
  · rw [outcome] at count
    exact receiving.next [] goesOn count (Nat.zero_le _) receiving.position (List.append_nil _).symm

theorem Receiving.steps {n : Nat} {t : List (Event α ε) × Connection α}
    (receiving : Receiving world connection s)
    (walk : Steps (readLoop world) n s t) :
    Receiving world connection t := by
  refine walk.invariant ?_ receiving
  intro before after kept pass
  have goesOn : ¬ StopsAt world before.1.length := by
    intro stops
    obtain ⟨left, leaves, -⟩ := kept.leaves stops
    rw [leaves] at pass
    cases pass
  obtain ⟨next, same, onward⟩ := kept.goes goesOn
  obtain rfl := Sum.inl.inj (same.symm.trans pass)
  exact onward

theorem halts_iff_stops (world : Nat → Reception α) (connection : Connection α) :
    Halts (readLoop (ε := ε) world)
      ([], { connection with position := .reading 0 }) ↔ ∃ count, StopsAt world count := by
  have start := start_receiving (ε := ε) world connection
  constructor
  · intro halts
    obtain ⟨n, t, result, walk, last⟩ := halts_iff.mp halts
    refine ⟨t.1.length, ?_⟩
    by_contra goesOn
    obtain ⟨next, pass, -⟩ := (start.steps walk).goes goesOn
    rw [pass] at last
    cases last
  · rintro ⟨count, stops⟩
    -- a loop of more passes than that has gone past the receive that ends it
    rcases steps_or_halts (readLoop (ε := ε) world)
      ([], { connection with position := .reading 0 }) (count + 1) with ⟨t, walk⟩ | halts
    · have length := steps_length walk
      exact absurd stops ((start.steps walk).going count (by rw [length]; simp))
    · exact halts

end ReceiveLoop

theorem readEnds_iff (world : Nat → Reception α) (connection : Connection α) :
    ReadEnds world connection ↔ ∃ count, StopsAt world count := by
  rw [← halts_iff_stops (ε := Empty) world connection]
  constructor
  · rintro ⟨fuel, events, last, ran, -⟩
    exact ⟨fuel, _, ran⟩
  · rintro ⟨fuel, ⟨events, last⟩, ran⟩
    refine ⟨fuel, events, last, ran, ?_⟩
    obtain ⟨n, t, walk, final⟩ := steps_of_runFor ran
    have receiving := (start_receiving world connection).steps walk
    obtain ⟨packets, queue, length⟩ := receiving.queued
    have stops : StopsAt world t.1.length := by
      by_contra goesOn
      obtain ⟨next, pass, -⟩ := receiving.goes goesOn
      rw [pass] at final
      cases final
    obtain ⟨left, leaves, kept⟩ := receiving.leaves stops
    obtain rfl := Sum.inr.inj (leaves.symm.trans final)
    exact ⟨packets, kept.trans queue, length ▸ receiving.bound⟩

theorem unopened_spins :
    ¬ ReadEnds (fun _ => ⟨.error false, 0, fun _ => 0⟩) (first : Connection String) := by
  rintro ⟨fuel, events, last, ran, -⟩
  obtain ⟨count, empty | full⟩ := (halts_iff_stops _ _).mp ⟨fuel, _, ran⟩
  · cases empty
  · have nothing : delivered (fun _ => (⟨.error false, 0, fun _ => 0⟩ : Reception String)) count = 0 :=
      List.countP_eq_zero.mpr fun number _ => Bool.false_ne_true
    rw [nothing] at full
    exact absurd full (by decide)

end Connection

end PackagedTask.Network
