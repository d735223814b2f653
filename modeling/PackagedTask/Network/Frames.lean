import Mathlib.Data.List.DropRight
import PackagedTask.Network.Timing

namespace PackagedTask.Network
open Streams Library

/-! How far `processIncomingPackets` falls behind: a call for each frame, and a millisecond at least
between two of them. -/

variable {α ε : Type}

def Event.isCall : Event α ε → Bool
  | .called => true
  | _ => false

/-- The events before the last call, with it, and those since. -/
def earlier (events : List (Event α ε)) : List (Event α ε) :=
  events.rdropWhile fun event => !event.isCall

def thisCall (events : List (Event α ε)) : List (Event α ε) :=
  events.rtakeWhile fun event => !event.isCall

/-- A call reads the clock later than any earlier call received a packet, never before 1970. -/
def Ticks (events : List (Event α ε)) : Prop :=
  ∀ before event rest, events = before ++ event :: rest → ∀ now, event.clock? = some now →
    ∀ receipt ∈ receipts (earlier before), 0 ≤ receipt ∧ receipt < now

/-- What came before the last call is handed over, and no more waits than came with it. -/
structure KeepsUp (events : List (Event α ε)) (connection : Connection α) : Prop where
  delivered : List.Forall₂ Presents
    ((handedOver events).take (received (earlier events)).length) (received (earlier events))
  waiting : connection.waiting.length ≤ (received (thisCall events)).length
  few : (received (thisCall events)).length ≤ kMaxPacketsPerFrameCount

section Events
variable {events : List (Event α ε)} {event : Event α ε}

theorem earlier_append_thisCall (events : List (Event α ε)) :
    earlier events ++ thisCall events = events := List.rdropWhile_append_rtakeWhile

theorem earlier_call (events : List (Event α ε)) (event : Event α ε) (isCall : event.isCall = true) :
    earlier (events ++ [event]) = events ++ [event] ∧ thisCall (events ++ [event]) = [] := by
  constructor
  · exact List.rdropWhile_concat_neg _ _ _ (by simp [isCall])
  · exact List.rtakeWhile_concat_neg _ _ _ (by simp [isCall])

theorem earlier_within (events : List (Event α ε)) (event : Event α ε)
    (within : event.isCall = false) : earlier (events ++ [event]) = earlier events ∧
      thisCall (events ++ [event]) = thisCall events ++ [event] := by
  constructor
  · exact List.rdropWhile_concat_pos _ _ _ (by simp [within])
  · exact List.rtakeWhile_concat_pos _ _ _ (by simp [within])

theorem receipts_append (first second : List (Event α ε)) :
    receipts (first ++ second) = receipts first ++ receipts second := List.filterMap_append

theorem received_append (first second : List (Event α ε)) :
    received (first ++ second) = received first ++ received second := List.filterMap_append

theorem receipts_length (events : List (Event α ε)) :
    (receipts events).length = (received events).length := by
  induction events with
  | nil => rfl
  | cons event events ih =>
      rw [receipts, received, List.filterMap_cons, List.filterMap_cons, ← receipts, ← received]
      cases event <;> simp [Event.receipt?, Event.datagram?, ih]

theorem Ticks.before (ticks : Ticks (events ++ [event])) : Ticks events := by
  intro before other rest split
  apply ticks before other (rest ++ [event])
  rw [split, List.append_assoc]
  rfl

theorem ticks_nil : Ticks ([] : List (Event α ε)) := by
  intro before event rest split
  simp at split

theorem Ticks.concat (ticks : Ticks events) (last : ∀ now, event.clock? = some now →
    ∀ receipt ∈ receipts (earlier events), 0 ≤ receipt ∧ receipt < now) :
    Ticks (events ++ [event]) := by
  intro before other rest split
  rcases List.eq_nil_or_concat rest with rfl | ⟨rest, final, rfl⟩
  · obtain ⟨rfl, same⟩ := List.append_inj' split rfl
    cases same
    exact last
  · rw [List.concat_eq_append, ← List.cons_append, ← List.append_assoc] at split
    exact ticks before other rest (List.append_inj' split rfl).1

theorem Ticks.silent (ticks : Ticks events) (reads : event.clock? = none) :
    Ticks (events ++ [event]) := by
  apply ticks.concat
  simp [reads]

theorem Ticks.last (ticks : Ticks (events ++ [event])) {now : Int} (reads : event.clock? = some now) :
    ∀ receipt ∈ receipts (earlier events), 0 ≤ receipt ∧ receipt < now :=
  ticks events event [] rfl now reads

end Events

namespace Connection

/-- Where a call is, against what it has received and what is handed over. -/
structure Current (events : List (Event α ε)) (connection : Connection α) : Prop where
  few : (received (thisCall events)).length ≤ kMaxPacketsPerFrameCount
  counted : ∀ receivedPackedCount, connection.position = .reading receivedPackedCount →
    (received (thisCall events)).length = receivedPackedCount
  caughtUp : connection.position = .outside →
    (received (earlier events)).length ≤ (handedOver events).length

section Steps
variable {events : List (Event α ε)} {event : Event α ε} {connection next : Connection α}

theorem Faithful.lengths (faithful : Faithful events connection) :
    (handedOver events).length + connection.waiting.length = (received events).length := by
  rw [← faithful.presents.length_eq, List.length_append]

theorem Faithful.stuck_here {packet : PacketRef} {nextPacket : ReceivedPacket α}
    {rest : List (PacketRef × ReceivedPacket α)} {now : Int}
    (faithful : Faithful events connection) (timed : Timed events connection)
    (front : connection.mPacketQueue = (packet, nextPacket) :: rest)
    (early : ¬ nextPacket.mReceivedTime < now)
    (passed : ∀ receipt ∈ receipts (earlier events), 0 ≤ receipt ∧ receipt < now) :
    (received (earlier events)).length ≤ (handedOver events).length := by
  by_contra behind
  have number : packet = (handedOver events).length := by
    have numbered := congrArg (fun list => list[(handedOver events).length]?) faithful.numbered
    simp only [waiting, front, List.map_append, List.map_cons] at numbered
    rw [List.getElem?_append_right (by simp), List.length_map, Nat.sub_self] at numbered
    obtain ⟨inside, here⟩ := List.getElem?_eq_some_iff.mp numbered.symm
    rw [List.getElem_range] at here
    exact here.symm
  have time := timed.2.1 (packet, nextPacket) (front ▸ List.mem_cons_self)
  have inside : packet < (receipts (earlier events)).length := by
    rw [receipts_length, number]
    exact Nat.lt_of_not_le behind
  have receipt : receiptOf events packet = (receipts (earlier events)).getD packet 0 := by
    have split := congrArg receipts (earlier_append_thisCall events)
    rw [receipts_append] at split
    rw [receiptOf, ← split, List.getD_append _ _ _ _ inside]
  rw [List.getD_eq_getElem _ _ inside] at receipt
  obtain ⟨positive, late⟩ := passed _ (List.getElem_mem inside)
  rw [← receipt] at positive late
  simp only at time
  omega

theorem Current.idle (current : Current events connection) (within : event.isCall = false)
    (noArrival : event.datagram? = none)
    (reading : ∀ count, next.position = .reading count → connection.position = .reading count)
    (outside : next.position = .outside → connection.position = .outside ∨
      (received (earlier events)).length ≤ (handedOver events).length) :
    Current (events ++ [event]) next := by
  obtain ⟨before, here⟩ := earlier_within events event within
  have arrived : received (thisCall (events ++ [event])) = received (thisCall events) := by
    rw [here, received_concat, noArrival]
    exact List.append_nil _
  have handed : (handedOver events).length ≤ (handedOver (events ++ [event])).length := by
    rw [handedOver_concat, List.length_append]
    exact Nat.le_add_right _ _
  refine ⟨arrived ▸ current.few, ?_, ?_⟩
  · intro count position
    rw [arrived]
    exact current.counted count (reading count position)
  · intro position
    rw [before]
    exact ((outside position).elim current.caughtUp id).trans handed

theorem processPass_datagram? (now : Int)
    (processPacket : InputMemoryStream → α → Except ε Unit × InputMemoryStream) :
    (connection.processPass now processPacket).1.datagram? = none := by
  unfold processPass
  split
  · rfl
  · split
    · dsimp only
      split <;> rfl
    · rfl

theorem Step.room (step : Step event connection next) {datagram : Datagram α}
    (arrival : event.datagram? = some datagram) {receivedPackedCount : Nat}
    (inLoop : connection.position = .reading receivedPackedCount) :
    receivedPackedCount < kMaxPacketsPerFrameCount := by
  cases step with
  | call between => cases arrival
  | read outcome now behind here =>
      obtain rfl := Position.reading.inj (here.symm.trans inLoop)
      by_contra full
      unfold readPass at arrival
      rw [if_neg full] at arrival
      cases arrival
  | process now processPacket here => rw [processPass_datagram?] at arrival; cases arrival
  | elsewhere inputStream between reset => cases arrival

theorem Current.step (current : Current events connection) (faithful : Faithful events connection)
    (timed : Timed events connection) (step : Step event connection next) (returns : event.Returns)
    (ticks : Ticks (events ++ [event])) : Current (events ++ [event]) next := by
  cases step.passes with
  | call between =>
      obtain ⟨before, here⟩ := earlier_call events .called rfl
      refine ⟨by rw [here]; exact Nat.zero_le _, ?_, ?_⟩
      · rintro count ⟨⟩
        rw [here]
        rfl
      · rintro ⟨⟩
  | elsewhere inputStream between reset =>
      exact current.idle rfl rfl (fun _ position => position) fun _ => .inl between
  | @arrived receivedPackedCount datagram now behind inLoop =>
      obtain ⟨before, here⟩ :=
        earlier_within events (.received datagram now) rfl
      have count : (received (thisCall (events ++ [.received datagram now]))).length =
          receivedPackedCount + 1 := by
        rw [here, received_concat, List.length_append, current.counted _ inLoop]
        rfl
      refine ⟨count ▸ step.room rfl inLoop, ?_, ?_⟩
      · rintro other ⟨⟩
        exact count
      · rintro ⟨⟩
  | failed connection_reset inLoop =>
      exact current.idle rfl rfl (fun _ position => position) fun outside => .inl outside
  | readAll inLoop =>
      apply current.idle rfl rfl
      · rintro count ⟨⟩
      · rintro ⟨⟩
  | drained inLoop empty =>
      apply current.idle rfl rfl
      · rintro count ⟨⟩
      · intro _
        have lengths := faithful.lengths
        have split := congrArg (fun list => (received list).length) (earlier_append_thisCall events)
        rw [received_append, List.length_append] at split
        rw [waiting, empty] at lengths
        simp only [List.map_nil, List.length_nil] at lengths
        exact .inr (by omega)
  | popped inLoop front late =>
      exact current.idle rfl rfl (fun _ position => position) fun outside => .inl outside
  | thrown left e inLoop front late => exact returns.elim
  | waited inLoop front early =>
      apply current.idle rfl rfl
      · rintro count ⟨⟩
      · exact fun _ => .inr (faithful.stuck_here timed front early (ticks.last rfl))

theorem current_of_run {past : List (Connection α × Event α ε)} {last : Connection α}
    (run : Run Step first past last) (returns : ∀ entry ∈ past, entry.2.Returns)
    (ticks : Ticks (past.map Prod.snd)) : Current (past.map Prod.snd) last := by
  induction run with
  | nil =>
      refine ⟨Nat.zero_le _, ?_, fun _ => le_rfl⟩
      rintro count ⟨⟩
  | @snoc past connection event next before step ih =>
      rw [List.forall_mem_append, List.forall_mem_singleton] at returns
      rw [List.map_append] at ticks ⊢
      exact (ih returns.1 ticks.before).step (faithful_of_run before returns.1)
        (timed_of_run before) step returns.2 ticks

theorem keeps_up {past : List (Connection α × Event α ε)} {last : Connection α}
    (run : Run Step first past last) (returns : ∀ entry ∈ past, entry.2.Returns)
    (ticks : Ticks (past.map Prod.snd)) (between : last.position = .outside) :
    KeepsUp (past.map Prod.snd) last := by
  have current := current_of_run run returns ticks
  have faithful := faithful_of_run run returns
  have caughtUp := current.caughtUp between
  have split := congrArg received (earlier_append_thisCall (past.map Prod.snd))
  rw [received_append] at split
  have lengths := faithful.lengths
  have total := congrArg List.length split
  rw [List.length_append] at total
  refine ⟨?_, by omega, current.few⟩
  have presents := List.forall₂_take (received (earlier (past.map Prod.snd))).length faithful.presents
  rwa [List.take_append_of_le_length caughtUp, ← split, List.take_left] at presents

end Steps

section TwoFrames

def pingedAt (position : Position) : Connection String := { pinged with position }

def pingGone (position : Position) : Connection String :=
  { pinged with mPacketQueue := [], position }

def pingLater : List (Connection String × Event String Unit) :=
  pingReceived ++ [(pingedAt .processing, .waited 5), (pingedAt .outside, .called),
    (pingedAt (.reading 0), .readAll),
    (pingedAt .processing, .handed 0 ((((first : Connection String).inputStream.fill
      ping.bytes).setCapacity ping.bytes.length).copy fun _ => 0) "peer" 6 (.ok ())),
    (pingGone .processing, .drained)]

theorem pingLater_run : Run Step first pingLater (pingGone .outside) := by
  have waits : Step (ε := Unit) (.waited 5) (pingedAt .processing) (pingedAt .outside) :=
    @Step.process String Unit (pingedAt .processing) 5 (readPart (.ok ())) rfl
  have calls : Step (ε := Unit) .called (pingedAt .outside) (pingedAt (.reading 0)) :=
    @Step.call String Unit (pingedAt .outside) rfl
  have reads : Step (ε := Unit) .readAll (pingedAt (.reading 0)) (pingedAt .processing) :=
    @Step.read String Unit (pingedAt (.reading 0)) 0 .empty 6 (fun _ => 0) rfl
  have hands : Step (ε := Unit) _ (pingedAt .processing) (pingGone .processing) :=
    @Step.process String Unit (pingedAt .processing) 6 (readPart (.ok ())) rfl
  have drains : Step (ε := Unit) .drained (pingGone .processing) (pingGone .outside) :=
    @Step.process String Unit (pingGone .processing) 6 (readPart (.ok ())) rfl
  exact (((((pingReceived_run.snoc waits).snoc calls).snoc reads).snoc hands).snoc drains)

theorem pingLater_ticks : Ticks (pingLater.map Prod.snd) := by
  have received := @Ticks.concat String Unit [.called] (.received ping 5)
    (@Ticks.silent _ _ [] .called ticks_nil rfl)
    (by simp [earlier, List.rdropWhile, receipts, Event.receipt?, Event.isCall])
  have waited := @Ticks.concat _ _ _ (.waited 5) (@Ticks.silent _ _ _ .readAll received rfl)
    (by simp [earlier, List.rdropWhile, receipts, Event.receipt?, Event.isCall])
  have called := @Ticks.silent _ _ _ .readAll (@Ticks.silent _ _ _ .called waited rfl) rfl
  have handed := @Ticks.concat _ _ _ (.handed 0 ((((first : Connection String).inputStream.fill
      ping.bytes).setCapacity ping.bytes.length).copy fun _ => 0) "peer" 6 (.ok ())) called
    (by simp [earlier, List.rdropWhile, receipts, Event.receipt?, Event.isCall, Event.clock?])
  exact @Ticks.silent _ _ _ .drained handed rfl

theorem pingLater_keepsUp : KeepsUp (pingLater.map Prod.snd) (pingGone .outside) :=
  keeps_up pingLater_run (by simp [pingLater, pingReceived, Event.Returns]) pingLater_ticks rfl

end TwoFrames
end Connection
end PackagedTask.Network
