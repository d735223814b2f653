import Mathlib.Data.List.Forall2
import Mathlib.Data.List.Pairwise
import PackagedTask.Network.Connection

namespace PackagedTask.Network
open Streams Library

/-! Which packets the handler is given, over whole runs. -/

variable {α ε : Type}

namespace Event

def datagram? : Event α ε → Option (Datagram α)
  | .received datagram _ => some datagram
  | _ => none

def handed? : Event α ε → Option (PacketRef × InputMemoryStream × α)
  | .handed packet stream fromAddress _ _ => some (packet, stream, fromAddress)
  | _ => none

/-- `GetMilisecFromStart`, where the pass asked for it. -/
def clock? : Event α ε → Option Int
  | .received _ now | .handed _ _ _ now _ | .waited now => some now
  | _ => none

def Returns : Event α ε → Prop
  | .handed _ _ _ _ (.error _) => False
  | _ => True

instance decidableReturns : (event : Event α ε) → Decidable event.Returns
  | .handed _ _ _ _ (.error _) => .isFalse id
  | .handed _ _ _ _ (.ok _) | .called | .received _ _ | .failed _ | .readAll | .waited _
  | .drained | .elsewhere => .isTrue trivial

end Event

def received (events : List (Event α ε)) : List (Datagram α) := events.filterMap Event.datagram?

def handedOver (events : List (Event α ε)) : List (PacketRef × InputMemoryStream × α) :=
  events.filterMap Event.handed?

theorem handedOver_concat (events : List (Event α ε)) (event : Event α ε) :
    handedOver (events ++ [event]) = handedOver events ++ event.handed?.toList := by
  rw [handedOver, List.filterMap_append, handedOver]
  cases event <;> rfl

theorem received_concat (events : List (Event α ε)) (event : Event α ε) :
    received (events ++ [event]) = received events ++ event.datagram?.toList := by
  rw [received, List.filterMap_append, received]
  cases event <;> rfl

structure Presents (packet : PacketRef × InputMemoryStream × α) (datagram : Datagram α) : Prop where
  head : packet.2.1.head = 0
  capacity : packet.2.1.capacity = datagram.bytes.length
  bytes : packet.2.1.bytes 0 packet.2.1.capacity = datagram.bytes
  sender : packet.2.2 = datagram.fromAddress

/-- Each packet once, in the order of arrival, none left out. -/
def EachOnce (events : List (Event α ε)) : Prop :=
  (handedOver events).map Prod.fst = List.range (handedOver events).length

structure PrefixHanded (events : List (Event α ε)) : Prop where
  once : EachOnce events
  count : (handedOver events).length ≤ (received events).length
  presents : List.Forall₂ Presents (handedOver events)
    ((received events).take (handedOver events).length)

namespace Connection

def waiting (connection : Connection α) : List (PacketRef × InputMemoryStream × α) :=
  connection.mPacketQueue.map fun node => (node.1, node.2.mPacketBuffer, node.2.mFromAddress)

theorem waiting_emplace (connection : Connection α) (packet : ReceivedPacket α) :
    (connection.emplace packet).waiting =
      connection.waiting ++ [(connection.emplaced, packet.mPacketBuffer, packet.mFromAddress)] :=
  List.map_append

/-- The handler has returned so far: what was handed over and what waits is what was received. -/
structure Faithful (events : List (Event α ε)) (connection : Connection α) : Prop where
  reset : connection.inputStream.head = 0
  presents : List.Forall₂ Presents (handedOver events ++ connection.waiting) (received events)
  numbered : (handedOver events ++ connection.waiting).map Prod.fst =
    List.range connection.emplaced

theorem presents_copy {inputStream : InputMemoryStream} (reset : inputStream.head = 0)
    (datagram : Datagram α) (behind : Nat → UInt8) (packet : PacketRef) :
    Presents (packet, ((inputStream.fill datagram.bytes).setCapacity
      datagram.bytes.length).copy behind, datagram.fromAddress) datagram := by
  -- a datagram is far shorter than `uint32_t` can say
  have short : datagram.bytes.length % 2 ^ 32 = datagram.bytes.length :=
    Nat.mod_eq_of_lt (Nat.lt_of_le_of_lt datagram.fits (by decide))
  refine ⟨reset, short, ?_, rfl⟩
  have copied := InputMemoryStream.bytes_copy behind
    ((inputStream.fill datagram.bytes).setCapacity datagram.bytes.length)
  have filled := InputMemoryStream.bytes_fill inputStream datagram.bytes
  rw [reset] at filled
  refine copied.trans (Eq.trans ?_ filled)
  show (inputStream.fill datagram.bytes).bytes 0 (datagram.bytes.length % 2 ^ 32) = _
  rw [short]

inductive Passes (connection : Connection α) : Event α ε → Connection α → Prop
  | call (between : connection.position = .outside) :
      Passes connection .called { connection with position := .reading 0 }
  | elsewhere (inputStream : InputMemoryStream) (between : connection.position = .outside)
      (reset : inputStream.head = 0) : Passes connection .elsewhere { connection with inputStream }
  | arrived {receivedPackedCount} (datagram : Datagram α) (now : Int) (behind : Nat → UInt8)
      (inLoop : connection.position = .reading receivedPackedCount) :
      Passes connection (.received datagram now) { connection.queueDatagram datagram now behind with
        position := .reading (receivedPackedCount + 1) }
  | failed {receivedPackedCount} (connection_reset : Bool)
      (inLoop : connection.position = .reading receivedPackedCount) :
      Passes connection (.failed connection_reset) connection
  | readAll {receivedPackedCount} (inLoop : connection.position = .reading receivedPackedCount) :
      Passes connection .readAll { connection with position := .processing }
  | drained (inLoop : connection.position = .processing) (empty : connection.mPacketQueue = []) :
      Passes connection .drained { connection with position := .outside }
  | popped {packet nextPacket rest} {now : Int} (inLoop : connection.position = .processing)
      (front : connection.mPacketQueue = (packet, nextPacket) :: rest)
      (late : nextPacket.mReceivedTime < now) :
      Passes connection
        (.handed packet nextPacket.mPacketBuffer nextPacket.mFromAddress now (.ok ()))
        { connection with mPacketQueue := rest }
  | thrown {packet nextPacket rest} {now : Int} (left : InputMemoryStream) (e : ε)
      (inLoop : connection.position = .processing)
      (front : connection.mPacketQueue = (packet, nextPacket) :: rest)
      (late : nextPacket.mReceivedTime < now) :
      Passes connection
        (.handed packet nextPacket.mPacketBuffer nextPacket.mFromAddress now (.error e))
        { connection with
          mPacketQueue := (packet, { nextPacket with mPacketBuffer := left }) :: rest
          position := .outside }
  | waited {packet nextPacket rest} {now : Int} (inLoop : connection.position = .processing)
      (front : connection.mPacketQueue = (packet, nextPacket) :: rest)
      (early : ¬ nextPacket.mReceivedTime < now) :
      Passes connection (.waited now) { connection with position := .outside }

theorem readPass_passes {connection : Connection α} {receivedPackedCount : Nat}
    (inLoop : connection.position = .reading receivedPackedCount) (outcome : Outcome α) (now : Int)
    (behind : Nat → UInt8) :
    Passes (ε := ε) connection (connection.readPass receivedPackedCount outcome now behind).1
      (connection.readPass (ε := ε) receivedPackedCount outcome now behind).2 := by
  unfold readPass
  split
  · cases outcome with
    | datagram datagram => exact .arrived datagram now behind inLoop
    | empty => exact .readAll inLoop
    | error connection_reset => exact .failed connection_reset inLoop
  · exact .readAll inLoop

theorem processPass_passes {connection : Connection α} (inLoop : connection.position = .processing)
    (now : Int) (processPacket : InputMemoryStream → α → Except ε Unit × InputMemoryStream) :
    Passes connection (connection.processPass now processPacket).1
      (connection.processPass now processPacket).2 := by
  unfold processPass
  split
  · rename_i front
    exact .drained inLoop front
  · rename_i packet nextPacket rest front
    by_cases late : nextPacket.mReceivedTime < now
    · simp only [gt_iff_lt, if_pos late]
      cases result : (processPacket nextPacket.mPacketBuffer nextPacket.mFromAddress).1 with
      | ok done => exact .popped inLoop front late
      | error e => exact .thrown _ e inLoop front late
    · simp only [gt_iff_lt, if_neg late]
      exact .waited inLoop front late

theorem Step.passes {event : Event α ε} {connection next : Connection α}
    (step : Step event connection next) : Passes connection event next := by
  cases step with
  | call between => exact .call between
  | read outcome now behind inLoop => exact readPass_passes inLoop outcome now behind
  | process now processPacket inLoop => exact processPass_passes inLoop now processPacket
  | elsewhere inputStream between reset => exact .elsewhere inputStream between reset

variable {events : List (Event α ε)} {connection next : Connection α} {event : Event α ε}

theorem Faithful.idle (faithful : Faithful events connection) (noHanding : event.handed? = none)
    (noArrival : event.datagram? = none) (reset : next.inputStream.head = 0)
    (queue : next.mPacketQueue = connection.mPacketQueue)
    (emplaced : next.emplaced = connection.emplaced) : Faithful (events ++ [event]) next where
  reset := reset
  presents := by
    rw [handedOver_concat, received_concat, noHanding, noArrival, waiting, queue]
    simpa [waiting] using faithful.presents
  numbered := by
    rw [handedOver_concat, noHanding, waiting, queue, emplaced]
    simpa [waiting] using faithful.numbered

theorem Faithful.arrive {datagram : Datagram α} {node : PacketRef × InputMemoryStream × α}
    (faithful : Faithful events connection) (noHanding : event.handed? = none)
    (arrival : event.datagram? = some datagram) (presents : Presents node datagram)
    (number : node.1 = connection.emplaced) (reset : next.inputStream.head = 0)
    (queue : next.waiting = connection.waiting ++ [node])
    (emplaced : next.emplaced = connection.emplaced + 1) : Faithful (events ++ [event]) next where
  reset := reset
  presents := by
    rw [handedOver_concat, received_concat, noHanding, arrival, queue, Option.toList_none,
      Option.toList_some, List.append_nil, ← List.append_assoc]
    exact List.rel_append faithful.presents (.cons presents .nil)
  numbered := by
    rw [handedOver_concat, noHanding, queue, Option.toList_none, List.append_nil,
      ← List.append_assoc, List.map_append, faithful.numbered, emplaced, List.range_succ]
    rw [List.map_singleton, number]

theorem Faithful.hand {node : PacketRef × InputMemoryStream × α}
    (faithful : Faithful events connection) (handing : event.handed? = some node)
    (noArrival : event.datagram? = none) (reset : next.inputStream.head = 0)
    (queue : connection.waiting = node :: next.waiting)
    (emplaced : next.emplaced = connection.emplaced) : Faithful (events ++ [event]) next := by
  have same : handedOver (events ++ [event]) ++ next.waiting =
      handedOver events ++ connection.waiting := by
    rw [handedOver_concat, handing, queue, Option.toList_some, List.append_assoc]
    rfl
  refine ⟨reset, ?_, ?_⟩
  · rw [same, received_concat, noArrival, Option.toList_none, List.append_nil]
    exact faithful.presents
  · rw [same, emplaced]
    exact faithful.numbered

theorem Faithful.step (faithful : Faithful events connection) (passes : Passes connection event next)
    (returns : event.Returns) : Faithful (events ++ [event]) next := by
  cases passes with
  | call between => exact faithful.idle rfl rfl faithful.reset rfl rfl
  | elsewhere inputStream between reset => exact faithful.idle rfl rfl reset rfl rfl
  | arrived datagram now behind inLoop =>
      exact faithful.arrive rfl rfl (presents_copy faithful.reset datagram behind _) rfl rfl
        (waiting_emplace connection _) rfl
  | failed connection_reset inLoop => exact faithful.idle rfl rfl faithful.reset rfl rfl
  | readAll inLoop => exact faithful.idle rfl rfl faithful.reset rfl rfl
  | drained inLoop empty => exact faithful.idle rfl rfl faithful.reset rfl rfl
  | popped inLoop front late =>
      refine faithful.hand rfl rfl faithful.reset ?_ rfl
      rw [waiting, front]
      rfl
  | thrown left e inLoop front late => exact returns.elim
  | waited inLoop front early => exact faithful.idle rfl rfl faithful.reset rfl rfl

theorem Faithful.eachOnce (faithful : Faithful events connection) : EachOnce events := by
  have numbered := congrArg (List.take (handedOver events).length) faithful.numbered
  rw [List.map_append, List.take_left' (List.length_map _), List.take_range] at numbered
  have bound := congrArg List.length faithful.numbered
  rw [List.length_map, List.length_append, List.length_range] at bound
  rw [EachOnce, numbered, min_eq_left (by omega)]

theorem Faithful.handed (faithful : Faithful events connection) : PrefixHanded events where
  once := faithful.eachOnce
  count := by
    have lengths := faithful.presents.length_eq
    rw [List.length_append] at lengths
    omega
  presents := by
    have taken := List.forall₂_take (handedOver events).length faithful.presents
    rw [List.take_left] at taken
    exact taken

/-- The state of the first call, with the static stream just made. -/
def first : Connection α := { inputStream := ⟨fun _ => 0, 0, packetSize⟩ }

theorem first_faithful : Faithful ([] : List (Event α ε)) (first : Connection α) where
  reset := rfl
  presents := .nil
  numbered := rfl

theorem faithful_of_run {past : List (Connection α × Event α ε)} {last : Connection α}
    (run : Run Step first past last) (returns : ∀ entry ∈ past, entry.2.Returns) :
    Faithful (past.map Prod.snd) last := by
  induction run with
  | nil => exact first_faithful
  | @snoc past connection event next before step ih =>
      rw [List.forall_mem_append, List.forall_mem_singleton] at returns
      rw [List.map_append]
      exact (ih returns.1).step step.passes returns.2

section OneDatagram

def ping : Datagram String := ⟨[1, 2, 3], "peer", by decide, by decide⟩

def pinged : Connection String :=
  { first.queueDatagram ping 5 (fun _ => 0) with position := .reading 1 }

def pingReceived : List (Connection String × Event String Unit) :=
  [(first, .called), ({ first with position := .reading 0 }, .received ping 5),
    (pinged, .readAll)]

theorem pingReceived_run :
    Run Step first pingReceived { pinged with position := .processing } := by
  have receive : Step (ε := Unit) (.received ping 5) { first with position := .reading 0 } pinged :=
    @Step.read String Unit { first with position := .reading 0 } 0 (.datagram ping) 5 (fun _ => 0)
      rfl
  have stop : Step (ε := Unit) .readAll pinged { pinged with position := .processing } :=
    @Step.read String Unit pinged 1 .empty 5 (fun _ => 0) rfl
  exact .snoc (.snoc (.snoc .nil (.call rfl)) receive) stop

def readPart (result : Except Unit Unit) (stream : InputMemoryStream) (_ : String) :
    Except Unit Unit × InputMemoryStream := (result, { stream with head := 2 })

end OneDatagram

end Connection
end PackagedTask.Network
