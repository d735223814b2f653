import PackagedTask.Library.Runs
import PackagedTask.Streams.Buffers

namespace PackagedTask.Network
open Streams Library

/-! `Connection` of `network/connection.h`, one pass of its loops at a time. Addresses and
exceptions are any values. -/

def packetSize : Nat := 1500
def kMaxPacketsPerFrameCount : Nat := 10

structure Datagram (α : Type) where
  bytes : List UInt8
  fromAddress : α
  nonempty : 0 < bytes.length
  fits : bytes.length ≤ packetSize

inductive Outcome (α : Type)
  | datagram (datagram : Datagram α)
  | empty
  | error (connection_reset : Bool)

structure ReceivedPacket (α : Type) where
  mReceivedTime : Nat
  mPacketBuffer : InputMemoryStream
  mFromAddress : α

abbrev PacketRef := Nat

inductive Position
  | outside
  | reading (receivedPackedCount : Nat)
  | processing
  deriving DecidableEq

/-- `inputStream` is a static variable, shared by all connections. -/
structure Connection (α : Type) where
  inputStream : InputMemoryStream
  mPacketQueue : List (PacketRef × ReceivedPacket α) := []
  emplaced : PacketRef := 0
  position : Position := .outside

/-- What a pass did, with the clock readings it took. -/
inductive Event (α ε : Type)
  | called
  | received (datagram : Datagram α) (now : Int)
  | failed (connection_reset : Bool)
  | readAll
  | handed (packet : PacketRef) (stream : InputMemoryStream) (fromAddress : α) (now : Int)
      (result : Except ε Unit)
  | waited (now : Int)
  | drained
  | elsewhere

namespace Connection
variable {α ε : Type}

def emplace (connection : Connection α) (packet : ReceivedPacket α) : Connection α :=
  { connection with
    mPacketQueue := connection.mPacketQueue ++ [(connection.emplaced, packet)]
    emplaced := connection.emplaced + 1 }

def queueDatagram (connection : Connection α) (datagram : Datagram α) (now : Int)
    (behind : Nat → UInt8) : Connection α :=
  let inputStream := (connection.inputStream.fill datagram.bytes).setCapacity datagram.bytes.length
  let simulatedReceivedTime := (now % 2 ^ 32).toNat
  { connection.emplace ⟨simulatedReceivedTime, inputStream.copy behind, datagram.fromAddress⟩ with
    inputStream := inputStream.resetHead }

def readPass (connection : Connection α) (receivedPackedCount : Nat) (outcome : Outcome α)
    (now : Int) (behind : Nat → UInt8) : Event α ε × Connection α :=
  if receivedPackedCount < kMaxPacketsPerFrameCount then
    match outcome with
    | .datagram datagram =>
        (.received datagram now, { connection.queueDatagram datagram now behind with
          position := .reading (receivedPackedCount + 1) })
    | .empty => (.readAll, { connection with position := .processing })
    | .error connection_reset => (.failed connection_reset, connection)
  else (.readAll, { connection with position := .processing })

/-- A pass of `processQueuedPackets`; an exception leaves before the packet is popped. -/
def processPass (connection : Connection α) (now : Int)
    (processPacket : InputMemoryStream → α → Except ε Unit × InputMemoryStream) :
    Event α ε × Connection α :=
  match connection.mPacketQueue with
  | [] => (.drained, { connection with position := .outside })
  | (packet, nextPacket) :: rest =>
      if now > nextPacket.mReceivedTime then
        let stream := nextPacket.mPacketBuffer
        let processed := processPacket stream nextPacket.mFromAddress
        let event := .handed packet stream nextPacket.mFromAddress now processed.1
        match processed.1 with
        | .ok _ => (event, { connection with mPacketQueue := rest })
        | .error _ =>
            (event, { connection with
              mPacketQueue := (packet, { nextPacket with mPacketBuffer := processed.2 }) :: rest
              position := .outside })
      else (.waited now, { connection with position := .outside })

/-- The passes of `processIncomingPackets`; between calls other connections use the static
stream. -/
inductive Step : Event α ε → Connection α → Connection α → Prop
  | call {connection} (between : connection.position = .outside) :
      Step .called connection { connection with position := .reading 0 }
  | read {connection receivedPackedCount} (outcome : Outcome α) (now : Int)
      (behind : Nat → UInt8) (inLoop : connection.position = .reading receivedPackedCount) :
      Step (connection.readPass receivedPackedCount outcome now behind).1 connection
        (connection.readPass (ε := ε) receivedPackedCount outcome now behind).2
  | process {connection} (now : Int)
      (processPacket : InputMemoryStream → α → Except ε Unit × InputMemoryStream)
      (inLoop : connection.position = .processing) :
      Step (connection.processPass now processPacket).1 connection
        (connection.processPass now processPacket).2
  | elsewhere {connection} (inputStream : InputMemoryStream)
      (between : connection.position = .outside) (reset : inputStream.head = 0) :
      Step .elsewhere connection { connection with inputStream }

end Connection
end PackagedTask.Network
