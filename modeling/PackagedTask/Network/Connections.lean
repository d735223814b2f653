import PackagedTask.Streams.Filling
import PackagedTask.Network.Handing

namespace PackagedTask.Network
open Streams Library

/-! The connections of a program over the memory that their streams are in. -/

/-- The static `inputStream`, or the `mPacketBuffer` of a packet that a connection has queued. -/
abbrev StreamRef (κ : Type) := Option (κ × PacketRef)

structure QueuedPacket (α : Type) where
  packet : PacketRef
  mReceivedTime : Nat
  mFromAddress : α

structure ConnectionObject (α : Type) where
  mPacketQueue : List (QueuedPacket α) := []
  emplaced : PacketRef := 0
  position : Position := .outside

def ConnectionObject.emplace {α : Type} (connection : ConnectionObject α) (mReceivedTime : Nat)
    (mFromAddress : α) : ConnectionObject α :=
  { connection with
    mPacketQueue := connection.mPacketQueue ++ [⟨connection.emplaced, mReceivedTime, mFromAddress⟩]
    emplaced := connection.emplaced + 1 }

structure Connections (κ α : Type) where
  streams : StreamStore (StreamRef κ)
  connections : κ → ConnectionObject α

namespace Connections
variable {κ α ε : Type} [DecidableEq κ]

def moveTo (program : Connections κ α) (this : κ) (position : Position) : Connections κ α :=
  { program with
    connections := Function.update program.connections this
      { program.connections this with position } }

/-- What follows when `receiveFrom` has come back with a datagram. -/
def queueDatagram (program : Connections κ α) (this : κ) (datagram : Datagram α) (now : Int) :
    Except Fault (Connections κ α) := do
  let connection := program.connections this
  let received ← program.streams.fill none datagram.bytes
  let received := received.setCapacity none datagram.bytes.length
  let simulatedReceivedTime := (now % 2 ^ 32).toNat
  let emplaced ← received.copyConstructAs (some (this, connection.emplaced)) none
  pure
    { streams := emplaced.resetHead none
      connections := Function.update program.connections this
        (connection.emplace simulatedReceivedTime datagram.fromAddress) }

def readPass (program : Connections κ α) (this : κ) (receivedPackedCount : Nat)
    (outcome : Outcome α) (now : Int) : Except Fault (Event α ε × Connections κ α) :=
  if receivedPackedCount < kMaxPacketsPerFrameCount then
    match outcome with
    | .datagram datagram => do
        let queued ← program.queueDatagram this datagram now
        pure (.received datagram now, queued.moveTo this (.reading (receivedPackedCount + 1)))
    | .empty => .ok (.readAll, program.moveTo this .processing)
    | .error connection_reset => .ok (.failed connection_reset, program)
  else .ok (.readAll, program.moveTo this .processing)

/-- `processPacket` makes its reads at the packet's own stream, and returns or throws. -/
def processPass (program : Connections κ α) (this : κ) (now : Int) (reads : Reads)
    (result : Except ε Unit) : Event α ε × Connections κ α :=
  let connection := program.connections this
  match connection.mPacketQueue with
  | [] => (.drained, program.moveTo this .outside)
  | nextPacket :: rest =>
      let mPacketBuffer := some (this, nextPacket.packet)
      if now > nextPacket.mReceivedTime then
        let event := .handed nextPacket.packet (program.streams.view mPacketBuffer)
          nextPacket.mFromAddress now result
        let streams := (reads.run mPacketBuffer program.streams).2
        match result with
        | .ok _ =>
            (event, { streams := streams.destroy mPacketBuffer
                      connections := Function.update program.connections this
                        { connection with mPacketQueue := rest } })
        | .error _ => (event, { program with streams }.moveTo this .outside)
      else (.waited now, program.moveTo this .outside)

/-- The passes of all connections, on one thread. No read of `processPacket` leaves the memory of
its stream. -/
inductive Step : κ × Event α ε → Connections κ α → Connections κ α → Prop
  | call {program this} (between : ∀ other, (program.connections other).position = .outside) :
      Step (this, .called) program (program.moveTo this (.reading 0))
  | read {program this receivedPackedCount event next} (outcome : Outcome α) (now : Int)
      (inLoop : (program.connections this).position = .reading receivedPackedCount)
      (ran : program.readPass this receivedPackedCount outcome now = .ok (event, next)) :
      Step (this, event) program next
  | process {program this} (now : Int) (reads : Reads) (result : Except ε Unit)
      (inLoop : (program.connections this).position = .processing)
      (inside : ∀ nextPacket ∈ (program.connections this).mPacketQueue.head?,
        .error .undefined ∉ (reads.run (some (this, nextPacket.packet)) program.streams).1) :
      Step (this, (program.processPass this now reads result).1) program
        (program.processPass this now reads result).2

def start : Connections κ α where
  streams :=
    { streams := fun index => if index = none then ⟨some 0, 0, packetSize⟩ else ⟨none, 0, 0⟩
      buffers := fun ref => if ref = 0 then some (List.replicate packetSize 0) else none
      nextBuffer := 1 }
  connections := fun _ => {}

def eventsOf (this : κ) (past : List (Connections κ α × κ × Event α ε)) : List (Event α ε) :=
  past.filterMap fun entry => if entry.2.1 = this then some entry.2.2 else none

/-! Each connection by itself, its streams taken for their bytes. -/

def node (program : Connections κ α) (this : κ) (queued : QueuedPacket α) :
    PacketRef × ReceivedPacket α :=
  (queued.packet, ⟨queued.mReceivedTime, program.streams.view (some (this, queued.packet)),
    queued.mFromAddress⟩)

def seen (program : Connections κ α) (this : κ) : Connection α where
  inputStream := program.streams.view none
  mPacketQueue := (program.connections this).mPacketQueue.map (program.node this)
  emplaced := (program.connections this).emplaced
  position := (program.connections this).position

structure Sound (program : Connections κ α) : Prop where
  valid : program.streams.Valid
  owned : (program.streams.streams none).data ≠ none
  room : (program.streams.allocation none).length = packetSize
  reset : (program.streams.streams none).head = 0
  numbered : ∀ this, ∀ queued ∈ (program.connections this).mPacketQueue,
    queued.packet < (program.connections this).emplaced
  distinct : ∀ this, ((program.connections this).mPacketQueue.map QueuedPacket.packet).Nodup
  alone : ∀ this other, (program.connections this).position ≠ .outside →
    (program.connections other).position ≠ .outside → this = other

/-- Other connections keep their packets, and these their bytes. -/
structure Spares (program : Connections κ α) (this : κ) (next : Connections κ α) : Prop where
  object : ∀ other, other ≠ this → next.connections other = program.connections other
  streams : ∀ other, other ≠ this → ∀ packet,
    program.streams.Unchanged (some (other, packet)) next.streams (some (other, packet))

section Objects
omit [DecidableEq κ]
variable {program next : Connections κ α} {this other : κ} {event : Event α ε}

theorem seen_congr (object : next.connections this = program.connections this)
    (streams : ∀ queued ∈ (program.connections this).mPacketQueue, program.streams.Unchanged
      (some (this, queued.packet)) next.streams (some (this, queued.packet))) :
    next.seen this = { program.seen this with inputStream := next.streams.view none } := by
  simp only [seen, object, Connection.mk.injEq, and_true, true_and]
  refine List.map_congr_left fun queued listed => ?_
  rw [node, node, (streams queued listed).view]

theorem Sound.others (sound : program.Sound) (active : (program.connections this).position ≠ .outside)
    (apart : other ≠ this) : (program.connections other).position = .outside := by
  by_contra also
  exact apart (sound.alone other this also active)

theorem Spares.elsewhere (spares : program.Spares this next) (sound : next.Sound)
    (apart : other ≠ this) (between : (program.connections other).position = .outside) :
    Connection.Step (.elsewhere : Event α ε) (program.seen other) (next.seen other) := by
  rw [seen_congr (spares.object other apart) fun queued _ => spares.streams other apart _]
  exact .elsewhere _ between sound.reset

theorem Sound.touched (sound : program.Sound) (valid : next.streams.Valid)
    (static : program.streams.Unchanged none next.streams none)
    (queue : ∀ other, (next.connections other).mPacketQueue.Sublist
      (program.connections other).mPacketQueue)
    (emplaced : ∀ other, (next.connections other).emplaced = (program.connections other).emplaced)
    (position : ∀ other, (next.connections other).position = (program.connections other).position) :
    next.Sound where
  valid := valid
  owned := static.object ▸ sound.owned
  room := static.bytes ▸ sound.room
  reset := static.object ▸ sound.reset
  numbered := fun other queued listed => by
    rw [emplaced]
    exact sound.numbered other queued ((queue other).subset listed)
  distinct := fun other => (sound.distinct other).sublist ((queue other).map _)
  alone := fun first second one two => by
    rw [position] at one two
    exact sound.alone first second one two

theorem rest_nodes {nextPacket : QueuedPacket α} {rest : List (QueuedPacket α)}
    (sound : program.Sound) (front : (program.connections this).mPacketQueue = nextPacket :: rest)
    (streams : ∀ index, index ≠ some (this, nextPacket.packet) →
      program.streams.Unchanged index next.streams index) :
    rest.map (next.node this) = rest.map (program.node this) := by
  have distinct := sound.distinct this
  rw [front, List.map_cons, List.nodup_cons] at distinct
  refine List.map_congr_left fun queued listed => ?_
  have apart : queued.packet ≠ nextPacket.packet :=
    fun same => distinct.1 (same ▸ List.mem_map_of_mem listed)
  rw [node, node, (streams (some (this, queued.packet)) (by simp [apart])).view]

end Objects

section Steps
variable {program next : Connections κ α} {this other : κ} {event : Event α ε}

theorem moveTo_spares (program : Connections κ α) (this : κ) (position : Position) :
    program.Spares this (program.moveTo this position) :=
  ⟨fun _ apart => Function.update_of_ne apart _ _, fun _ _ _ => .refl _ _⟩

theorem moveTo_seen (program : Connections κ α) (this : κ) (position : Position) :
    (program.moveTo this position).seen this = { program.seen this with position } := by
  simp [seen, moveTo, node]

theorem Sound.moveTo (sound : program.Sound) {position : Position}
    (inside : ∀ other, other ≠ this → (program.connections other).position = .outside) :
    (program.moveTo this position).Sound := by
  have object (other : κ) :
      ((program.moveTo this position).connections other).mPacketQueue =
          (program.connections other).mPacketQueue ∧
        ((program.moveTo this position).connections other).emplaced =
          (program.connections other).emplaced := by
    by_cases here : other = this
    · subst here
      simp [Connections.moveTo]
    · rw [(moveTo_spares program this position).object other here]
      exact ⟨rfl, rfl⟩
  have only (other : κ)
      (active : ((program.moveTo this position).connections other).position ≠ .outside) :
      other = this := by
    by_contra apart
    rw [(moveTo_spares program this position).object other apart] at active
    exact active (inside other apart)
  refine { sound with numbered := ?_, distinct := ?_, alone := ?_ }
  · intro other
    rw [(object other).1, (object other).2]
    exact sound.numbered other
  · intro other
    rw [(object other).1]
    exact sound.distinct other
  · intro first second one two
    rw [only first one, only second two]

theorem Sound.emplaced (sound : program.Sound) {mReceivedTime : Nat} {mFromAddress : α}
    (object : next.connections = Function.update program.connections this
      ((program.connections this).emplace mReceivedTime mFromAddress))
    (valid : next.streams.Valid) (owned : (next.streams.streams none).data ≠ none)
    (room : (next.streams.allocation none).length = packetSize)
    (reset : (next.streams.streams none).head = 0) : next.Sound := by
  have position (other : κ) :
      (next.connections other).position = (program.connections other).position := by
    rw [object]
    by_cases here : other = this
    · subst here
      rw [Function.update_self]
      rfl
    · rw [Function.update_of_ne here]
  refine ⟨valid, owned, room, reset, ?_, ?_, ?_⟩
  · intro other
    rw [object]
    by_cases here : other = this
    · subst here
      rw [Function.update_self, ConnectionObject.emplace, List.forall_mem_append,
        List.forall_mem_singleton]
      exact ⟨fun queued listed => Nat.lt_succ_of_lt (sound.numbered other queued listed),
        Nat.lt_succ_self _⟩
    · rw [Function.update_of_ne here]
      exact sound.numbered other
  · intro other
    rw [object]
    by_cases here : other = this
    · subst here
      rw [Function.update_self, ConnectionObject.emplace, List.map_append, List.map_singleton]
      refine List.nodup_append.mpr ⟨sound.distinct other, List.nodup_singleton _, ?_⟩
      intro packet listed new same
      obtain ⟨queued, among, rfl⟩ := List.mem_map.mp listed
      rw [List.mem_singleton.mp same]
      exact (sound.numbered other queued among).ne
    · rw [Function.update_of_ne here]
      exact sound.distinct other
  · intro first second one two
    rw [position] at one two
    exact sound.alone first second one two

/-- A datagram has come in for one connection; every other stream keeps its own memory. -/
structure Received (program : Connections κ α) (this : κ) (datagram : Datagram α) (now : Int)
    (next : Connections κ α) : Prop where
  sound : next.Sound
  object : next.connections = Function.update program.connections this
    ((program.connections this).emplace (now % 2 ^ 32).toNat datagram.fromAddress)
  seen : next.seen this = (program.seen this).queueDatagram datagram now fun _ => 0
  streams : ∀ index, index ≠ none → index ≠ some (this, (program.connections this).emplaced) →
    program.streams.Unchanged index next.streams index

theorem Sound.receives (sound : program.Sound) (this : κ) (datagram : Datagram α) (now : Int) :
    ∃ next, program.queueDatagram this datagram now = .ok next ∧
      program.Received this datagram now next := by
  have room : (program.streams.streams none).head + datagram.bytes.length ≤
      (program.streams.allocation none).length := by
    rw [sound.reset, sound.room, Nat.zero_add]
    exact datagram.fits
  obtain ⟨filled, ran, fills⟩ := StreamStore.fill_fills sound.valid room sound.owned
  have reset : (filled.streams none).head = 0 := by rw [fills.streams, sound.reset]
  have sized : (filled.setCapacity none datagram.bytes.length).Valid := by
    refine StreamStore.modify_valid fills.valid (fun _ => rfl) ⟨?_, ?_⟩
    · rw [reset]
      exact Nat.zero_le _
    · rw [fills.length, sound.room]
      exact (Nat.mod_le _ _).trans datagram.fits
  obtain ⟨copied, ran', made⟩ := StreamStore.copyConstructAs_constructs sized
    (some (this, (program.connections this).emplaced)) none
  have static : copied.view none = (((program.streams.view none).fill datagram.bytes).setCapacity
      datagram.bytes.length) := by
    rw [(made.others none (by simp)).view, StreamStore.setCapacity_view, fills.view]
  have streams : ∀ index, index ≠ none → index ≠ some (this, (program.connections this).emplaced) →
      program.streams.Unchanged index (copied.resetHead none) index := by
    intro index queued old
    have written := (fills.others index queued).trans
      (StreamStore.setCapacity_unchanged datagram.bytes.length queued)
    exact (written.trans (made.others index old)).trans (StreamStore.resetHead_unchanged queued)
  have kept := made.others none (by simp)
  have emplaced : (copied.resetHead none).view (some (this, (program.connections this).emplaced)) =
      (((program.streams.view none).fill datagram.bytes).setCapacity datagram.bytes.length).copy
        fun _ => 0 := by
    rw [(StreamStore.resetHead_unchanged (Option.some_ne_none _)).view, made.view,
      StreamStore.setCapacity_view, fills.view]
  have queued : program.queueDatagram this datagram now = .ok
      ⟨copied.resetHead none, Function.update program.connections this
        ((program.connections this).emplace (now % 2 ^ 32).toNat datagram.fromAddress)⟩ := by
    simp only [queueDatagram, ran, ran', bind, Except.bind, pure, Except.pure]
  refine ⟨_, queued, ?_, rfl, ?_, streams⟩
  · refine sound.emplaced rfl (StreamStore.resetHead_valid made.valid) ?_ ?_ ?_
    · simpa [kept.object, fills.streams] using sound.owned
    · simpa [kept.bytes, fills.length] using sound.room
    · simp
  · simp only [Connections.seen, Connection.queueDatagram, Connection.emplace,
      ConnectionObject.emplace, Function.update_self, List.map_append, List.map_singleton, node,
      emplaced, StreamStore.resetHead_view, static, Connection.mk.injEq, and_true, true_and,
      List.append_cancel_right_eq]
    refine List.map_congr_left fun queued listed => ?_
    have older := (sound.numbered this queued listed).ne
    rw [node, node, (streams (some (this, queued.packet)) (by simp) (by simp [older])).view]

theorem Received.spares {datagram : Datagram α} {now : Int}
    (received : program.Received this datagram now next) : program.Spares this next where
  object := fun other apart => by rw [received.object, Function.update_of_ne apart]
  streams := fun other apart packet => received.streams _ (Option.some_ne_none _) (by simp [apart])

/-- Whatever comes in, each packet that waits somewhere keeps its bytes, its head and its buffer. -/
theorem Received.isolated {datagram : Datagram α} {now : Int} (sound : program.Sound)
    (received : program.Received this datagram now next) :
    ∀ queued ∈ (program.connections other).mPacketQueue, program.streams.Unchanged
      (some (other, queued.packet)) next.streams (some (other, queued.packet)) := by
  intro queued listed
  by_cases here : other = this
  · subst here
    exact received.streams _ (Option.some_ne_none _)
      (by simp [(sound.numbered other queued listed).ne])
  · exact received.spares.streams other here queued.packet

end Steps
end Connections
end PackagedTask.Network
