import PackagedTask.Network.Receiving

namespace PackagedTask.Network
open Streams Library Library.Iteration

/-! The receipt times in the queue, which are narrowed to 32 bits, against the clock. -/

variable {α ε : Type}

def Event.handing? : Event α ε → Option (PacketRef × Int)
  | .handed packet _ _ now _ => some (packet, now)
  | _ => none

def handings (events : List (Event α ε)) : List (PacketRef × Int) :=
  events.filterMap Event.handing?

def readings (events : List (Event α ε)) : List Int := events.filterMap Event.clock?

def Event.receipt? : Event α ε → Option Int
  | .received _ now => some now
  | _ => none

def receipts (events : List (Event α ε)) : List Int := events.filterMap Event.receipt?

def receiptOf (events : List (Event α ε)) (packet : PacketRef) : Int := (receipts events).getD packet 0

/-- `receivedAt` is what the clock returned when each packet was received. -/
def QueuedAt (receivedAt : PacketRef → Int) (queue : List (PacketRef × ReceivedPacket α)) : Prop :=
  ∀ node ∈ queue, node.2.mReceivedTime = (receivedAt node.1 % 2 ^ 32).toNat

/-- The clock does not go back, over the receipts and the readings of the call. -/
def Steady (receivedAt : PacketRef → Int) (queue : List (PacketRef × ReceivedPacket α))
    (clock : Nat → Int) : Prop :=
  ∀ count, (queue.map (fun node => receivedAt node.1) ++ (List.range count).map clock).Pairwise (· ≤ ·)

structure HeldUntilPassed (receivedAt : PacketRef → Int) (connection : Connection α)
    (events : List (Event α ε)) (last : Connection α) : Prop where
  passed : ∀ packet now, (packet, now) ∈ handings events → receivedAt packet < now
  exact : ∀ T, (∀ now ∈ readings events, now = T) →
    handedOver events = connection.waiting.takeWhile (fun packet => receivedAt packet.1 < T) ∧
      last.waiting = connection.waiting.dropWhile (fun packet => receivedAt packet.1 < T)

/-- The call returns and has held each packet until its time has passed. -/
def HoldsPackets (receivedAt : PacketRef → Int) (clock : Nat → Int)
    (processPacket : Nat → InputMemoryStream → α → Except ε Unit × InputMemoryStream)
    (connection : Connection α) : Prop :=
  ∃ fuel events last, connection.processQueuedPackets fuel clock processPacket = some (events, last) ∧
    HeldUntilPassed receivedAt connection events last

/-- No packet meets the clock at the very reading of its receipt once that needs more than 32 bits.
A time before the start, which wraps far ahead, must also be behind a clock that stands still. -/
structure Unwrapped (receivedAt : PacketRef → Int) (queue : List (PacketRef × ReceivedPacket α))
    (clock : Nat → Int) : Prop where
  above : ∀ number node, queue[number]? = some node → clock number = receivedAt node.1 →
    receivedAt node.1 < 2 ^ 32
  below : ∀ number node, queue[number]? = some node → (∀ earlier ≤ number, clock earlier = clock 0) →
    receivedAt node.1 < 0 → receivedAt node.1 < clock number →
      receivedAt node.1 % 2 ^ 32 < clock number

theorem take_eq_takeWhile {β : Type} {p : β → Bool} {l : List β} {count : Nat}
    (before : ∀ number < count, ∃ x, l[number]? = some x ∧ p x = true)
    (stops : ∀ x, l[count]? = some x → p x = false) :
    l.take count = l.takeWhile p ∧ l.drop count = l.dropWhile p := by
  induction l generalizing count with
  | nil => simp
  | cons x rest ih =>
      cases count with
      | zero => simp [stops x rfl]
      | succ count =>
          obtain ⟨y, first, passes⟩ := before 0 (Nat.succ_pos count)
          obtain rfl : x = y := Option.some.inj first
          obtain ⟨taken, dropped⟩ := @ih count (fun number earlier =>
            before (number + 1) (Nat.succ_lt_succ earlier)) stops
          simp [passes, taken, dropped]

section Clock
variable {receivedAt : PacketRef → Int} {queue : List (PacketRef × ReceivedPacket α)}
  {clock : Nat → Int} {node other : PacketRef × ReceivedPacket α}

theorem Steady.receipts (steady : Steady receivedAt queue clock) {number later : Nat}
    (order : number ≤ later) (first : queue[number]? = some node) (second : queue[later]? = some other) :
    receivedAt node.1 ≤ receivedAt other.1 := by
  rcases Nat.eq_or_lt_of_le order with rfl | before
  · obtain rfl := Option.some.inj (first.symm.trans second)
    exact le_rfl
  · obtain ⟨inside, rfl⟩ := List.getElem?_eq_some_iff.mp first
    obtain ⟨inside', rfl⟩ := List.getElem?_eq_some_iff.mp second
    have sorted := (List.pairwise_append.mp (steady 0)).1
    have ordered := List.pairwise_iff_getElem.mp sorted number later (by simpa) (by simpa) before
    rwa [List.getElem_map, List.getElem_map] at ordered

theorem Steady.behind (steady : Steady receivedAt queue clock) {number : Nat}
    (listed : queue[number]? = some node) (reading : Nat) : receivedAt node.1 ≤ clock reading := by
  have across := (List.pairwise_append.mp (steady (reading + 1))).2.2
  exact across _ (List.mem_map_of_mem (List.mem_of_getElem? listed)) _
    (List.mem_map_of_mem (List.mem_range.mpr (Nat.lt_succ_self reading)))

theorem QueuedAt.time (queued : QueuedAt receivedAt queue) {number : Nat}
    (listed : queue[number]? = some node) :
    (node.2.mReceivedTime : Int) = receivedAt node.1 % 2 ^ 32 := by
  rw [queued node (List.mem_of_getElem? listed)]
  exact Int.toNat_of_nonneg (Int.emod_nonneg _ (by decide))

end Clock

namespace Connection

/-- `count` packets handed over, each behind the clock, after `asked` readings. -/
structure Processed (clock : Nat → Int) (connection : Connection α) (count asked : Nat)
    (events : List (Event α ε)) (last : Connection α) : Prop where
  reached : ∀ number < count, ∃ node, connection.mPacketQueue[number]? = some node ∧
    node.2.mReceivedTime < clock number
  handed : handedOver events = connection.waiting.take count
  rest : last.mPacketQueue = connection.mPacketQueue.drop count
  times : ∀ packet now, (packet, now) ∈ handings events ↔ ∃ number < count, ∃ node,
    connection.mPacketQueue[number]? = some node ∧ packet = node.1 ∧ now = clock number
  asks : readings events = (List.range asked).map clock

/-- The call has looked at every packet, or at one that is not behind the clock. -/
structure Stopped (clock : Nat → Int) (connection : Connection α) (count asked : Nat) : Prop where
  drained : connection.mPacketQueue[count]? = none → asked = count
  waited : ∀ node, connection.mPacketQueue[count]? = some node →
    asked = count + 1 ∧ clock count ≤ node.2.mReceivedTime

section ProcessLoop
variable {clock : Nat → Int} {connection last : Connection α} {count asked : Nat}
  {events : List (Event α ε)}
  {processPacket : Nat → InputMemoryStream → α → Except ε Unit × InputMemoryStream}
  {s : List (Event α ε) × Connection α}

theorem Processed.idle {event : Event α ε} {next : Connection α} {more : Nat}
    (processed : Processed clock connection count asked events last) (noHanding : event.handed? = none)
    (noTime : event.handing? = none) (queue : next.mPacketQueue = last.mPacketQueue)
    (asksMore : (List.range asked).map clock ++ event.clock?.toList = (List.range more).map clock) :
    Processed clock connection count more (events ++ [event]) next where
  reached := processed.reached
  handed := by
    rw [handedOver_concat, noHanding, Option.toList_none, List.append_nil, processed.handed]
  rest := queue.trans processed.rest
  times := by
    intro packet now
    rw [handings, List.filterMap_append, ← handings]
    simpa [noTime] using processed.times packet now
  asks := by
    rw [readings, List.filterMap_append, ← readings, processed.asks, ← asksMore]
    cases event <;> rfl

theorem Processed.hand {node : PacketRef × ReceivedPacket α} {next : Connection α}
    {result : Except ε Unit} (processed : Processed clock connection count count events last)
    (front : connection.mPacketQueue[count]? = some node)
    (late : node.2.mReceivedTime < clock count)
    (queue : next.mPacketQueue = connection.mPacketQueue.drop (count + 1)) :
    Processed clock connection (count + 1) (count + 1) (events ++
      [.handed node.1 node.2.mPacketBuffer node.2.mFromAddress (clock count) result]) next where
  reached := by
    intro number before
    rcases Nat.lt_succ_iff_lt_or_eq.mp before with earlier | rfl
    · exact processed.reached number earlier
    · exact ⟨node, front, late⟩
  handed := by
    rw [handedOver_concat, processed.handed, List.take_add_one, waiting, List.getElem?_map, front]
    rfl
  rest := queue
  times := by
    intro packet now
    have here : (packet, now) ∈ handings (events ++
          [.handed node.1 node.2.mPacketBuffer node.2.mFromAddress (clock count) result]) ↔
        (packet, now) ∈ handings events ∨ packet = node.1 ∧ now = clock count := by
      rw [handings, List.filterMap_append, List.mem_append, ← handings]
      simp [Event.handing?]
    rw [here, processed.times]
    constructor
    · rintro (⟨number, before, other⟩ | ⟨rfl, rfl⟩)
      · exact ⟨number, Nat.lt_succ_of_lt before, other⟩
      · exact ⟨count, Nat.lt_succ_self count, node, front, rfl, rfl⟩
    · rintro ⟨number, before, other, found, same⟩
      rcases Nat.lt_succ_iff_lt_or_eq.mp before with earlier | rfl
      · exact .inl ⟨number, earlier, other, found, same⟩
      · obtain rfl := Option.some.inj (front.symm.trans found)
        exact .inr same
  asks := by
    rw [readings, List.filterMap_append, ← readings, processed.asks,
      List.range_succ, List.map_append]
    rfl

theorem Processed.count_le (processed : Processed clock connection count asked events last) :
    count ≤ connection.mPacketQueue.length := by
  by_contra more
  obtain ⟨node, found, -⟩ := processed.reached _ (Nat.lt_of_not_le more)
  simp at found

theorem processPass_of_front {node : PacketRef × ReceivedPacket α}
    (returns : ∀ number stream fromAddress, (processPacket number stream fromAddress).1 = .ok ())
    (rest : s.2.mPacketQueue = connection.mPacketQueue.drop count)
    (front : connection.mPacketQueue[count]? = some node) (number : Nat) (now : Int) :
    s.2.processPass now (processPacket number) =
      if now > node.2.mReceivedTime then
        (.handed node.1 node.2.mPacketBuffer node.2.mFromAddress now (.ok ()),
          { s.2 with mPacketQueue := connection.mPacketQueue.drop (count + 1) })
      else (.waited now, { s.2 with position := .outside }) := by
  obtain ⟨inside, rfl⟩ := List.getElem?_eq_some_iff.mp front
  rw [List.drop_eq_getElem_cons inside] at rest
  unfold processPass
  rw [rest]
  dsimp only
  rw [returns]
  split
  · rfl
  · rw [rest]

variable (processPacket) in
theorem processPass_of_empty (rest : s.2.mPacketQueue = connection.mPacketQueue.drop count)
    (front : connection.mPacketQueue[count]? = none) (number : Nat) (now : Int) :
    s.2.processPass now (processPacket number) =
      (.drained, { s.2 with position := .outside }) := by
  rw [List.drop_eq_nil_of_le (List.getElem?_eq_none_iff.mp front)] at rest
  unfold processPass
  split
  · rfl
  · rename_i queue
    rw [rest] at queue
    cases queue

structure Processing (clock : Nat → Int) (connection : Connection α)
    (s : List (Event α ε) × Connection α) : Prop where
  position : s.2.position = .processing
  processed : Processed clock connection s.1.length s.1.length s.1 s.2

theorem Processing.pass (processing : Processing clock connection s)
    (returns : ∀ number stream fromAddress, (processPacket number stream fromAddress).1 = .ok ()) :
    (∃ t, processLoop clock processPacket s = .inl t ∧ Processing clock connection t) ∨
      ∃ t count asked, processLoop clock processPacket s = .inr t ∧
        Processed clock connection count asked t.1 t.2 ∧ Stopped clock connection count asked := by
  obtain ⟨position, processed⟩ := processing
  cases front : connection.mPacketQueue[s.1.length]? with
  | none =>
      have pass := processPass_of_empty processPacket processed.rest front s.1.length
        (clock s.1.length)
      refine .inr ⟨(s.1 ++ [.drained], { s.2 with position := .outside }), s.1.length, s.1.length,
        ?_, ?_, fun _ => rfl, fun node found => ?_⟩
      · rw [processLoop, loopPass, pass]
        rfl
      · show Processed clock connection _ _ (s.1 ++ [.drained]) _
        exact processed.idle rfl rfl rfl (List.append_nil _)
      · rw [front] at found
        cases found
  | some node =>
      have pass := processPass_of_front returns processed.rest front s.1.length (clock s.1.length)
      by_cases late : node.2.mReceivedTime < clock s.1.length
      · rw [if_pos late] at pass
        refine .inl ⟨_, loopPass_inl_iff.mpr ⟨?_, rfl⟩, ?_⟩
        all_goals rw [pass]
        · rw [position]
          rfl
        · refine ⟨position, ?_⟩
          rw [List.length_append, List.length_singleton]
          exact processed.hand front late rfl
      · rw [if_neg late] at pass
        refine .inr ⟨(s.1 ++ [.waited (clock s.1.length)], { s.2 with position := .outside }),
          s.1.length, s.1.length + 1, ?_, ?_, fun none => ?_, fun other found => ?_⟩
        · rw [processLoop, loopPass, pass]
          rfl
        · show Processed clock connection _ _ (s.1 ++ [.waited (clock s.1.length)]) _
          refine processed.idle rfl rfl rfl ?_
          rw [List.range_succ, List.map_append]
          rfl
        · rw [front] at none
          cases none
        · obtain rfl := Option.some.inj (front.symm.trans found)
          exact ⟨rfl, Int.not_lt.mp late⟩

theorem Processing.steps {n : Nat} {t : List (Event α ε) × Connection α}
    (processing : Processing clock connection s)
    (returns : ∀ number stream fromAddress, (processPacket number stream fromAddress).1 = .ok ())
    (walk : Steps (processLoop clock processPacket) n s t) : Processing clock connection t := by
  refine walk.invariant ?_ processing
  intro before after kept pass
  rcases kept.pass returns with ⟨next, same, onward⟩ | ⟨left, count, asked, leaves, -⟩
  · obtain rfl := Sum.inl.inj (same.symm.trans pass)
    exact onward
  · rw [leaves] at pass
    cases pass

theorem start_processing (clock : Nat → Int) (connection : Connection α) :
    Processing clock connection (([] : List (Event α ε)),
      { connection with position := .processing }) where
  position := rfl
  processed :=
    { reached := fun number before => absurd before (Nat.not_lt_zero number)
      handed := rfl
      rest := rfl
      times := by simp [handings]
      asks := rfl }

theorem processed_of_ran
    (returns : ∀ number stream fromAddress, (processPacket number stream fromAddress).1 = .ok ())
    {fuel : Nat}
    (ran : connection.processQueuedPackets fuel clock processPacket = some (events, last)) :
    ∃ count asked, Processed clock connection count asked events last ∧
      Stopped clock connection count asked := by
  obtain ⟨n, t, walk, final⟩ := steps_of_runFor ran
  rcases ((start_processing clock connection).steps returns walk).pass returns with
    ⟨next, goes, -⟩ | ⟨left, count, asked, leaves, processed, stopped⟩
  · rw [goes] at final
    cases final
  · obtain rfl := Sum.inr.inj (leaves.symm.trans final)
    exact ⟨count, asked, processed, stopped⟩

theorem processQueuedPackets_returns (clock : Nat → Int) (connection : Connection α)
    (returns : ∀ number stream fromAddress, (processPacket number stream fromAddress).1 = .ok ()) :
    ∃ fuel events last,
      connection.processQueuedPackets fuel clock processPacket = some (events, last) := by
  rcases steps_or_halts (processLoop clock processPacket)
    ([], { connection with position := .processing }) (connection.mPacketQueue.length + 1) with
    ⟨t, walk⟩ | ⟨fuel, ⟨events, last⟩, ran⟩
  · have processing := (start_processing clock connection).steps returns walk
    have taken := processing.processed.count_le
    rw [steps_length walk, List.length_nil] at taken
    omega
  · exact ⟨fuel, events, last, ran⟩

end ProcessLoop

section Law
variable {receivedAt : PacketRef → Int} {clock : Nat → Int} {connection last : Connection α}
  {count asked : Nat} {events : List (Event α ε)}

theorem Processed.passed (processed : Processed clock connection count asked events last)
    (queued : QueuedAt receivedAt connection.mPacketQueue)
    (steady : Steady receivedAt connection.mPacketQueue clock)
    (above : ∀ number node, connection.mPacketQueue[number]? = some node →
      clock number = receivedAt node.1 → receivedAt node.1 < 2 ^ 32)
    {number : Nat} (before : number < count) {node : PacketRef × ReceivedPacket α}
    (listed : connection.mPacketQueue[number]? = some node) : receivedAt node.1 < clock number := by
  obtain ⟨same, found, late⟩ := processed.reached number before
  obtain rfl := Option.some.inj (listed.symm.trans found)
  rw [queued.time listed] at late
  rcases lt_or_eq_of_le (steady.behind listed number) with passed | now
  · exact passed
  · have narrow := above number node listed now.symm
    omega

theorem waiting_of_listed {number : Nat} {node : PacketRef × ReceivedPacket α}
    (listed : connection.mPacketQueue[number]? = some node) :
    connection.waiting[number]? = some (node.1, node.2.mPacketBuffer, node.2.mFromAddress) := by
  rw [waiting, List.getElem?_map, listed]
  rfl

theorem Processed.rest_waiting (processed : Processed clock connection count asked events last) :
    last.waiting = connection.waiting.drop count := by
  rw [waiting, processed.rest, List.map_drop, waiting]

theorem Stopped.blocker (stopped : Stopped clock connection count asked) {number : Nat}
    {node : PacketRef × ReceivedPacket α} (listed : connection.mPacketQueue[number]? = some node)
    (unreached : count ≤ number) : ∃ other, connection.mPacketQueue[count]? = some other ∧
      asked = count + 1 ∧ clock count ≤ other.2.mReceivedTime := by
  obtain ⟨inside, -⟩ := List.getElem?_eq_some_iff.mp listed
  have found := List.getElem?_eq_getElem (unreached.trans_lt inside)
  exact ⟨_, found, stopped.waited _ found⟩

theorem Processed.unwrapped (processed : Processed clock connection count asked events last)
    (stopped : Stopped clock connection count asked)
    (queued : QueuedAt receivedAt connection.mPacketQueue)
    (steady : Steady receivedAt connection.mPacketQueue clock)
    (held : HeldUntilPassed receivedAt connection events last) :
    Unwrapped receivedAt connection.mPacketQueue clock where
  above := by
    intro number node listed now
    by_contra wide
    -- past `2 ^ 32` every reading is past every stored time, so nothing stops the call before
    have early : number < count := by
      by_contra unreached
      obtain ⟨other, found, -, early⟩ := stopped.blocker listed (Nat.le_of_not_lt unreached)
      have behind := steady.behind listed count
      rw [queued.time found] at early
      omega
    have passed := held.passed node.1 (clock number)
      ((processed.times _ _).mpr ⟨number, early, node, listed, rfl, rfl⟩)
    omega
  below := by
    intro number node listed still negative ahead
    by_contra wrapped
    have unreached : count ≤ number := by
      by_contra early
      obtain ⟨same, found, late⟩ := processed.reached number (Nat.lt_of_not_le early)
      obtain rfl := Option.some.inj (listed.symm.trans found)
      rw [queued.time listed] at late
      exact wrapped late
    obtain ⟨other, found, asks, -⟩ := stopped.blocker listed unreached
    have constant : ∀ now ∈ readings events, now = clock 0 := by
      intro now read
      rw [processed.asks, asks] at read
      obtain ⟨earlier, within, rfl⟩ := List.mem_map.mp read
      exact still earlier ((Nat.le_of_lt_succ (List.mem_range.mp within)).trans unreached)
    -- the law would have taken the packet that stopped the call
    have rest := (held.exact (clock 0) constant).2
    have front := List.head?_dropWhile_not (fun packet => receivedAt packet.1 < clock 0)
      connection.waiting
    rw [← rest, processed.rest_waiting, List.head?_drop, waiting_of_listed found] at front
    have order := steady.receipts unreached found listed
    rw [still number le_rfl] at ahead
    exact of_decide_eq_false front (order.trans_lt ahead)

theorem Processed.held (processed : Processed clock connection count asked events last)
    (stopped : Stopped clock connection count asked)
    (queued : QueuedAt receivedAt connection.mPacketQueue)
    (steady : Steady receivedAt connection.mPacketQueue clock)
    (unwrapped : Unwrapped receivedAt connection.mPacketQueue clock) :
    HeldUntilPassed receivedAt connection events last where
  passed := by
    intro packet now handing
    obtain ⟨number, before, node, listed, rfl, rfl⟩ := (processed.times _ _).mp handing
    exact processed.passed queued steady unwrapped.above before listed
  exact := by
    intro T constant
    have reads {number : Nat} (within : number < asked) : clock number = T := by
      apply constant
      rw [processed.asks]
      exact List.mem_map_of_mem (List.mem_range.mpr within)
    have enough : count ≤ asked := by
      cases front : connection.mPacketQueue[count]? with
      | none => exact (stopped.drained front).ge
      | some node => exact (stopped.waited node front).1 ▸ Nat.le_succ count
    rw [processed.handed, processed.rest_waiting]
    apply take_eq_takeWhile
    · intro number before
      obtain ⟨node, listed, -⟩ := processed.reached number before
      refine ⟨_, waiting_of_listed listed, decide_eq_true ?_⟩
      rw [← reads (before.trans_le enough)]
      exact processed.passed queued steady unwrapped.above before listed
    · intro packet front
      rw [waiting, List.getElem?_map, Option.map_eq_some_iff] at front
      obtain ⟨node, listed, rfl⟩ := front
      obtain ⟨asks, early⟩ := stopped.waited node listed
      rw [queued.time listed] at early
      have now : clock count = T := reads (by omega)
      refine decide_eq_false fun (ahead : receivedAt node.1 < T) => ?_
      have late := unwrapped.below count node listed
        (fun earlier within => (reads (by omega)).trans (reads (by omega)).symm)
        (by omega) (by omega)
      omega

end Law

section Runs

/-- The times of receipt; a packet's number is its place here. -/
def Timed (events : List (Event α ε)) (connection : Connection α) : Prop :=
  (receipts events).length = connection.emplaced ∧
    QueuedAt (receiptOf events) connection.mPacketQueue ∧
    (connection.mPacketQueue.map Prod.fst ++ [connection.emplaced]).Pairwise (· < ·)

variable {events : List (Event α ε)} {event : Event α ε} {connection next : Connection α}

theorem Timed.idle (timed : Timed events connection) (noReceipt : event.receipt? = none)
    (queued : QueuedAt (receiptOf events) next.mPacketQueue)
    (kept : (next.mPacketQueue.map Prod.fst).Sublist (connection.mPacketQueue.map Prod.fst))
    (emplaced : next.emplaced = connection.emplaced) : Timed (events ++ [event]) next := by
  have same : receipts (events ++ [event]) = receipts events := by
    rw [receipts, List.filterMap_append, ← receipts]
    simp [noReceipt]
  refine ⟨same ▸ timed.1.trans emplaced.symm, ?_, ?_⟩
  · intro node listed
    rw [receiptOf, same]
    exact queued node listed
  · rw [emplaced]
    exact timed.2.2.sublist (kept.append_right _)

theorem Timed.arrive (timed : Timed events connection) (packet : ReceivedPacket α)
    {datagram : Datagram α} {now : Int} (stamped : packet.mReceivedTime = (now % 2 ^ 32).toNat)
    (queue : next.mPacketQueue = connection.mPacketQueue ++ [(connection.emplaced, packet)])
    (emplaced : next.emplaced = connection.emplaced + 1) :
    Timed (events ++ [Event.received (ε := ε) datagram now]) next := by
  obtain ⟨count, queued, order⟩ := timed
  have listed : receipts (events ++ [Event.received (ε := ε) datagram now]) =
      receipts events ++ [now] := List.filterMap_append
  have below := (List.pairwise_append.mp order).2.2
  refine ⟨?_, ?_, ?_⟩
  · rw [listed, List.length_append, count, emplaced]
    rfl
  · intro node member
    rw [receiptOf, listed]
    rw [queue] at member
    rcases List.mem_append.mp member with old | new
    · have before := below _ (List.mem_map_of_mem old) _ List.mem_cons_self
      rw [List.getD_append _ _ _ _ (count ▸ before)]
      exact queued node old
    · obtain rfl := List.mem_singleton.mp new
      rw [List.getD_append_right _ _ _ _ count.le, count, Nat.sub_self]
      exact stamped
  · rw [queue, emplaced, List.map_append, List.pairwise_append]
    refine ⟨order, List.pairwise_singleton _ _, ?_⟩
    intro number member later last
    obtain rfl := List.mem_singleton.mp last
    rcases List.mem_append.mp member with old | new
    · exact Nat.lt_succ_of_lt (below _ old _ List.mem_cons_self)
    · obtain rfl := List.mem_singleton.mp new
      exact Nat.lt_succ_self _

theorem Timed.step (timed : Timed events connection) (passes : Passes connection event next) :
    Timed (events ++ [event]) next := by
  cases passes with
  | call between => exact timed.idle rfl timed.2.1 (List.Sublist.refl _) rfl
  | elsewhere inputStream between reset => exact timed.idle rfl timed.2.1 (List.Sublist.refl _) rfl
  | arrived datagram now behind inLoop =>
      exact timed.arrive _ rfl rfl rfl
  | failed connection_reset inLoop => exact timed.idle rfl timed.2.1 (List.Sublist.refl _) rfl
  | readAll inLoop => exact timed.idle rfl timed.2.1 (List.Sublist.refl _) rfl
  | drained inLoop empty => exact timed.idle rfl timed.2.1 (List.Sublist.refl _) rfl
  | popped inLoop front late =>
      refine timed.idle rfl (fun node listed => timed.2.1 node ?_) ?_ rfl
      · rw [front]
        exact List.mem_cons_of_mem _ listed
      · rw [front]
        exact List.sublist_cons_self _ _
  | @thrown packet nextPacket rest now left e inLoop front late =>
      refine timed.idle rfl ?_ ?_ rfl
      · intro node listed
        have old := timed.2.1
        rw [front] at old
        rcases List.mem_cons.mp listed with rfl | other
        · exact old (packet, nextPacket) List.mem_cons_self
        · exact old node (List.mem_cons_of_mem _ other)
      · rw [front]
        exact List.Sublist.refl _
  | waited inLoop front early => exact timed.idle rfl timed.2.1 (List.Sublist.refl _) rfl

theorem timed_of_run {past : List (Connection α × Event α ε)} {last : Connection α}
    (run : Run Step first past last) : Timed (past.map Prod.snd) last := by
  induction run with
  | nil => exact ⟨rfl, by simp [QueuedAt, first], List.pairwise_singleton _ _⟩
  | snoc before step ih =>
      rw [List.map_append]
      exact ih.step step.passes

theorem receipts_sublist (events : List (Event α ε)) :
    (receipts events).Sublist (readings events) := by
  induction events with
  | nil => exact .slnil
  | cons event events ih =>
      rw [receipts, readings, List.filterMap_cons, List.filterMap_cons, ← receipts, ← readings]
      cases event with
      | received datagram now => exact ih.cons_cons now
      | handed packet stream fromAddress now result => exact ih.cons now
      | waited now => exact ih.cons now
      | _ => exact ih

/-- In a run with a clock that does not go back a call finds its queue so. -/
theorem steady_of_run {past : List (Connection α × Event α ε)} {last : Connection α}
    {clock : Nat → Int} (run : Run Step first past last)
    (onward : ∀ count, (readings (past.map Prod.snd) ++ (List.range count).map clock).Pairwise
      (· ≤ ·)) :
    QueuedAt (receiptOf (past.map Prod.snd)) last.mPacketQueue ∧
      Steady (receiptOf (past.map Prod.snd)) last.mPacketQueue clock := by
  obtain ⟨count, queued, order⟩ := timed_of_run run
  refine ⟨queued, fun asked => ?_⟩
  obtain ⟨increasing, -, behind⟩ := List.pairwise_append.mp order
  have sorted := (onward asked).sublist ((receipts_sublist (past.map Prod.snd)).append_right _)
  obtain ⟨receipts_sorted, clock_sorted, across⟩ := List.pairwise_append.mp sorted
  -- a packet still in the queue has a number below the count of receipts
  have known {packet : PacketRef} (member : packet ∈ last.mPacketQueue.map Prod.fst) :
      packet < (receipts (past.map Prod.snd)).length :=
    count ▸ behind packet member _ List.mem_cons_self
  rw [List.pairwise_append]
  refine ⟨?_, clock_sorted, ?_⟩
  · rw [← Function.comp_def (receiptOf (past.map Prod.snd)) Prod.fst, ← List.map_map,
      List.pairwise_map]
    refine increasing.imp_of_mem fun {packet later} member member' before => ?_
    rw [receiptOf, receiptOf, List.getD_eq_getElem _ _ (known member),
      List.getD_eq_getElem _ _ (known member')]
    exact List.pairwise_iff_getElem.mp receipts_sorted _ _ _ _ before
  · intro time member reading asks
    obtain ⟨node, listed, rfl⟩ := List.mem_map.mp member
    have numbered := known (List.mem_map_of_mem listed)
    rw [receiptOf, List.getD_eq_getElem _ _ numbered]
    exact across _ (List.getElem_mem numbered) reading asks

end Runs

theorem holdsPackets_iff {receivedAt : PacketRef → Int} {clock : Nat → Int}
    {connection : Connection α}
    {processPacket : Nat → InputMemoryStream → α → Except ε Unit × InputMemoryStream}
    (queued : QueuedAt receivedAt connection.mPacketQueue)
    (steady : Steady receivedAt connection.mPacketQueue clock)
    (returns : ∀ number stream fromAddress, (processPacket number stream fromAddress).1 = .ok ()) :
    HoldsPackets receivedAt clock processPacket connection ↔
      Unwrapped receivedAt connection.mPacketQueue clock := by
  constructor
  · rintro ⟨fuel, events, last, ran, held⟩
    obtain ⟨count, asked, processed, stopped⟩ := processed_of_ran returns ran
    exact processed.unwrapped stopped queued steady held
  · intro unwrapped
    obtain ⟨fuel, events, last, ran⟩ := processQueuedPackets_returns clock connection returns
    obtain ⟨count, asked, processed, stopped⟩ := processed_of_ran returns ran
    exact ⟨fuel, events, last, ran, processed.held stopped queued steady unwrapped⟩

section OneDatagram

def queuedAt (now : Int) : Connection String := first.queueDatagram ping now fun _ => 0

theorem queuedAt_queued (now : Int) : QueuedAt (fun _ => now) (queuedAt now).mPacketQueue := by
  intro node listed
  obtain rfl := List.mem_singleton.mp listed
  rfl

theorem queuedAt_steady {now later : Int} (order : now ≤ later) :
    Steady (fun _ => now) (queuedAt now).mPacketQueue (fun _ => later) := by
  intro count
  rw [List.pairwise_append]
  refine ⟨List.pairwise_singleton _ _,
    List.pairwise_map.mpr (List.pairwise_of_forall fun _ _ => le_rfl), ?_⟩
  intro time member reading asked
  obtain rfl := List.mem_singleton.mp member
  obtain ⟨-, -, rfl⟩ := List.mem_map.mp asked
  exact order

theorem holdsPackets_ping : HoldsPackets (fun _ => 5) (fun _ => 6)
    (fun _ => readPart (.ok ())) (queuedAt 5) := by
  refine (holdsPackets_iff (queuedAt_queued 5) (queuedAt_steady (by decide)) fun _ _ _ => rfl).mpr
    ⟨?_, ?_⟩
  · intro number node listed now
    exact absurd now (by decide)
  · intro number node listed still negative
    exact absurd negative (by decide)

theorem wrapped_early : QueuedAt (fun _ => 2 ^ 32) (queuedAt (2 ^ 32)).mPacketQueue ∧
    Steady (fun _ => 2 ^ 32) (queuedAt (2 ^ 32)).mPacketQueue (fun _ => 2 ^ 32) ∧
    ¬ HoldsPackets (fun _ => 2 ^ 32) (fun _ => 2 ^ 32) (fun _ => readPart (.ok ()))
      (queuedAt (2 ^ 32)) := by
  have queued := queuedAt_queued (2 ^ 32)
  have steady := queuedAt_steady (le_refl ((2 : Int) ^ 32))
  refine ⟨queued, steady, ?_⟩
  rintro ⟨fuel, events, last, ran, held⟩
  obtain ⟨count, asked, processed, stopped⟩ := processed_of_ran (fun _ _ _ => rfl) ran
  have narrow := (processed.unwrapped stopped queued steady held).above 0 _ rfl rfl
  exact absurd narrow (by decide)

end OneDatagram

end Connection
end PackagedTask.Network
