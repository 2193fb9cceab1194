import Hdb.Lib.LinkedLists
import Hdb.Lib.Run

/-!
# The send buffers of the UDP interconnect

The sender of a motion has a pool of buffers and a connection to each receiver. A buffer is filled
(`curBuff`), waits in the send queue of its connection, is sent and waits in the unack queue for the
acknowledgement, and returns to the free list. While it is in an unack queue it is also in a slot of
the unack queue ring, which says when it is sent again. This is the loss based flow control.

**Two links.** The free list and the queues of the connections use the primary links, the slots of
the ring the secondary links.

**Partial functions.** `none` is the use of a null pointer or of the head of a list as a buffer, or
a loop that does not end.
-/

namespace Hdb.Interconnect

/-- The lists that use the primary links. -/
inductive SendList (n : ℕ)
  | freeList
  | sndQueue (c : Fin n)
  | unackQueue (c : Fin n)
  deriving DecidableEq, Fintype

structure ICBuffer (n : ℕ) where
  conn : Option (Fin n)
  sentTime : UInt64
  nRetry : UInt32
  unackQueueRingSlot : ℤ
  /-- `pkt->seq` -/
  seq : UInt32

inductive MotionConnState
  | setupOutgoingConnection
  | started
  | eosSent
  deriving DecidableEq

structure MotionConn where
  capacity : ℤ
  sentSeq : UInt32
  receivedAckSeq : UInt32
  consumedSeq : UInt32
  rtt : UInt64
  dev : UInt64
  curBuff : Option ℕ
  stillActive : Bool
  stopRequested : Bool
  state : MotionConnState
  /-- `conn_info.seq`, the number of the next packet. -/
  infoSeq : UInt32

structure UnackQueueRing where
  currentTime : UInt64
  idx : ℕ
  numOutStanding : ℤ
  numSharedOutStanding : ℤ
  slots : LinkedLists ℤ ℕ

/-- What the code uses of the type `float`. Nothing is assumed about the operations. -/
class WindowSize (F : Type) extends Add F, Sub F, Div F, Max F, Min F, LE F, LT F, IntCast F where
  decLe (x y : F) : Decidable (x ≤ y)
  decLt (x y : F) : Decidable (x < y)

instance instDecidableLEWindow {F : Type} [WindowSize F] : DecidableLE F := WindowSize.decLe

instance instDecidableLTWindow {F : Type} [WindowSize F] : DecidableLT F := WindowSize.decLt

structure SendState (n : ℕ) (F : Type) where
  lists : LinkedLists (SendList n) ℕ
  buffers : ℕ → ICBuffer n
  conns : Fin n → MotionConn
  ring : UnackQueueRing
  /-- `snd_buffer_pool.count`. The buffers are numbered as they are allocated. -/
  count : ℕ
  maxCount : ℕ
  cwnd : F
  minCwnd : F
  ssthresh : F
  /-- The static variables of `handleAckForDisorderPkt`. -/
  times : UInt32
  lastSeq : UInt32

/-- The settings of the sender, with the limits of their definitions. -/
structure SendConfig where
  timerPeriod : ℕ
  minRto : ℕ
  defaultRtt : ℕ
  queueDepth : ℕ
  sndQueueDepth : ℕ
  timerPeriod_pos : 1 ≤ timerPeriod
  timerPeriod_le : timerPeriod ≤ 100
  sndQueueDepth_pos : 1 ≤ sndQueueDepth

/-- An acknowledgement that `findConnByHeader` has found a connection for, and the clock while it is
handled: `now`, and the readings in the loop of `sendBuffers`. -/
structure AckPkt (n : ℕ) where
  conn : Fin n
  flags : UInt32
  seq : UInt32
  extraSeq : UInt32
  /-- The numbers behind the header of a disorder message. -/
  lostSeqs : List UInt32
  now : UInt64
  clock : ℕ → UInt64

def flagAck : UInt32 := 2
def flagStop : UInt32 := 4
def flagNak : UInt32 := 16
def flagDisorder : UInt32 := 32
def flagDuplicate : UInt32 := 64
def flagCapacity : UInt32 := 128

def AckPkt.has {n : ℕ} (pkt : AckPkt n) (flag : UInt32) : Bool := pkt.flags &&& flag != 0

variable {n : ℕ} {F : Type} (cfg : SendConfig)

namespace SendState

def setConn (st : SendState n F) (c : Fin n) (f : MotionConn → MotionConn) : SendState n F :=
  { st with conns := Function.update st.conns c (f (st.conns c)) }

def setBuffer (st : SendState n F) (b : ℕ) (f : ICBuffer n → ICBuffer n) : SendState n F :=
  { st with buffers := Function.update st.buffers b (f (st.buffers b)) }

@[simp] theorem setConn_conns (st : SendState n F) (c : Fin n) (f : MotionConn → MotionConn) :
    (st.setConn c f).conns = Function.update st.conns c (f (st.conns c)) := rfl

@[simp] theorem setBuffer_buffers (st : SendState n F) (b : ℕ) (f : ICBuffer n → ICBuffer n) :
    (st.setBuffer b f).buffers = Function.update st.buffers b (f (st.buffers b)) := rfl

end SendState

/-! ## The unack queue ring -/

def unackQueueRingSlotsNum : UInt64 := 2000

def timerSpan : UInt64 := UInt64.ofNat cfg.timerPeriod * 1000

def unackQueueRingLength : UInt64 := unackQueueRingSlotsNum * timerSpan cfg

def computeExpirationPeriod (conn : MotionConn) (retry : UInt32) : UInt64 :=
  let factor := if retry ≤ 12 then retry else 12
  max (UInt64.ofNat (cfg.minRto * 1000))
    (min 1000000 ((conn.rtt + (conn.dev <<< 2)) <<< factor.toUInt64))

/-- The slot for an expiration time, relative to the current time and slot of the ring. -/
def ringSlot (ring : UnackQueueRing) (expTime now : UInt64) : ℕ :=
  let diff := now + expTime - ring.currentTime
  let diff :=
    if diff ≥ unackQueueRingLength cfg then unackQueueRingLength cfg - 1
    else if diff < timerSpan cfg then timerSpan cfg
    else diff
  ((UInt64.ofNat ring.idx + diff / timerSpan cfg) % unackQueueRingSlotsNum).toNat

/-- The first packet starts the clock of the ring. -/
def UnackQueueRing.started (ring : UnackQueueRing) (now : UInt64) : UnackQueueRing :=
  if ring.currentTime = 0 then { ring with currentTime := now - now % timerSpan cfg } else ring

def putIntoUnackQueueRing (b : ℕ) (expTime now : UInt64) (st : SendState n F) : SendState n F :=
  let ring := st.ring.started cfg now
  let slot : ℤ := ringSlot cfg ring expTime now
  { st.setBuffer b fun buf => { buf with unackQueueRingSlot := slot } with
    ring := { ring with slots := ring.slots.append slot b } }

/-- A buffer that is counted in the ring leaves it. `left` is the length of its unack queue then. -/
def leaveRing (b : ℕ) (left : ℤ) (st : SendState n F) : SendState n F :=
  { st with
    ring := { st.ring with
      slots := st.ring.slots.delete (st.buffers b).unackQueueRingSlot b
      numOutStanding := st.ring.numOutStanding - 1
      numSharedOutStanding :=
        if left ≥ 1 then st.ring.numSharedOutStanding - 1 else st.ring.numSharedOutStanding } }

/-! ## The pool -/

/-- `icBufferListReturn`. A pass of the loop takes one buffer. -/
def icBufferListReturn (l : SendList n) (inExpirationQueue : Bool) :
    (fuel : ℕ) → SendState n F → Option (SendState n F)
  | 0, _ => none
  | fuel + 1, st =>
    match st.lists.pop l with
    | none => none
    | some (none, _) => some st
    | some (some b, lists) =>
      let st := { st with lists }
      let st := if inExpirationQueue then leaveRing b (st.lists.length l) st else st
      icBufferListReturn l inExpirationQueue fuel { st with lists := st.lists.append .freeList b }

/-- `getSndBuffer`. The links of a buffer that is not allocated yet point to itself. -/
def getSndBuffer (st : SendState n F) : Option (Option ℕ × SendState n F) :=
  if st.lists.length .freeList > 0 then
    (st.lists.pop .freeList).map fun r => (r.1, { st with lists := r.2 })
  else if st.count < st.maxCount then
    some (some st.count, { st with
      count := st.count + 1
      buffers := Function.update st.buffers st.count ⟨none, 0, 0, 0, 0⟩ })
  else some (none, st)

/-! ## Sending -/

/-- The part of the loop of `sendBuffers` that handles one buffer, which has left the send queue. -/
def sendBuffer (now : UInt64) (c : Fin n) (b : ℕ) (st : SendState n F) : SendState n F :=
  let st := st.setBuffer b fun buf =>
    { buf with sentTime := now, unackQueueRingSlot := -1, nRetry := 0, conn := some c }
  let st := st.setConn c fun conn => { conn with capacity := conn.capacity - 1 }
  let st := { st with lists := st.lists.append (.unackQueue c) b }
  let st := { st with
    ring := { st.ring with
      numOutStanding := st.ring.numOutStanding + 1
      numSharedOutStanding :=
        if st.lists.length (.unackQueue c) > 1 then st.ring.numSharedOutStanding + 1
        else st.ring.numSharedOutStanding } }
  let st := putIntoUnackQueueRing cfg b (computeExpirationPeriod cfg (st.conns c) 0) now st
  st.setConn c fun conn => { conn with sentSeq := (st.buffers b).seq }

variable [WindowSize F]

def sendLoop (c : Fin n) : (fuel : ℕ) → (clock : ℕ → UInt64) → SendState n F →
    Option (SendState n F)
  | 0, _, _ => none
  | fuel + 1, clock, st =>
    if (st.conns c).capacity > 0 ∧ st.lists.length (.sndQueue c) > 0 then
      if st.lists.length (.unackQueue c) > 0 ∧
          st.cwnd - st.minCwnd ≤ (st.ring.numSharedOutStanding : F) then some st
      else if (st.conns c).state = .setupOutgoingConnection ∧
          st.lists.length (.unackQueue c) ≥ 1 then some st
      else
        match st.lists.pop (.sndQueue c) with
        | some (some b, lists) =>
          sendLoop c fuel (fun i => clock (i + 1)) (sendBuffer cfg (clock 0) c b { st with lists })
        | _ => none
    else some st

def sendBuffers (c : Fin n) (clock : ℕ → UInt64) (st : SendState n F) : Option (SendState n F) :=
  if (st.conns c).stillActive then
    sendLoop cfg c ((st.lists.length (.sndQueue c)).toNat + 1) clock st
  else some st

/-- `prepareXmit`: the packet gets its number. -/
def prepareXmit (c : Fin n) (b : ℕ) (st : SendState n F) : SendState n F :=
  (st.setBuffer b fun buf => { buf with seq := (st.conns c).infoSeq }).setConn c
    fun conn => { conn with infoSeq := conn.infoSeq + 1 }

/-- The part of `SendChunkUDPIFC` and of `SendEosUDPIFC` that sends the current buffer. -/
def flushBuffer (c : Fin n) (clock : ℕ → UInt64) (st : SendState n F) : Option (SendState n F) :=
  (st.conns c).curBuff.bind fun b =>
    let st := prepareXmit c b st
    (sendBuffers cfg c clock { st with lists := st.lists.append (.sndQueue c) b }).map fun st =>
      st.setConn c fun conn => { conn with curBuff := none }

/-! ## Acknowledgements -/

/-- The round trip time, its deviation and the congestion window after an acknowledgement. -/
def updateWindow (c : Fin n) (ackTime : UInt64) (st : SendState n F) : SendState n F :=
  let conn := st.conns c
  let newRTT : UInt64 := min 200000 (max (conn.rtt - (conn.rtt >>> 3) + (ackTime >>> 3)) 100)
  let newDEV := conn.dev - (conn.dev >>> 2) + ((max ackTime newRTT - min ackTime newRTT) >>> 2)
  let cwnd : F :=
    if st.cwnd < st.ssthresh then st.cwnd + ((1 : ℤ) : F) else st.cwnd + ((1 : ℤ) : F) / st.cwnd
  { st.setConn c fun conn =>
      { conn with rtt := newRTT, dev := min 200000 (max newDEV 100) } with
    cwnd := min cwnd ((st.maxCount : ℤ) : F) }

def handleAckedPacket (c : Fin n) (b : ℕ) (now : UInt64) (st : SendState n F) :
    Option (SendState n F) :=
  let bufIsHead := decide (st.lists.next (.inl (.unackQueue c)) = .inr b)
  let st := { st with lists := st.lists.delete (.unackQueue c) b }
  let st := leaveRing b (st.lists.length (.unackQueue c)) st
  let buf := st.buffers b
  buf.conn.map fun bufConn =>
    let st := if buf.nRetry = 0 then updateWindow bufConn (now - buf.sentTime) st else st
    let st := st.setConn c fun conn =>
      { conn with
        receivedAckSeq := if bufIsHead then buf.seq else conn.receivedAckSeq
        state := if buf.seq = 1 then .started else conn.state }
    { st with lists := st.lists.append .freeList b }

/-- Acknowledge the buffers from `link` on up to the packet number `bound`. The result has the link
where the loop stops, and whether a buffer was acknowledged. -/
def ackLoop (c : Fin n) (now : UInt64) (bound : UInt32) :
    (fuel : ℕ) → SendList n ⊕ ℕ → Bool → SendState n F →
      Option (SendState n F × (SendList n ⊕ ℕ) × Bool)
  | 0, _, _, _ => none
  | _ + 1, .inl l, acked, st => if l = .unackQueue c then some (st, .inl l, acked) else none
  | fuel + 1, .inr b, acked, st =>
    if (st.buffers b).seq ≤ bound then
      let next := st.lists.next (.inr b)
      (handleAckedPacket c b now st).bind (ackLoop c now bound fuel next true)
    else some (st, .inr b, acked)

/-- The second loop of `handleAckForDuplicatePkt`, which looks for the single duplicate packet. -/
def duplicateLoop (c : Fin n) (now : UInt64) (seq : UInt32) :
    (fuel : ℕ) → SendList n ⊕ ℕ → Bool → SendState n F → Option (SendState n F × Bool)
  | 0, _, _, _ => none
  | _ + 1, .inl l, acked, st => if l = .unackQueue c then some (st, acked) else none
  | fuel + 1, .inr b, acked, st =>
    if (st.buffers b).seq ≤ seq then
      if (st.buffers b).seq = seq then (handleAckedPacket c b now st).map fun st => (st, true)
      else duplicateLoop c now seq fuel (st.lists.next (.inr b)) acked st
    else some (st, acked)

/-- The number of buffers in the unack queue of a connection, as the list counts them. -/
def unackLength (c : Fin n) (st : SendState n F) : ℕ := (st.lists.length (.unackQueue c)).toNat

def handleAckForDuplicatePkt (pkt : AckPkt n) (st : SendState n F) :
    Option (SendState n F × Bool) :=
  if pkt.seq ≤ pkt.extraSeq then some (st, false)
  else
    let first := st.lists.next (.inl (.unackQueue pkt.conn))
    (ackLoop pkt.conn pkt.now pkt.extraSeq (unackLength pkt.conn st + 1) first false st).bind
      fun r => duplicateLoop pkt.conn pkt.now pkt.seq (unackLength pkt.conn r.1 + 1) r.2.1 r.2.2 r.1

/-- A lost packet is sent again. -/
def resendLost (b : ℕ) (now : UInt64) (st : SendState n F) : Option (SendState n F) :=
  let st := st.setBuffer b fun buf => { buf with nRetry := buf.nRetry + 1 }
  let buf := st.buffers b
  buf.conn.map fun bufConn =>
    let st := { st with
      ring := { st.ring with slots := st.ring.slots.delete buf.unackQueueRingSlot b } }
    putIntoUnackQueueRing cfg b (computeExpirationPeriod cfg (st.conns bufConn) buf.nRetry) now st

/-- The loop of `handleAckForDisorderPkt`: lost packets are sent again, packets between them have
been received. Every pass takes a buffer or a lost packet. -/
def disorderLoop (pkt : AckPkt n) : (fuel : ℕ) → SendList n ⊕ ℕ → List UInt32 → Bool →
    SendState n F → Option (SendState n F × Bool)
  | 0, _, _, _, _ => none
  | _ + 1, .inl l, _, acked, st => if l = .unackQueue pkt.conn then some (st, acked) else none
  | _ + 1, .inr _, [], acked, st => some (st, acked)
  | fuel + 1, .inr b, lost :: losts, acked, st =>
    let seq := (st.buffers b).seq
    let next := st.lists.next (.inr b)
    if seq ≤ pkt.seq then
      if seq = pkt.seq then (handleAckedPacket pkt.conn b pkt.now st).map fun st => (st, true)
      else if seq = lost then
        (resendLost cfg b pkt.now st).bind (disorderLoop pkt fuel next losts acked)
      else if seq < lost then
        (handleAckedPacket pkt.conn b pkt.now st).bind
          (disorderLoop pkt fuel next (lost :: losts) true)
      else disorderLoop pkt fuel (.inr b) losts acked st
    else some (st, acked)

def handleAckForDisorderPkt (pkt : AckPkt n) (st : SendState n F) : Option (SendState n F × Bool) :=
  if pkt.extraSeq ≠ st.lastSeq then some ({ st with lastSeq := pkt.extraSeq, times := 0 }, false)
  else
    let st := { st with times := st.times + 1 }
    if st.times ≠ 2 then some (st, false)
    else
      let first := st.lists.next (.inl (.unackQueue pkt.conn))
      (disorderLoop cfg pkt (unackLength pkt.conn st + pkt.lostSeqs.length + 1) first pkt.lostSeqs
        false st).map fun r =>
          let ssthresh := max (r.1.cwnd / ((2 : ℤ) : F)) r.1.minCwnd
          ({ r.1 with ssthresh, cwnd := ssthresh }, r.2)

/-- The capacity grows by what the receiver has consumed. -/
def addCapacity (pkt : AckPkt n) (conn : MotionConn) : MotionConn :=
  { conn with
    capacity := (conn.capacity + (pkt.extraSeq - conn.consumedSeq).toNat).bmod (2 ^ 32)
    consumedSeq := pkt.extraSeq }

/-- The end of the loop body of `handleAcks`: a stop, and a regular acknowledgement. The result says
whether to send, and whether there was a stop. -/
def handleRegularAck (pkt : AckPkt n) (send stop : Bool) (st : SendState n F) :
    Option (SendState n F × Bool × Bool) :=
  let conn := st.conns pkt.conn
  if pkt.seq < conn.receivedAckSeq then some (st, send, stop)
  else
    let stopNow := pkt.has flagStop && !conn.stopRequested && conn.stillActive
    let st := if stopNow then st.setConn pkt.conn fun conn => { conn with stopRequested := true }
      else st
    let stop := stop || stopNow
    if pkt.seq = conn.receivedAckSeq then some (st, send, stop)
    else if pkt.has flagAck then
      let first := st.lists.next (.inl (.unackQueue pkt.conn))
      (ackLoop pkt.conn pkt.now pkt.seq (unackLength pkt.conn st + 1) first false st).map
        fun r => (r.1, send || r.2.2, stop)
    else some (st, send, stop)

/-- One acknowledgement that is not a negative one, before `sendBuffers`. -/
def handleAckKind (pkt : AckPkt n) (send stop : Bool) (st : SendState n F) :
    Option (SendState n F × Bool × Bool) :=
  if pkt.has flagCapacity then
    if pkt.extraSeq > (st.conns pkt.conn).consumedSeq then
      handleRegularAck pkt true stop (st.setConn pkt.conn (addCapacity pkt))
    else handleRegularAck pkt send stop st
  else if pkt.has flagDuplicate then
    (handleAckForDuplicatePkt pkt st).map fun r => (r.1, send || r.2, stop)
  else if pkt.has flagDisorder then
    (handleAckForDisorderPkt cfg pkt st).map fun r => (r.1, send || r.2, stop)
  else handleRegularAck pkt send stop st

/-- `handleAcks`, for the packets that are there to be read. `send` is `shouldSendBuffers`, which no
packet resets. -/
def handleAcks : List (AckPkt n) → (send stop : Bool) → SendState n F →
    Option (SendState n F × Bool)
  | [], _, stop, st => some (st, stop)
  | pkt :: pkts, send, stop, st =>
    if pkt.has flagNak then handleAcks pkts send stop st
    else
      (handleAckKind cfg pkt send stop st).bind fun r =>
        (if r.2.1 then sendBuffers cfg pkt.conn pkt.clock r.1 else some r.1).bind
          (handleAcks pkts r.2.1 r.2.2)

/-! ## Expiration -/

/-- Send the buffers of the current slot again, and count them. -/
def expireSlot (now : UInt64) : (fuel : ℕ) → (retransmits : ℕ) → SendState n F →
    Option (SendState n F × ℕ)
  | 0, _, _ => none
  | fuel + 1, retransmits, st =>
    match st.ring.slots.pop st.ring.idx with
    | none => none
    | some (none, _) => some (st, retransmits)
    | some (some b, slots) =>
      let st := { st with ring := { st.ring with slots } }
      let st := st.setBuffer b fun buf => { buf with nRetry := buf.nRetry + 1 }
      let buf := st.buffers b
      buf.conn.bind fun bufConn =>
        expireSlot now fuel (retransmits + 1)
          (putIntoUnackQueueRing cfg b (computeExpirationPeriod cfg (st.conns bufConn) buf.nRetry)
            now st)

/-- The loop over the slots that have expired; at most one turn of the ring. -/
def expireLoop (now : UInt64) : (turns : ℕ) → (retransmits : ℕ) → SendState n F →
    Option (SendState n F × ℕ)
  | 0, retransmits, st => some (st, retransmits)
  | turns + 1, retransmits, st =>
    if now ≥ st.ring.currentTime + timerSpan cfg then
      (expireSlot cfg now ((st.ring.slots.length st.ring.idx).toNat + 1) retransmits st).bind
        fun r => expireLoop now turns r.2 { r.1 with
          ring := { r.1.ring with
            currentTime := r.1.ring.currentTime + timerSpan cfg
            idx := (r.1.ring.idx + 1) % 2000 } }
    else some (st, retransmits)

def checkExpiration (now : UInt64) (st : SendState n F) : Option (SendState n F) :=
  (expireLoop cfg now 2000 0 st).map fun r =>
    let st := { r.1 with ring := { r.1.ring with currentTime := now - now % timerSpan cfg } }
    if r.2 > 0 then
      { st with ssthresh := max (st.cwnd / ((2 : ℤ) : F)) st.minCwnd, cwnd := st.minCwnd }
    else st

/-! ## Stop messages -/

/-- The handling of a stop on one connection: all its buffers return to the pool. -/
def stopConn (c : Fin n) (st : SendState n F) : Option (SendState n F) :=
  let conn := st.conns c
  if conn.stillActive && conn.stopRequested then
    conn.curBuff.bind fun b =>
      let st := prepareXmit c b st
      let st := { st with lists := st.lists.append (.sndQueue c) b }
      (icBufferListReturn (.sndQueue c) false ((st.lists.length (.sndQueue c)).toNat + 1) st).bind
        fun st =>
          (icBufferListReturn (.unackQueue c) true (unackLength c st + 1) st).map fun st =>
            st.setConn c fun conn => { conn with
              state := .eosSent, curBuff := none, stillActive := false, stopRequested := false }
  else some st

/-- One pass of `handleStopMsgs` over the connections. -/
def stopPass : List (Fin n) → SendState n F → Option (SendState n F)
  | [], st => some st
  | c :: cs, st => (stopConn c st).bind (stopPass cs)

/-- `handleStopMsgs`. At the end of a pass the acknowledgements that are there are handled, and
there is another pass when one of them is a stop. -/
def handleStopMsgs : (polls : List (List (AckPkt n))) → SendState n F → Option (SendState n F)
  | [], st => stopPass (List.finRange n) st
  | pkts :: polls, st =>
    (stopPass (List.finRange n) st).bind fun st =>
      (handleAcks cfg pkts false false st).bind fun r =>
        if r.2 then handleStopMsgs polls r.1 else some r.1

/-! ## The sender -/

/-- `initSndBufferPool` and `initUnackQueueRing`, before the connections are set up. -/
def sendInit : SendState n F where
  lists := LinkedLists.init
  buffers := fun _ => ⟨none, 0, 0, 0, 0⟩
  conns := fun _ => ⟨cfg.queueDepth, 0, 0, 0, UInt64.ofNat (cfg.defaultRtt * 1000), 0, none, false,
    false, .setupOutgoingConnection, 1⟩
  ring := ⟨0, 0, 0, 0, LinkedLists.init⟩
  count := 0
  maxCount := if cfg.sndQueueDepth = 1 then 1 else 0
  cwnd := ((0 : ℤ) : F)
  minCwnd := ((0 : ℤ) : F)
  ssthresh := ((0 : ℤ) : F)
  times := 0
  lastSeq := 0

/-- The loop of `startOutgoingUDPConnections` over the receivers that have a process, and the part
of `setupOutgoingUDPConnection` that makes the connection active. -/
def startConns : List (Fin n) → SendState n F → Option (SendState n F)
  | [], st => some st
  | c :: cs, st =>
    (getSndBuffer { st with
      maxCount := st.maxCount + cfg.sndQueueDepth, cwnd := st.cwnd + ((1 : ℤ) : F) }).bind fun r =>
        startConns cs (r.2.setConn c fun conn => { conn with curBuff := r.1, stillActive := true })

def startOutgoing (receivers : Fin n → Bool) : Option (SendState n F) :=
  (startConns cfg ((List.finRange n).filter receivers) (sendInit cfg)).map fun st =>
    { st with minCwnd := st.cwnd, ssthresh := ((st.maxCount : ℤ) : F) }

inductive SendAction (n : ℕ)
  /-- Send the current buffer of a connection. -/
  | flush (c : Fin n) (clock : ℕ → UInt64)
  /-- Get a new current buffer, if there is one. -/
  | getBuffer (c : Fin n)
  | sendBuffers (c : Fin n) (clock : ℕ → UInt64)
  | handleAcks (pkts : List (AckPkt n))
  | checkExpiration (now : UInt64)
  | handleStopMsgs (polls : List (List (AckPkt n)))
  /-- The query is finishing, or the end of the stream has been acknowledged. -/
  | deactivate (c : Fin n) (eos : Bool)

/-- When the sender can call: it sends the current buffer of an active connection, gets one where it
has none, and handles stop messages when every active connection has one. -/
def sendEnabled (st : SendState n F) : SendAction n → Prop
  | .flush c _ => (st.conns c).stillActive ∧ (st.conns c).curBuff.isSome
  | .getBuffer c => (st.conns c).curBuff = none
  | .handleStopMsgs _ => ∀ c, (st.conns c).stillActive → (st.conns c).curBuff.isSome
  | _ => True

def sendAct (st : SendState n F) : SendAction n → Option (SendState n F)
  | .flush c clock => flushBuffer cfg c clock st
  | .getBuffer c =>
    (getSndBuffer st).map fun r => r.2.setConn c fun conn => { conn with curBuff := r.1 }
  | .sendBuffers c clock => sendBuffers cfg c clock st
  | .handleAcks pkts => (handleAcks cfg pkts false false st).map Prod.fst
  | .checkExpiration now => checkExpiration cfg now st
  | .handleStopMsgs polls => handleStopMsgs cfg polls st
  | .deactivate c eos => some (st.setConn c fun conn =>
    { conn with stillActive := false, state := if eos then .eosSent else conn.state })

end Hdb.Interconnect
