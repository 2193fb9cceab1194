import Hdb.Interconnect.SendBuffers
import Hdb.Lib.Window

/-!
# The receiver of the UDP interconnect

A receiving connection has a ring of packets. The receive thread puts a packet that arrives at the
place of its number and acknowledges it: with the number up to which everything is there, as a
duplicate, or, when packets before it are missing, with a list of those. The main thread reads the
packet at the head of the ring and returns it, and tells the sender that there is space again.

The waking of the main thread, the address of the peer and the statistics are not modelled.

`RxInv packets conn` says what the ring has when the sender was given the packets `packets`: every
packet is at the place of its number, the ring is full from the head to the tail, and the next
packet is missing. `AckSound conn ack` says that what an acknowledgement tells the sender is so.
-/

namespace Hdb.Interconnect

open Window

structure DataPkt where
  seq : UInt32
  flags : UInt32
  /-- What is behind the header. -/
  data : List UInt8
  deriving DecidableEq

def flagReceiverToSender : UInt32 := 1
def flagEos : UInt32 := 8

def DataPkt.has (pkt : DataPkt) (flag : UInt32) : Bool := pkt.flags &&& flag != 0

/-- An acknowledgement as it is sent. -/
structure AckMsg where
  flags : UInt32
  seq : UInt32
  extraSeq : UInt32
  lostSeqs : List UInt32
  deriving DecidableEq

def AckMsg.has (ack : AckMsg) (flag : UInt32) : Bool := ack.flags &&& flag != 0

structure RxConn where
  pktQ : ℕ → Option DataPkt
  pktQCapacity : ℕ
  pktQSize : ℕ
  pktQHead : ℕ
  pktQTail : ℕ
  pBuff : Option DataPkt
  /-- `conn_info.seq`, the number of the first packet that is missing. -/
  infoSeq : UInt32
  /-- `conn_info.extraSeq`, the number of the last packet that was returned. -/
  extraSeq : UInt32
  infoFlags : UInt32
  stillActive : Bool
  stopRequested : Bool

namespace RxConn

/-- A connection as `SetupUDPIFCInterconnect_Internal` leaves it. -/
def setup (queueDepth : ℕ) : RxConn where
  pktQ _ := none
  pktQCapacity := queueDepth
  pktQSize := 0
  pktQHead := 0
  pktQTail := 0
  pBuff := none
  infoSeq := 1
  extraSeq := 0
  infoFlags := flagReceiverToSender
  stillActive := true
  stopRequested := false

/-! ## The receive thread -/

/-- The loop that moves the tail. It ends when the queue is full, `n` steps from now. -/
def moveTail : (n : ℕ) → RxConn → RxConn
  | 0, conn => conn
  | n + 1, conn =>
    if (conn.pktQ conn.pktQTail).isSome then
      moveTail n { conn with
        pktQSize := conn.pktQSize + 1
        pktQTail := (conn.pktQTail + 1) % conn.pktQCapacity
        infoSeq := conn.infoSeq + 1 }
    else conn

/-- The loop of `handleDisorderPacket`, for at most `maxSeqs` more packets. It goes around the ring
at most once. -/
def lostSeqs (conn : RxConn) (pos : ℕ) : (fuel : ℕ) → (start : ℕ) → (tailSeq : UInt32) →
    (maxSeqs : ℕ) → List UInt32
  | 0, _, _, _ => []
  | _ + 1, _, _, 0 => []
  | fuel + 1, start, tailSeq, maxSeqs + 1 =>
    if start = pos then []
    else if conn.pktQ start = none then
      tailSeq ::
        lostSeqs conn pos fuel ((start + 1) % conn.pktQCapacity) (tailSeq + 1) maxSeqs
    else lostSeqs conn pos fuel ((start + 1) % conn.pktQCapacity) (tailSeq + 1) (maxSeqs + 1)

/-- `MAX_SEQS_IN_DISORDER_ACK` -/
def maxSeqsInDisorderAck : ℕ := 4

def handleDisorderPacket (conn : RxConn) (pos : ℕ) (tailSeq : UInt32) (pkt : DataPkt) : AckMsg where
  flags := conn.infoFlags ||| flagDisorder
  seq := pkt.seq
  extraSeq := conn.infoSeq - 1
  lostSeqs := conn.lostSeqs pos conn.pktQCapacity conn.pktQTail tailSeq maxSeqsInDisorderAck

/-- The number of the packet at the head. -/
def headSeq (conn : RxConn) : UInt32 := conn.infoSeq - UInt32.ofNat conn.pktQSize

/-- There is no space for the packet, which the source calls a bug. -/
def queueFull (conn : RxConn) (pkt : DataPkt) : Prop :=
  conn.pktQSize = conn.pktQCapacity ∨ conn.pktQCapacity ≤ (pkt.seq - conn.headSeq).toNat

instance (conn : RxConn) (pkt : DataPkt) : Decidable (conn.queueFull pkt) :=
  inferInstanceAs (Decidable (_ ∨ _))

/-- The packet that was put into the ring last by `moveTail`. -/
def lastPkt (conn : RxConn) : Option DataPkt :=
  conn.pktQ ((conn.pktQTail + conn.pktQCapacity - 1) % conn.pktQCapacity)

def markEos (conn : RxConn) : RxConn :=
  if conn.lastPkt.any fun pkt => pkt.has flagEos then
    { conn with infoFlags := conn.infoFlags ||| flagEos }
  else conn

/-- The packet that was missing has arrived. -/
def saveAtTail (conn : RxConn) : RxConn × AckMsg :=
  let conn := (conn.moveTail (conn.pktQCapacity - conn.pktQSize)).markEos
  (conn, ⟨flagCapacity ||| flagAck ||| conn.infoFlags, conn.infoSeq - 1, conn.extraSeq, []⟩)

def putPkt (conn : RxConn) (pos : ℕ) (pkt : DataPkt) : RxConn :=
  { conn with pktQ := Function.update conn.pktQ pos (some pkt) }

/-- Put the packet at its position. -/
def savePkt (conn : RxConn) (pkt : DataPkt) : RxConn × AckMsg :=
  let pos := (pkt.seq - 1).toNat % conn.pktQCapacity
  match conn.pktQ pos with
  | some _ => (conn, ⟨flagDuplicate ||| conn.infoFlags, pkt.seq, conn.infoSeq - 1, []⟩)
  | none =>
    let headSeq := conn.headSeq
    let conn := conn.putPkt pos pkt
    if pos = conn.pktQTail then conn.saveAtTail
    else (conn, conn.handleDisorderPacket pos (headSeq + UInt32.ofNat conn.pktQSize) pkt)

/-- A packet on an active connection that was asked to stop is acknowledged and dropped. -/
def dropStopped (conn : RxConn) (pkt : DataPkt) : RxConn × AckMsg :=
  let conn :=
    if pkt.has flagEos then { conn with infoFlags := conn.infoFlags ||| flagEos } else conn
  let conn := if conn.infoSeq < pkt.seq then { conn with infoSeq := pkt.seq } else conn
  let ack : AckMsg :=
    ⟨flagAck ||| flagStop ||| flagCapacity ||| conn.infoFlags, pkt.seq, pkt.seq, []⟩
  (if pkt.has flagEos then { conn with stillActive := false } else conn, ack)

/-- A packet with a number that is not known yet on a connection that is no longer active. -/
def dropInactive (conn : RxConn) (pkt : DataPkt) : RxConn × AckMsg :=
  let conn := if conn.infoSeq < pkt.seq then { conn with infoSeq := pkt.seq } else conn
  (conn, ⟨flagAck ||| flagStop ||| flagCapacity ||| conn.infoFlags, pkt.seq, pkt.seq, []⟩)

/-- The answer to a status query. -/
def statusAck (conn : RxConn) : AckMsg :=
  let seq := if conn.infoSeq > 0 then conn.infoSeq - 1 else 0
  ⟨flagCapacity ||| flagAck ||| conn.infoFlags, seq,
    if conn.stopRequested then seq else conn.extraSeq, []⟩

/-- `handleDataPacket`, with the acknowledgement that it sends. -/
def handleDataPacket (conn : RxConn) (pkt : DataPkt) : RxConn × Option AckMsg :=
  if pkt.data = [] ∧ pkt.has flagCapacity then (conn, some conn.statusAck)
  else if ¬ conn.stopRequested ∧ pkt.has flagStop then (conn, none)
  else if conn.stopRequested ∧ conn.stillActive then
    ((conn.dropStopped pkt).1, some (conn.dropStopped pkt).2)
  else if pkt.seq < conn.infoSeq then
    (conn, some ⟨flagAck ||| flagCapacity ||| conn.infoFlags, conn.infoSeq - 1, conn.extraSeq, []⟩)
  else if ¬ conn.stillActive then
    ((conn.dropInactive pkt).1, some (conn.dropInactive pkt).2)
  else if conn.queueFull pkt then (conn, none)
  else ((conn.savePkt pkt).1, some (conn.savePkt pkt).2)

/-! ## The main thread -/

def prepareRxConnForRead (conn : RxConn) : RxConn :=
  { conn with pBuff := conn.pktQ conn.pktQHead }

/-- `none` is the end of the process: there is no packet at the head. -/
def putRxBufferAndSendAck (conn : RxConn) : Option (RxConn × Option AckMsg) :=
  (conn.pktQ conn.pktQHead).map fun buf =>
    let conn := { conn with
      pktQ := Function.update conn.pktQ conn.pktQHead none
      pBuff := none
      pktQHead := (conn.pktQHead + 1) % conn.pktQCapacity
      pktQSize := conn.pktQSize - 1
      extraSeq := buf.seq }
    (conn,
      if buf.seq % 2 = 0 ∨ conn.pktQCapacity = 1 then
        some ⟨flagAck ||| flagCapacity ||| conn.infoFlags, conn.infoSeq - 1, buf.seq, []⟩
      else none)

/-- The loop of `SendStopMessageUDPIFC` that returns what is in the queue. -/
def dropQueue : (size : ℕ) → RxConn → Option (RxConn × List AckMsg)
  | 0, conn => some (conn, [])
  | size + 1, conn =>
    conn.putRxBufferAndSendAck.bind fun r =>
      (dropQueue size r.1).map fun r' => (r'.1, r.2.toList ++ r'.2)

/-- `SendStopMessageUDPIFC` for one connection. The peer is known when its first packet has
arrived. -/
def sendStopMessage (conn : RxConn) (peerKnown : Bool) : Option (RxConn × List AckMsg) :=
  if conn.stillActive then
    if conn.infoFlags &&& flagEos ≠ 0 then
      dropQueue conn.pktQSize { conn with stillActive := false }
    else
      let conn := { conn with stopRequested := true, infoFlags := conn.infoFlags ||| flagStop }
      let seq := if conn.infoSeq > 0 then conn.infoSeq - 1 else 0
      some (conn,
        if peerKnown then
          [⟨flagStop ||| flagAck ||| flagCapacity ||| conn.infoFlags, seq, seq, []⟩]
        else [])
  else some (conn, [])

/-- `markUDPConnInactiveIFC` -/
def markInactive (conn : RxConn) : RxConn := { conn with stillActive := false }

end RxConn

/-! ## The invariant -/

/-- What the sender is given, between two calls: the packets have their numbers, and nothing comes
behind the end of the stream. -/
structure PacketsOk (packets : List DataPkt) : Prop where
  numbered : ∀ i, ∀ pkt ∈ packets[i]?, pkt.seq.toNat = i + 1
  flags : ∀ pkt ∈ packets, pkt.flags = 0 ∨ pkt.flags = flagEos
  eos : ∀ i, ∀ pkt ∈ packets[i]?, pkt.has flagEos → i + 1 = packets.length
  length_lt : packets.length + 1 < 2 ^ 32

namespace RxConn

/-- The packets in the ring, by their numbers. -/
def ring (conn : RxConn) : ℕ → Option DataPkt :=
  window conn.pktQCapacity (conn.extraSeq.toNat + 1) conn.pktQ

/-- The packet of this number has arrived. -/
def Stored (conn : RxConn) (i : ℕ) : Prop := i < conn.infoSeq.toNat ∨ (conn.ring i).isSome

/-- All packets have arrived, up to the end of the stream. -/
def Finished (packets : List DataPkt) (conn : RxConn) : Prop :=
  conn.infoSeq.toNat = packets.length + 1 ∧ ∃ pkt ∈ packets, pkt.has flagEos

/-- The places in the ring. -/
structure Places (packets : List DataPkt) (conn : RxConn) : Prop where
  capacity_pos : 0 < conn.pktQCapacity
  seq_eq : conn.infoSeq.toNat = conn.extraSeq.toNat + conn.pktQSize + 1
  size_le : conn.pktQSize ≤ conn.pktQCapacity
  head_eq : conn.pktQHead = slot conn.pktQCapacity (conn.extraSeq.toNat + 1)
  tail_eq : conn.pktQTail = slot conn.pktQCapacity conn.infoSeq.toNat
  at_place : ∀ i, ∀ pkt ∈ conn.ring i, packets[i - 1]? = some pkt
  filled : ∀ i, conn.extraSeq.toNat < i → i < conn.infoSeq.toNat → (conn.ring i).isSome
  seq_le : conn.infoSeq.toNat ≤ packets.length + 1

structure RxInv (packets : List DataPkt) (conn : RxConn) : Prop extends Places packets conn where
  missing : conn.ring conn.infoSeq.toNat = none
  flags : conn.infoFlags = flagReceiverToSender ∨
    conn.infoFlags = flagReceiverToSender ||| flagEos ∧ Finished packets conn
  inactive : conn.stillActive = false → Finished packets conn
  pBuff : ∀ pkt ∈ conn.pBuff, conn.pktQ conn.pktQHead = some pkt

/-- What an acknowledgement tells the sender, in the cases that `handleAcks` distinguishes. -/
structure AckSound (conn : RxConn) (ack : AckMsg) : Prop where
  stop : ack.has flagStop = false
  capacity : ack.has flagCapacity → ack.extraSeq.toNat ≤ conn.extraSeq.toNat
  regular : ack.has flagCapacity ∨ ¬ ack.has flagDuplicate ∧ ¬ ack.has flagDisorder →
    ∀ i, i ≤ ack.seq.toNat → conn.Stored i
  duplicate : ¬ ack.has flagCapacity → ack.has flagDuplicate →
    conn.Stored ack.seq.toNat ∧ ∀ i, i ≤ ack.extraSeq.toNat → conn.Stored i
  disorder : ¬ ack.has flagCapacity → ¬ ack.has flagDuplicate → ack.has flagDisorder →
    conn.Stored ack.seq.toNat ∧ ack.lostSeqs.Pairwise (· < ·) ∧
      ∀ i : UInt32, i ∉ ack.lostSeqs → (∃ lost ∈ ack.lostSeqs, i < lost) → conn.Stored i.toNat

end RxConn

end Hdb.Interconnect
