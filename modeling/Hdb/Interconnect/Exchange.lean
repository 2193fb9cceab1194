import Hdb.Interconnect.SendLinkBuffers

/-!
# A sender and its receivers

The network between them can lose, delay, repeat and reorder what is sent: `wire` and `acks` have
everything that was ever sent, and any of it can arrive at any time. The steps are the calls of the
sender, of the receive thread and of the main thread of the receivers, in any order. The
acknowledgements of one call of `handleAcks` are steps of their own.

`ExchangeInv` is the invariant: the connections are linked, every acknowledgement that was sent is
sound, and the main thread of a receiver has read the first packets, without a gap.
-/

namespace Hdb.Interconnect

open LinkedLists

variable {n : ℕ} {F : Type}

structure Exchange (n : ℕ) (F : Type) where
  sender : SendState n F
  peers : Peers n
  acks : Fin n → List AckMsg
  /-- What the main thread of the receiver has read. -/
  taken : Fin n → List DataPkt
  /-- The main thread has sent its stop message, and reads no more. -/
  stopped : Fin n → Bool

/-- The receivers have the queue depth of the sender, within the limits of its definition. -/
structure ExchangeConfig extends SendConfig where
  queueDepth_pos : 1 ≤ queueDepth
  queueDepth_le : queueDepth ≤ 4096

inductive ExchangeAction (n : ℕ)
  /-- The sender fills the current buffer and sends it. -/
  | flush (c : Fin n) (eos : Bool) (data : List UInt8) (clock : ℕ → UInt64)
  | getBuffer (c : Fin n)
  | sendBuffers (c : Fin n) (clock : ℕ → UInt64)
  /-- An acknowledgement arrives, with the flags that the loop has so far. -/
  | handleAck (c : Fin n) (ack : AckMsg) (now : UInt64) (clock : ℕ → UInt64) (send stop : Bool)
  | checkExpiration (now : UInt64)
  | stopConn (c : Fin n)
  | deactivate (c : Fin n) (eos : Bool)
  /-- A packet arrives at the receiver. -/
  | arrive (c : Fin n) (pkt : DataPkt)
  /-- The main thread of the receiver reads a packet. -/
  | read (c : Fin n)
  | release (c : Fin n)
  | stop (c : Fin n) (peerKnown : Bool)
  | inactive (c : Fin n)

namespace Exchange

/-- The packets in the unack queue of a connection. -/
def unackedPackets (peers : Peers n) (st : SendState n F) (c : Fin n) : List DataPkt :=
  (st.lists.toList (.unackQueue c)).map peers.payload

/-- The sender has made a call: what is in an unack queue has been sent. -/
def transmit (ex : Exchange n F) (st : SendState n F) : Exchange n F :=
  { ex with
    sender := st
    peers := { ex.peers with wire c := ex.peers.wire c ++ unackedPackets ex.peers st c } }

/-- The receiver has made a call. -/
def receive (ex : Exchange n F) (c : Fin n) (rx : RxConn) (acks : List AckMsg) : Exchange n F :=
  { ex with
    peers := { ex.peers with rx := Function.update ex.peers.rx c rx }
    acks := Function.update ex.acks c (ex.acks c ++ acks) }

variable [WindowSize F]

def act (cfg : SendConfig) (ex : Exchange n F) : ExchangeAction n → Option (Exchange n F)
  | .flush c eos data clock =>
    (ex.sender.conns c).curBuff.bind fun b =>
      let pkt := ⟨(ex.sender.conns c).infoSeq, if eos then flagEos else 0, data⟩
      (flushBuffer cfg c clock ex.sender).map
        { ex with peers := ex.peers.give c b pkt }.transmit
  | .getBuffer c =>
    (getSndBuffer ex.sender).map fun r =>
      ex.transmit (r.2.setConn c fun conn => { conn with curBuff := r.1 })
  | .sendBuffers c clock => (sendBuffers cfg c clock ex.sender).map ex.transmit
  | .handleAck c ack now clock send stop =>
    (handleAck cfg ⟨c, ack.flags, ack.seq, ack.extraSeq, ack.lostSeqs, now, clock⟩ send stop
      ex.sender).map fun r => ex.transmit r.1
  | .checkExpiration now => (checkExpiration cfg now ex.sender).map ex.transmit
  | .stopConn c => (stopConn c ex.sender).map ex.transmit
  | .deactivate c eos => some (ex.transmit (ex.sender.setConn c fun conn =>
    { conn with stillActive := false, state := if eos then .eosSent else conn.state }))
  | .arrive c pkt =>
    some (ex.receive c ((ex.peers.rx c).handleDataPacket pkt).1
      ((ex.peers.rx c).handleDataPacket pkt).2.toList)
  | .read c =>
    ((ex.peers.rx c).pktQ (ex.peers.rx c).pktQHead).map fun pkt =>
      { ex.receive c (ex.peers.rx c).prepareRxConnForRead [] with
        taken := Function.update ex.taken c (ex.taken c ++ [pkt]) }
  | .release c =>
    (ex.peers.rx c).putRxBufferAndSendAck.map fun r => ex.receive c r.1 r.2.toList
  | .stop c peerKnown =>
    ((ex.peers.rx c).sendStopMessage peerKnown).map fun r =>
      { ex.receive c r.1 r.2 with stopped := Function.update ex.stopped c true }
  | .inactive c => some (ex.receive c (ex.peers.rx c).markInactive [])

/-- When a call can be made. The sender gives no packet behind the end of the stream, and not more
than there are numbers. What arrives was sent, or is a status query or a message for another query.
The main thread reads one packet at a time, and asks for a stop when it has returned it. -/
def enabled (ex : Exchange n F) : ExchangeAction n → Prop
  | .flush c _ _ _ => (ex.sender.conns c).stillActive ∧ (ex.sender.conns c).curBuff.isSome ∧
    (∀ pkt ∈ ex.peers.packets c, pkt.has flagEos = false) ∧
    (ex.peers.packets c).length + 2 < 2 ^ 32
  | .getBuffer c => (ex.sender.conns c).curBuff = none
  | .handleAck c ack _ _ _ _ => ack.has flagNak ∨ ack ∈ ex.acks c
  | .stopConn c => (ex.sender.conns c).stillActive → (ex.sender.conns c).curBuff.isSome
  | .arrive c pkt => pkt ∈ ex.peers.wire c ∨ pkt.data = [] ∧ pkt.flags = flagCapacity
  | .read c => ex.stopped c = false ∧ (ex.peers.rx c).pBuff = none ∧
    ((ex.peers.rx c).pktQ (ex.peers.rx c).pktQHead).isSome
  | .release c => ex.stopped c = false ∧ (ex.peers.rx c).pBuff.isSome
  | .stop c _ => ex.stopped c = false ∧ (ex.peers.rx c).pBuff = none
  | .inactive c => ∃ pkt ∈ ex.taken c, pkt.has flagEos
  | _ => True

def start (cfg : ExchangeConfig) (receivers : Fin n → Bool) : Option (Exchange n F) :=
  (startOutgoing cfg.toSendConfig receivers).map fun st =>
    ⟨st, Peers.start n cfg.queueDepth, fun _ => [], fun _ => [], fun _ => false⟩

end Exchange

/-! ## The invariant -/

/-- The packet that the main thread has and did not return. -/
def inHand (rx : RxConn) : ℕ := if rx.pBuff.isSome then 1 else 0

/-- The part of the invariant that the sender has no part in. -/
structure ReceiversInv (ex : Exchange n F) : Prop where
  acks : ∀ c, (ex.peers.rx c).stopRequested = false →
    ∀ ack ∈ ex.acks c, (ex.peers.rx c).AckSound ack
  taken : ∀ c, ex.taken c <+: ex.peers.packets c
  arrived : ∀ c, (ex.peers.rx c).stopRequested = false →
    ∀ i ≤ (ex.taken c).length, (ex.peers.rx c).Stored i
  reading : ∀ c, ex.stopped c = false → (ex.peers.rx c).stopRequested = false ∧
    (ex.taken c).length = (ex.peers.rx c).extraSeq.toNat + inHand (ex.peers.rx c)

structure ExchangeInv (depth : ℕ) (ex : Exchange n F) : Prop extends ReceiversInv ex where
  matched : Matched depth ex.peers ex.sender (filling ex.sender.conns)

variable {depth : ℕ} {peers : Peers n} {ex : Exchange n F} {st : SendState n F}
  {k : SendList n → List ℕ} {fill : Multiset ℕ} {c : Fin n} {pkt : DataPkt} {rx' : RxConn}
  {acks' : List AckMsg}

/-! ## The calls of the sender -/

theorem PacketsOk.mem_take {packets : List DataPkt} (h : PacketsOk packets) (hpkt : pkt ∈ packets)
    {m : ℕ} (hm : pkt.seq.toNat ≤ m) : pkt ∈ packets.take m := by
  obtain ⟨hget, hpos, -⟩ := h.get_seq hpkt
  refine List.mem_of_getElem? (i := pkt.seq.toNat - 1) ?_
  rw [List.getElem?_take_of_lt (by omega)]
  exact hget

/-- What is in the unack queues has been sent. -/
theorem Matched.transmit (h : Matched depth peers st fill) :
    Matched depth { peers with wire c := peers.wire c ++ Exchange.unackedPackets peers st c } st
      fill := by
  obtain ⟨k, s, hinv, hfits⟩ := h
  refine ⟨k, s, hinv, fun c hrun => ?_⟩
  have h := hfits c hrun
  refine ⟨h.packets, h.rx, h.rxCapacity, fun pkt hpkt => ?_, h.running, h.infoSeq, h.sent_le,
    h.queued, h.content, h.sorted, h.unacked_le, h.kept, h.credit, h.capacity_nonneg, h.consumed⟩
  obtain hpkt | hpkt := List.mem_append.mp hpkt
  · exact h.wire pkt hpkt
  · rw [Exchange.unackedPackets, toList_eq hinv.lists] at hpkt
    obtain ⟨b, hb, rfl⟩ := List.mem_map.mp hpkt
    obtain ⟨hmem, hseq⟩ := h.content b (Or.inr hb)
    exact h.packets.mem_take hmem (hseq ▸ UInt32.le_iff_toNat_le.mp (h.unacked_le b hb))

theorem ExchangeInv.transmit (h : ReceiversInv ex)
    (hmatched : Matched depth ex.peers st (filling st.conns)) :
    ExchangeInv depth (ex.transmit st) :=
  ⟨⟨h.acks, h.taken, h.arrived, h.reading⟩, hmatched.transmit⟩

/-! ## The calls of the receivers -/

/-- The receiver has made a call, and the connection stays linked. -/
theorem Linked.received (h : Linked depth peers st k c)
    (hrx : rx'.RxInv ((peers.packets c).take (st.conns c).sentSeq.toNat))
    (hgrows : (peers.rx c).Grows rx') (hcap : rx'.pktQCapacity = (peers.rx c).pktQCapacity) :
    Linked depth { peers with rx := Function.update peers.rx c rx' } st k c := by
  refine ⟨h.packets, ?_, ?_, h.wire, h.running, h.infoSeq, h.sent_le, h.queued, h.content, h.sorted,
    h.unacked_le, ?_, h.credit, h.capacity_nonneg, ?_⟩ <;> dsimp only <;> rw [Function.update_self]
  · exact hrx
  · exact hcap.trans h.rxCapacity
  · exact fun i hi => (h.kept i hi).imp_right (hgrows.stored i)
  · exact h.consumed.trans hgrows.extraSeq

theorem Matched.receive (h : Matched depth peers st fill)
    (hstep : rx'.stopRequested = false → (peers.rx c).stopRequested = false ∧
      ∀ k, Linked depth peers st k c →
        rx'.RxInv ((peers.packets c).take (st.conns c).sentSeq.toNat) ∧
        (peers.rx c).Grows rx' ∧ rx'.pktQCapacity = (peers.rx c).pktQCapacity) :
    Matched depth { peers with rx := Function.update peers.rx c rx' } st fill := by
  obtain ⟨k, s, hinv, hfits⟩ := h
  refine ⟨k, s, hinv, fun c' hrun => ?_⟩
  dsimp only at hrun
  by_cases hc : c' = c
  · subst hc
    rw [Function.update_self] at hrun
    obtain ⟨hrun', hstep⟩ := hstep hrun
    obtain ⟨hrx, hgrows, hcap⟩ := hstep k (hfits c' hrun')
    exact (hfits c' hrun').received hrx hgrows hcap
  · rw [Function.update_of_ne hc] at hrun
    exact (hfits c' hrun).congr rfl rfl (Function.update_of_ne hc _ _) (.refl _) rfl rfl
      fun _ _ => ⟨rfl, rfl⟩

/-- A call of one receiver, which can take a packet or stop. -/
theorem ExchangeInv.receive (h : ExchangeInv depth ex) (c : Fin n) (rx' : RxConn)
    (acks' : List AckMsg) (taken' : List DataPkt) (stopped' : Bool)
    (hstep : rx'.stopRequested = false → (ex.peers.rx c).stopRequested = false ∧
      ∀ k, Linked depth ex.peers ex.sender k c →
        rx'.RxInv ((ex.peers.packets c).take (ex.sender.conns c).sentSeq.toNat) ∧
        (ex.peers.rx c).Grows rx' ∧ rx'.pktQCapacity = (ex.peers.rx c).pktQCapacity ∧
        ∀ ack ∈ acks', rx'.AckSound ack)
    (htaken : taken' <+: ex.peers.packets c)
    (harrived : rx'.stopRequested = false → ∀ i ≤ taken'.length, rx'.Stored i)
    (hreading : stopped' = false → rx'.stopRequested = false ∧
      taken'.length = rx'.extraSeq.toNat + inHand rx') :
    ExchangeInv depth { ex.receive c rx' acks' with
      taken := Function.update ex.taken c taken', stopped :=
        Function.update ex.stopped c stopped' } := by
  have hmatched := h.matched.receive fun hrun => ⟨(hstep hrun).1, fun k hk =>
    ⟨((hstep hrun).2 k hk).1, ((hstep hrun).2 k hk).2.1, ((hstep hrun).2 k hk).2.2.1⟩⟩
  refine ⟨⟨fun c' hrun ack hack => ?_, fun c' => ?_, fun c' hrun => ?_, fun c' hstopped => ?_⟩,
    hmatched⟩
  all_goals
    dsimp only [Exchange.receive] at *
    by_cases hc : c' = c
  · subst hc
    rw [Function.update_self] at hrun hack ⊢
    obtain ⟨k, s, -, hfits⟩ := h.matched
    obtain ⟨hrun', hstep⟩ := hstep hrun
    obtain ⟨-, hgrows, -, hsound⟩ := hstep k (hfits c' hrun')
    obtain hack | hack := List.mem_append.mp hack
    · exact (h.acks c' hrun' ack hack).mono hgrows
    · exact hsound ack hack
  · rw [Function.update_of_ne hc] at hrun hack ⊢
    exact h.acks c' hrun ack hack
  · subst hc
    rw [Function.update_self]
    exact htaken
  · rw [Function.update_of_ne hc]
    exact h.taken c'
  · subst hc
    rw [Function.update_self] at hrun ⊢
    rw [Function.update_self]
    exact harrived hrun
  · rw [Function.update_of_ne hc] at hrun ⊢
    rw [Function.update_of_ne hc]
    exact h.arrived c' hrun
  · subst hc
    rw [Function.update_self] at hstopped
    rw [Function.update_self, Function.update_self]
    exact hreading hstopped
  · rw [Function.update_of_ne hc] at hstopped
    rw [Function.update_of_ne hc, Function.update_of_ne hc]
    exact h.reading c' hstopped

theorem PacketsOk.take {packets : List DataPkt} (h : PacketsOk packets) (m : ℕ) :
    PacketsOk (packets.take m) := by
  have hget : ∀ i p, p ∈ (packets.take m)[i]? → p ∈ packets[i]? ∧ i < m := by
    intro i p hi
    rw [List.getElem?_take] at hi
    split_ifs at hi with hlt
    · exact ⟨hi, hlt⟩
    · cases hi
  refine ⟨fun i p hi => h.numbered i p (hget i p hi).1,
    fun p hp => h.flags p (List.mem_of_mem_take hp),
    fun i p hi hp => ?_, ?_⟩
  · have hend := h.eos i p (hget i p hi).1 hp
    have hlt := (hget i p hi).2
    rw [List.length_take]
    omega
  · have hlen := h.length_lt
    rw [List.length_take]
    omega

/-- The sender had the capacity for every packet that it sent. -/
theorem Linked.seq_le (h : Linked depth peers st k c) (hpkt : pkt ∈ peers.wire c) :
    pkt.seq.toNat ≤ (peers.rx c).extraSeq.toNat + (peers.rx c).pktQCapacity := by
  have hle := ((h.packets.take _).get_seq (h.wire pkt hpkt)).2.2
  have hcredit := h.credit
  have hnonneg := h.capacity_nonneg
  have hconsumed := h.consumed
  rw [List.length_take] at hle
  rw [h.rxCapacity]
  omega

theorem Linked.arrive (h : Linked depth peers st k c) (hrun : (peers.rx c).stopRequested = false)
    (hpkt : pkt ∈ peers.wire c) :
    RxConn.Handled ((peers.packets c).take (st.conns c).sentSeq.toNat) (peers.rx c)
        ((peers.rx c).handleDataPacket pkt).1 ((peers.rx c).handleDataPacket pkt).2 ∧
      ((peers.rx c).handleDataPacket pkt).1.extraSeq = (peers.rx c).extraSeq ∧
      ((peers.rx c).handleDataPacket pkt).1.pBuff = (peers.rx c).pBuff := by
  obtain ⟨hhandled, -, hextra, hbuff⟩ := RxConn.handleDataPacket_spec h.rx (h.packets.take _) hrun
    (h.wire pkt hpkt) (h.seq_le hpkt)
  exact ⟨hhandled, hextra, hbuff⟩

/-- A connection that is to stop stays so. -/
theorem handleDataPacket_stopped {rx : RxConn} (hstop : rx.stopRequested = true) (pkt : DataPkt) :
    (rx.handleDataPacket pkt).1.stopRequested = true := by
  have hdropped : (rx.dropStopped pkt).1.stopRequested = true := by
    rw [← hstop]
    simp only [RxConn.dropStopped]
    split_ifs <;> rfl
  have hinactive : (rx.dropInactive pkt).1.stopRequested = true := by
    rw [← hstop]
    simp only [RxConn.dropInactive]
    split_ifs <;> rfl
  rw [RxConn.handleDataPacket]
  split_ifs with _ _ hdrop _ hactive
  · exact hstop
  · exact hstop
  · exact hdropped
  · exact hstop
  · exact hstop
  · exact absurd ⟨hstop, hactive⟩ hdrop
  · exact hinactive

/-- When the main thread has read the end of the stream, everything has arrived. -/
theorem Linked.finished (h : Linked depth peers st k c) {taken : List DataPkt}
    (htaken : taken <+: peers.packets c) (harrived : ∀ i ≤ taken.length, (peers.rx c).Stored i)
    (hpkt : pkt ∈ taken) (heos : pkt.has flagEos) :
    (peers.rx c).Finished ((peers.packets c).take (st.conns c).sentSeq.toNat) := by
  obtain ⟨i, hi⟩ := List.mem_iff_getElem?.mp hpkt
  have hlt := (List.getElem?_eq_some_iff.mp hi).1
  have hle' := htaken.length_le
  have hget : (peers.packets c)[i]? = some pkt := by
    obtain ⟨rest, hrest⟩ := htaken
    rw [← hrest, List.getElem?_append_left hlt, hi]
  have hend := h.packets.eos i pkt hget heos
  have hle := h.rx.seq_le
  rw [List.length_take] at hle
  have hseq : (peers.packets c).length < (peers.rx c).infoSeq.toNat := by
    by_contra hnot
    obtain hstored | hstored := harrived (peers.rx c).infoSeq.toNat (by omega)
    · exact lt_irrefl _ hstored
    · rw [h.rx.missing] at hstored
      cases hstored
  rw [RxConn.Finished, List.take_of_length_le (by omega)]
  exact ⟨by omega, pkt, List.mem_of_getElem? hget, heos⟩

end Hdb.Interconnect
