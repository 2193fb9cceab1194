import Hdb.Interconnect.Exchange

/-!
# Delivery by the UDP interconnect

Every call keeps the invariant of the exchange, so it holds in all runs.

Main results: `delivery`, `flow_control` and `nothing_lost`.
-/

namespace Hdb.Interconnect

open LinkedLists

variable {n : ℕ} {F : Type} {depth : ℕ} {ex : Exchange n F} {st' : SendState n F}
  {fill : Multiset ℕ} {c : Fin n} {pkt : DataPkt} {cfg : SendConfig}

/-! ## The steps -/

theorem Matched.consistent {peers : Peers n} {st : SendState n F}
    (h : Matched depth peers st (filling st.conns)) : Consistent st := by
  obtain ⟨k, s, hinv, -⟩ := h
  exact ⟨k, s, hinv⟩

/-- A call of the sender keeps the connections linked and the buffers consistent. -/
theorem ExchangeInv.sent (h : ExchangeInv depth ex) (hmatched : Matched depth ex.peers st' fill)
    (hconsistent : Consistent st') : ExchangeInv depth (ex.transmit st') :=
  .transmit h.toReceiversInv (hmatched.settled hconsistent)

variable [WindowSize F]

theorem ExchangeInv.flush (h : ExchangeInv depth ex) (cfg : SendConfig) (eos : Bool)
    (data : List UInt8) (clock : ℕ → UInt64)
    (henabled : ex.enabled (.flush c eos data clock)) :
    ∃ ex', ex.act cfg (.flush c eos data clock) = some ex' ∧ ExchangeInv depth ex' := by
  obtain ⟨-, hcur, heos, hlen⟩ := henabled
  obtain ⟨b, hb⟩ := Option.isSome_iff_exists.mp hcur
  obtain ⟨pkt, hpkt⟩ : ∃ pkt : DataPkt,
      ⟨(ex.sender.conns c).infoSeq, if eos then flagEos else 0, data⟩ = pkt := ⟨_, rfl⟩
  have hflags : pkt.flags = 0 ∨ pkt.flags = flagEos := by
    rw [← hpkt]
    cases eos
    · exact Or.inl rfl
    · exact Or.inr rfl
  obtain ⟨st', hst', h'⟩ := flushBuffer_matched cfg h.matched hb
    (fun _ => ⟨by rw [← hpkt], heos, hlen⟩) hflags clock
  refine ⟨Exchange.transmit { ex with peers := ex.peers.give c b pkt } st', ?_, .transmit ?_ h'⟩
  · rw [Exchange.act, hb, Option.bind_some, hst', ← hpkt]
    rfl
  · refine ⟨h.acks, fun c' => (h.taken c').trans ?_, h.arrived, h.reading⟩
    show _ <+: Function.update ex.peers.packets c (ex.peers.packets c ++ [pkt]) c'
    by_cases hc : c' = c
    · subst hc
      rw [Function.update_self]
      exact List.prefix_append _ _
    · rw [Function.update_of_ne hc]

theorem ExchangeInv.handleAck (h : ExchangeInv depth ex) (hdepth : depth < 2 ^ 31)
    (cfg : SendConfig) {ack : AckMsg} (now : UInt64) (clock : ℕ → UInt64) (send stop : Bool)
    (henabled : ex.enabled (.handleAck c ack now clock send stop)) :
    ∃ ex', ex.act cfg (.handleAck c ack now clock send stop) = some ex' ∧
      ExchangeInv depth ex' := by
  obtain ⟨pkt, hpkt⟩ : ∃ pkt : AckPkt n,
      ⟨c, ack.flags, ack.seq, ack.extraSeq, ack.lostSeqs, now, clock⟩ = pkt := ⟨_, rfl⟩
  have hack : pkt.has flagNak = false → AckFits ex.peers pkt := by
    intro hnak hrun
    rw [← hpkt] at hnak hrun ⊢
    exact h.acks c hrun ack (henabled.resolve_left fun hnak' => by
      rw [show ack.has flagNak = false from hnak] at hnak'
      cases hnak')
  obtain ⟨st', r, hst', hmatched⟩ := handleAck_matched cfg h.matched hdepth hack send stop
  -- The call with this acknowledgement alone keeps the buffers consistent.
  obtain ⟨st₁, stop₁, hst₁, hsettled, hkept⟩ :=
    handleAcks_spec cfg h.matched.consistent [pkt] send stop
  rw [handleAcks_cons, hst', Option.bind_some, handleAcks, Option.some_inj, Prod.mk.injEq] at hst₁
  obtain ⟨rfl, -⟩ := hst₁
  refine ⟨ex.transmit st', ?_, h.sent hmatched (hkept.consistent hsettled)⟩
  rw [Exchange.act, hpkt, hst']
  rfl

theorem ExchangeInv.arrive (h : ExchangeInv depth ex) (cfg : SendConfig)
    (henabled : ex.enabled (.arrive c pkt)) :
    ∃ ex', ex.act cfg (.arrive c pkt) = some ex' ∧ ExchangeInv depth ex' := by
  refine ⟨_, rfl, ?_⟩
  have hinv := fun hstep harrived hreading =>
    h.receive c ((ex.peers.rx c).handleDataPacket pkt).1
      ((ex.peers.rx c).handleDataPacket pkt).2.toList (ex.taken c) (ex.stopped c) hstep
      (h.taken c) harrived hreading
  rw [Function.update_eq_self, Function.update_eq_self] at hinv
  obtain ⟨k, s, -, hfits⟩ := h.matched
  cases hstop : (ex.peers.rx c).stopRequested with
  | true =>
    have hstop' := handleDataPacket_stopped hstop pkt
    refine hinv (fun hrun => ?_) (fun hrun => ?_) fun hstopped => ?_
    · rw [hstop'] at hrun
      cases hrun
    · rw [hstop'] at hrun
      cases hrun
    · rw [(h.reading c hstopped).1] at hstop
      cases hstop
  | false =>
    obtain hpkt | ⟨hdata, hflags⟩ := henabled
    · obtain ⟨hhandled, hextra, hbuff⟩ := (hfits c hstop).arrive hstop hpkt
      refine hinv (fun _ => ⟨hstop, fun k' hk' => ?_⟩) (fun _ i hi => ?_) fun hstopped => ?_
      · exact ⟨hhandled.inv, hhandled.grows, hhandled.capacity, fun ack hack =>
          hhandled.sound ack (Option.mem_toList.mp hack)⟩
      · exact hhandled.grows.stored i (h.arrived c hstop i hi)
      · rw [inHand, hextra, hbuff]
        exact ⟨hhandled.running, (h.reading c hstopped).2⟩
    · have hquery : (ex.peers.rx c).handleDataPacket pkt =
          (ex.peers.rx c, some (ex.peers.rx c).statusAck) := by
        rw [RxConn.handleDataPacket, if_pos ⟨hdata, by rw [DataPkt.has, hflags]; rfl⟩]
      rw [hquery] at hinv ⊢
      refine hinv (fun _ => ⟨hstop, fun k' hk' => ?_⟩) (h.arrived c) (h.reading c)
      refine ⟨hk'.rx, .refl _, rfl, fun ack hack => ?_⟩
      rw [Option.toList_some, List.mem_singleton] at hack
      rw [hack]
      exact RxConn.statusAck_spec hk'.rx hstop

/-- One more item is a prefix, when it is the next one. -/
theorem prefix_snoc {α : Type*} {xs ys : List α} {y : α} (h : xs <+: ys)
    (hy : ys[xs.length]? = some y) : xs ++ [y] <+: ys := by
  obtain ⟨rest, rfl⟩ := h
  rw [List.getElem?_append_right le_rfl, Nat.sub_self] at hy
  cases rest with
  | nil => cases hy
  | cons x rest =>
    obtain rfl := Option.some.inj hy
    exact ⟨rest, by simp⟩

theorem ExchangeInv.read (h : ExchangeInv depth ex) (cfg : SendConfig)
    (henabled : ex.enabled (.read c)) :
    ∃ ex', ex.act cfg (.read c) = some ex' ∧ ExchangeInv depth ex' := by
  obtain ⟨hstopped, hnone, hhead⟩ := henabled
  obtain ⟨hrun, hlen⟩ := h.reading c hstopped
  obtain ⟨pkt, hpkt⟩ := Option.isSome_iff_exists.mp hhead
  obtain ⟨k, s, -, hfits⟩ := h.matched
  have hlinked := hfits c hrun
  rw [inHand, hnone] at hlen
  have hget : (ex.peers.packets c)[(ex.taken c).length]? = some pkt := by
    have hplace := hlinked.rx.head_packet hpkt
    rw [List.getElem?_take] at hplace
    split_ifs at hplace
    rw [hlen]
    exact hplace
  have hinv := h.receive c (ex.peers.rx c).prepareRxConnForRead [] (ex.taken c ++ [pkt])
    (ex.stopped c)
    (fun _ =>
      ⟨hrun, fun k' hk' => ⟨RxConn.prepareRxConnForRead_spec hk'.rx, ⟨fun _ hi => hi, le_rfl⟩,
      rfl, by simp⟩⟩)
    (prefix_snoc (h.taken c) hget) (fun _ i hi => ?_) (fun _ => ⟨hrun, ?_⟩)
  · rw [Function.update_eq_self] at hinv
    exact ⟨_, by rw [Exchange.act, hpkt]; rfl, hinv⟩
  · rw [List.length_append, List.length_singleton] at hi
    by_cases hlast : i = (ex.taken c).length + 1
    · refine Or.inr ?_
      show ((ex.peers.rx c).ring i).isSome
      rw [hlast, hlen]
      exact (congrArg Option.isSome hlinked.rx.ring_head).trans hhead
    · exact h.arrived c hrun i (by omega)
  · rw [List.length_append, List.length_singleton, hlen, inHand, RxConn.prepareRxConnForRead, hpkt]
    rfl

theorem ExchangeInv.release (h : ExchangeInv depth ex) (cfg : SendConfig)
    (henabled : ex.enabled (.release c)) :
    ∃ ex', ex.act cfg (.release c) = some ex' ∧ ExchangeInv depth ex' := by
  obtain ⟨hstopped, hsome⟩ := henabled
  obtain ⟨hrun, hlen⟩ := h.reading c hstopped
  obtain ⟨pkt, hpkt⟩ := Option.isSome_iff_exists.mp hsome
  obtain ⟨k, s, -, hfits⟩ := h.matched
  have hlinked := hfits c hrun
  obtain ⟨rx', ack, hput, hhandled, hextra, hbuff, -⟩ :=
    RxConn.putRxBufferAndSendAck_spec hlinked.rx (hlinked.packets.take _) hrun
      (hlinked.rx.pBuff pkt hpkt)
  have hinv := h.receive c rx' ack.toList (ex.taken c) (ex.stopped c)
    (fun _ => ⟨hrun, fun k' hk' => ?_⟩) (h.taken c)
    (fun _ i hi => hhandled.grows.stored i (h.arrived c hrun i hi))
    (fun _ => ⟨hhandled.running, ?_⟩)
  · rw [Function.update_eq_self, Function.update_eq_self] at hinv
    exact ⟨_, by rw [Exchange.act, hput]; rfl, hinv⟩
  · obtain ⟨rx₁, ack₁, hput₁, hhandled₁, -⟩ :=
      RxConn.putRxBufferAndSendAck_spec hk'.rx (hk'.packets.take _) hrun (hk'.rx.pBuff pkt hpkt)
    rw [hput, Option.some_inj, Prod.mk.injEq] at hput₁
    obtain ⟨rfl, rfl⟩ := hput₁
    exact ⟨hhandled₁.inv, hhandled₁.grows, hhandled₁.capacity, fun a ha =>
      hhandled₁.sound a (Option.mem_toList.mp ha)⟩
  · rw [inHand, hpkt] at hlen
    rw [hlen, hextra, inHand, hbuff]
    rfl

theorem ExchangeInv.stop (h : ExchangeInv depth ex) (cfg : SendConfig) {peerKnown : Bool}
    (henabled : ex.enabled (.stop c peerKnown)) :
    ∃ ex', ex.act cfg (.stop c peerKnown) = some ex' ∧ ExchangeInv depth ex' := by
  obtain ⟨hrun, -⟩ := h.reading c henabled.1
  obtain ⟨k, s, -, hfits⟩ := h.matched
  have hlinked := hfits c hrun
  obtain ⟨rx', acks, hsend, hspec⟩ :=
    RxConn.sendStopMessage_spec hlinked.rx (hlinked.packets.take _) hrun peerKnown
  have hinv := h.receive c rx' acks (ex.taken c) true
    (fun hrun' => ⟨hrun, fun k' hk' => ?_⟩) (h.taken c)
    (fun hrun' i hi => (hspec hrun').2.1.stored i (h.arrived c hrun i hi)) (fun hstopped => ?_)
  · rw [Function.update_eq_self] at hinv
    exact ⟨_, by rw [Exchange.act, hsend]; rfl, hinv⟩
  · obtain ⟨rx₁, acks₁, hsend₁, hspec₁⟩ :=
      RxConn.sendStopMessage_spec hk'.rx (hk'.packets.take _) hrun peerKnown
    rw [hsend, Option.some_inj, Prod.mk.injEq] at hsend₁
    obtain ⟨rfl, rfl⟩ := hsend₁
    obtain ⟨hrx, hgrows, hsound, hcap⟩ := hspec₁ hrun'
    exact ⟨hrx, hgrows, hcap, hsound⟩
  · cases hstopped

theorem ExchangeInv.inactive (h : ExchangeInv depth ex) (cfg : SendConfig)
    (henabled : ex.enabled (.inactive c)) :
    ∃ ex', ex.act cfg (.inactive c) = some ex' ∧ ExchangeInv depth ex' := by
  obtain ⟨pkt, hpkt, heos⟩ := henabled
  have hinv := h.receive c (ex.peers.rx c).markInactive [] (ex.taken c) (ex.stopped c)
    (fun hrun => ⟨hrun, fun k' hk' => ⟨RxConn.markInactive_spec hk'.rx
      (hk'.finished (h.taken c) (h.arrived c hrun) hpkt heos), ⟨fun _ hi => hi, le_rfl⟩,
      rfl, by simp⟩⟩)
    (h.taken c) (h.arrived c) (h.reading c)
  rw [Function.update_eq_self, Function.update_eq_self] at hinv
  exact ⟨_, rfl, hinv⟩

/-- **A step.** Every call that can be made is possible, and keeps the invariant. -/
theorem exchangeAct_spec (h : ExchangeInv depth ex) (hdepth : depth < 2 ^ 31) (cfg : SendConfig)
    {a : ExchangeAction n} (ha : ex.enabled a) :
    ∃ ex', ex.act cfg a = some ex' ∧ ExchangeInv depth ex' := by
  have hconsistent := h.matched.consistent
  cases a with
  | flush c eos data clock => exact h.flush cfg eos data clock ha
  | getBuffer c =>
    obtain ⟨r, hr, hmatched, hconns⟩ := getSndBuffer_matched h.matched
    obtain ⟨st', hst', hconsistent'⟩ := sendAct_spec cfg hconsistent (a := .getBuffer c) ha
    rw [sendAct, hr, Option.map_some, Option.some_inj] at hst'
    refine ⟨ex.transmit st', by rw [Exchange.act, hr, Option.map_some, hst'], ?_⟩
    rw [← hst'] at hconsistent' ⊢
    exact h.sent (hmatched.setConn c ⟨rfl, rfl, rfl, rfl, rfl⟩) hconsistent'
  | sendBuffers c clock =>
    obtain ⟨st', hst', hmatched⟩ := sendBuffers_matched cfg h.matched c clock
    obtain ⟨st₁, hst₁, hconsistent'⟩ := sendAct_spec cfg hconsistent (a := .sendBuffers c clock) ha
    obtain rfl := Option.some.inj (hst'.symm.trans hst₁)
    exact ⟨ex.transmit st', by rw [Exchange.act, hst', Option.map_some],
      h.sent hmatched hconsistent'⟩
  | handleAck c ack now clock send stop => exact h.handleAck hdepth cfg now clock send stop ha
  | checkExpiration now =>
    obtain ⟨st', hst', hmatched⟩ := checkExpiration_matched cfg h.matched now
    obtain ⟨st₁, hst₁, hconsistent'⟩ := sendAct_spec cfg hconsistent (a := .checkExpiration now) ha
    obtain rfl := Option.some.inj (hst'.symm.trans hst₁)
    exact ⟨ex.transmit st', by rw [Exchange.act, hst', Option.map_some],
      h.sent hmatched hconsistent'⟩
  | stopConn c =>
    obtain ⟨st', hst', hmatched⟩ := stopConn_matched h.matched c ha
    exact ⟨ex.transmit st', by rw [Exchange.act, hst', Option.map_some],
      h.sent hmatched hmatched.consistent⟩
  | deactivate c eos =>
    obtain ⟨st', hst', hconsistent'⟩ := sendAct_spec cfg hconsistent (a := .deactivate c eos) ha
    obtain rfl := Option.some.inj hst'
    exact ⟨_, rfl, h.sent (h.matched.setConn c ⟨rfl, rfl, rfl, rfl, rfl⟩) hconsistent'⟩
  | arrive c pkt => exact h.arrive cfg ha
  | read c => exact h.read cfg ha
  | release c => exact h.release cfg ha
  | stop c peerKnown => exact h.stop cfg ha
  | inactive c => exact h.inactive cfg ha

theorem exchangeInv_start (cfg : ExchangeConfig) (receivers : Fin n → Bool) :
    ∃ ex : Exchange n F, Exchange.start cfg receivers = some ex ∧
      ExchangeInv cfg.queueDepth ex := by
  obtain ⟨st, hst, hmatched⟩ :=
    startOutgoing_matched (F := F) cfg.toSendConfig cfg.queueDepth_pos receivers
  refine ⟨_, by rw [Exchange.start, hst, Option.map_some], ⟨?_, ?_, ?_, ?_⟩, hmatched⟩
  · intro c _ ack hack
    cases hack
  · intro c
    exact List.prefix_rfl
  · intro c _ i hi
    exact Or.inl (Nat.lt_succ_of_le hi)
  · intro c _
    exact ⟨rfl, rfl⟩

/-- **A run.** Every call of a run is possible when it can be made, and the invariant holds behind
it. -/
theorem exchange_run (cfg : ExchangeConfig) (receivers : Fin n → Bool)
    (as : List (ExchangeAction n))
    (henabled : ∀ ex₀ ∈ (Exchange.start cfg receivers : Option (Exchange n F)),
      Along (Exchange.act cfg.toSendConfig) Exchange.enabled ex₀ as) :
    ∃ ex : Exchange n F,
      ((Exchange.start cfg receivers).bind fun ex₀ => run (Exchange.act cfg.toSendConfig) ex₀ as) =
        some ex ∧ ExchangeInv cfg.queueDepth ex := by
  obtain ⟨ex₀, hex₀, h₀⟩ := exchangeInv_start (F := F) cfg receivers
  have hdepth : cfg.queueDepth < 2 ^ 31 := cfg.queueDepth_le.trans_lt (by decide)
  obtain ⟨ex, hex, h⟩ := run_progress (fun _ _ h ha => exchangeAct_spec h hdepth _ ha)
    (henabled ex₀ hex₀) h₀
  exact ⟨ex, by rw [hex₀, Option.bind_some, hex], h⟩

/-! ## The main results -/

/-- **Delivery.** Whatever the network does with the packets and the acknowledgements, and in
whatever order the sender and the receivers make their calls: every call is possible, and what the
main thread of a receiver has read is the first packets that the sender was given for it, in order,
each once. -/
theorem delivery (cfg : ExchangeConfig) (receivers : Fin n → Bool) (as : List (ExchangeAction n))
    (henabled : ∀ ex₀ ∈ (Exchange.start cfg receivers : Option (Exchange n F)),
      Along (Exchange.act cfg.toSendConfig) Exchange.enabled ex₀ as) :
    ∃ ex : Exchange n F,
      ((Exchange.start cfg receivers).bind fun ex₀ => run (Exchange.act cfg.toSendConfig) ex₀ as) =
        some ex ∧ ∀ c, ex.taken c <+: ex.peers.packets c := by
  obtain ⟨ex, hex, h⟩ := exchange_run cfg receivers as henabled
  exact ⟨ex, hex, h.taken⟩

/-- The capacity is what the queue of the receiver has left, so a packet that is new to the receiver
does not find it full. -/
structure FlowControlled (depth : ℕ) (ex : Exchange n F) (c : Fin n) : Prop where
  capacity : (ex.sender.conns c).capacity + (ex.sender.conns c).sentSeq.toNat =
    (ex.sender.conns c).consumedSeq.toNat + depth
  capacity_nonneg : 0 ≤ (ex.sender.conns c).capacity
  sent_le : (ex.sender.conns c).sentSeq.toNat ≤ (ex.peers.rx c).extraSeq.toNat + depth
  not_full : ∀ pkt ∈ ex.peers.wire c, (ex.peers.rx c).infoSeq ≤ pkt.seq →
    ¬ (ex.peers.rx c).queueFull pkt

omit [WindowSize F] in
theorem ExchangeInv.flowControlled (h : ExchangeInv depth ex)
    (hrun : (ex.peers.rx c).stopRequested = false) : FlowControlled depth ex c := by
  obtain ⟨k, s, -, hfits⟩ := h.matched
  have hlinked := hfits c hrun
  have hcredit := hlinked.credit
  have hnonneg := hlinked.capacity_nonneg
  have hconsumed := hlinked.consumed
  refine ⟨hcredit, hnonneg, by omega, fun pkt hpkt hge => ?_⟩
  exact (hlinked.rx.not_queueFull (UInt32.le_iff_toNat_le.mp hge) (hlinked.seq_le hpkt)).2

/-- **Flow control.** In every run, on every connection that the receiver does not want to stop. -/
theorem flow_control (cfg : ExchangeConfig) (receivers : Fin n → Bool)
    (as : List (ExchangeAction n))
    (henabled : ∀ ex₀ ∈ (Exchange.start cfg receivers : Option (Exchange n F)),
      Along (Exchange.act cfg.toSendConfig) Exchange.enabled ex₀ as) :
    ∃ ex : Exchange n F,
      ((Exchange.start cfg receivers).bind fun ex₀ => run (Exchange.act cfg.toSendConfig) ex₀ as) =
        some ex ∧
      ∀ c, (ex.peers.rx c).stopRequested = false → FlowControlled cfg.queueDepth ex c := by
  obtain ⟨ex, hex, h⟩ := exchange_run cfg receivers as henabled
  exact ⟨ex, hex, fun c hrun => h.flowControlled hrun⟩

/-- Where the packet with the number `i + 1` can be. -/
def Held (ex : Exchange n F) (c : Fin n) (i : ℕ) (pkt : DataPkt) : Prop :=
  pkt ∈ (ex.sender.lists.toList (.sndQueue c)).map ex.peers.payload ∨
    pkt ∈ Exchange.unackedPackets ex.peers ex.sender c ∨
    (ex.peers.rx c).ring (i + 1) = some pkt ∨ (ex.taken c)[i]? = some pkt

omit [WindowSize F] in
theorem ExchangeInv.held (h : ExchangeInv depth ex) (hstopped : ex.stopped c = false) {i : ℕ}
    (hpkt : (ex.peers.packets c)[i]? = some pkt) : Held ex c i pkt := by
  obtain ⟨hrun, hlen⟩ := h.reading c hstopped
  obtain ⟨k, s, hinv, hfits⟩ := h.matched
  have hlinked := hfits c hrun
  have hlt := (List.getElem?_eq_some_iff.mp hpkt).1
  -- The content of a buffer is known from its number.
  have hcontent : ∀ b, b ∈ k (.sndQueue c) ∨ b ∈ unacked k c →
      (ex.sender.buffers b).seq.toNat = i + 1 → ex.peers.payload b = pkt := by
    intro b hb hseq
    obtain ⟨hmem, hseq'⟩ := hlinked.content b hb
    obtain ⟨hget, -, -⟩ := hlinked.packets.get_seq hmem
    rw [hseq', hseq, Nat.add_sub_cancel, hpkt] at hget
    exact (Option.some.inj hget).symm
  rw [Held, Exchange.unackedPackets, toList_eq hinv.lists, toList_eq hinv.lists]
  by_cases hsent : i + 1 ≤ (ex.sender.conns c).sentSeq.toNat
  · obtain ⟨b, hb, hseq⟩ | hstored := hlinked.kept (i + 1) hsent
    · exact Or.inr (Or.inl (List.mem_map.mpr ⟨b, hb, hcontent b (Or.inr hb) hseq⟩))
    · have hring : ∀ p, (ex.peers.rx c).ring (i + 1) = some p → p = pkt := by
        intro p hp
        have hplace := hlinked.rx.at_place _ p hp
        rw [Nat.add_sub_cancel, List.getElem?_take_of_lt (by omega), hpkt] at hplace
        exact (Option.some.inj hplace).symm
      by_cases htaken : i + 1 ≤ (ex.peers.rx c).extraSeq.toNat
      · refine Or.inr (Or.inr (Or.inr ?_))
        obtain ⟨rest, hrest⟩ := h.taken c
        rw [← hrest, List.getElem?_append_left (by omega)] at hpkt
        exact hpkt
      · have hsome : ((ex.peers.rx c).ring (i + 1)).isSome :=
          hstored.elim (fun hlt => hlinked.rx.filled _ (by omega) hlt) id
        obtain ⟨p, hp⟩ := Option.isSome_iff_exists.mp hsome
        exact Or.inr (Or.inr (Or.inl (hring p hp ▸ hp)))
  · have hmem : i + 1 ∈ (k (.sndQueue c)).map fun b => (ex.sender.buffers b).seq.toNat := by
      rw [hlinked.queued, List.mem_range'_1]
      omega
    obtain ⟨b, hb, hseq⟩ := List.mem_map.mp hmem
    exact Or.inl (List.mem_map.mpr ⟨b, hb, hcontent b (Or.inl hb) hseq⟩)

/-- **Nothing is lost.** In every run, each packet that the sender was given is in a queue of the
sender, in the ring of the receiver, or has been read. So when the queues of the sender are empty,
everything has arrived. -/
theorem nothing_lost (cfg : ExchangeConfig) (receivers : Fin n → Bool)
    (as : List (ExchangeAction n))
    (henabled : ∀ ex₀ ∈ (Exchange.start cfg receivers : Option (Exchange n F)),
      Along (Exchange.act cfg.toSendConfig) Exchange.enabled ex₀ as) :
    ∃ ex : Exchange n F,
      ((Exchange.start cfg receivers).bind fun ex₀ => run (Exchange.act cfg.toSendConfig) ex₀ as) =
        some ex ∧
      ∀ c, ex.stopped c = false → ∀ i, ∀ pkt ∈ (ex.peers.packets c)[i]?, Held ex c i pkt := by
  obtain ⟨ex, hex, h⟩ := exchange_run cfg receivers as henabled
  exact ⟨ex, hex, fun c hstopped i pkt hpkt => h.held hstopped hpkt⟩

/-! ## A run -/

instance instDecidableExchangeEnabled (ex : Exchange n F) (a : ExchangeAction n) :
    Decidable (ex.enabled a) :=
  match a with
  | .flush c _ _ _ => inferInstanceAs (Decidable ((ex.sender.conns c).stillActive ∧
      (ex.sender.conns c).curBuff.isSome ∧
      (∀ pkt ∈ ex.peers.packets c, pkt.has flagEos = false) ∧
      (ex.peers.packets c).length + 2 < 2 ^ 32))
  | .getBuffer c => inferInstanceAs (Decidable ((ex.sender.conns c).curBuff = none))
  | .sendBuffers _ _ => inferInstanceAs (Decidable True)
  | .handleAck c ack _ _ _ _ => inferInstanceAs (Decidable (ack.has flagNak ∨ ack ∈ ex.acks c))
  | .checkExpiration _ => inferInstanceAs (Decidable True)
  | .stopConn c => inferInstanceAs (Decidable
      ((ex.sender.conns c).stillActive → (ex.sender.conns c).curBuff.isSome))
  | .deactivate _ _ => inferInstanceAs (Decidable True)
  | .arrive c pkt => inferInstanceAs (Decidable
      (pkt ∈ ex.peers.wire c ∨ pkt.data = [] ∧ pkt.flags = flagCapacity))
  | .read c => inferInstanceAs (Decidable (ex.stopped c = false ∧ (ex.peers.rx c).pBuff = none ∧
      ((ex.peers.rx c).pktQ (ex.peers.rx c).pktQHead).isSome))
  | .release c =>
    inferInstanceAs (Decidable (ex.stopped c = false ∧ (ex.peers.rx c).pBuff.isSome))
  | .stop c _ =>
    inferInstanceAs (Decidable (ex.stopped c = false ∧ (ex.peers.rx c).pBuff = none))
  | .inactive c => inferInstanceAs (Decidable (∃ pkt ∈ ex.taken c, pkt.has flagEos))

def exchangeConfig : ExchangeConfig :=
  ⟨exampleConfig, by decide, by decide⟩

/-- Three packets, the last of which arrives before the second one and again behind it. -/
def exchangeCalls : List (ExchangeAction 1) :=
  [.flush 0 false [1] fun _ => 1000000, .getBuffer 0, .flush 0 false [2] fun _ => 1000100,
    .arrive 0 ⟨1, 0, [1]⟩, .handleAck 0 ⟨131, 1, 0, []⟩ 1000300 (fun _ => 1000300) false false,
    .getBuffer 0, .flush 0 true [3] fun _ => 1000400, .arrive 0 ⟨3, 8, [3]⟩, .read 0, .release 0,
    .arrive 0 ⟨2, 0, [2]⟩, .arrive 0 ⟨3, 8, [3]⟩, .read 0, .release 0, .checkExpiration 3000000,
    .read 0, .release 0, .inactive 0]

theorem exchangeCalls_enabled : ∀ ex₀ ∈ (Exchange.start exchangeConfig fun _ => true :
    Option (Exchange 1 ℚ)),
    Along (Exchange.act exchangeConfig.toSendConfig) Exchange.enabled ex₀ exchangeCalls := by
  decide +kernel

theorem delivery_three_packets : ∃ ex : Exchange 1 ℚ,
    ((Exchange.start exchangeConfig fun _ => true).bind fun ex₀ =>
      run (Exchange.act exchangeConfig.toSendConfig) ex₀ exchangeCalls) = some ex ∧
      (∀ c, ex.taken c <+: ex.peers.packets c) ∧
      (ex.taken 0).map (·.data) = [[1], [2], [3]] ∧
        ex.sender.lists.toList (.unackQueue 0) = [1, 0] := by
  obtain ⟨ex, hex, hprefix⟩ :=
    delivery (F := ℚ) exchangeConfig (fun _ => true) exchangeCalls exchangeCalls_enabled
  have htaken : ∀ ex ∈ ((Exchange.start exchangeConfig fun _ => true).bind fun ex₀ =>
      run (Exchange.act exchangeConfig.toSendConfig) ex₀ exchangeCalls : Option (Exchange 1 ℚ)),
      (ex.taken 0).map (·.data) = [[1], [2], [3]] ∧
      ex.sender.lists.toList (.unackQueue 0) = [1, 0] := by
    decide +kernel
  exact ⟨ex, hex, hprefix, htaken ex hex⟩

theorem flow_control_three_packets : ∃ ex : Exchange 1 ℚ,
    ((Exchange.start exchangeConfig fun _ => true).bind fun ex₀ =>
      run (Exchange.act exchangeConfig.toSendConfig) ex₀ exchangeCalls) = some ex ∧
      ∀ c, (ex.peers.rx c).stopRequested = false → FlowControlled exchangeConfig.queueDepth ex c :=
  flow_control exchangeConfig (fun _ => true) exchangeCalls exchangeCalls_enabled

theorem nothing_lost_three_packets : ∃ ex : Exchange 1 ℚ,
    ((Exchange.start exchangeConfig fun _ => true).bind fun ex₀ =>
      run (Exchange.act exchangeConfig.toSendConfig) ex₀ exchangeCalls) = some ex ∧
      ∀ c, ex.stopped c = false → ∀ i, ∀ pkt ∈ (ex.peers.packets c)[i]?, Held ex c i pkt :=
  nothing_lost exchangeConfig (fun _ => true) exchangeCalls exchangeCalls_enabled

end Hdb.Interconnect
