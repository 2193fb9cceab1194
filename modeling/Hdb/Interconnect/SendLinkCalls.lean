import Hdb.Interconnect.SendLink

/-!
# The calls of the sender on linked connections

An acknowledgement that is sound takes only packets out of the unack queue that have arrived, and
gives the capacity back for those that were consumed. To send a packet takes it from the front of
the send queue. Expiration moves no packet, and a stop is handled only where the receiver wants it.
-/

namespace Hdb.Interconnect

open LinkedLists

variable {n : ℕ} {F : Type} {depth : ℕ} {peers : Peers n} {st st' : SendState n F}
  {k k' : SendList n → List ℕ} {s : ℤ → List ℕ} {fill : Multiset ℕ} {c : Fin n} {b fuel : ℕ}
  {xs ys : List ℕ} {cfg : SendConfig}

/-- One connection changes, and the others stay linked. -/
theorem Fits.update {conn : MotionConn} (h : Fits depth peers st k)
    (hconns : st'.conns = Function.update st.conns c conn)
    (hlists : ∀ c' ≠ c, k' (.sndQueue c') = k (.sndQueue c') ∧ unacked k' c' = unacked k c')
    (hbuf : ∀ b, (st'.buffers b).seq = (st.buffers b).seq)
    (hc : (peers.rx c).stopRequested = false → Linked depth peers st' k' c) :
    Fits depth peers st' k' := by
  intro c' hc'
  by_cases hcc : c' = c
  · subst hcc
    exact hc hc'
  · refine (h c' hc').congr rfl rfl rfl ?_ (hlists c' hcc).1
      (hlists c' hcc).2 fun b _ => ⟨hbuf b, rfl⟩
    rw [hconns, Function.update_of_ne hcc]
    exact .refl _

/-! ## Acknowledgements -/

/-- The message that an acknowledgement was sent as. -/
def AckPkt.msg (pkt : AckPkt n) : AckMsg := ⟨pkt.flags, pkt.seq, pkt.extraSeq, pkt.lostSeqs⟩

/-- The acknowledgement is sound, unless the receiver wants to stop. -/
def AckFits (peers : Peers n) (pkt : AckPkt n) : Prop :=
  (peers.rx pkt.conn).stopRequested = false → (peers.rx pkt.conn).AckSound pkt.msg

/-- The packets that may leave the unack queue. -/
def Arrived (peers : Peers n) (c : Fin n) (seq : UInt32) : Prop :=
  (peers.rx c).stopRequested = false → (peers.rx c).Stored seq.toNat

theorem Fits.ackedTo (h : Fits depth peers st k) (hto : AckedTo c (Arrived peers c) st st' k k') :
    Fits depth peers st' k' :=
  h.acked hto.same hto.acked fun hrun _ _ hR => hR hrun

/-- What the receiver has consumed is in the packets that were sent. -/
theorem Linked.extraSeq_le (h : Linked depth peers st k c) :
    (peers.rx c).extraSeq.toNat ≤ (st.conns c).sentSeq.toNat := by
  have hseq := h.rx.seq_eq
  have hle := h.rx.seq_le
  rw [List.length_take] at hle
  omega

theorem Linked.credited (h : Linked depth peers st k c) (hdepth : depth < 2 ^ 31) {pkt : AckPkt n}
    (hnew : pkt.extraSeq > (st.conns c).consumedSeq)
    (hextra : pkt.extraSeq.toNat ≤ (peers.rx c).extraSeq.toNat) :
    Linked depth peers (st.setConn c (addCapacity pkt)) k c := by
  have hle := h.extraSeq_le
  have hcredit := h.credit
  have hnonneg := h.capacity_nonneg
  have hlt := UInt32.lt_iff_toNat_lt.mp hnew
  have hconn : (st.setConn c (addCapacity pkt)).conns c = addCapacity pkt (st.conns c) := by
    rw [SendState.setConn_conns, Function.update_self]
  have hsub : (pkt.extraSeq - (st.conns c).consumedSeq).toNat =
      pkt.extraSeq.toNat - (st.conns c).consumedSeq.toNat :=
    UInt32.toNat_sub_of_le _ _ (by rw [UInt32.le_iff_toNat_le]; omega)
  -- The sum does not overflow, because the capacity is never more than the depth of the queue.
  have hcap : (addCapacity pkt (st.conns c)).capacity =
      (st.conns c).capacity + (pkt.extraSeq.toNat - (st.conns c).consumedSeq.toNat : ℕ) := by
    rw [addCapacity, hsub]
    exact Int.bmod_eq_of_le_mul_two (by omega) (by omega)
  refine ⟨h.packets, ?_, h.rxCapacity, ?_, ?_, ?_, ?_, ?_, h.content, h.sorted, ?_, ?_, ?_,
    ?_, ?_⟩ <;> rw [hconn]
  · exact h.rx
  · exact h.wire
  · exact h.running
  · exact h.infoSeq
  · exact h.sent_le
  · exact h.queued
  · exact h.unacked_le
  · exact h.kept
  · rw [hcap]
    show _ + ((st.conns c).sentSeq.toNat : ℤ) = pkt.extraSeq.toNat + depth
    omega
  · rw [hcap]
    omega
  · exact hextra

variable [WindowSize F]

theorem handleAckForDisorderPkt_matched (cfg : SendConfig) (h : Matched depth peers st fill)
    (pkt : AckPkt n)
    (hack : (peers.rx pkt.conn).stopRequested = false →
      (peers.rx pkt.conn).Stored pkt.seq.toNat ∧ pkt.lostSeqs.Pairwise (· < ·) ∧
        ∀ i : UInt32, i ∉ pkt.lostSeqs → (∃ lost ∈ pkt.lostSeqs, i < lost) →
          (peers.rx pkt.conn).Stored i.toNat) :
    ∃ st' acked, handleAckForDisorderPkt cfg pkt st = some (st', acked) ∧
      Matched depth peers st' fill := by
  obtain ⟨k, s, hinv, hfits⟩ := h
  have hset : ∀ times lastSeq, SendInv { st with times, lastSeq } k s fill none := fun _ _ =>
    hinv.congr rfl rfl rfl rfl hinv.idx (fun _ _ _ => ⟨rfl, rfl⟩) hinv.all
  have hfits' : ∀ times lastSeq, Fits depth peers { st with times, lastSeq } k := fun _ _ =>
    hfits.same (same_of_eq (fun _ => rfl) rfl)
  rw [handleAckForDisorderPkt]
  dsimp only
  split_ifs
  · exact ⟨_, false, rfl, k, s, hset _ _, hfits' _ _⟩
  · exact ⟨_, false, rfl, k, s, hset _ _, hfits' _ _⟩
  · have h₁ := hset (st.times + 1) st.lastSeq
    obtain ⟨st', k', s', acked, hst', h', hto⟩ :=
      disorderLoop_moves (R := Arrived peers pkt.conn) cfg
        ((peers.rx pkt.conn).stopRequested = false) [] pkt.lostSeqs h₁
        (List.nil_append (k (.unackQueue pkt.conn))).symm (Nat.lt_add_one _)
        (fun _ => rfl) (List.nil_append _).symm
        (fun hrun => (hfits pkt.conn hrun).sorted) (fun hrun => (hack hrun).2.1)
        (fun _ _ hmem => absurd hmem List.not_mem_nil)
        (fun seq hseq hrun => (hack hrun).2.2 seq (hseq hrun).1 (hseq hrun).2)
        (fun hrun => (hack hrun).1) false
    simp only [first_eq hinv.lists, unackLength_eq h₁, hst', Option.map_some]
    exact ⟨_, acked, rfl, k', s',
      h'.congr rfl rfl rfl rfl h'.idx (fun _ _ _ => ⟨rfl, rfl⟩) h'.all,
      ((hfits' _ _).ackedTo hto).same (same_of_eq (fun _ => rfl) rfl)⟩

theorem handleRegularAck_matched (h : Matched depth peers st fill) (pkt : AckPkt n)
    (send stop : Bool)
    (hack : (peers.rx pkt.conn).stopRequested = false →
      pkt.has flagStop = false ∧ ∀ i, i ≤ pkt.seq.toNat → (peers.rx pkt.conn).Stored i) :
    ∃ st' send' stop', handleRegularAck pkt send stop st = some (st', send', stop') ∧
      Matched depth peers st' fill := by
  obtain ⟨k, s, hinv, hfits⟩ := h
  rw [handleRegularAck]
  dsimp only
  by_cases hold : pkt.seq < (st.conns pkt.conn).receivedAckSeq
  · exact ⟨st, send, stop, if_pos hold, k, s, hinv, hfits⟩
  rw [if_neg hold]
  generalize hstop : (pkt.has flagStop && !(st.conns pkt.conn).stopRequested &&
    (st.conns pkt.conn).stillActive) = stopNow
  generalize hst₁ : (if stopNow = true then
    st.setConn pkt.conn fun conn => { conn with stopRequested := true } else st) = st₁
  -- A stop comes only from a receiver that wants one.
  obtain ⟨h₁, hfits₁⟩ : SendInv st₁ k s fill none ∧ Fits depth peers st₁ k := by
    rw [← hst₁]
    split_ifs with hnow
    · refine ⟨hinv.setConn _ _,
        hfits.update rfl (fun _ _ => ⟨rfl, rfl⟩) (fun _ => rfl) fun hrun => ?_⟩
      rw [hnow, (hack hrun).1] at hstop
      cases hstop
    · exact ⟨hinv, hfits⟩
  split_ifs
  · exact ⟨st₁, send, _, rfl, k, s, h₁, hfits₁⟩
  · obtain ⟨st', k', s', xs, ys, acked, hst', h', -, hto⟩ :=
      ackLoop_moves (R := Arrived peers pkt.conn) h₁
        (List.nil_append (k (.unackQueue pkt.conn))).symm (Nat.lt_add_one _) pkt.now pkt.seq false
        fun seq hle hrun => (hack hrun).2 _ (UInt32.le_iff_toNat_le.mp hle)
    refine ⟨st', send || acked, stop || stopNow, ?_, k', s', h', hfits₁.ackedTo hto⟩
    simp only [first_eq h₁.lists, unackLength_eq h₁, hst', Option.map_some]
  · exact ⟨st₁, send, _, rfl, k, s, h₁, hfits₁⟩

theorem handleAckKind_matched (cfg : SendConfig) (h : Matched depth peers st fill)
    (hdepth : depth < 2 ^ 31) {pkt : AckPkt n} (hack : AckFits peers pkt) (send stop : Bool) :
    ∃ st' send' stop', handleAckKind cfg pkt send stop st = some (st', send', stop') ∧
      Matched depth peers st' fill := by
  rw [handleAckKind]
  have hregular : pkt.has flagCapacity = true ∨
      ¬ pkt.has flagDuplicate = true ∧ ¬ pkt.has flagDisorder = true →
      (peers.rx pkt.conn).stopRequested = false →
      pkt.has flagStop = false ∧ ∀ i, i ≤ pkt.seq.toNat → (peers.rx pkt.conn).Stored i :=
    fun hkind hrun => ⟨(hack hrun).stop, (hack hrun).regular hkind⟩
  split_ifs with hcap hnew hdup hdis
  · obtain ⟨k, s, hinv, hfits⟩ := h
    refine handleRegularAck_matched ⟨k, s, hinv.setConn pkt.conn (addCapacity pkt), ?_⟩ pkt
      true stop (hregular (Or.inl hcap))
    exact hfits.update rfl (fun _ _ => ⟨rfl, rfl⟩) (fun _ => rfl) fun hrun =>
      (hfits _ hrun).credited hdepth hnew ((hack hrun).capacity hcap)
  · exact handleRegularAck_matched h pkt send stop (hregular (Or.inl hcap))
  · obtain ⟨k, s, hinv, hfits⟩ := h
    obtain ⟨st', k', s', acked, hst', h', hto⟩ :=
      handleAckForDuplicatePkt_moves (R := Arrived peers pkt.conn) hinv pkt
        (fun seq hle hrun => ((hack hrun).duplicate hcap hdup).2 _ (UInt32.le_iff_toNat_le.mp hle))
        fun hrun => ((hack hrun).duplicate hcap hdup).1
    exact ⟨st', _, stop, by rw [hst']; rfl, k', s', h', hfits.ackedTo hto⟩
  · obtain ⟨st', acked, hst', h'⟩ := handleAckForDisorderPkt_matched cfg h pkt
      fun hrun => (hack hrun).disorder hcap hdup hdis
    exact ⟨st', _, stop, by rw [hst']; rfl, h'⟩
  · exact handleRegularAck_matched h pkt send stop (hregular (Or.inr ⟨hdup, hdis⟩))

/-! ## Sending -/

omit [WindowSize F] in
/-- The buffer goes to the unack queue, and takes one of the capacity. -/
theorem sendBuffer_moves (cfg : SendConfig) (h : SendInv st k s fill none)
    (hk : k (.sndQueue c) = b :: xs) (now : UInt64) :
    ∃ st' s', sendBuffer cfg now c b { st with lists := st.lists.delete (.sndQueue c) b } = st' ∧
      SendInv st' (moved k (.sndQueue c) (.unackQueue c) b) s' fill none ∧
      (∀ b', (st'.buffers b').seq = (st.buffers b').seq) ∧
      st'.conns = Function.update st.conns c
        { st.conns c with
          capacity := (st.conns c).capacity - 1, sentSeq := (st.buffers b).seq } := by
  obtain ⟨k', s', hinv, -, -⟩ := sendBuffer_spec cfg h hk now
  have hrep := represents_move h.lists (show b ∈ k (.sndQueue c) by simp [hk])
    (show SendList.sndQueue c ≠ .unackQueue c by simp)
  -- The state before the number of the packet is noted.
  obtain ⟨st₁, hst₁, hconns₁, hseq₁⟩ : ∃ st₁ : SendState n F,
      sendBuffer cfg now c b { st with lists := st.lists.delete (.sndQueue c) b } =
        st₁.setConn c (fun conn => { conn with sentSeq := (st₁.buffers b).seq }) ∧
      st₁.conns = Function.update st.conns c
        { st.conns c with capacity := (st.conns c).capacity - 1 } ∧
      ∀ b', (st₁.buffers b').seq = (st.buffers b').seq := by
    have hsame := same_setBuffer st b (fun buf =>
      { buf with sentTime := now, unackQueueRingSlot := -1, nRetry := 0, conn := some c }) rfl
    exact ⟨_, rfl, rfl, fun b' => ((same_put cfg b _ now _).seq b').trans (hsame.seq b')⟩
  refine ⟨_, s', rfl, hinv.lists.unique hrep ▸ hinv, ?_, ?_⟩ <;> rw [hst₁]
  · exact hseq₁
  · rw [SendState.setConn_conns, hconns₁, Function.update_self, Function.update_idem, hseq₁]

omit [WindowSize F] in
/-- The first packet of the send queue is the next one, and it is sent. -/
theorem Linked.sent (h : Linked depth peers st k c)
    (hk : k (.sndQueue c) = b :: xs) (hcap : (st.conns c).capacity > 0)
    (hseq : ∀ b', (st'.buffers b').seq = (st.buffers b').seq)
    (hconn : st'.conns c =
      { st.conns c with capacity := (st.conns c).capacity - 1, sentSeq := (st.buffers b).seq }) :
    Linked depth peers st' (moved k (.sndQueue c) (.unackQueue c) b) c := by
  have hqueued := h.queued
  have hle := h.sent_le
  rw [hk, List.map_cons] at hqueued
  obtain ⟨m, hm⟩ : ∃ m, (peers.packets c).length - (st.conns c).sentSeq.toNat = m + 1 := by
    refine Nat.exists_eq_add_one_of_ne_zero fun hzero => ?_
    rw [hzero] at hqueued
    cases hqueued
  rw [hm, List.range'_succ, List.cons.injEq] at hqueued
  obtain ⟨hb, hrest⟩ := hqueued
  have hsent : (st'.conns c).sentSeq = (st.buffers b).seq := by rw [hconn]
  have hlt : (st.conns c).sentSeq.toNat < (peers.packets c).length := by omega
  have hsnd : moved k (.sndQueue c) (.unackQueue c) b (.sndQueue c) = xs := by
    rw [moved_from (by simp), hk, List.erase_cons_head]
  have hunacked : unacked (moved k (.sndQueue c) (.unackQueue c) b) c = unacked k c ++ [b] :=
    moved_to k (.sndQueue c) (.unackQueue c) b
  have hmem : ∀ b', b' ∈ moved k (.sndQueue c) (.unackQueue c) b (.sndQueue c) ∨
      b' ∈ unacked (moved k (.sndQueue c) (.unackQueue c) b) c →
      b' ∈ k (.sndQueue c) ∨ b' ∈ unacked k c := by
    rintro b' (hb' | hb')
    · rw [hsnd] at hb'
      exact Or.inl (by simp [hk, hb'])
    · rw [hunacked, List.mem_append, List.mem_singleton] at hb'
      exact hb'.symm.imp_left fun heq => by simp [hk, heq]
  refine ⟨h.packets, ?_, h.rxCapacity, ?_, ?_, ?_, ?_, ?_, ?_, ?_, ?_, ?_, ?_, ?_, ?_⟩
  · -- The end of the stream has not been sent before.
    rw [hsent, hb, List.take_add_one, List.getElem?_eq_getElem hlt, Option.toList_some]
    refine h.rx.more (fun pkt hpkt => ?_) _
    obtain ⟨i, hi⟩ := List.mem_iff_getElem?.mp hpkt
    rw [List.getElem?_take] at hi
    split_ifs at hi with hilt
    by_contra heos
    have hend := h.packets.eos i pkt hi (by simpa using heos)
    omega
  · intro pkt hpkt
    rw [hsent, hb]
    exact List.take_subset_take_left _ (Nat.le_succ _) (h.wire pkt hpkt)
  · rw [hconn]
    exact h.running
  · rw [hconn]
    exact h.infoSeq
  · rw [hsent]
    omega
  · rw [hsnd, hsent, hb, funext fun b' => congrArg UInt32.toNat (hseq b'), hrest]
    congr 1
    omega
  · intro b' hb'
    rw [hseq]
    exact h.content b' (hmem b' hb')
  · rw [hunacked]
    refine List.pairwise_append.mpr ⟨?_, List.pairwise_singleton _ _, fun b₁ hb₁ b₂ hb₂ => ?_⟩
    · exact h.sorted.imp fun {b₁ b₂} hlt => by rw [hseq, hseq]; exact hlt
    · have hle₁ := UInt32.le_iff_toNat_le.mp (h.unacked_le b₁ hb₁)
      rw [List.mem_singleton.mp hb₂, hseq, hseq, UInt32.lt_iff_toNat_lt]
      omega
  · intro b₁ hb₁
    rw [hunacked, List.mem_append, List.mem_singleton] at hb₁
    rw [hseq, hsent]
    obtain hb₁ | rfl := hb₁
    · have hle₁ := UInt32.le_iff_toNat_le.mp (h.unacked_le b₁ hb₁)
      rw [UInt32.le_iff_toNat_le]
      omega
    · exact UInt32.le_refl _
  · intro i hi
    rw [hsent, hb] at hi
    rw [hunacked]
    by_cases hlast : i = (st.conns c).sentSeq.toNat + 1
    · exact Or.inl ⟨b, by simp, by rw [hseq, hb, hlast]⟩
    · refine (h.kept i (by omega)).imp_left fun ⟨b', hb', hbi⟩ => ⟨b', by simp [hb'], ?_⟩
      rw [hseq, hbi]
  · have hcredit := h.credit
    rw [hsent, hb, hconn]
    push_cast
    show _ - 1 + _ = _
    omega
  · rw [hconn]
    show 0 ≤ (st.conns c).capacity - 1
    omega
  · rw [hconn]
    exact h.consumed

theorem sendLoop_matched (cfg : SendConfig) (h : SendInv st k s fill none)
    (hfits : Fits depth peers st k) (hk : k (.sndQueue c) = xs) (hfuel : xs.length < fuel)
    (clock : ℕ → UInt64) :
    ∃ st', sendLoop cfg c fuel clock st = some st' ∧ Matched depth peers st' fill := by
  induction xs generalizing st k s fuel clock with
  | nil =>
    obtain ⟨fuel, rfl⟩ := Nat.exists_eq_add_one_of_ne_zero (Nat.ne_zero_of_lt hfuel)
    refine ⟨st, ?_, k, s, h, hfits⟩
    rw [sendLoop, if_neg (by simp [h.lists.length, hk])]
  | cons b xs ih =>
    obtain ⟨fuel, rfl⟩ := Nat.exists_eq_add_one_of_ne_zero (Nat.ne_zero_of_lt hfuel)
    have hstop : ∃ st', some st = some st' ∧ Matched depth peers st' fill :=
      ⟨st, rfl, k, s, h, hfits⟩
    rw [sendLoop, (pop_cons h.lists hk).1]
    split_ifs with hready
    · exact hstop
    · exact hstop
    · obtain ⟨st₁, s₁, hst₁, h₁, hseq₁, hconns₁⟩ := sendBuffer_moves cfg h hk (clock 0)
      have hfits₁ : Fits depth peers st₁ (moved k (.sndQueue c) (.unackQueue c) b) := by
        refine hfits.update hconns₁ (fun c' hc' => ⟨?_, ?_⟩) hseq₁ fun hrun => ?_
        · exact moved_other (by simpa using hc') (by simp)
        · exact moved_other (by simp) (by simpa using hc')
        · exact (hfits c hrun).sent hk hready.1 hseq₁ (by rw [hconns₁, Function.update_self])
      have hk₁ : moved k (.sndQueue c) (.unackQueue c) b (.sndQueue c) = xs := by
        rw [moved_from (by simp), hk, List.erase_cons_head]
      simp only [hst₁]
      exact ih h₁ hfits₁ hk₁ (by simpa using hfuel) fun i => clock (i + 1)
    · exact hstop

theorem sendBuffers_matched (cfg : SendConfig) (h : Matched depth peers st fill) (c : Fin n)
    (clock : ℕ → UInt64) :
    ∃ st', sendBuffers cfg c clock st = some st' ∧ Matched depth peers st' fill := by
  obtain ⟨k, s, hinv, hfits⟩ := h
  rw [sendBuffers]
  split_ifs
  · exact sendLoop_matched cfg hinv hfits rfl (by simp [hinv.lists.length]) clock
  · exact ⟨st, rfl, k, s, hinv, hfits⟩

/-- One acknowledgement of the loop of `handleAcks`. -/
def handleAck (cfg : SendConfig) (pkt : AckPkt n) (send stop : Bool) (st : SendState n F) :
    Option (SendState n F × Bool × Bool) :=
  if pkt.has flagNak then some (st, send, stop)
  else
    (handleAckKind cfg pkt send stop st).bind fun r =>
      (if r.2.1 then sendBuffers cfg pkt.conn pkt.clock r.1 else some r.1).map fun st => (st, r.2)

theorem handleAcks_cons (cfg : SendConfig) (pkt : AckPkt n) (pkts : List (AckPkt n))
    (send stop : Bool) (st : SendState n F) :
    handleAcks cfg (pkt :: pkts) send stop st =
      (handleAck cfg pkt send stop st).bind fun r => handleAcks cfg pkts r.2.1 r.2.2 r.1 := by
  rw [handleAcks, handleAck]
  split_ifs
  · rfl
  · rw [Option.bind_assoc]
    refine congrArg _ (funext fun r => ?_)
    rw [Option.bind_map]
    rfl

theorem handleAck_matched (cfg : SendConfig) (h : Matched depth peers st fill)
    (hdepth : depth < 2 ^ 31) {pkt : AckPkt n} (hack : pkt.has flagNak = false → AckFits peers pkt)
    (send stop : Bool) :
    ∃ st' r, handleAck cfg pkt send stop st = some (st', r) ∧ Matched depth peers st' fill := by
  rw [handleAck]
  split_ifs with hnak
  · exact ⟨st, _, rfl, h⟩
  · obtain ⟨st₁, send₁, stop₁, hst₁, h₁⟩ :=
      handleAckKind_matched cfg h hdepth (hack (by simpa using hnak)) send stop
    rw [hst₁, Option.bind_some]
    split_ifs
    · obtain ⟨st', hst', h'⟩ := sendBuffers_matched cfg h₁ pkt.conn pkt.clock
      exact ⟨st', _, by rw [hst']; rfl, h'⟩
    · exact ⟨st₁, _, rfl, h₁⟩

/-! ## Expiration -/

omit [WindowSize F] in
theorem expireSlot_same {now : UInt64} {retransmits retransmits' : ℕ}
    (h : expireSlot cfg now fuel retransmits st = some (st', retransmits')) :
    Same st st' ∧ st'.lists = st.lists := by
  induction fuel generalizing st retransmits with
  | zero => cases h
  | succ fuel ih =>
    rw [expireSlot] at h
    split at h
    · cases h
    · cases h
      exact ⟨.refl _, rfl⟩
    · rename_i b slots _
      obtain ⟨st₁, hst₁⟩ : ∃ st₁ : SendState n F, SendState.setBuffer
          { st with ring := { st.ring with slots := slots } } b
          (fun buf => { buf with nRetry := buf.nRetry + 1 }) = st₁ := ⟨_, rfl⟩
      have hbuf := same_setBuffer st b (fun buf => { buf with nRetry := buf.nRetry + 1 }) rfl
      have hsame₁ : Same st st₁ := by
        rw [← hst₁]
        exact ⟨hbuf.seq, hbuf.conns⟩
      have hlists₁ : st₁.lists = st.lists := by
        rw [← hst₁]
        rfl
      simp only [hst₁] at h
      obtain ⟨c, -, h⟩ := Option.bind_eq_some_iff.mp h
      obtain ⟨hsame, hlists⟩ := ih h
      exact ⟨hsame₁.trans ((same_put cfg b _ now st₁).trans hsame), hlists.trans hlists₁⟩

omit [WindowSize F] in
theorem expireLoop_same {now : UInt64} {turns retransmits retransmits' : ℕ}
    (h : expireLoop cfg now turns retransmits st = some (st', retransmits')) :
    Same st st' ∧ st'.lists = st.lists := by
  induction turns generalizing st retransmits with
  | zero =>
    cases h
    exact ⟨.refl _, rfl⟩
  | succ turns ih =>
    rw [expireLoop] at h
    split_ifs at h
    · obtain ⟨r, hr, h⟩ := Option.bind_eq_some_iff.mp h
      obtain ⟨hsame₁, hlists₁⟩ := expireSlot_same hr
      obtain ⟨hsame, hlists⟩ := ih h
      exact ⟨hsame₁.trans ⟨hsame.seq, hsame.conns⟩, hlists.trans hlists₁⟩
    · cases h
      exact ⟨.refl _, rfl⟩

theorem checkExpiration_matched (cfg : SendConfig) (h : Matched depth peers st fill)
    (now : UInt64) :
    ∃ st', checkExpiration cfg now st = some st' ∧ Matched depth peers st' fill := by
  obtain ⟨k, s, hinv, hfits⟩ := h
  obtain ⟨st', hst', ⟨k', s', hinv'⟩, -⟩ := checkExpiration_spec cfg ⟨k, s, hinv⟩ now
  have hsame : Same st st' ∧ st'.lists = st.lists := by
    obtain ⟨r, hr, heq⟩ := Option.map_eq_some_iff.mp hst'
    obtain ⟨hsame, hlists⟩ := expireLoop_same hr
    rw [← heq]
    split_ifs <;> exact ⟨⟨hsame.seq, hsame.conns⟩, hlists⟩
  have hk : k' = k := hinv'.lists.unique (hsame.2 ▸ hinv.lists)
  exact ⟨st', hst', k, s', hk ▸ hinv', hfits.same hsame.1⟩

end Hdb.Interconnect
