import Hdb.Interconnect.Receiver

/-!
# The calls of the receiver

Every call of the receive thread and of the main thread keeps `RxInv`, what has arrived stays, and
the acknowledgement of the call is sound. A packet that the sender had the capacity for finds its
place in the ring free, or finds itself there.
-/

namespace Hdb.Interconnect

open Window

variable {packets : List DataPkt} {pkt : DataPkt}

theorem PacketsOk.get_seq (hp : PacketsOk packets) (hpkt : pkt ∈ packets) :
    packets[pkt.seq.toNat - 1]? = some pkt ∧ 1 ≤ pkt.seq.toNat ∧
      pkt.seq.toNat ≤ packets.length := by
  obtain ⟨i, hi⟩ := List.mem_iff_getElem?.mp hpkt
  have hseq := hp.numbered i pkt hi
  have hlt := (List.getElem?_eq_some_iff.mp hi).1
  exact ⟨by rw [hseq]; exact hi, by omega, by omega⟩

namespace RxConn

variable {conn conn' : RxConn} {ack : AckMsg} {i n : ℕ}

/-! ## Acknowledgements that are sound -/

/-- The flags of the connection are those of a receiver, with the end of the stream or without. -/
def PlainFlags (conn : RxConn) : Prop :=
  conn.infoFlags = flagReceiverToSender ∨ conn.infoFlags = flagReceiverToSender ||| flagEos

theorem RxInv.plainFlags (h : RxInv packets conn) : conn.PlainFlags := h.flags.imp_right And.left

theorem ackSound_regular (hplain : conn.PlainFlags)
    (hflags : ack.flags = flagAck ||| flagCapacity ||| conn.infoFlags)
    (hextra : ack.extraSeq.toNat ≤ conn.extraSeq.toNat)
    (hseq : ∀ i, i ≤ ack.seq.toNat → conn.Stored i) : AckSound conn ack := by
  have hcap : ack.has flagCapacity = true := by
    obtain h | h := hplain <;> rw [AckMsg.has, hflags, h] <;> rfl
  refine ⟨?_, fun _ => hextra, fun _ => hseq, fun h => absurd hcap h, fun h => absurd hcap h⟩
  obtain h | h := hplain <;> rw [AckMsg.has, hflags, h] <;> rfl

theorem ackSound_duplicate (hplain : conn.PlainFlags)
    (hflags : ack.flags = flagDuplicate ||| conn.infoFlags) (hseq : conn.Stored ack.seq.toNat)
    (hextra : ∀ i, i ≤ ack.extraSeq.toNat → conn.Stored i) : AckSound conn ack := by
  have hcap : ack.has flagCapacity = false := by
    obtain h | h := hplain <;> rw [AckMsg.has, hflags, h] <;> rfl
  have hdup : ack.has flagDuplicate = true := by
    obtain h | h := hplain <;> rw [AckMsg.has, hflags, h] <;> rfl
  refine ⟨?_, fun h => ?_, fun h => ?_, fun _ _ => ⟨hseq, hextra⟩, fun _ h => absurd hdup h⟩
  · obtain h | h := hplain <;> rw [AckMsg.has, hflags, h] <;> rfl
  · rw [hcap] at h
    cases h
  · rw [hcap, hdup] at h
    simp at h

theorem ackSound_disorder (hplain : conn.PlainFlags)
    (hflags : ack.flags = conn.infoFlags ||| flagDisorder) (hseq : conn.Stored ack.seq.toNat)
    (hsorted : ack.lostSeqs.Pairwise (· < ·))
    (hlost : ∀ i : UInt32, i ∉ ack.lostSeqs → (∃ lost ∈ ack.lostSeqs, i < lost) →
      conn.Stored i.toNat) : AckSound conn ack := by
  have hcap : ack.has flagCapacity = false := by
    obtain h | h := hplain <;> rw [AckMsg.has, hflags, h] <;> rfl
  have hdup : ack.has flagDuplicate = false := by
    obtain h | h := hplain <;> rw [AckMsg.has, hflags, h] <;> rfl
  have hdis : ack.has flagDisorder = true := by
    obtain h | h := hplain <;> rw [AckMsg.has, hflags, h] <;> rfl
  refine ⟨?_, fun h => ?_, fun h => ?_, fun _ h => ?_, fun _ _ _ => ⟨hseq, hsorted, hlost⟩⟩
  · obtain h | h := hplain <;> rw [AckMsg.has, hflags, h] <;> rfl
  · rw [hcap] at h
    cases h
  · rw [hcap, hdup, hdis] at h
    simp at h
  · rw [hdup] at h
    cases h

/-- What has arrived stays, and what has been returned. -/
structure Grows (conn conn' : RxConn) : Prop where
  stored : ∀ i, conn.Stored i → conn'.Stored i
  extraSeq : conn.extraSeq.toNat ≤ conn'.extraSeq.toNat

theorem Grows.refl (conn : RxConn) : Grows conn conn := ⟨fun _ h => h, le_rfl⟩

theorem AckSound.mono (h : AckSound conn ack) (hgrows : Grows conn conn') : AckSound conn' ack where
  stop := h.stop
  capacity hcap := (h.capacity hcap).trans hgrows.extraSeq
  regular hreg i hi := hgrows.stored i (h.regular hreg i hi)
  duplicate hcap hdup :=
    ⟨hgrows.stored _ (h.duplicate hcap hdup).1,
      fun i hi => hgrows.stored i ((h.duplicate hcap hdup).2 i hi)⟩
  disorder hcap hdup hdis := by
    obtain ⟨hseq, hsorted, hlost⟩ := h.disorder hcap hdup hdis
    exact ⟨hgrows.stored _ hseq, hsorted, fun i hi hex => hgrows.stored _ (hlost i hi hex)⟩

/-! ## The ring -/

theorem Places.seq_pos (h : Places packets conn) : 1 ≤ conn.infoSeq.toNat := by
  rw [h.seq_eq]
  omega

theorem Places.seq_sub_one (h : Places packets conn) :
    (conn.infoSeq - 1).toNat = conn.infoSeq.toNat - 1 :=
  UInt32.toNat_sub_of_le _ _ (by rw [UInt32.le_iff_toNat_le]; exact h.seq_pos)

theorem Places.stored_of_le (h : Places packets conn) (hi : i ≤ (conn.infoSeq - 1).toNat) :
    conn.Stored i := by
  have hpos := h.seq_pos
  rw [h.seq_sub_one] at hi
  exact Or.inl (by omega)

theorem Places.headSeq_toNat (h : Places packets conn) :
    conn.headSeq.toNat = conn.extraSeq.toNat + 1 := by
  have hlt := conn.infoSeq.toNat_lt
  have hseq := h.seq_eq
  have hsize : (UInt32.ofNat conn.pktQSize).toNat = conn.pktQSize := by
    rw [UInt32.toNat_ofNat']
    exact Nat.mod_eq_of_lt (by omega)
  rw [headSeq, UInt32.toNat_sub_of_le _ _ (by rw [UInt32.le_iff_toNat_le, hsize]; omega), hsize]
  omega

/-- The next number is in the window, unless the queue is full. -/
theorem Places.inside_seq (h : Places packets conn) (hsize : conn.pktQSize < conn.pktQCapacity) :
    Inside conn.pktQCapacity (conn.extraSeq.toNat + 1) conn.infoSeq.toNat := by
  have hseq := h.seq_eq
  exact ⟨by omega, by omega⟩

theorem Places.ring_seq (h : Places packets conn) (hsize : conn.pktQSize < conn.pktQCapacity) :
    conn.ring conn.infoSeq.toNat = conn.pktQ conn.pktQTail := by
  rw [ring, window_of_inside (h.inside_seq hsize), h.tail_eq]

theorem Places.ring_head (h : Places packets conn) :
    conn.ring (conn.extraSeq.toNat + 1) = conn.pktQ conn.pktQHead := by
  have hpos := h.capacity_pos
  rw [ring, window_of_inside ⟨le_rfl, by omega⟩, h.head_eq]

/-- A packet in the ring is one of those that were sent. -/
theorem Places.le_length (h : Places packets conn) (hi : conn.ring i = some pkt) :
    i ≤ packets.length := by
  have hin := inside_of_window hi
  have hlt := (List.getElem?_eq_some_iff.mp (h.at_place i pkt hi)).1
  omega

theorem Places.step (h : Places packets conn) (hlen : packets.length + 1 < 2 ^ 32)
    (hsize : conn.pktQSize < conn.pktQCapacity) (hsome : (conn.pktQ conn.pktQTail).isSome) :
    Places packets { conn with
      pktQSize := conn.pktQSize + 1
      pktQTail := (conn.pktQTail + 1) % conn.pktQCapacity
      infoSeq := conn.infoSeq + 1 } ∧ (conn.infoSeq + 1).toNat = conn.infoSeq.toNat + 1 := by
  obtain ⟨pkt, hpkt⟩ := Option.isSome_iff_exists.mp hsome
  have hring := (h.ring_seq hsize).trans hpkt
  have hle := h.le_length hring
  have hseq := h.seq_eq
  have hsucc : (conn.infoSeq + 1).toNat = conn.infoSeq.toNat + 1 := by
    rw [UInt32.toNat_add]
    exact Nat.mod_eq_of_lt (by rw [UInt32.toNat_one]; omega)
  refine ⟨⟨h.capacity_pos, ?_, hsize, h.head_eq, ?_, h.at_place, ?_, ?_⟩, hsucc⟩
  · dsimp only
    omega
  · dsimp only
    rw [h.tail_eq, hsucc, slot_succ h.seq_pos]
  · intro i hi hi'
    dsimp only at hi hi'
    rw [hsucc] at hi'
    by_cases hlast : i = conn.infoSeq.toNat
    · exact Option.isSome_iff_exists.mpr ⟨pkt, hlast ▸ hring⟩
    · exact h.filled i hi (by omega)
  · dsimp only
    omega

/-- The tail moves to the next packet that is missing. -/
theorem moveTail_spec (h : Places packets conn) (hlen : packets.length + 1 < 2 ^ 32)
    (hn : conn.pktQSize + n = conn.pktQCapacity) :
    ∃ size tail seq, moveTail n conn =
        { conn with pktQSize := size, pktQTail := tail, infoSeq := seq } ∧
      Places packets (moveTail n conn) ∧
      (moveTail n conn).ring (moveTail n conn).infoSeq.toNat = none ∧
      conn.infoSeq.toNat ≤ seq.toNat ∧
      ((conn.pktQ conn.pktQTail).isSome → 0 < n → conn.infoSeq.toNat < seq.toNat) := by
  induction n generalizing conn with
  | zero =>
    refine ⟨_, _, _, rfl, h, ?_, le_rfl, fun _ h0 => absurd h0 (Nat.lt_irrefl 0)⟩
    have hseq := h.seq_eq
    exact window_eq_none fun hin => by
      have := hin.2
      simp only [moveTail] at this
      omega
  | succ n ih =>
    have hsize : conn.pktQSize < conn.pktQCapacity := by omega
    by_cases hsome : (conn.pktQ conn.pktQTail).isSome
    · obtain ⟨hplaces, hsucc⟩ := h.step hlen hsize hsome
      obtain ⟨size, tail, seq, heq, hplaces', hnone, hle, -⟩ :=
        ih hplaces (by dsimp only; omega)
      rw [moveTail, if_pos hsome]
      dsimp only at hle
      exact ⟨size, tail, seq, heq, hplaces', hnone, by omega, fun _ _ => by omega⟩
    · rw [moveTail, if_neg hsome]
      refine ⟨_, _, _, rfl, h, ?_, le_rfl, fun h0 => absurd h0 hsome⟩
      rw [h.ring_seq hsize]
      simpa using hsome


/-! ## A packet arrives -/

/-- The packet has its place in the ring. -/
theorem Places.save (h : Places packets conn) (hp : PacketsOk packets) (hpkt : pkt ∈ packets)
    (hin : Inside conn.pktQCapacity (conn.extraSeq.toNat + 1) pkt.seq.toNat) :
    Places packets (conn.putPkt (slot conn.pktQCapacity pkt.seq.toNat) pkt) ∧
    (conn.putPkt (slot conn.pktQCapacity pkt.seq.toNat) pkt).ring =
      Function.update conn.ring pkt.seq.toNat (some pkt) := by
  have hring : (conn.putPkt (slot conn.pktQCapacity pkt.seq.toNat) pkt).ring =
      Function.update conn.ring pkt.seq.toNat (some pkt) :=
    window_put (q := conn.pktQ) (Nat.le_add_left 1 _) hin (some pkt)
  refine ⟨⟨h.capacity_pos, h.seq_eq, h.size_le, h.head_eq, h.tail_eq, ?_, ?_, h.seq_le⟩, hring⟩
  · intro i p hi
    rw [hring, Option.mem_def] at hi
    by_cases heq : i = pkt.seq.toNat
    · rw [heq, Function.update_self] at hi
      rw [heq, ← Option.some.inj hi]
      exact (hp.get_seq hpkt).1
    · rw [Function.update_of_ne heq] at hi
      exact h.at_place i p hi
  · intro i hi hi'
    rw [hring]
    by_cases heq : i = pkt.seq.toNat
    · rw [heq, Function.update_self]
      rfl
    · rw [Function.update_of_ne heq]
      exact h.filled i hi hi'

/-- The places do not depend on the rest of the connection. -/
theorem Places.congr (h : Places packets conn) (hq : conn'.pktQ = conn.pktQ)
    (hcap : conn'.pktQCapacity = conn.pktQCapacity) (hsize : conn'.pktQSize = conn.pktQSize)
    (hhead : conn'.pktQHead = conn.pktQHead) (htail : conn'.pktQTail = conn.pktQTail)
    (hseq : conn'.infoSeq = conn.infoSeq) (hextra : conn'.extraSeq = conn.extraSeq) :
    Places packets conn' := by
  have hring : conn'.ring = conn.ring := by rw [ring, ring, hq, hcap, hextra]
  refine ⟨hcap ▸ h.capacity_pos, ?_, ?_, ?_, ?_, ?_, ?_, hseq ▸ h.seq_le⟩
  · rw [hseq, hextra, hsize]
    exact h.seq_eq
  · rw [hsize, hcap]
    exact h.size_le
  · rw [hhead, hcap, hextra]
    exact h.head_eq
  · rw [htail, hcap, hseq]
    exact h.tail_eq
  · rw [hring]
    exact h.at_place
  · rw [hring, hextra, hseq]
    exact h.filled

/-- The result of a call: the invariant, and an acknowledgement that is sound. -/
structure Handled (packets : List DataPkt) (conn conn' : RxConn) (ack : Option AckMsg) : Prop where
  inv : RxInv packets conn'
  grows : Grows conn conn'
  sound : ∀ a ∈ ack, AckSound conn' a
  capacity : conn'.pktQCapacity = conn.pktQCapacity
  running : conn'.stopRequested = false

/-- A packet that is put into the ring does not change what is there. -/
theorem isSome_update {f : ℕ → Option DataPkt} {s : ℕ} (hi : (f i).isSome ∨ i = s) :
    (Function.update f s (some pkt) i).isSome := by
  by_cases heq : i = s
  · rw [heq, Function.update_self]
    rfl
  · rw [Function.update_of_ne heq]
    exact hi.resolve_right heq

/-- The main thread does not read a packet from an empty place. -/
theorem RxInv.pBuff_put (h : RxInv packets conn) {s : ℕ} (hslot : conn.pktQ s = none) {p : DataPkt}
    (hp : p ∈ conn.pBuff) (x : Option DataPkt) :
    Function.update conn.pktQ s x conn.pktQHead = some p := by
  have hhead := h.pBuff p hp
  refine (Function.update_of_ne (fun heq => ?_) _ _).trans hhead
  rw [heq, hslot] at hhead
  cases hhead

theorem Places.lastPkt_eq (h : Places packets conn) (hsize : 0 < conn.pktQSize) :
    conn.lastPkt = conn.ring (conn.infoSeq.toNat - 1) := by
  have hseq := h.seq_eq
  have hle := h.size_le
  have hpred := slot_pred (s := conn.infoSeq.toNat - 1) h.capacity_pos (by omega)
  rw [Nat.sub_add_cancel h.seq_pos] at hpred
  rw [lastPkt, h.tail_eq, hpred, ring, window_of_inside ⟨by omega, by omega⟩]

/-- The end of the stream is the last packet. -/
theorem Places.finished (h : Places packets conn) (hp : PacketsOk packets)
    (hsize : 0 < conn.pktQSize) (heos : conn.lastPkt.any fun pkt => pkt.has flagEos) :
    Finished packets conn := by
  have hseq := h.seq_eq
  obtain ⟨pkt, hpkt, heos⟩ := (Option.any_eq_true _ _).mp heos
  rw [h.lastPkt_eq hsize] at hpkt
  have hplace := h.at_place _ pkt hpkt
  have hend := hp.eos _ pkt hplace heos
  exact ⟨by omega, pkt, List.mem_of_getElem? hplace, heos⟩

theorem markEos_spec (h : Places packets conn) (hp : PacketsOk packets) (hsize : 0 < conn.pktQSize)
    (hflags : conn.infoFlags = flagReceiverToSender) :
    ∃ flags, conn.markEos = { conn with infoFlags := flags } ∧
      (flags = flagReceiverToSender ∨
        flags = flagReceiverToSender ||| flagEos ∧ Finished packets conn) := by
  rw [markEos, hflags]
  split_ifs with heos
  · exact ⟨_, rfl, Or.inr ⟨rfl, h.finished hp hsize heos⟩⟩
  · exact ⟨conn.infoFlags, rfl, Or.inl hflags⟩

/-- A packet that is still missing shows that the end of the stream has not come. -/
theorem RxInv.not_finished (h : RxInv packets conn) (hp : PacketsOk packets) (hpkt : pkt ∈ packets)
    (hseq : conn.infoSeq.toNat ≤ pkt.seq.toNat) :
    conn.infoFlags = flagReceiverToSender ∧ conn.stillActive = true := by
  have hnot : ¬ Finished packets conn := by
    rintro ⟨heq, -⟩
    have hle := (hp.get_seq hpkt).2.2
    omega
  refine ⟨h.flags.resolve_right fun hfin => hnot hfin.2, ?_⟩
  by_contra hactive
  exact hnot (h.inactive (by simpa using hactive))

/-- The packet that was missing is put into the ring, and the tail moves. -/
theorem saveAtTail_spec (h : RxInv packets conn) (hp : PacketsOk packets)
    (hstop : conn.stopRequested = false) (hpkt : pkt ∈ packets)
    (hsize : conn.pktQSize < conn.pktQCapacity) (hseq : pkt.seq = conn.infoSeq) {saved : RxConn}
    (hsaved : conn.putPkt (slot conn.pktQCapacity pkt.seq.toNat) pkt = saved) :
    Handled packets conn saved.saveAtTail.1 (some saved.saveAtTail.2) ∧
      saved.saveAtTail.1.Stored pkt.seq.toNat ∧ saved.saveAtTail.1.extraSeq = conn.extraSeq ∧
      saved.saveAtTail.1.pBuff = conn.pBuff := by
  have hin := h.inside_seq hsize
  rw [← hseq] at hin
  obtain ⟨hflags, hactive⟩ := h.not_finished hp hpkt (hseq ▸ le_rfl)
  obtain ⟨hplaces, hring⟩ := h.save hp hpkt hin
  rw [hsaved] at hplaces hring
  have htail : (saved.pktQ saved.pktQTail).isSome := by
    rw [← hsaved]
    show (Function.update conn.pktQ _ (some pkt) conn.pktQTail).isSome
    rw [h.tail_eq, hseq, Function.update_self]
    rfl
  have hcap : saved.pktQCapacity - saved.pktQSize = conn.pktQCapacity - conn.pktQSize := by
    rw [← hsaved]
    rfl
  obtain ⟨size, tail, seq, hmove, hmoved, hnone, -, hlt⟩ :=
    moveTail_spec (n := saved.pktQCapacity - saved.pktQSize) hplaces hp.length_lt
      (Nat.add_sub_cancel' hplaces.size_le)
  have hless : conn.infoSeq.toNat < seq.toNat := by
    have hmore := hlt htail (by omega)
    rwa [← hsaved] at hmore
  rw [saveAtTail]
  dsimp only
  generalize saved.moveTail (saved.pktQCapacity - saved.pktQSize) = moved at hmove hmoved hnone ⊢
  have hmovedSize : 0 < moved.pktQSize := by
    have hseq' := hmoved.seq_eq
    have hbefore := h.seq_eq
    rw [hmove, ← hsaved] at hseq' ⊢
    dsimp only [putPkt] at hseq' ⊢
    omega
  obtain ⟨flags, hfinal, hflags'⟩ := markEos_spec hmoved hp hmovedSize (by
    rw [hmove, ← hsaved]
    exact hflags)
  rw [hfinal]
  subst hmove hsaved
  have hinv : RxInv packets { conn with
      pktQ := Function.update conn.pktQ (slot conn.pktQCapacity pkt.seq.toNat) (some pkt)
      pktQSize := size
      pktQTail := tail
      infoSeq := seq
      infoFlags := flags } := by
    refine ⟨hmoved.congr rfl rfl rfl rfl rfl rfl rfl, hnone, hflags', fun hact => ?_,
      fun p hp => ?_⟩
    · exact Bool.noConfusion (hactive.symm.trans hact)
    · have hmissing := h.missing
      rw [h.ring_seq hsize, h.tail_eq, ← hseq] at hmissing
      exact h.pBuff_put hmissing hp (some pkt)
  refine ⟨⟨hinv, ⟨fun i hi => ?_, le_rfl⟩, fun a ha => ?_, rfl, hstop⟩, Or.inl (hseq ▸ hless),
    rfl, rfl⟩
  · obtain hi | hi := hi
    · exact Or.inl (hi.trans hless)
    · refine Or.inr (?_ : (ring (conn.putPkt _ pkt) i).isSome)
      rw [hring]
      exact isSome_update (Or.inl hi)
  · obtain rfl := Option.some.inj ha
    exact ackSound_regular hinv.plainFlags rfl le_rfl fun i hi => hinv.stored_of_le hi

/-- The numbers in a disorder message are missing, in order, and those between them have arrived. -/
theorem lostSeqs_spec (conn : RxConn) {s t : ℕ} {tailSeq : UInt32} (hts : t ≤ s)
    (hs : Inside conn.pktQCapacity (conn.extraSeq.toNat + 1) s) (ht : conn.extraSeq.toNat < t)
    (hlt : s < 2 ^ 32) (htail : tailSeq.toNat = t) (fuel maxSeqs : ℕ) :
    (∀ lost ∈ conn.lostSeqs (slot conn.pktQCapacity s) fuel (slot conn.pktQCapacity t) tailSeq
        maxSeqs, t ≤ lost.toNat) ∧
    (conn.lostSeqs (slot conn.pktQCapacity s) fuel (slot conn.pktQCapacity t) tailSeq
      maxSeqs).Pairwise (· < ·) ∧
    ∀ i : UInt32, t ≤ i.toNat →
      i ∉ conn.lostSeqs (slot conn.pktQCapacity s) fuel (slot conn.pktQCapacity t) tailSeq maxSeqs →
      (∃ lost ∈ conn.lostSeqs (slot conn.pktQCapacity s) fuel (slot conn.pktQCapacity t) tailSeq
        maxSeqs, i < lost) → (conn.ring i.toNat).isSome := by
  induction fuel generalizing t tailSeq maxSeqs with
  | zero => simp [lostSeqs]
  | succ fuel ih =>
    cases maxSeqs with
    | zero => simp [lostSeqs]
    | succ maxSeqs =>
      rw [lostSeqs]
      split_ifs with hpos hnone
      · simp
      · have hne : t ≠ s := fun heq => hpos (by rw [heq])
        have hsucc : (tailSeq + 1).toNat = t + 1 := by
          rw [UInt32.toNat_add, htail]
          exact Nat.mod_eq_of_lt (by rw [UInt32.toNat_one]; omega)
        obtain ⟨hge, hsorted, hrest⟩ := ih (t := t + 1) (by omega) (by omega) hsucc maxSeqs
        rw [slot_succ (by omega)] at hge hsorted hrest
        refine ⟨?_, List.pairwise_cons.mpr ⟨?_, hsorted⟩, ?_⟩
        · intro lost hmem
          obtain rfl | hmem := List.mem_cons.mp hmem
          · exact htail.ge
          · have := hge lost hmem
            omega
        · intro lost hmem
          have := hge lost hmem
          rw [UInt32.lt_iff_toNat_lt]
          omega
        · rintro i hi hnot ⟨lost, hmem, hil⟩
          rw [List.mem_cons, not_or] at hnot
          have hit : i.toNat ≠ t := fun heq => hnot.1 (UInt32.toNat_inj.mp (heq.trans htail.symm))
          obtain rfl | hmem := List.mem_cons.mp hmem
          · rw [UInt32.lt_iff_toNat_lt] at hil
            omega
          · exact hrest i (by omega) hnot.2 ⟨lost, hmem, hil⟩
      · have hne : t ≠ s := fun heq => hpos (by rw [heq])
        have hsucc : (tailSeq + 1).toNat = t + 1 := by
          rw [UInt32.toNat_add, htail]
          exact Nat.mod_eq_of_lt (by rw [UInt32.toNat_one]; omega)
        obtain ⟨hge, hsorted, hrest⟩ := ih (t := t + 1) (by omega) (by omega) hsucc (maxSeqs + 1)
        rw [slot_succ (by omega)] at hge hsorted hrest
        refine ⟨fun lost hmem => (Nat.le_succ t).trans (hge lost hmem), hsorted, ?_⟩
        intro i hi hnot hex
        by_cases hit : i.toNat = t
        · have hin : Inside conn.pktQCapacity (conn.extraSeq.toNat + 1) t :=
            ⟨ht, by have := hs.2; omega⟩
          rw [hit, ring, window_of_inside hin]
          exact Option.isSome_iff_ne_none.mpr hnone
        · exact hrest i (by omega) hnot hex

/-- A disorder message is sound when the packet has been put into the ring. -/
theorem handleDisorderPacket_spec (h : RxInv packets conn)
    (hge : conn.infoSeq.toNat ≤ pkt.seq.toNat)
    (hin : Inside conn.pktQCapacity (conn.extraSeq.toNat + 1) pkt.seq.toNat)
    (hstored : conn.Stored pkt.seq.toNat) :
    AckSound conn
      (conn.handleDisorderPacket (slot conn.pktQCapacity pkt.seq.toNat) conn.infoSeq pkt) := by
  have hseq := h.seq_eq
  obtain ⟨-, hsorted, hlost⟩ := lostSeqs_spec conn hge hin (by omega) pkt.seq.toNat_lt rfl
    conn.pktQCapacity maxSeqsInDisorderAck
  rw [← h.tail_eq] at hsorted hlost
  refine ackSound_disorder h.plainFlags rfl hstored hsorted fun i hnot hex => ?_
  by_cases hi : conn.infoSeq.toNat ≤ i.toNat
  · exact Or.inr (hlost i hi hnot hex)
  · exact Or.inl (Nat.lt_of_not_le hi)

theorem savePkt_spec (h : RxInv packets conn) (hp : PacketsOk packets)
    (hstop : conn.stopRequested = false) (hpkt : pkt ∈ packets)
    (hge : conn.infoSeq.toNat ≤ pkt.seq.toNat) (hsize : conn.pktQSize < conn.pktQCapacity)
    (hwindow : pkt.seq.toNat ≤ conn.extraSeq.toNat + conn.pktQCapacity) :
    Handled packets conn (conn.savePkt pkt).1 (some (conn.savePkt pkt).2) ∧
      (conn.savePkt pkt).1.Stored pkt.seq.toNat ∧ (conn.savePkt pkt).1.extraSeq = conn.extraSeq ∧
      (conn.savePkt pkt).1.pBuff = conn.pBuff := by
  have hseq := h.seq_eq
  have hin : Inside conn.pktQCapacity (conn.extraSeq.toNat + 1) pkt.seq.toNat :=
    ⟨by omega, by omega⟩
  have hpos : (pkt.seq - 1).toNat % conn.pktQCapacity = slot conn.pktQCapacity pkt.seq.toNat := by
    rw [slot, UInt32.toNat_sub_of_le _ _
      (by rw [UInt32.le_iff_toNat_le]; exact (hp.get_seq hpkt).2.1)]
    rfl
  rw [savePkt, hpos]
  dsimp only
  cases hslot : conn.pktQ (slot conn.pktQCapacity pkt.seq.toNat) with
  | some p =>
    have hstored : conn.Stored pkt.seq.toNat := by
      refine Or.inr ?_
      rw [ring, window_of_inside hin, hslot]
      rfl
    refine ⟨⟨h, .refl conn, ?_, rfl, hstop⟩, hstored, rfl, rfl⟩
    intro a ha
    obtain rfl := Option.some.inj ha
    exact ackSound_duplicate h.plainFlags rfl hstored fun i hi => h.stored_of_le hi
  | none =>
    dsimp only
    split_ifs with htail
    · -- The place of the tail is that of the packet that is missing.
      have heq : pkt.seq.toNat = conn.infoSeq.toNat :=
        slot_inj (Nat.le_add_left 1 _) hin (h.inside_seq hsize) (htail.trans h.tail_eq)
      exact saveAtTail_spec h hp hstop hpkt hsize (UInt32.toNat_inj.mp heq) rfl
    · obtain ⟨hplaces, hring⟩ := h.save hp hpkt hin
      have hne : conn.infoSeq.toNat ≠ pkt.seq.toNat := fun heq =>
        htail (by rw [← heq]; exact h.tail_eq.symm)
      generalize hsaved : conn.putPkt (slot conn.pktQCapacity pkt.seq.toNat) pkt =
        saved at hplaces hring ⊢
      have hstored : ∀ i, conn.Stored i ∨ i = pkt.seq.toNat → saved.Stored i := by
        intro i hi
        rw [Stored, hring]
        obtain (hi | hi) | hi := hi
        · rw [← hsaved]
          exact Or.inl hi
        · exact Or.inr (isSome_update (Or.inl hi))
        · exact Or.inr (isSome_update (Or.inr hi))
      have hinv : RxInv packets saved := by
        refine ⟨hplaces, ?_, ?_, ?_, fun p hp => ?_⟩
        · rw [hring, ← hsaved]
          exact (Function.update_of_ne hne _ _).trans h.missing
        · rw [← hsaved]
          exact h.flags
        · rw [← hsaved]
          exact h.inactive
        · rw [← hsaved] at hp ⊢
          exact h.pBuff_put hslot hp (some pkt)
      have hinfo : conn.headSeq + UInt32.ofNat saved.pktQSize = saved.infoSeq := by
        rw [← hsaved]
        exact UInt32.sub_add_cancel conn.infoSeq (UInt32.ofNat conn.pktQSize)
      have hack : AckSound saved (saved.handleDisorderPacket (slot saved.pktQCapacity pkt.seq.toNat)
          saved.infoSeq pkt) := by
        refine handleDisorderPacket_spec hinv ?_ ?_ (hstored _ (Or.inr rfl))
        · rw [← hsaved]
          exact hge
        · rw [← hsaved]
          exact hin
      rw [hinfo]
      subst hsaved
      refine ⟨⟨hinv, ⟨fun i hi => hstored i (Or.inl hi), le_rfl⟩, ?_, rfl, hstop⟩,
        hstored _ (Or.inr rfl), rfl, rfl⟩
      intro a ha
      obtain rfl := Option.some.inj ha
      exact hack

theorem flags_plain (hp : PacketsOk packets) (hpkt : pkt ∈ packets) :
    pkt.has flagCapacity = false ∧ pkt.has flagStop = false := by
  obtain h | h := hp.flags pkt hpkt <;> rw [DataPkt.has, DataPkt.has, h] <;> exact ⟨rfl, rfl⟩

/-- A packet that is still missing, and that the sender had the capacity for, has its place. -/
theorem RxInv.not_queueFull (h : RxInv packets conn) (hge : conn.infoSeq.toNat ≤ pkt.seq.toNat)
    (hwindow : pkt.seq.toNat ≤ conn.extraSeq.toNat + conn.pktQCapacity) :
    conn.pktQSize < conn.pktQCapacity ∧ ¬ conn.queueFull pkt := by
  have hseq := h.seq_eq
  have hhead := h.headSeq_toNat
  have hsize : conn.pktQSize < conn.pktQCapacity := by omega
  refine ⟨hsize, ?_⟩
  rintro (hfull | hout)
  · omega
  · rw [UInt32.toNat_sub_of_le _ _ (by rw [UInt32.le_iff_toNat_le]; omega)] at hout
    omega

theorem handleDataPacket_spec (h : RxInv packets conn) (hp : PacketsOk packets)
    (hstop : conn.stopRequested = false) (hpkt : pkt ∈ packets)
    (hwindow : pkt.seq.toNat ≤ conn.extraSeq.toNat + conn.pktQCapacity) :
    Handled packets conn (conn.handleDataPacket pkt).1 (conn.handleDataPacket pkt).2 ∧
      (conn.handleDataPacket pkt).1.Stored pkt.seq.toNat ∧
      (conn.handleDataPacket pkt).1.extraSeq = conn.extraSeq ∧
      (conn.handleDataPacket pkt).1.pBuff = conn.pBuff := by
  obtain ⟨hcap, hnostop⟩ := flags_plain hp hpkt
  rw [handleDataPacket, if_neg (by simp [hcap]), if_neg (by simp [hnostop]),
    if_neg (by simp [hstop])]
  by_cases hold : pkt.seq < conn.infoSeq
  · rw [if_pos hold]
    refine ⟨⟨h, .refl conn, fun a ha => ?_, rfl, hstop⟩,
      Or.inl (UInt32.lt_iff_toNat_lt.mp hold), rfl, rfl⟩
    obtain rfl := Option.some.inj ha
    exact ackSound_regular h.plainFlags rfl le_rfl fun i hi => h.stored_of_le hi
  · have hge : conn.infoSeq.toNat ≤ pkt.seq.toNat := by
      rw [UInt32.lt_iff_toNat_lt] at hold
      omega
    obtain ⟨hsize, hnotFull⟩ := h.not_queueFull hge hwindow
    rw [if_neg hold, if_neg (by simp [(h.not_finished hp hpkt hge).2]), if_neg hnotFull]
    exact savePkt_spec h hp hstop hpkt hge hsize hwindow

theorem statusAck_spec (h : RxInv packets conn) (hstop : conn.stopRequested = false) :
    AckSound conn conn.statusAck := by
  have hpos : conn.infoSeq > 0 := by
    rw [gt_iff_lt, UInt32.lt_iff_toNat_lt]
    exact h.seq_pos
  rw [statusAck, if_pos hpos, if_neg (by simp [hstop])]
  exact ackSound_regular h.plainFlags (by rw [UInt32.or_comm flagAck]) le_rfl
    fun i hi => h.stored_of_le hi

/-! ## The main thread -/

theorem prepareRxConnForRead_spec (h : RxInv packets conn) :
    RxInv packets conn.prepareRxConnForRead :=
  ⟨h.congr rfl rfl rfl rfl rfl rfl rfl, h.missing, h.flags, h.inactive, fun _ hpkt => hpkt⟩

/-- The packet at the head is the next one. -/
theorem Places.head_packet (h : Places packets conn) (hhead : conn.pktQ conn.pktQHead = some pkt) :
    packets[conn.extraSeq.toNat]? = some pkt :=
  h.at_place _ pkt (h.ring_head.trans hhead)

/-- The packet at the head is behind nothing that is missing. -/
theorem RxInv.size_pos (h : RxInv packets conn) (hhead : (conn.pktQ conn.pktQHead).isSome) :
    0 < conn.pktQSize := by
  have hseq := h.seq_eq
  by_contra hzero
  have hmissing := h.missing
  rw [show conn.infoSeq.toNat = conn.extraSeq.toNat + 1 by omega, h.ring_head] at hmissing
  rw [hmissing] at hhead
  cases hhead

/-- The packet at the head is returned, and the window moves. -/
theorem putRxBufferAndSendAck_spec (h : RxInv packets conn) (hp : PacketsOk packets)
    (hstop : conn.stopRequested = false) (hhead : conn.pktQ conn.pktQHead = some pkt) :
    ∃ conn' ack, conn.putRxBufferAndSendAck = some (conn', ack) ∧
      Handled packets conn conn' ack ∧ conn'.extraSeq.toNat = conn.extraSeq.toNat + 1 ∧
      conn'.pBuff = none ∧ conn'.pktQSize = conn.pktQSize - 1 ∧ conn'.infoSeq = conn.infoSeq ∧
      conn'.stillActive = conn.stillActive := by
  have hseq := h.seq_eq
  have hsize := h.size_pos (by rw [hhead]; rfl)
  have hsize' := h.size_le
  have hpktSeq : pkt.seq.toNat = conn.extraSeq.toNat + 1 := hp.numbered _ pkt (h.head_packet hhead)
  rw [putRxBufferAndSendAck, hhead, Option.map_some]
  dsimp only
  obtain ⟨conn', hconn'⟩ : ∃ conn' : RxConn, { conn with
      pktQ := Function.update conn.pktQ conn.pktQHead none
      pBuff := none
      pktQHead := (conn.pktQHead + 1) % conn.pktQCapacity
      pktQSize := conn.pktQSize - 1
      extraSeq := pkt.seq } = conn' := ⟨_, rfl⟩
  have hring : conn'.ring = Function.update conn.ring (conn.extraSeq.toNat + 1) none := by
    rw [← hconn', ring, ring, hpktSeq, h.head_eq]
    exact window_release h.capacity_pos (Nat.le_add_left 1 _)
  have hplaces : Places packets conn' := by
    refine ⟨?_, ?_, ?_, ?_, ?_, ?_, ?_, ?_⟩
    · rw [← hconn']
      exact h.capacity_pos
    · rw [← hconn']
      dsimp only
      omega
    · rw [← hconn']
      dsimp only
      omega
    · rw [← hconn']
      dsimp only
      rw [hpktSeq, h.head_eq, slot_succ (Nat.le_add_left 1 _)]
    · rw [← hconn']
      exact h.tail_eq
    · intro i p hi
      rw [hring, Option.mem_def] at hi
      by_cases heq : i = conn.extraSeq.toNat + 1
      · rw [heq, Function.update_self] at hi
        cases hi
      · rw [Function.update_of_ne heq] at hi
        exact h.at_place i p hi
    · intro i hi hi'
      rw [← hconn'] at hi hi'
      dsimp only at hi hi'
      rw [hring, Function.update_of_ne (by omega)]
      exact h.filled i (by omega) hi'
    · rw [← hconn']
      exact h.seq_le
  have hgrows : Grows conn conn' := by
    refine ⟨fun i hi => ?_, ?_⟩
    · rw [Stored, hring]
      by_cases heq : i = conn.extraSeq.toNat + 1
      · rw [← hconn']
        exact Or.inl (by dsimp only; omega)
      · rw [Function.update_of_ne heq, ← hconn']
        exact hi
    · rw [← hconn']
      dsimp only
      omega
  have hinv : RxInv packets conn' := by
    refine ⟨hplaces, ?_, ?_, ?_, ?_⟩
    · rw [hring, ← hconn']
      dsimp only
      rw [Function.update_of_ne (by omega)]
      exact h.missing
    · rw [← hconn']
      exact h.flags
    · rw [← hconn']
      exact h.inactive
    · rw [← hconn']
      intro p hp
      cases hp
  refine ⟨conn', _, congrArg some (Prod.ext hconn' rfl), ⟨hinv, hgrows, fun a ha => ?_, ?_, ?_⟩,
    ?_, ?_, ?_, ?_, ?_⟩
  · split_ifs at ha
    · obtain rfl := Option.some.inj ha
      subst hconn'
      exact ackSound_regular hinv.plainFlags rfl le_rfl fun i hi => hinv.stored_of_le hi
    · cases ha
  all_goals rw [← hconn']
  · exact hstop
  · exact hpktSeq

theorem markInactive_spec (h : RxInv packets conn) (hfinished : Finished packets conn) :
    RxInv packets conn.markInactive :=
  ⟨h.congr rfl rfl rfl rfl rfl rfl rfl, h.missing, h.flags, fun _ => hfinished, h.pBuff⟩

theorem Grows.trans {conn₁ conn₂ conn₃ : RxConn} (h₁ : Grows conn₁ conn₂) (h₂ : Grows conn₂ conn₃) :
    Grows conn₁ conn₃ :=
  ⟨fun i hi => h₂.stored i (h₁.stored i hi), h₁.extraSeq.trans h₂.extraSeq⟩

/-- What is in the queue is returned, packet by packet. -/
theorem dropQueue_spec {size : ℕ} (h : RxInv packets conn) (hp : PacketsOk packets)
    (hstop : conn.stopRequested = false) (hsize : conn.pktQSize = size) :
    ∃ conn' acks, dropQueue size conn = some (conn', acks) ∧ RxInv packets conn' ∧
      Grows conn conn' ∧ (∀ a ∈ acks, AckSound conn' a) ∧
      conn'.pktQCapacity = conn.pktQCapacity ∧ conn'.stopRequested = false := by
  induction size generalizing conn with
  | zero => exact ⟨conn, [], rfl, h, .refl conn, by simp, rfl, hstop⟩
  | succ size ih =>
    have hseq := h.seq_eq
    have hhead : (conn.pktQ conn.pktQHead).isSome := by
      rw [← h.ring_head]
      exact h.filled _ (by omega) (by omega)
    obtain ⟨pkt, hpkt⟩ := Option.isSome_iff_exists.mp hhead
    obtain ⟨conn₁, ack, hput, hhandled, -, -, hsize₁, -, -⟩ :=
      putRxBufferAndSendAck_spec h hp hstop hpkt
    obtain ⟨conn', acks, hdrop, hinv, hgrows, hsound, hcap, hrun⟩ :=
      ih hhandled.inv hhandled.running (by omega)
    refine ⟨conn', ack.toList ++ acks, ?_, hinv, hhandled.grows.trans hgrows, ?_,
      hcap.trans hhandled.capacity, hrun⟩
    · rw [dropQueue, hput, Option.bind_some, hdrop]
      rfl
    · intro a ha
      obtain ha | ha := List.mem_append.mp ha
      · exact (hhandled.sound a (Option.mem_toList.mp ha)).mono hgrows
      · exact hsound a ha

/-- A stop is asked for, or everything has arrived and what is in the queue is returned. -/
theorem sendStopMessage_spec (h : RxInv packets conn) (hp : PacketsOk packets)
    (hstop : conn.stopRequested = false) (peerKnown : Bool) :
    ∃ conn' acks, conn.sendStopMessage peerKnown = some (conn', acks) ∧
      (conn'.stopRequested = false → RxInv packets conn' ∧ Grows conn conn' ∧
        (∀ a ∈ acks, AckSound conn' a) ∧ conn'.pktQCapacity = conn.pktQCapacity) := by
  rw [sendStopMessage]
  by_cases hactive : conn.stillActive
  · rw [if_pos hactive]
    by_cases heos : conn.infoFlags &&& flagEos ≠ 0
    · have hfinished : Finished packets conn := by
        refine (h.flags.resolve_left fun hflags => heos ?_).2
        rw [hflags]
        rfl
      obtain ⟨conn', acks, hdrop, hinv, hgrows, hsound, hcap, -⟩ :=
        dropQueue_spec (markInactive_spec h hfinished) hp hstop rfl
      rw [if_pos heos]
      exact ⟨conn', acks, hdrop, fun _ => ⟨hinv, ⟨hgrows.stored, hgrows.extraSeq⟩, hsound, hcap⟩⟩
    · rw [if_neg heos]
      exact ⟨_, _, rfl, fun hrun => Bool.noConfusion hrun⟩
  · rw [if_neg hactive]
    exact ⟨conn, [], rfl, fun _ => ⟨h, .refl conn, by simp, rfl⟩⟩

/-! ## The packets of the sender -/

theorem rxInv_setup {queueDepth : ℕ} (hdepth : 0 < queueDepth) : RxInv [] (setup queueDepth) := by
  have hring : ∀ i, (setup queueDepth).ring i = none := by
    intro i
    rw [ring, window]
    split_ifs <;> rfl
  refine ⟨⟨hdepth, rfl, Nat.zero_le _, (Nat.zero_mod _).symm, (Nat.zero_mod _).symm, ?_, ?_,
    le_rfl⟩, hring _, Or.inl rfl, ?_, ?_⟩
  · intro i pkt hi
    rw [hring] at hi
    cases hi
  · intro i hi hi'
    exact absurd hi' (Nat.not_lt.mpr hi)
  · intro hactive
    cases hactive
  · intro pkt hpkt
    cases hpkt

/-- One more packet is sent, when the end of the stream is not among the others. -/
theorem RxInv.more (h : RxInv packets conn) (heos : ∀ p ∈ packets, p.has flagEos = false)
    (pkt : DataPkt) : RxInv (packets ++ [pkt]) conn := by
  have hnot : ¬ Finished packets conn := by
    rintro ⟨-, p, hp, hp'⟩
    rw [heos p hp] at hp'
    cases hp'
  refine ⟨⟨h.capacity_pos, h.seq_eq, h.size_le, h.head_eq, h.tail_eq, ?_, h.filled, ?_⟩, h.missing,
    Or.inl (h.flags.resolve_right fun hflags => hnot hflags.2), fun hactive => ?_, h.pBuff⟩
  · intro i p hi
    have hplace := h.at_place i p hi
    rw [List.getElem?_append_left (List.getElem?_eq_some_iff.mp hplace).1]
    exact hplace
  · rw [List.length_append]
    exact h.seq_le.trans (by omega)
  · exact absurd (h.inactive hactive) hnot

end RxConn

end Hdb.Interconnect
