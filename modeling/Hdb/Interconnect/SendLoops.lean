import Hdb.Interconnect.SendInvariant

/-!
# The loops of the sender

Every loop of the sender ends, and keeps the invariant of the send buffers. A loop along a list is
at a place in it: `k (.unackQueue c) = xs ++ ys` with the link at the first item of `ys`. Its
induction is on `ys`, or on the fuel where a pass can also take a packet number.
-/

namespace Hdb.Interconnect

open LinkedLists

variable {n : ℕ} {F : Type} {st st' : SendState n F} {k : SendList n → List ℕ} {s : ℤ → List ℕ}
  {fill : Multiset ℕ} {c : Fin n} {b fuel : ℕ} {xs ys : List ℕ} {cfg : SendConfig}

/-- The lists hold all buffers but those of `fill`, and nothing is loose. -/
def Settled (st : SendState n F) (fill : Multiset ℕ) : Prop := ∃ k s, SendInv st k s fill none

/-- The current buffers and the activity of the connections stay as they are. -/
structure Kept (st st' : SendState n F) : Prop where
  curBuff : ∀ c, (st'.conns c).curBuff = (st.conns c).curBuff
  active : ∀ c, (st'.conns c).stillActive = (st.conns c).stillActive

theorem Kept.refl (st : SendState n F) : Kept st st := ⟨fun _ => rfl, fun _ => rfl⟩

theorem Kept.trans {st₁ st₂ st₃ : SendState n F} (h₁ : Kept st₁ st₂) (h₂ : Kept st₂ st₃) :
    Kept st₁ st₃ :=
  ⟨fun c => (h₂.curBuff c).trans (h₁.curBuff c), fun c => (h₂.active c).trans (h₁.active c)⟩

theorem Kept.of_conns (h : st'.conns = st.conns) : Kept st st' :=
  ⟨fun c => by rw [h], fun c => by rw [h]⟩

theorem Kept.of_update {conn : MotionConn} (h : st'.conns = Function.update st.conns c conn)
    (hcur : conn.curBuff = (st.conns c).curBuff)
    (hactive : conn.stillActive = (st.conns c).stillActive) : Kept st st' := by
  constructor <;> intro c' <;> rw [h] <;> by_cases hc : c' = c
  · rw [hc, Function.update_self, hcur]
  · rw [Function.update_of_ne hc]
  · rw [hc, Function.update_self, hactive]
  · rw [Function.update_of_ne hc]

theorem kept_setConn (st : SendState n F) (c : Fin n) (f : MotionConn → MotionConn)
    (hcur : (f (st.conns c)).curBuff = (st.conns c).curBuff)
    (hactive : (f (st.conns c)).stillActive = (st.conns c).stillActive) :
    Kept st (st.setConn c f) :=
  .of_update rfl hcur hactive

theorem Kept.filling_eq (h : Kept st st') : filling st'.conns = filling st.conns :=
  Finset.sum_congr rfl fun c _ => by rw [h.curBuff c]

/-! ## Returning buffers to the pool -/

/-- A buffer of an unack queue returns to the free list. -/
theorem SendInv.release (h : SendInv st k s fill none) (hk : k (.unackQueue c) = xs ++ b :: ys) :
    ∃ k' s', SendInv (leaveRing b ((st.lists.delete (.unackQueue c) b).length (.unackQueue c))
        { st with lists := st.lists.delete (.unackQueue c) b }) k' s' (b ::ₘ fill) none ∧
      Function.update k' .freeList (k' .freeList ++ [b]) (.unackQueue c) = xs ++ ys := by
  have hb : b ∈ unacked k c := by simp [unacked, hk]
  have hnodup := h.lists.nodup (.unackQueue c)
  have hbx : b ∉ xs := by
    rw [hk] at hnodup
    exact fun hmem => (List.nodup_append.mp hnodup).2.2 b hmem b (by simp) rfl
  obtain ⟨s', hs'⟩ := h.leave c hb
  refine ⟨_, s', hs', ?_⟩
  rw [Function.update_of_ne (by simp), Function.update_self, unacked, hk,
    List.erase_append_right _ hbx, List.erase_cons_head]

theorem freeList_not_unack (c : Fin n) : (.unackQueue c : SendList n) ≠ .freeList := by simp

theorem sndQueue_not_unack (c c' : Fin n) : (.unackQueue c' : SendList n) ≠ .sndQueue c := by simp

/-- A send queue returns to the pool as it is, an unack queue with its slots. -/
theorem icBufferListReturn_spec {l : SendList n} {inExpirationQueue : Bool}
    (h : SendInv st k s fill none) (hk : k l = xs) (hfuel : xs.length < fuel)
    (hl : l = .sndQueue c ∧ inExpirationQueue = false ∨
      l = .unackQueue c ∧ inExpirationQueue = true) :
    ∃ st', icBufferListReturn l inExpirationQueue fuel st = some st' ∧ Settled st' fill ∧
      st'.conns = st.conns := by
  induction xs generalizing st k s fuel with
  | nil =>
    obtain ⟨fuel, rfl⟩ := Nat.exists_eq_add_one_of_ne_zero (Nat.ne_zero_of_lt hfuel)
    exact ⟨st, by rw [icBufferListReturn, pop_nil h.lists hk], ⟨k, s, h⟩, rfl⟩
  | cons b xs ih =>
    obtain ⟨fuel, rfl⟩ := Nat.exists_eq_add_one_of_ne_zero (Nat.ne_zero_of_lt hfuel)
    have hfuel' : xs.length < fuel := by simpa using hfuel
    rw [icBufferListReturn, (pop_cons h.lists hk).1]
    obtain ⟨rfl, rfl⟩ | ⟨rfl, rfl⟩ := hl
    · have hb : b ∈ k (.sndQueue c) := by simp [hk]
      have hmove := (h.take (sndQueue_not_unack c) hb).give freeList_not_unack
      exact ih hmove (by simp [hk]) hfuel'
    · obtain ⟨k', s', hrelease, hk'⟩ := h.release (show k (.unackQueue c) = [] ++ b :: xs from hk)
      exact ih (hrelease.give freeList_not_unack) hk' hfuel'

/-! ## Buffers in the ring -/

theorem resendLost_spec (cfg : SendConfig) (h : SendInv st k s fill none) (hb : b ∈ unacked k c)
    (now : UInt64) :
    ∃ st' s', resendLost cfg b now st = some st' ∧ SendInv st' k s' fill none ∧ Kept st st' := by
  have h₁ : SendInv (st.setBuffer b fun buf => { buf with nRetry := buf.nRetry + 1 }) k s
      fill none :=
    h.setBuffer b fun _ => ⟨rfl, rfl⟩
  have hslot := (h₁.inSlot c b hb).resolve_left (by simp)
  obtain ⟨i, -, hput⟩ := (h₁.unslot hslot).put hb cfg
    (computeExpirationPeriod cfg (st.conns c)
      ((st.setBuffer b fun buf => { buf with nRetry := buf.nRetry + 1 }).buffers b).nRetry) now
  refine ⟨_, _, ?_, hput, .of_conns rfl⟩
  simp only [resendLost, h₁.conn c b hb]
  rfl

theorem expireSlot_spec (cfg : SendConfig) (h : SendInv st k s fill none)
    (hs : s st.ring.idx = xs) (hfuel : xs.length < fuel) (now : UInt64) (retransmits : ℕ) :
    ∃ st' retransmits', expireSlot cfg now fuel retransmits st = some (st', retransmits') ∧
      Settled st' fill ∧ Kept st st' := by
  induction xs generalizing st s fuel retransmits with
  | nil =>
    obtain ⟨fuel, rfl⟩ := Nat.exists_eq_add_one_of_ne_zero (Nat.ne_zero_of_lt hfuel)
    exact ⟨st, retransmits, by rw [expireSlot, pop_nil h.slots hs], ⟨k, s, h⟩, .refl st⟩
  | cons b xs ih =>
    obtain ⟨fuel, rfl⟩ := Nat.exists_eq_add_one_of_ne_zero (Nat.ne_zero_of_lt hfuel)
    have hb : b ∈ s st.ring.idx := by simp [hs]
    obtain ⟨c, hc⟩ := (h.slotOf _ b hb).2.2.2.2
    -- It goes to another slot, so the current one has only what is left.
    obtain ⟨st₁, hst₁⟩ : ∃ st₁ : SendState n F, SendState.setBuffer
        { st with ring := { st.ring with slots := st.ring.slots.delete st.ring.idx b } } b
        (fun buf => { buf with nRetry := buf.nRetry + 1 }) = st₁ := ⟨_, rfl⟩
    have h₁ : SendInv st₁ k (Function.update s st.ring.idx ((s st.ring.idx).erase b)) fill
        (some b) :=
      hst₁ ▸ (h.unslot hb).setBuffer b fun _ => ⟨rfl, rfl⟩
    have hidx : st₁.ring.idx = st.ring.idx := by rw [← hst₁]; rfl
    obtain ⟨i, hi, hput⟩ := h₁.put hc cfg
      (computeExpirationPeriod cfg (st₁.conns c) (st₁.buffers b).nRetry) now
    have hrest : Function.update (Function.update s st.ring.idx ((s st.ring.idx).erase b)) i
        (Function.update s st.ring.idx ((s st.ring.idx).erase b) i ++ [b]) st.ring.idx = xs := by
      rw [Function.update_of_ne (hidx ▸ hi.symm), Function.update_self, hs, List.erase_cons_head]
    obtain ⟨st', retransmits', hst', h', hkept'⟩ := ih hput
      (by rw [putIntoUnackQueueRing_idx, hidx, hrest]) (by simpa using hfuel) (retransmits + 1)
    refine ⟨st', retransmits', ?_, h', .trans (.of_conns ?_) hkept'⟩
    · rw [expireSlot, (pop_cons h.slots hs).1]
      simp only [hst₁, h₁.conn c b hc, Option.bind_some]
      exact hst'
    · rw [putIntoUnackQueueRing, ← hst₁]
      rfl

theorem expireLoop_spec (cfg : SendConfig) (h : Settled st fill) (now : UInt64)
    (turns retransmits : ℕ) :
    ∃ st' retransmits', expireLoop cfg now turns retransmits st = some (st', retransmits') ∧
      Settled st' fill ∧ Kept st st' := by
  induction turns generalizing st retransmits with
  | zero => exact ⟨st, retransmits, rfl, h, .refl st⟩
  | succ turns ih =>
    rw [expireLoop]
    split_ifs
    · obtain ⟨k, s, hinv⟩ := h
      obtain ⟨st₁, retransmits₁, hst₁, ⟨k₁, s₁, h₁⟩, hkept₁⟩ :=
        expireSlot_spec cfg hinv rfl (Nat.lt_add_one _) now retransmits
      have hnext : Settled { st₁ with ring := { st₁.ring with
          currentTime := st₁.ring.currentTime + timerSpan cfg
          idx := (st₁.ring.idx + 1) % 2000 } } fill :=
        ⟨k₁, s₁, h₁.congr rfl rfl rfl rfl (Nat.mod_lt _ (by omega))
          (fun _ _ _ => ⟨rfl, rfl⟩) h₁.all⟩
      obtain ⟨st', retransmits', hst', h', hkept'⟩ := ih hnext retransmits₁
      refine ⟨st', retransmits', ?_, h', hkept₁.trans ⟨hkept'.curBuff, hkept'.active⟩⟩
      rw [hinv.slots.length, Int.toNat_natCast, hst₁]
      exact hst'
    · exact ⟨st, retransmits, rfl, h, .refl st⟩

/-- The first buffer of a send queue goes to the unack queue and into the ring. -/
theorem sendBuffer_spec (cfg : SendConfig) (h : SendInv st k s fill none)
    (hk : k (.sndQueue c) = b :: xs) (now : UInt64) :
    ∃ k' s', SendInv (sendBuffer cfg now c b { st with lists := st.lists.delete (.sndQueue c) b })
        k' s' fill none ∧ k' (.sndQueue c) = xs ∧
      Kept st (sendBuffer cfg now c b { st with lists := st.lists.delete (.sndQueue c) b }) := by
  have hb : b ∈ k (.sndQueue c) := by simp [hk]
  have h₁ := (h.take (sndQueue_not_unack c) hb).setFilling fun buf =>
    { buf with sentTime := now, unackQueueRingSlot := -1, nRetry := 0, conn := some c }
  have h₂ := (h₁.setConn c fun conn => { conn with capacity := conn.capacity - 1 }).enter c
    (by simp [SendState.setConn])
  obtain ⟨i, -, hput⟩ := h₂.put (show b ∈ unacked _ c by simp [unacked]) cfg
    (computeExpirationPeriod cfg
      (Function.update st.conns c { st.conns c with capacity := (st.conns c).capacity - 1 } c) 0)
      now
  refine ⟨_, _, hput.congr rfl rfl rfl rfl hput.idx (fun _ _ _ => ⟨rfl, rfl⟩) hput.all,
    by simp [hk], ?_⟩
  exact .trans (kept_setConn st c (fun conn => { conn with capacity := conn.capacity - 1 }) rfl rfl)
    (.of_update rfl rfl rfl)

/-! ## Acknowledgements -/

theorem unackLength_eq (h : SendInv st k s fill none) (c : Fin n) :
    unackLength c st = (k (.unackQueue c)).length := by
  rw [unackLength, h.lists.length]
  exact Int.toNat_natCast _

variable [WindowSize F]

theorem SendInv.updateWindow (h : SendInv st k s fill none) (c : Fin n) (ackTime : UInt64) :
    SendInv (updateWindow c ackTime st) k s fill none :=
  h.congr rfl rfl rfl rfl h.idx (fun _ _ _ => ⟨rfl, rfl⟩) h.all

theorem kept_updateWindow (st : SendState n F) (c : Fin n) (ackTime : UInt64) :
    Kept st (updateWindow c ackTime st) :=
  .of_update rfl rfl rfl

theorem handleAckedPacket_spec (h : SendInv st k s fill none)
    (hk : k (.unackQueue c) = xs ++ b :: ys) (now : UInt64) :
    ∃ st' k' s', handleAckedPacket c b now st = some st' ∧ SendInv st' k' s' fill none ∧
      k' (.unackQueue c) = xs ++ ys ∧ Kept st st' := by
  have hconn : (st.buffers b).conn = some c := h.conn c b (by simp [unacked, hk])
  obtain ⟨k', s', hrelease, hk'⟩ := h.release hk
  simp only [handleAckedPacket]
  generalize hst₁ : leaveRing b ((st.lists.delete (.unackQueue c) b).length (.unackQueue c))
    { st with lists := st.lists.delete (.unackQueue c) b } = st₁ at hrelease ⊢
  have hkept₁ : Kept st st₁ := .of_conns (by rw [← hst₁]; rfl)
  have hconn₁ : (st₁.buffers b).conn = some c := by
    rw [← hst₁]
    exact hconn
  rw [hconn₁, Option.map_some]
  -- The window is left alone when the packet was sent again.
  generalize hst₂ : (if (st₁.buffers b).nRetry = 0 then
    updateWindow c (now - (st₁.buffers b).sentTime) st₁ else st₁) = st₂
  obtain ⟨hinv₂, hkept₂⟩ : SendInv st₂ k' s' (b ::ₘ fill) none ∧ Kept st₁ st₂ := by
    rw [← hst₂]
    split_ifs
    · exact ⟨hrelease.updateWindow _ _, kept_updateWindow st₁ _ _⟩
    · exact ⟨hrelease, .refl st₁⟩
  exact ⟨_, _, s', rfl, (hinv₂.setConn _ _).give freeList_not_unack, hk',
    hkept₁.trans (hkept₂.trans (.of_update rfl rfl rfl))⟩

/-- The loop stops at a place in the unack queue. -/
theorem ackLoop_spec (h : SendInv st k s fill none) (hk : k (.unackQueue c) = xs ++ ys)
    (hfuel : ys.length < fuel) (now : UInt64) (bound : UInt32) (acked : Bool) :
    ∃ st' k' s' xs' ys' acked', ackLoop c now bound fuel (addr (.unackQueue c) ys) acked st =
        some (st', addr (.unackQueue c) ys', acked') ∧
      SendInv st' k' s' fill none ∧ k' (.unackQueue c) = xs' ++ ys' ∧ Kept st st' := by
  induction ys generalizing st k s fuel acked with
  | nil =>
    obtain ⟨fuel, rfl⟩ := Nat.exists_eq_add_one_of_ne_zero (Nat.ne_zero_of_lt hfuel)
    exact ⟨st, k, s, xs, [], acked, by simp [ackLoop, addr], h, hk, .refl st⟩
  | cons b ys ih =>
    obtain ⟨fuel, rfl⟩ := Nat.exists_eq_add_one_of_ne_zero (Nat.ne_zero_of_lt hfuel)
    rw [addr, ackLoop]
    split_ifs with hseq
    · obtain ⟨st₁, k₁, s₁, hst₁, h₁, hk₁, hkept₁⟩ := handleAckedPacket_spec h hk now
      obtain ⟨st', k', s', xs', ys', acked', hst', h', hk', hkept'⟩ :=
        ih h₁ hk₁ (by simpa using hfuel) true
      refine ⟨st', k', s', xs', ys', acked', ?_, h', hk', hkept₁.trans hkept'⟩
      rw [hst₁, next_eq h.lists hk]
      exact hst'
    · exact ⟨st, k, s, xs, b :: ys, acked, rfl, h, hk, .refl st⟩

theorem duplicateLoop_spec (h : SendInv st k s fill none) (hk : k (.unackQueue c) = xs ++ ys)
    (hfuel : ys.length < fuel) (now : UInt64) (seq : UInt32) (acked : Bool) :
    ∃ st' acked', duplicateLoop c now seq fuel (addr (.unackQueue c) ys) acked st =
        some (st', acked') ∧ Settled st' fill ∧ Kept st st' := by
  induction ys generalizing xs fuel acked with
  | nil =>
    obtain ⟨fuel, rfl⟩ := Nat.exists_eq_add_one_of_ne_zero (Nat.ne_zero_of_lt hfuel)
    exact ⟨st, acked, by simp [duplicateLoop, addr], ⟨k, s, h⟩, .refl st⟩
  | cons b ys ih =>
    obtain ⟨fuel, rfl⟩ := Nat.exists_eq_add_one_of_ne_zero (Nat.ne_zero_of_lt hfuel)
    rw [addr, duplicateLoop]
    split_ifs
    · obtain ⟨st₁, k₁, s₁, hst₁, h₁, -, hkept₁⟩ := handleAckedPacket_spec h hk now
      exact ⟨st₁, true, by rw [hst₁]; rfl, ⟨k₁, s₁, h₁⟩, hkept₁⟩
    · rw [next_eq h.lists hk]
      exact ih (show k (.unackQueue c) = (xs ++ [b]) ++ ys by simp [hk])
        (by simpa using hfuel) acked
    · exact ⟨st, acked, rfl, ⟨k, s, h⟩, .refl st⟩

theorem handleAckForDuplicatePkt_spec (h : Settled st fill) (pkt : AckPkt n) :
    ∃ st' acked, handleAckForDuplicatePkt pkt st = some (st', acked) ∧ Settled st' fill ∧
      Kept st st' := by
  obtain ⟨k, s, hinv⟩ := h
  rw [handleAckForDuplicatePkt]
  split_ifs
  · exact ⟨st, false, rfl, ⟨k, s, hinv⟩, .refl st⟩
  · obtain ⟨st₁, k₁, s₁, xs, ys, acked, hst₁, h₁, hk₁, hkept₁⟩ :=
      ackLoop_spec hinv (List.nil_append _).symm (Nat.lt_add_one _) pkt.now pkt.extraSeq false
    have hlen : ys.length < unackLength pkt.conn st₁ + 1 := by
      rw [unackLength_eq h₁, hk₁, List.length_append]
      omega
    obtain ⟨st', acked', hst', h', hkept'⟩ :=
      duplicateLoop_spec h₁ hk₁ hlen pkt.now pkt.seq acked
    refine ⟨st', acked', ?_, h', hkept₁.trans hkept'⟩
    simp only [first_eq hinv.lists, unackLength_eq hinv, hst₁]
    exact hst'

theorem disorderLoop_spec (cfg : SendConfig) {pkt : AckPkt n} (losts : List UInt32)
    (h : SendInv st k s fill none) (hk : k (.unackQueue pkt.conn) = xs ++ ys)
    (hfuel : ys.length + losts.length < fuel) (acked : Bool) :
    ∃ st' acked', disorderLoop cfg pkt fuel (addr (.unackQueue pkt.conn) ys) losts acked st =
        some (st', acked') ∧ Settled st' fill ∧ Kept st st' := by
  induction fuel generalizing st k s xs ys losts acked with
  | zero => exact absurd hfuel (Nat.not_lt_zero _)
  | succ fuel ih =>
    cases ys with
    | nil => exact ⟨st, acked, by simp [disorderLoop, addr], ⟨k, s, h⟩, .refl st⟩
    | cons b ys =>
      have hb : b ∈ unacked k pkt.conn := by simp [unacked, hk]
      cases losts with
      | nil => exact ⟨st, acked, by simp [disorderLoop, addr], ⟨k, s, h⟩, .refl st⟩
      | cons lost losts =>
        rw [List.length_cons, List.length_cons] at hfuel
        rw [addr, disorderLoop]
        simp only [next_eq h.lists hk]
        obtain ⟨st₁, k₁, s₁, hst₁, h₁, hk₁, hkept₁⟩ := handleAckedPacket_spec h hk pkt.now
        split_ifs
        · exact ⟨st₁, true, by rw [hst₁]; rfl, ⟨k₁, s₁, h₁⟩, hkept₁⟩
        · obtain ⟨st₂, s₂, hst₂, h₂, hkept₂⟩ := resendLost_spec cfg h hb pkt.now
          obtain ⟨st', acked', hst', h', hkept'⟩ :=
            ih losts h₂ (show k (.unackQueue pkt.conn) = (xs ++ [b]) ++ ys by simp [hk])
              (by omega) acked
          exact ⟨st', acked', by rw [hst₂]; exact hst', h', hkept₂.trans hkept'⟩
        · obtain ⟨st', acked', hst', h', hkept'⟩ :=
            ih (lost :: losts) h₁ hk₁ (by rw [List.length_cons]; omega) true
          exact ⟨st', acked', by rw [hst₁]; exact hst', h', hkept₁.trans hkept'⟩
        · exact ih losts h hk (by rw [List.length_cons]; omega) acked
        · exact ⟨st, acked, rfl, ⟨k, s, h⟩, .refl st⟩

theorem handleAckForDisorderPkt_spec (cfg : SendConfig) (h : Settled st fill) (pkt : AckPkt n) :
    ∃ st' acked, handleAckForDisorderPkt cfg pkt st = some (st', acked) ∧ Settled st' fill ∧
      Kept st st' := by
  obtain ⟨k, s, hinv⟩ := h
  have hset : ∀ times lastSeq, SendInv { st with times, lastSeq } k s fill none := fun _ _ =>
    hinv.congr rfl rfl rfl rfl hinv.idx (fun _ _ _ => ⟨rfl, rfl⟩) hinv.all
  rw [handleAckForDisorderPkt]
  dsimp only
  split_ifs
  · exact ⟨_, false, rfl, ⟨k, s, hset _ _⟩, .of_conns rfl⟩
  · exact ⟨_, false, rfl, ⟨k, s, hset _ _⟩, .of_conns rfl⟩
  · have h₁ := hset (st.times + 1) st.lastSeq
    obtain ⟨st', acked, hst', ⟨k', s', h'⟩, hkept⟩ :=
      disorderLoop_spec cfg pkt.lostSeqs h₁ (List.nil_append (k (.unackQueue pkt.conn))).symm
        (Nat.lt_add_one _) false
    simp only [first_eq hinv.lists, unackLength_eq h₁, hst', Option.map_some]
    exact ⟨_, acked, rfl,
      ⟨k', s', h'.congr rfl rfl rfl rfl h'.idx (fun _ _ _ => ⟨rfl, rfl⟩) h'.all⟩,
      hkept.curBuff, hkept.active⟩

theorem handleRegularAck_spec (h : Settled st fill) (pkt : AckPkt n) (send stop : Bool) :
    ∃ st' send' stop', handleRegularAck pkt send stop st = some (st', send', stop') ∧
      Settled st' fill ∧ Kept st st' := by
  obtain ⟨k, s, hinv⟩ := h
  rw [handleRegularAck]
  dsimp only
  by_cases hold : pkt.seq < (st.conns pkt.conn).receivedAckSeq
  · exact ⟨st, send, stop, if_pos hold, ⟨k, s, hinv⟩, .refl st⟩
  rw [if_neg hold]
  generalize hstop : (pkt.has flagStop && !(st.conns pkt.conn).stopRequested &&
    (st.conns pkt.conn).stillActive) = stopNow
  generalize hst₁ : (if stopNow = true then
    st.setConn pkt.conn fun conn => { conn with stopRequested := true } else st) = st₁
  obtain ⟨h₁, hkept₁⟩ : SendInv st₁ k s fill none ∧ Kept st st₁ := by
    rw [← hst₁]
    split_ifs
    · exact ⟨hinv.setConn _ _, kept_setConn st _ _ rfl rfl⟩
    · exact ⟨hinv, .refl st⟩
  split_ifs
  · exact ⟨st₁, send, _, rfl, ⟨k, s, h₁⟩, hkept₁⟩
  · obtain ⟨st', k', s', xs, ys, acked, hst', h', -, hkept⟩ :=
      ackLoop_spec h₁ (List.nil_append (k (.unackQueue pkt.conn))).symm (Nat.lt_add_one _) pkt.now
        pkt.seq false
    refine ⟨st', send || acked, stop || stopNow, ?_, ⟨k', s', h'⟩, hkept₁.trans hkept⟩
    simp only [first_eq h₁.lists, unackLength_eq h₁, hst', Option.map_some]
  · exact ⟨st₁, send, _, rfl, ⟨k, s, h₁⟩, hkept₁⟩

theorem handleAckKind_spec (cfg : SendConfig) (h : Settled st fill) (pkt : AckPkt n)
    (send stop : Bool) :
    ∃ st' send' stop', handleAckKind cfg pkt send stop st = some (st', send', stop') ∧
      Settled st' fill ∧ Kept st st' := by
  rw [handleAckKind]
  split_ifs
  · obtain ⟨k, s, hinv⟩ := h
    obtain ⟨st', send', stop', hst', h', hkept⟩ :=
      handleRegularAck_spec ⟨k, s, hinv.setConn pkt.conn (addCapacity pkt)⟩ pkt true stop
    exact ⟨st', send', stop', hst', h', (kept_setConn st _ _ rfl rfl).trans hkept⟩
  · exact handleRegularAck_spec h pkt send stop
  · obtain ⟨st', acked, hst', h', hkept⟩ := handleAckForDuplicatePkt_spec h pkt
    exact ⟨st', _, stop, by rw [hst']; rfl, h', hkept⟩
  · obtain ⟨st', acked, hst', h', hkept⟩ := handleAckForDisorderPkt_spec cfg h pkt
    exact ⟨st', _, stop, by rw [hst']; rfl, h', hkept⟩
  · exact handleRegularAck_spec h pkt send stop

/-! ## Sending -/

theorem sendLoop_spec (cfg : SendConfig) (h : SendInv st k s fill none)
    (hk : k (.sndQueue c) = xs) (hfuel : xs.length < fuel) (clock : ℕ → UInt64) :
    ∃ st', sendLoop cfg c fuel clock st = some st' ∧ Settled st' fill ∧ Kept st st' := by
  induction xs generalizing st k s fuel clock with
  | nil =>
    obtain ⟨fuel, rfl⟩ := Nat.exists_eq_add_one_of_ne_zero (Nat.ne_zero_of_lt hfuel)
    refine ⟨st, ?_, ⟨k, s, h⟩, .refl st⟩
    rw [sendLoop, if_neg (by simp [h.lists.length, hk])]
  | cons b xs ih =>
    obtain ⟨fuel, rfl⟩ := Nat.exists_eq_add_one_of_ne_zero (Nat.ne_zero_of_lt hfuel)
    have hstop : ∃ st', some st = some st' ∧ Settled st' fill ∧ Kept st st' :=
      ⟨st, rfl, ⟨k, s, h⟩, .refl st⟩
    rw [sendLoop, (pop_cons h.lists hk).1]
    split_ifs
    · exact hstop
    · exact hstop
    · obtain ⟨k₁, s₁, h₁, hk₁, hkept₁⟩ := sendBuffer_spec cfg h hk (clock 0)
      obtain ⟨st', hst', h', hkept'⟩ := ih h₁ hk₁ (by simpa using hfuel) fun i => clock (i + 1)
      exact ⟨st', hst', h', hkept₁.trans hkept'⟩
    · exact hstop

theorem sendBuffers_spec (cfg : SendConfig) (h : Settled st fill) (c : Fin n)
    (clock : ℕ → UInt64) :
    ∃ st', sendBuffers cfg c clock st = some st' ∧ Settled st' fill ∧ Kept st st' := by
  obtain ⟨k, s, hinv⟩ := h
  rw [sendBuffers]
  split_ifs
  · exact sendLoop_spec cfg hinv rfl (by simp [hinv.lists.length]) clock
  · exact ⟨st, rfl, ⟨k, s, hinv⟩, .refl st⟩

theorem handleAcks_spec (cfg : SendConfig) (h : Settled st fill) (pkts : List (AckPkt n))
    (send stop : Bool) :
    ∃ st' stop', handleAcks cfg pkts send stop st = some (st', stop') ∧ Settled st' fill ∧
      Kept st st' := by
  induction pkts generalizing st send stop with
  | nil => exact ⟨st, stop, rfl, h, .refl st⟩
  | cons pkt pkts ih =>
    rw [handleAcks]
    split_ifs
    · exact ih h send stop
    · obtain ⟨st₁, send₁, stop₁, hst₁, h₁, hkept₁⟩ := handleAckKind_spec cfg h pkt send stop
      obtain ⟨st₂, hst₂, h₂, hkept₂⟩ : ∃ st₂, (if send₁ then sendBuffers cfg pkt.conn pkt.clock st₁
          else some st₁) = some st₂ ∧ Settled st₂ fill ∧ Kept st₁ st₂ := by
        split_ifs
        · exact sendBuffers_spec cfg h₁ pkt.conn pkt.clock
        · exact ⟨st₁, rfl, h₁, .refl st₁⟩
      obtain ⟨st', stop', hst', h', hkept'⟩ := ih h₂ send₁ stop₁
      refine ⟨st', stop', ?_, h', hkept₁.trans (hkept₂.trans hkept')⟩
      rw [hst₁, Option.bind_some, hst₂]
      exact hst'

/-! ## Expiration -/

theorem checkExpiration_spec (cfg : SendConfig) (h : Settled st fill) (now : UInt64) :
    ∃ st', checkExpiration cfg now st = some st' ∧ Settled st' fill ∧ Kept st st' := by
  obtain ⟨st₁, retransmits, hst₁, ⟨k, s, h₁⟩, hkept⟩ := expireLoop_spec cfg h now 2000 0
  rw [checkExpiration, hst₁, Option.map_some]
  refine ⟨_, rfl, ⟨k, s, ?_⟩, hkept.trans (.of_conns ?_)⟩
  · split_ifs
    · exact h₁.congr rfl rfl rfl rfl h₁.idx (fun _ _ _ => ⟨rfl, rfl⟩) h₁.all
    · exact h₁.congr rfl rfl rfl rfl h₁.idx (fun _ _ _ => ⟨rfl, rfl⟩) h₁.all
  · split_ifs <;> rfl

end Hdb.Interconnect
