import Hdb.Interconnect.ReceiverSteps
import Hdb.Interconnect.SendAccounting

/-!
# A connection from end to end

`Linked depth peers st k c` connects the two ends of a connection: the packets that the sender was
given are numbered through, the first of them have been sent, the others are in the send queue, in
order. Every packet that was sent is in the unack queue or has arrived, and the capacity is what is
left of the queue of the receiver when everything that was sent and not consumed is in it.

It does not speak of a connection that the receiver wants to stop. Each call of the sender is a
sequence of moves of buffers and keeps it.
-/

namespace Hdb.Interconnect

open LinkedLists

/-- What is at the other end, what the sender was given for it, what is in the send buffers, and
which packets the network has seen. -/
structure Peers (n : ℕ) where
  packets : Fin n → List DataPkt
  payload : ℕ → DataPkt
  wire : Fin n → List DataPkt
  rx : Fin n → RxConn

variable {n : ℕ} {F : Type} {depth : ℕ} {peers : Peers n} {st st' : SendState n F}
  {k k' : SendList n → List ℕ} {s : ℤ → List ℕ} {fill : Multiset ℕ} {c : Fin n} {b fuel : ℕ}
  {xs ys : List ℕ} {cfg : SendConfig}

structure Linked (depth : ℕ) (peers : Peers n) (st : SendState n F) (k : SendList n → List ℕ)
    (c : Fin n) : Prop where
  packets : PacketsOk (peers.packets c)
  rx : (peers.rx c).RxInv ((peers.packets c).take (st.conns c).sentSeq.toNat)
  rxCapacity : (peers.rx c).pktQCapacity = depth
  wire : ∀ pkt ∈ peers.wire c, pkt ∈ (peers.packets c).take (st.conns c).sentSeq.toNat
  running : (st.conns c).stopRequested = false
  infoSeq : (st.conns c).infoSeq.toNat = (peers.packets c).length + 1
  sent_le : (st.conns c).sentSeq.toNat ≤ (peers.packets c).length
  queued : (k (.sndQueue c)).map (fun b => (st.buffers b).seq.toNat) =
    List.range' ((st.conns c).sentSeq.toNat + 1)
      ((peers.packets c).length - (st.conns c).sentSeq.toNat)
  content : ∀ b, b ∈ k (.sndQueue c) ∨ b ∈ unacked k c →
    peers.payload b ∈ peers.packets c ∧ (peers.payload b).seq = (st.buffers b).seq
  sorted : (unacked k c).Pairwise fun b b' => (st.buffers b).seq < (st.buffers b').seq
  unacked_le : ∀ b ∈ unacked k c, (st.buffers b).seq ≤ (st.conns c).sentSeq
  kept : ∀ i ≤ (st.conns c).sentSeq.toNat,
    (∃ b ∈ unacked k c, (st.buffers b).seq.toNat = i) ∨ (peers.rx c).Stored i
  credit : (st.conns c).capacity + (st.conns c).sentSeq.toNat =
    (st.conns c).consumedSeq.toNat + depth
  capacity_nonneg : 0 ≤ (st.conns c).capacity
  consumed : (st.conns c).consumedSeq.toNat ≤ (peers.rx c).extraSeq.toNat

/-- Every connection that the receiver does not want to stop is linked. -/
def Fits (depth : ℕ) (peers : Peers n) (st : SendState n F) (k : SendList n → List ℕ) : Prop :=
  ∀ c, (peers.rx c).stopRequested = false → Linked depth peers st k c

def Matched (depth : ℕ) (peers : Peers n) (st : SendState n F) (fill : Multiset ℕ) : Prop :=
  ∃ k s, SendInv st k s fill none ∧ Fits depth peers st k

/-! ## What does not change -/

/-- The numbers, the capacity and the stop of a connection. -/
structure SameLink (conn conn' : MotionConn) : Prop where
  capacity : conn'.capacity = conn.capacity
  sentSeq : conn'.sentSeq = conn.sentSeq
  consumedSeq : conn'.consumedSeq = conn.consumedSeq
  infoSeq : conn'.infoSeq = conn.infoSeq
  stopRequested : conn'.stopRequested = conn.stopRequested

/-- The calls that move no packet keep the numbers of the packets and of the connections. -/
structure Same (st st' : SendState n F) : Prop where
  seq : ∀ b, (st'.buffers b).seq = (st.buffers b).seq
  conns : ∀ c, SameLink (st.conns c) (st'.conns c)

theorem SameLink.refl (conn : MotionConn) : SameLink conn conn := ⟨rfl, rfl, rfl, rfl, rfl⟩

theorem Same.refl (st : SendState n F) : Same st st := ⟨fun _ => rfl, fun _ => .refl _⟩

theorem Same.trans {st₁ st₂ st₃ : SendState n F} (h₁ : Same st₁ st₂) (h₂ : Same st₂ st₃) :
    Same st₁ st₃ where
  seq b := (h₂.seq b).trans (h₁.seq b)
  conns c :=
    ⟨(h₂.conns c).capacity.trans (h₁.conns c).capacity,
      (h₂.conns c).sentSeq.trans (h₁.conns c).sentSeq,
      (h₂.conns c).consumedSeq.trans (h₁.conns c).consumedSeq,
      (h₂.conns c).infoSeq.trans (h₁.conns c).infoSeq,
      (h₂.conns c).stopRequested.trans (h₁.conns c).stopRequested⟩

theorem same_of_eq (hseq : ∀ b, (st'.buffers b).seq = (st.buffers b).seq)
    (hconns : st'.conns = st.conns) : Same st st' :=
  ⟨hseq, fun c => by rw [hconns]; exact .refl _⟩

theorem Same.of_update {conn : MotionConn} (hseq : ∀ b, (st'.buffers b).seq = (st.buffers b).seq)
    (hconns : st'.conns = Function.update st.conns c conn) (hconn : SameLink (st.conns c) conn) :
    Same st st' := by
  refine ⟨hseq, fun c' => ?_⟩
  rw [hconns]
  by_cases hc : c' = c
  · rw [hc, Function.update_self]
    exact hconn
  · rw [Function.update_of_ne hc]
    exact .refl _

theorem same_setBuffer (st : SendState n F) (b : ℕ) (f : ICBuffer n → ICBuffer n)
    (hf : (f (st.buffers b)).seq = (st.buffers b).seq) : Same st (st.setBuffer b f) := by
  refine same_of_eq (fun b' => ?_) rfl
  rw [SendState.setBuffer_buffers]
  by_cases hb : b' = b
  · rw [hb, Function.update_self]
    exact hf
  · rw [Function.update_of_ne hb]

/-- A connection does not depend on the buffers of the others. -/
theorem Linked.congr {peers' : Peers n} (h : Linked depth peers st k c)
    (hpackets : peers'.packets c = peers.packets c) (hwire : peers'.wire c = peers.wire c)
    (hrx : peers'.rx c = peers.rx c)
    (hconn : SameLink (st.conns c) (st'.conns c)) (hsnd : k' (.sndQueue c) = k (.sndQueue c))
    (hunacked : unacked k' c = unacked k c)
    (hbuf : ∀ b, b ∈ k (.sndQueue c) ∨ b ∈ unacked k c →
      (st'.buffers b).seq = (st.buffers b).seq ∧ peers'.payload b = peers.payload b) :
    Linked depth peers' st' k' c := by
  obtain ⟨hcap, hsent, hcons, hinfo, hstop⟩ := hconn
  refine ⟨hpackets ▸ h.packets, ?_, ?_, ?_, hstop.trans h.running, ?_, ?_, ?_, ?_, ?_, ?_,
    ?_, ?_, ?_, ?_⟩
  · rw [hrx, hpackets, hsent]
    exact h.rx
  · rw [hrx]
    exact h.rxCapacity
  · rw [hwire, hpackets, hsent]
    exact h.wire
  · rw [hinfo, hpackets]
    exact h.infoSeq
  · rw [hsent, hpackets]
    exact h.sent_le
  · rw [hsent, hpackets, hsnd, ← h.queued]
    exact List.map_congr_left fun b hb => congrArg UInt32.toNat (hbuf b (Or.inl hb)).1
  · rw [hsnd, hunacked, hpackets]
    intro b hb
    rw [(hbuf b hb).1, (hbuf b hb).2]
    exact h.content b hb
  · rw [hunacked]
    refine h.sorted.imp_of_mem fun {b b'} hb hb' hlt => ?_
    rw [(hbuf b (Or.inr hb)).1, (hbuf b' (Or.inr hb')).1]
    exact hlt
  · rw [hunacked, hsent]
    intro b hb
    rw [(hbuf b (Or.inr hb)).1]
    exact h.unacked_le b hb
  · rw [hunacked, hsent, hrx]
    intro i hi
    refine (h.kept i hi).imp_left fun ⟨b, hb, hbi⟩ => ⟨b, hb, ?_⟩
    rw [(hbuf b (Or.inr hb)).1, hbi]
  · rw [hcap, hsent, hcons]
    exact h.credit
  · rw [hcap]
    exact h.capacity_nonneg
  · rw [hcons, hrx]
    exact h.consumed

/-! ## Buffers that are acknowledged -/

variable {R : UInt32 → Prop}

/-- Packets of `c` with a number in `R` have gone from the unack queue to the free list. -/
structure Acked (c : Fin n) (R : UInt32 → Prop) (st : SendState n F) (k k' : SendList n → List ℕ) :
    Prop where
  sublist : (unacked k' c).Sublist (unacked k c)
  acked : ∀ b ∈ unacked k c, b ∈ unacked k' c ∨ R (st.buffers b).seq
  other : ∀ l, l ≠ .unackQueue c → l ≠ .freeList → k' l = k l

theorem Acked.refl (c : Fin n) (R : UInt32 → Prop) (st : SendState n F) (k : SendList n → List ℕ) :
    Acked c R st k k :=
  ⟨List.Sublist.refl _, fun _ hb => Or.inl hb, fun _ _ _ => rfl⟩

theorem Acked.trans {k₁ k₂ k₃ : SendList n → List ℕ} (h₁ : Acked c R st k₁ k₂)
    (hsame : Same st st') (h₂ : Acked c R st' k₂ k₃) : Acked c R st k₁ k₃ where
  sublist := h₂.sublist.trans h₁.sublist
  acked b hb := by
    obtain hb | hR := h₁.acked b hb
    · exact (h₂.acked b hb).imp_right fun hR => hsame.seq b ▸ hR
    · exact Or.inr hR
  other l hl hl' := (h₂.other l hl hl').trans (h₁.other l hl hl')

/-- A connection stays linked when the packets that leave its unack queue have arrived. -/
theorem Linked.acked (h : Linked depth peers st k c) (hsame : Same st st')
    (hsnd : k' (.sndQueue c) = k (.sndQueue c)) (hsub : (unacked k' c).Sublist (unacked k c))
    (hacked : ∀ b ∈ unacked k c, b ∈ unacked k' c ∨ (peers.rx c).Stored (st.buffers b).seq.toNat) :
    Linked depth peers st' k' c := by
  obtain ⟨hcap, hsent, hcons, hinfo, hstop⟩ := hsame.conns c
  refine ⟨h.packets, ?_, h.rxCapacity, ?_, hstop.trans h.running, ?_, ?_, ?_, ?_, ?_, ?_, ?_,
    ?_, ?_, ?_⟩
  · rw [hsent]
    exact h.rx
  · rw [hsent]
    exact h.wire
  · rw [hinfo]
    exact h.infoSeq
  · rw [hsent]
    exact h.sent_le
  · rw [hsent, hsnd, funext fun b => congrArg UInt32.toNat (hsame.seq b)]
    exact h.queued
  · intro b hb
    rw [hsame.seq]
    exact h.content b (hb.imp (hsnd ▸ ·) (hsub.subset ·))
  · refine (h.sorted.sublist hsub).imp fun {b b'} hlt => ?_
    rw [hsame.seq, hsame.seq]
    exact hlt
  · intro b hb
    rw [hsame.seq, hsent]
    exact h.unacked_le b (hsub.subset hb)
  · intro i hi
    rw [hsent] at hi
    obtain ⟨b, hb, hbi⟩ | hstored := h.kept i hi
    · obtain hb | hstored := hacked b hb
      · exact Or.inl ⟨b, hb, by rw [hsame.seq, hbi]⟩
      · exact Or.inr (hbi ▸ hstored)
    · exact Or.inr hstored
  · rw [hcap, hsent, hcons]
    exact h.credit
  · rw [hcap]
    exact h.capacity_nonneg
  · rw [hcons]
    exact h.consumed

/-- Calls that move no packet keep the connections linked. -/
theorem Fits.same (h : Fits depth peers st k) (hsame : Same st st') : Fits depth peers st' k :=
  fun c hc => (h c hc).acked hsame rfl (List.Sublist.refl _) fun _ hb => Or.inl hb

theorem Fits.acked (h : Fits depth peers st k) (hsame : Same st st')
    (hacked : Acked c R st k k')
    (hR : (peers.rx c).stopRequested = false → ∀ b ∈ unacked k c, R (st.buffers b).seq →
      (peers.rx c).Stored (st.buffers b).seq.toNat) : Fits depth peers st' k' := by
  intro c' hc'
  by_cases hcc : c' = c
  · subst hcc
    exact (h c' hc').acked hsame (hacked.other _ (by simp) (by simp)) hacked.sublist
      fun b hb => (hacked.acked b hb).imp_right (hR hc' b hb)
  · have hother : unacked k' c' = unacked k c' := hacked.other _ (by simpa using hcc) (by simp)
    refine (h c' hc').acked hsame (hacked.other _ (by simp) (by simp)) (by rw [hother]) ?_
    rw [hother]
    exact fun b hb => Or.inl hb

/-- One packet has left the unack queue. -/
theorem acked_moved (hk : k (.unackQueue c) = xs ++ b :: ys) (hnodup : (k (.unackQueue c)).Nodup)
    (hR : R (st.buffers b).seq) :
    Acked c R st k (moved k (.unackQueue c) .freeList b) ∧
      moved k (.unackQueue c) .freeList b (.unackQueue c) = xs ++ ys := by
  have hfrom : moved k (.unackQueue c) .freeList b (.unackQueue c) =
      (k (.unackQueue c)).erase b := moved_from (freeList_not_unack c)
  refine ⟨⟨?_, ?_, fun l hl hl' => moved_other hl hl'⟩, ?_⟩
  · rw [unacked, hfrom]
    exact List.erase_sublist
  · intro b' hb'
    by_cases hbb : b' = b
    · exact Or.inr (hbb ▸ hR)
    · refine Or.inl ?_
      rw [unacked, hfrom]
      exact (List.mem_erase_of_ne hbb).mpr hb'
  · have hbx : b ∉ xs := by
      rw [hk] at hnodup
      exact fun hmem => (List.nodup_append.mp hnodup).2.2 b hmem b (by simp) rfl
    rw [hfrom, hk, List.erase_append_right _ hbx, List.erase_cons_head]

/-- What a loop along the unack queue of `c` does to the buffers. -/
structure AckedTo (c : Fin n) (R : UInt32 → Prop) (st st' : SendState n F)
    (k k' : SendList n → List ℕ) : Prop where
  acked : Acked c R st k k'
  same : Same st st'

theorem AckedTo.refl (c : Fin n) (R : UInt32 → Prop) (st : SendState n F)
    (k : SendList n → List ℕ) :
    AckedTo c R st st k k :=
  ⟨.refl c R st k, .refl st⟩

theorem AckedTo.trans {st₁ st₂ st₃ : SendState n F} {k₁ k₂ k₃ : SendList n → List ℕ}
    (h₁ : AckedTo c R st₁ st₂ k₁ k₂) (h₂ : AckedTo c R st₂ st₃ k₂ k₃) :
    AckedTo c R st₁ st₃ k₁ k₃ :=
  ⟨h₁.acked.trans h₁.same h₂.acked, h₁.same.trans h₂.same⟩

/-- To put a packet into the ring moves no packet. -/
theorem same_put (cfg : SendConfig) (b : ℕ) (expTime now : UInt64) (st : SendState n F) :
    Same st (putIntoUnackQueueRing cfg b expTime now st) := by
  rw [putIntoUnackQueueRing]
  generalize (ringSlot cfg (st.ring.started cfg now) expTime now : ℤ) = slot
  have hsame := same_setBuffer st b (fun buf => { buf with unackQueueRingSlot := slot }) rfl
  exact ⟨hsame.seq, hsame.conns⟩

theorem same_resendLost {now : UInt64} (h : resendLost cfg b now st = some st') : Same st st' := by
  simp only [resendLost, Option.map_eq_some_iff] at h
  obtain ⟨c, -, rfl⟩ := h
  refine .trans ?_ (same_put cfg b _ now _)
  have hsame := same_setBuffer st b (fun buf => { buf with nRetry := buf.nRetry + 1 }) rfl
  exact ⟨hsame.seq, hsame.conns⟩

variable [WindowSize F]

theorem same_updateWindow (st : SendState n F) (c : Fin n) (ackTime : UInt64) :
    Same st (updateWindow c ackTime st) :=
  .of_update (fun _ => rfl) rfl ⟨rfl, rfl, rfl, rfl, rfl⟩

/-- The buffer goes to the free list, and the packets keep their numbers. -/
theorem handleAckedPacket_moves (h : SendInv st k s fill none)
    (hk : k (.unackQueue c) = xs ++ b :: ys) (now : UInt64) :
    ∃ st' s', handleAckedPacket c b now st = some st' ∧
      SendInv st' (moved k (.unackQueue c) .freeList b) s' fill none ∧ Same st st' := by
  obtain ⟨st', k', s', hst', hinv, -, -⟩ := handleAckedPacket_spec h hk now
  have hb : b ∈ k (.unackQueue c) := by simp [hk]
  have hmoves : st'.lists = (st.lists.delete (.unackQueue c) b).append .freeList b ∧
      Same st st' := by
    have hconn : (st.buffers b).conn = some c := h.conn c b hb
    simp only [handleAckedPacket] at hst'
    generalize hst₁ : leaveRing b ((st.lists.delete (.unackQueue c) b).length (.unackQueue c))
      { st with lists := st.lists.delete (.unackQueue c) b } = st₁ at hst'
    have hsame₁ : Same st st₁ := by
      rw [← hst₁]
      exact same_of_eq (fun _ => rfl) rfl
    have hlists₁ : st₁.lists = st.lists.delete (.unackQueue c) b := by
      rw [← hst₁]
      rfl
    have hconn₁ : (st₁.buffers b).conn = some c := by
      rw [← hst₁]
      exact hconn
    rw [hconn₁, Option.map_some] at hst'
    generalize hst₂ : (if (st₁.buffers b).nRetry = 0 then
      updateWindow c (now - (st₁.buffers b).sentTime) st₁ else st₁) = st₂ at hst'
    obtain ⟨hsame₂, hlists₂⟩ : Same st₁ st₂ ∧ st₂.lists = st₁.lists := by
      rw [← hst₂]
      split_ifs
      · exact ⟨same_updateWindow st₁ c _, rfl⟩
      · exact ⟨.refl st₁, rfl⟩
    rw [← Option.some.inj hst']
    refine ⟨?_,
      hsame₁.trans (hsame₂.trans (.of_update (fun _ => rfl) rfl ⟨rfl, rfl, rfl, rfl, rfl⟩))⟩
    exact congrArg (fun lists => LinkedLists.append lists .freeList b) (hlists₂.trans hlists₁)
  have hrep := represents_move h.lists hb (freeList_not_unack c)
  rw [← hmoves.1] at hrep
  exact ⟨st', s', hst', hinv.lists.unique hrep ▸ hinv, hmoves.2⟩

/-- The loop acknowledges packets up to `bound`. -/
theorem ackLoop_moves (h : SendInv st k s fill none) (hk : k (.unackQueue c) = xs ++ ys)
    (hfuel : ys.length < fuel) (now : UInt64) (bound : UInt32) (acked : Bool)
    (hR : ∀ seq ≤ bound, R seq) :
    ∃ st' k' s' xs' ys' acked', ackLoop c now bound fuel (addr (.unackQueue c) ys) acked st =
        some (st', addr (.unackQueue c) ys', acked') ∧
      SendInv st' k' s' fill none ∧ k' (.unackQueue c) = xs' ++ ys' ∧ AckedTo c R st st' k k' := by
  induction ys generalizing st k s fuel acked with
  | nil =>
    obtain ⟨fuel, rfl⟩ := Nat.exists_eq_add_one_of_ne_zero (Nat.ne_zero_of_lt hfuel)
    exact ⟨st, k, s, xs, [], acked, by simp [ackLoop, addr], h, hk, .refl c R st k⟩
  | cons b ys ih =>
    obtain ⟨fuel, rfl⟩ := Nat.exists_eq_add_one_of_ne_zero (Nat.ne_zero_of_lt hfuel)
    rw [addr, ackLoop]
    split_ifs with hseq
    · obtain ⟨st₁, s₁, hst₁, h₁, hsame₁⟩ := handleAckedPacket_moves h hk now
      obtain ⟨hacked₁, hk₁⟩ := acked_moved hk (h.lists.nodup _) (hR _ hseq)
      obtain ⟨st', k', s', xs', ys', acked', hst', h', hk', hto⟩ :=
        ih h₁ hk₁ (by simpa using hfuel) true
      refine ⟨st', k', s', xs', ys', acked', ?_, h', hk', .trans ⟨hacked₁, hsame₁⟩ hto⟩
      rw [hst₁, next_eq h.lists hk]
      exact hst'
    · exact ⟨st, k, s, xs, b :: ys, acked, rfl, h, hk, .refl c R st k⟩

theorem duplicateLoop_moves (h : SendInv st k s fill none) (hk : k (.unackQueue c) = xs ++ ys)
    (hfuel : ys.length < fuel) (now : UInt64) (seq : UInt32) (acked : Bool) (hR : R seq) :
    ∃ st' k' s' acked', duplicateLoop c now seq fuel (addr (.unackQueue c) ys) acked st =
        some (st', acked') ∧ SendInv st' k' s' fill none ∧ AckedTo c R st st' k k' := by
  induction ys generalizing xs fuel acked with
  | nil =>
    obtain ⟨fuel, rfl⟩ := Nat.exists_eq_add_one_of_ne_zero (Nat.ne_zero_of_lt hfuel)
    exact ⟨st, k, s, acked, by simp [duplicateLoop, addr], h, .refl c R st k⟩
  | cons b ys ih =>
    obtain ⟨fuel, rfl⟩ := Nat.exists_eq_add_one_of_ne_zero (Nat.ne_zero_of_lt hfuel)
    rw [addr, duplicateLoop]
    split_ifs with hle heq
    · obtain ⟨st₁, s₁, hst₁, h₁, hsame₁⟩ := handleAckedPacket_moves h hk now
      have hacked₁ := (acked_moved hk (h.lists.nodup _) (heq ▸ hR)).1
      exact ⟨st₁, _, s₁, true, by rw [hst₁]; rfl, h₁, hacked₁, hsame₁⟩
    · rw [next_eq h.lists hk]
      exact ih (show k (.unackQueue c) = (xs ++ [b]) ++ ys by simp [hk])
        (by simpa using hfuel) acked
    · exact ⟨st, k, s, acked, rfl, h, .refl c R st k⟩

theorem handleAckForDuplicatePkt_moves (h : SendInv st k s fill none) (pkt : AckPkt n)
    (hR : ∀ seq ≤ pkt.extraSeq, R seq) (hR' : R pkt.seq) :
    ∃ st' k' s' acked, handleAckForDuplicatePkt pkt st = some (st', acked) ∧
      SendInv st' k' s' fill none ∧ AckedTo pkt.conn R st st' k k' := by
  rw [handleAckForDuplicatePkt]
  split_ifs
  · exact ⟨st, k, s, false, rfl, h, .refl _ R st k⟩
  · obtain ⟨st₁, k₁, s₁, xs, ys, acked, hst₁, h₁, hk₁, hto₁⟩ :=
      ackLoop_moves h (List.nil_append _).symm (Nat.lt_add_one _) pkt.now pkt.extraSeq false hR
    have hlen : ys.length < unackLength pkt.conn st₁ + 1 := by
      rw [unackLength_eq h₁, hk₁, List.length_append]
      omega
    obtain ⟨st', k', s', acked', hst', h', hto'⟩ :=
      duplicateLoop_moves h₁ hk₁ hlen pkt.now pkt.seq acked hR'
    refine ⟨st', k', s', acked', ?_, h', hto₁.trans hto'⟩
    simp only [first_eq h.lists, unackLength_eq h, hst₁]
    exact hst'

/-- The packets that the loop acknowledges are the one of the message and those between the ones
that are lost. The numbers of the lost packets that the loop has passed are `passed`. -/
theorem disorderLoop_moves (cfg : SendConfig) (run : Prop) {pkt : AckPkt n} {q : ℕ → UInt32}
    {all : List UInt32} (passed losts : List UInt32) (h : SendInv st k s fill none)
    (hk : k (.unackQueue pkt.conn) = xs ++ ys) (hfuel : ys.length + losts.length < fuel)
    (hq : ∀ b, (st.buffers b).seq = q b) (hall : all = passed ++ losts)
    (hsorted : run → ys.Pairwise fun b b' => q b < q b') (hlosts : run → all.Pairwise (· < ·))
    (hpassed : run → ∀ lost ∈ passed, ∀ b ∈ ys, lost < q b)
    (hR : ∀ seq, (run → seq ∉ all ∧ ∃ lost ∈ all, seq < lost) → R seq) (hR' : R pkt.seq)
    (acked : Bool) :
    ∃ st' k' s' acked', disorderLoop cfg pkt fuel (addr (.unackQueue pkt.conn) ys) losts acked st =
        some (st', acked') ∧ SendInv st' k' s' fill none ∧ AckedTo pkt.conn R st st' k k' := by
  induction fuel generalizing st k s xs ys losts passed acked with
  | zero => exact absurd hfuel (Nat.not_lt_zero _)
  | succ fuel ih =>
    cases ys with
    | nil => exact ⟨st, k, s, acked, by simp [disorderLoop, addr], h, .refl _ R st k⟩
    | cons b ys =>
      have hb : b ∈ unacked k pkt.conn := by simp [unacked, hk]
      cases losts with
      | nil => exact ⟨st, k, s, acked, by simp [disorderLoop, addr], h, .refl _ R st k⟩
      | cons lost losts =>
        rw [List.length_cons, List.length_cons] at hfuel
        rw [addr, disorderLoop]
        simp only [next_eq h.lists hk, hq]
        obtain ⟨st₁, s₁, hst₁, h₁, hsame₁⟩ := handleAckedPacket_moves h hk pkt.now
        have hacked₁ : R (q b) →
          Acked pkt.conn R st k (moved k (.unackQueue pkt.conn) .freeList b) ∧
            moved k (.unackQueue pkt.conn) .freeList b (.unackQueue pkt.conn) = xs ++ ys :=
            fun hRb =>
          acked_moved hk (h.lists.nodup _) (by rw [hq]; exact hRb)
        have hsorted' : run → ys.Pairwise fun b b' => q b < q b' := fun hrun =>
          (List.pairwise_cons.mp (hsorted hrun)).2
        split_ifs with hle heq hlost hlt
        · exact ⟨st₁, _, s₁, true, by rw [hst₁]; rfl, h₁, (hacked₁ (heq ▸ hR')).1, hsame₁⟩
        · -- The packet is lost. Those behind it have greater numbers.
          obtain ⟨st₂, s₂, hst₂, h₂, -⟩ := resendLost_spec cfg h hb pkt.now
          have hsame₂ := same_resendLost hst₂
          obtain ⟨st', k', s', acked', hst', h', hto⟩ :=
            ih (passed ++ [lost]) losts h₂
              (show k (.unackQueue pkt.conn) = (xs ++ [b]) ++ ys by simp [hk]) (by omega)
              (fun b' => (hsame₂.seq b').trans (hq b')) (by simp [hall]) hsorted'
              (fun hrun l hl b' hb' => by
                obtain hl | hl := List.mem_append.mp hl
                · exact hpassed hrun l hl b' (List.mem_cons_of_mem b hb')
                · rw [List.mem_singleton.mp hl, ← hlost]
                  exact (List.pairwise_cons.mp (hsorted hrun)).1 b' hb') acked
          exact ⟨st', k', s', acked', by rw [hst₂]; exact hst', h',
            .trans ⟨.refl _ R st k, hsame₂⟩ hto⟩
        · -- The packet is between two that are lost.
          have hRb : R (q b) := by
            refine hR _ fun hrun => ⟨fun hmem => ?_, lost, by simp [hall], hlt⟩
            rw [hall, List.mem_append] at hmem
            obtain hmem | hmem := hmem
            · exact UInt32.lt_irrefl _ (hpassed hrun _ hmem b List.mem_cons_self)
            · obtain heq' | hmem := List.mem_cons.mp hmem
              · exact hlost heq'
              · have hpair := hlosts hrun
                rw [hall, List.pairwise_append] at hpair
                exact UInt32.lt_asymm hlt ((List.pairwise_cons.mp hpair.2.1).1 _ hmem)
          obtain ⟨st', k', s', acked', hst', h', hto⟩ :=
            ih passed (lost :: losts) h₁ (hacked₁ hRb).2 (by rw [List.length_cons]; omega)
              (fun b' => (hsame₁.seq b').trans (hq b')) hall hsorted'
              (fun hrun l hl b' hb' => hpassed hrun l hl b' (List.mem_cons_of_mem b hb')) true
          exact ⟨st', k', s', acked', by rw [hst₁]; exact hst', h',
            .trans ⟨(hacked₁ hRb).1, hsame₁⟩ hto⟩
        · -- The lost packet has left the unack queue.
          have hgt : lost < q b := UInt32.lt_of_le_of_ne (UInt32.not_lt.mp hlt) (Ne.symm hlost)
          refine ih (passed ++ [lost]) losts h hk (by rw [List.length_cons]; omega) hq
            (by simp [hall]) hsorted (fun hrun l hl b' hb' => ?_) acked
          obtain hl | hl := List.mem_append.mp hl
          · exact hpassed hrun l hl b' hb'
          · rw [List.mem_singleton.mp hl]
            obtain rfl | hb' := List.mem_cons.mp hb'
            · exact hgt
            · exact UInt32.lt_trans hgt ((List.pairwise_cons.mp (hsorted hrun)).1 b' hb')
        · exact ⟨st, k, s, acked, rfl, h, .refl _ R st k⟩

end Hdb.Interconnect
