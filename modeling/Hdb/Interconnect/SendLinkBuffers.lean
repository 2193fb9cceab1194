import Hdb.Interconnect.SendLinkCalls

/-!
# Current buffers on linked connections

The sender fills the current buffer of a connection, gives it a number and puts it behind the send
queue. A buffer that is not in the queues of a connection can change, so to fill one, to get one
from the pool and to give the buffers of another connection back keep a connection linked.
-/

namespace Hdb.Interconnect

open LinkedLists

variable {n : ℕ} {F : Type} {depth : ℕ} {peers : Peers n} {st st' : SendState n F}
  {k k' : SendList n → List ℕ} {s : ℤ → List ℕ} {fill fill' : Multiset ℕ} {c : Fin n} {b fuel : ℕ}
  {xs : List ℕ} {cfg : SendConfig} {pkt : DataPkt}

/-- The links hold one family of lists, so the buffers outside of it are known from either side. -/
theorem Matched.settled (h : Matched depth peers st fill') (hs : Settled st fill) :
    Matched depth peers st fill := by
  obtain ⟨k, s, hinv, hfits⟩ := h
  obtain ⟨k', s', hinv'⟩ := hs
  obtain rfl := hinv.lists.unique hinv'.lists
  exact ⟨k, s', hinv', hfits⟩

theorem Matched.setConn (h : Matched depth peers st fill) (c : Fin n) {f : MotionConn → MotionConn}
    (hf : SameLink (st.conns c) (f (st.conns c))) : Matched depth peers (st.setConn c f) fill := by
  obtain ⟨k, s, hinv, hfits⟩ := h
  exact ⟨k, s, hinv.setConn c f, hfits.same (.of_update (fun _ => rfl) rfl hf)⟩

/-! ## The next packet -/

/-- The sender is given one more packet, with the next number. -/
theorem PacketsOk.snoc {packets : List DataPkt} (h : PacketsOk packets)
    (hseq : pkt.seq.toNat = packets.length + 1) (hflags : pkt.flags = 0 ∨ pkt.flags = flagEos)
    (heos : ∀ p ∈ packets, p.has flagEos = false) (hlen : packets.length + 2 < 2 ^ 32) :
    PacketsOk (packets ++ [pkt]) := by
  have hget : ∀ i p, p ∈ (packets ++ [pkt])[i]? →
      p ∈ packets[i]? ∨ i = packets.length ∧ p = pkt := by
    intro i p hi
    by_cases hlt : i < packets.length
    · rw [List.getElem?_append_left hlt] at hi
      exact Or.inl hi
    · rw [List.getElem?_append_right (by omega), Option.mem_def, List.getElem?_singleton] at hi
      split_ifs at hi with hzero
      exact Or.inr ⟨by omega, (Option.some.inj hi).symm⟩
  refine ⟨fun i p hi => ?_, fun p hp => ?_, fun i p hi hp => ?_, ?_⟩
  · obtain hi | ⟨rfl, rfl⟩ := hget i p hi
    · exact h.numbered i p hi
    · exact hseq
  · rw [List.mem_append, List.mem_singleton] at hp
    obtain hp | rfl := hp
    · exact h.flags p hp
    · exact hflags
  · obtain hi | ⟨rfl, rfl⟩ := hget i p hi
    · rw [heos p (List.mem_of_getElem? hi)] at hp
      cases hp
    · rw [List.length_append, List.length_singleton]
  · rw [List.length_append, List.length_singleton]
    exact hlen

/-- The packet is in the buffer, and the sender has been given it. -/
def Peers.give (peers : Peers n) (c : Fin n) (b : ℕ) (pkt : DataPkt) : Peers n where
  packets := Function.update peers.packets c (peers.packets c ++ [pkt])
  payload := Function.update peers.payload b pkt
  wire := peers.wire
  rx := peers.rx

/-- The connection after `prepareXmit` and with the packet behind its send queue. -/
theorem Linked.given (h : Linked depth peers st k c) (hb : ∀ l, b ∉ k l)
    (hseq : pkt.seq = (st.conns c).infoSeq) (hflags : pkt.flags = 0 ∨ pkt.flags = flagEos)
    (heos : ∀ p ∈ peers.packets c, p.has flagEos = false)
    (hlen : (peers.packets c).length + 2 < 2 ^ 32) :
    Linked depth (peers.give c b pkt) (prepareXmit c b st)
      (Function.update k (.sndQueue c) (k (.sndQueue c) ++ [b])) c := by
  have hinfo := h.infoSeq
  have hle := h.sent_le
  have hpackets : (peers.give c b pkt).packets c = peers.packets c ++ [pkt] :=
    Function.update_self ..
  have hconn : (prepareXmit c b st).conns c =
      { st.conns c with infoSeq := (st.conns c).infoSeq + 1 } := Function.update_self ..
  have hbufSelf : ((prepareXmit c b st).buffers b).seq = (st.conns c).infoSeq := by
    show (Function.update st.buffers b { st.buffers b with seq := (st.conns c).infoSeq } b).seq = _
    rw [Function.update_self]
  have hbuf : ∀ b', b' ≠ b → (prepareXmit c b st).buffers b' = st.buffers b' := fun b' hne =>
    Function.update_of_ne hne _ _
  have hne : ∀ l, ∀ b' ∈ k l, b' ≠ b := fun l b' hb' heq => hb l (heq ▸ hb')
  have hunacked : unacked (Function.update k (.sndQueue c) (k (.sndQueue c) ++ [b])) c =
      unacked k c :=
    Function.update_of_ne (by simp) _ _
  refine ⟨?_, ?_, h.rxCapacity, ?_, ?_, ?_, ?_, ?_, ?_, ?_, ?_, ?_, ?_, ?_, ?_⟩
  · rw [hpackets]
    exact h.packets.snoc (by rw [hseq, hinfo]) hflags heos hlen
  · rw [hpackets, hconn, List.take_append_of_le_length hle]
    exact h.rx
  · rw [hpackets, hconn, List.take_append_of_le_length hle]
    exact h.wire
  · rw [hconn]
    exact h.running
  · rw [hpackets, hconn, List.length_append, List.length_singleton]
    show ((st.conns c).infoSeq + 1).toNat = _
    rw [UInt32.toNat_add, hinfo]
    exact Nat.mod_eq_of_lt (by rw [UInt32.toNat_one]; omega)
  · rw [hpackets, hconn, List.length_append]
    exact hle.trans (Nat.le_add_right _ _)
  · rw [hpackets, hconn, Function.update_self, List.map_append, List.length_append,
      List.length_singleton, Nat.sub_add_comm hle, List.range'_1_concat, ← h.queued]
    refine congrArg₂ _ (List.map_congr_left fun b' hb' => ?_) ?_
    · rw [hbuf b' (hne _ b' hb')]
    · rw [List.map_singleton, hbufSelf, hinfo]
      congr 1
      show _ = (st.conns c).sentSeq.toNat + 1 + _
      omega
  · intro b' hb'
    rw [hunacked, Function.update_self, List.mem_append, List.mem_singleton] at hb'
    rw [hpackets, List.mem_append, List.mem_singleton]
    by_cases heq : b' = b
    · subst heq
      have hpayload : (peers.give c b' pkt).payload b' = pkt := Function.update_self ..
      rw [hpayload, hbufSelf]
      exact ⟨Or.inr rfl, hseq⟩
    · have hpayload : (peers.give c b pkt).payload b' = peers.payload b' :=
        Function.update_of_ne heq _ _
      rw [hpayload, hbuf b' heq]
      have hcontent := h.content b' (hb'.imp_left fun hsnd => hsnd.resolve_right heq)
      exact ⟨Or.inl hcontent.1, hcontent.2⟩
  · rw [hunacked]
    refine h.sorted.imp_of_mem fun {b₁ b₂} hb₁ hb₂ hlt => ?_
    rw [hbuf b₁ (hne _ b₁ hb₁), hbuf b₂ (hne _ b₂ hb₂)]
    exact hlt
  · rw [hunacked, hconn]
    intro b' hb'
    rw [hbuf b' (hne _ b' hb')]
    exact h.unacked_le b' hb'
  · rw [hunacked, hconn]
    intro i hi
    refine (h.kept i hi).imp_left fun ⟨b', hb', hbi⟩ => ⟨b', hb', ?_⟩
    rw [hbuf b' (hne _ b' hb'), hbi]
  · rw [hconn]
    exact h.credit
  · rw [hconn]
    exact h.capacity_nonneg
  · rw [hconn]
    exact h.consumed

/-- The packet is numbered, and goes to the send queue. -/
theorem prepareXmit_matched (h : Matched depth peers st (b ::ₘ fill))
    (hpkt : (peers.rx c).stopRequested = false → pkt.seq = (st.conns c).infoSeq ∧
      (∀ p ∈ peers.packets c, p.has flagEos = false) ∧ (peers.packets c).length + 2 < 2 ^ 32)
    (hflags : pkt.flags = 0 ∨ pkt.flags = flagEos) :
    Matched depth (peers.give c b pkt) { prepareXmit c b st with
      lists := (prepareXmit c b st).lists.append (.sndQueue c) b } fill := by
  obtain ⟨k, s, hinv, hfits⟩ := h
  have hb : ∀ l, b ∉ k l := hinv.not_mem
  have hgive := ((hinv.setFilling fun buf => { buf with seq := (st.conns c).infoSeq }).setConn c
    fun conn => { conn with infoSeq := conn.infoSeq + 1 }).give (sndQueue_not_unack c)
  refine ⟨_, s, hgive, fun c' hrun => ?_⟩
  by_cases hc : c' = c
  · subst hc
    obtain ⟨hseq, heos, hlen⟩ := hpkt hrun
    have hgiven := (hfits c' hrun).given hb hseq hflags heos hlen
    exact hgiven.congr rfl rfl rfl (.refl _) rfl rfl fun _ _ => ⟨rfl, rfl⟩
  · refine (hfits c' hrun).congr (Function.update_of_ne hc _ _) rfl rfl ?_ ?_ ?_ fun b' hb' => ?_
    · have hconns : (prepareXmit c b st).conns c' = st.conns c' := Function.update_of_ne hc _ _
      show SameLink (st.conns c') ((prepareXmit c b st).conns c')
      rw [hconns]
      exact .refl _
    · exact Function.update_of_ne (by simpa using hc) _ _
    · exact Function.update_of_ne (by simp) _ _
    · have hne : b' ≠ b := fun heq => hb'.elim (fun h => hb _ (heq ▸ h)) fun h => hb _ (heq ▸ h)
      have hbuf : (prepareXmit c b st).buffers b' = st.buffers b' := Function.update_of_ne hne _ _
      exact ⟨congrArg ICBuffer.seq hbuf, Function.update_of_ne hne _ _⟩

/-! ## The pool -/

/-- A buffer from the pool is in no queue. -/
theorem getSndBuffer_matched (h : Matched depth peers st fill) :
    ∃ r, getSndBuffer st = some r ∧ Matched depth peers r.2 (r.1.toList + fill) ∧
      r.2.conns = st.conns := by
  obtain ⟨k, s, hinv, hfits⟩ := h
  have hlen := hinv.lists.length .freeList
  rw [getSndBuffer]
  split_ifs with hfree halloc
  · obtain ⟨b, xs, hk⟩ : ∃ b xs, k .freeList = b :: xs :=
      List.exists_cons_of_length_pos (by omega)
    have htake := hinv.take freeList_not_unack (show b ∈ k .freeList by simp [hk])
    rw [(pop_cons hinv.lists hk).1]
    refine ⟨_, rfl, ⟨_, s, htake, fun c hrun => ?_⟩, rfl⟩
    exact (hfits c hrun).congr rfl rfl rfl (.refl _) (Function.update_of_ne (by simp) _ _)
      (Function.update_of_ne (by simp) _ _) fun _ _ => ⟨rfl, rfl⟩
  · refine ⟨_, rfl, ⟨k, s, hinv.alloc _, fun c hrun => ?_⟩, rfl⟩
    refine (hfits c hrun).congr rfl rfl rfl (.refl _) rfl rfl fun b hb => ⟨?_, rfl⟩
    -- The buffers of the queues have been allocated before.
    have hmem : b ∈ held k + fill :=
      Multiset.mem_add.mpr (Or.inl (hb.elim mem_held mem_held))
    rw [hinv.all, Multiset.mem_range] at hmem
    exact congrArg ICBuffer.seq (Function.update_of_ne hmem.ne _ _)
  · exact ⟨_, rfl, ⟨k, s, by simpa using hinv, hfits⟩, rfl⟩

/-- A list returns to the free list, and the others stay as they are. -/
theorem icBufferListReturn_moves {l : SendList n} {inExpirationQueue : Bool}
    (h : SendInv st k s fill none) (hk : k l = xs) (hfuel : xs.length < fuel)
    (hl : l = .sndQueue c ∧ inExpirationQueue = false ∨
      l = .unackQueue c ∧ inExpirationQueue = true) :
    ∃ st' k' s', icBufferListReturn l inExpirationQueue fuel st = some st' ∧
      SendInv st' k' s' fill none ∧ (∀ l', l' ≠ l → l' ≠ .freeList → k' l' = k l') ∧
      st'.buffers = st.buffers ∧ st'.conns = st.conns := by
  induction xs generalizing st k s fuel with
  | nil =>
    obtain ⟨fuel, rfl⟩ := Nat.exists_eq_add_one_of_ne_zero (Nat.ne_zero_of_lt hfuel)
    exact ⟨st, k, s, by rw [icBufferListReturn, pop_nil h.lists hk], h, fun _ _ _ => rfl, rfl, rfl⟩
  | cons b xs ih =>
    obtain ⟨fuel, rfl⟩ := Nat.exists_eq_add_one_of_ne_zero (Nat.ne_zero_of_lt hfuel)
    have hfuel' : xs.length < fuel := by simpa using hfuel
    have hfree : l ≠ .freeList := by
      obtain ⟨rfl, -⟩ | ⟨rfl, -⟩ := hl <;> simp
    have hmem : b ∈ k l := by simp [hk]
    have hmoved : moved k l .freeList b l = xs := by
      rw [moved_from hfree, hk, List.erase_cons_head]
    have hrep := represents_move h.lists hmem hfree
    rw [icBufferListReturn, (pop_cons h.lists hk).1]
    -- The buffer goes to the free list, out of the ring when it was in an unack queue.
    obtain ⟨st₁, s₁, hst₁, h₁, hbuf₁, hconns₁⟩ : ∃ st₁ s₁,
        (let st₀ : SendState n F := { st with lists := st.lists.delete l b }
          let st₀ := if inExpirationQueue then leaveRing b (st₀.lists.length l) st₀ else st₀
          { st₀ with lists := st₀.lists.append .freeList b }) = st₁ ∧
        SendInv st₁ (moved k l .freeList b) s₁ fill none ∧ st₁.buffers = st.buffers ∧
        st₁.conns = st.conns := by
      obtain ⟨rfl, rfl⟩ | ⟨rfl, rfl⟩ := hl
      · exact ⟨_, s, rfl, (h.take (sndQueue_not_unack c) hmem).give freeList_not_unack, rfl, rfl⟩
      · obtain ⟨k', s', hrelease, -⟩ := h.release (show k (.unackQueue c) = [] ++ b :: xs from hk)
        have hgive := hrelease.give freeList_not_unack
        exact ⟨_, s', rfl, hgive.lists.unique hrep ▸ hgive, rfl, rfl⟩
    obtain ⟨st', k', s', hst', h', hother, hbuf, hconns⟩ := ih h₁ hmoved hfuel'
    refine ⟨st', k', s', ?_, h', fun l' hl' hl'' => ?_, hbuf.trans hbuf₁, hconns.trans hconns₁⟩
    · rw [← hst₁] at hst'
      exact hst'
    · rw [hother l' hl' hl'', moved_other hl' hl'']

/-- A stop is handled only on a connection that the receiver wants to stop. -/
theorem stopConn_matched (h : Matched depth peers st (filling st.conns)) (c : Fin n)
    (hcur : (st.conns c).stillActive → (st.conns c).curBuff.isSome) :
    ∃ st', stopConn c st = some st' ∧ Matched depth peers st' (filling st'.conns) := by
  rw [stopConn]
  dsimp only
  split_ifs with hstop
  · obtain ⟨hactive, hrequested⟩ := (Bool.and_eq_true _ _).mp hstop
    obtain ⟨b, hb⟩ := Option.isSome_iff_exists.mp (hcur hactive)
    obtain ⟨fill, hfill⟩ := filling_eq_cons hb
    obtain ⟨k, s, hinv, hfits⟩ := h
    rw [hfill] at hinv
    have hstopped : (peers.rx c).stopRequested ≠ false := fun hrun => by
      rw [(hfits c hrun).running] at hrequested
      cases hrequested
    have h₁ : SendInv { prepareXmit c b st with
        lists := (prepareXmit c b st).lists.append (.sndQueue c) b }
        (Function.update k (.sndQueue c) (k (.sndQueue c) ++ [b])) s fill none :=
      ((hinv.setFilling fun buf => { buf with seq := (st.conns c).infoSeq }).setConn c
        fun conn => { conn with infoSeq := conn.infoSeq + 1 }).give (sndQueue_not_unack c)
    obtain ⟨st₂, k₂, s₂, hst₂, h₂, hother₂, hbuf₂, hconns₂⟩ :=
      icBufferListReturn_moves h₁ rfl (Nat.lt_add_one _)
        (Or.inl ⟨(rfl : SendList.sndQueue c = _), rfl⟩)
    obtain ⟨st₃, k₃, s₃, hst₃, h₃, hother₃, hbuf₃, hconns₃⟩ :=
      icBufferListReturn_moves h₂ rfl (Nat.lt_add_one _)
        (Or.inr ⟨(rfl : SendList.unackQueue c = _), rfl⟩)
    have hlen : ((prepareXmit c b st).lists.append (.sndQueue c) b).length (.sndQueue c) =
        (Function.update k (.sndQueue c) (k (.sndQueue c) ++ [b]) (.sndQueue c)).length :=
      h₁.lists.length _
    have hconns : st₃.conns = Function.update st.conns c
        { st.conns c with infoSeq := (st.conns c).infoSeq + 1 } := hconns₃.trans hconns₂
    have hcur₃ : (st₃.conns c).curBuff = some b := by
      rw [hconns, Function.update_self]
      exact hb
    have hfill₃ : filling st₃.conns = b ::ₘ fill := by
      rw [← hfill]
      exact (Kept.of_update hconns rfl rfl).filling_eq
    rw [hb, Option.bind_some, hlen, Int.toNat_natCast, hst₂, Option.bind_some, unackLength_eq h₂,
      hst₃]
    refine ⟨_, rfl, k₃, s₃, ?_, fun c' hrun => ?_⟩
    · rw [SendState.setConn_conns, filling_given hcur₃ hfill₃ rfl]
      exact h₃.setConn c _
    · have hc : c' ≠ c := fun heq => hstopped (heq ▸ hrun)
      have hk₃ : ∀ l, l ≠ .sndQueue c → l ≠ .unackQueue c → l ≠ .freeList → k₃ l = k l :=
        fun l hsnd hunack hfree => by
          rw [hother₃ l hunack hfree, hother₂ l hsnd hfree, Function.update_of_ne hsnd]
      have hconn : (st₃.setConn c fun conn => { conn with
          state := .eosSent, curBuff := none, stillActive := false, stopRequested := false }).conns
            c' =
          st.conns c' := by
        rw [SendState.setConn_conns, Function.update_of_ne hc, hconns, Function.update_of_ne hc]
      refine (hfits c' hrun).congr rfl rfl rfl (hconn ▸ .refl _) ?_ ?_ fun b' hb' => ⟨?_, rfl⟩
      · exact hk₃ _ (by simpa using hc) (by simp) (by simp)
      · exact hk₃ _ (by simp) (by simpa using hc) (by simp)
      · have hne : b' ≠ b := fun heq =>
          hb'.elim (fun hmem => hinv.not_mem _ (heq ▸ hmem)) fun hmem => hinv.not_mem _ (heq ▸ hmem)
        have hbuf : st₃.buffers b' = (prepareXmit c b st).buffers b' := by
          rw [hbuf₃, hbuf₂]
        show (st₃.buffers b').seq = _
        rw [hbuf]
        exact congrArg ICBuffer.seq (Function.update_of_ne hne _ _)
  · exact ⟨st, rfl, h⟩

variable [WindowSize F]

/-! ## The start -/

/-- Nothing has been sent, and the queues of the receivers are empty. -/
def Peers.start (n queueDepth : ℕ) : Peers n where
  packets _ := []
  payload _ := ⟨0, 0, []⟩
  wire _ := []
  rx _ := RxConn.setup queueDepth

theorem startConns_matched (cfg : SendConfig) (h : Matched depth peers st fill)
    (cs : List (Fin n)) :
    ∃ st' fill', startConns cfg cs st = some st' ∧ Matched depth peers st' fill' := by
  induction cs generalizing st fill with
  | nil => exact ⟨st, fill, rfl, h⟩
  | cons c cs ih =>
    obtain ⟨k, s, hinv, hfits⟩ := h
    have h₁ : Matched depth peers { st with
        maxCount := st.maxCount + cfg.sndQueueDepth, cwnd := st.cwnd + ((1 : ℤ) : F) } fill :=
      ⟨k, s, hinv.congr rfl rfl rfl rfl hinv.idx (fun _ _ _ => ⟨rfl, rfl⟩) hinv.all,
        hfits.same (same_of_eq (fun _ => rfl) rfl)⟩
    obtain ⟨r, hr, h₂, -⟩ := getSndBuffer_matched h₁
    obtain ⟨st', fill', hst', h'⟩ :=
      ih (h₂.setConn c (f := fun conn => { conn with curBuff := r.1, stillActive := true })
        ⟨rfl, rfl, rfl, rfl, rfl⟩)
    exact ⟨st', fill', by rw [startConns, hr]; exact hst', h'⟩

theorem startOutgoing_matched (cfg : SendConfig) (hdepth : 0 < cfg.queueDepth)
    (receivers : Fin n → Bool) :
    ∃ st : SendState n F, startOutgoing cfg receivers = some st ∧
      Matched cfg.queueDepth (Peers.start n cfg.queueDepth) st (filling st.conns) := by
  obtain ⟨k, s, hinv⟩ := consistent_init cfg (n := n) (F := F)
  have hk : k = fun _ => [] := hinv.lists.unique represents_init
  subst hk
  have hfits : Fits cfg.queueDepth (Peers.start n cfg.queueDepth) (sendInit cfg : SendState n F)
      fun _ => [] := by
    intro c _
    refine ⟨⟨by simp [Peers.start], by simp [Peers.start], by simp [Peers.start],
      (by decide : 0 + 1 < 2 ^ 32)⟩,
      RxConn.rxInv_setup hdepth, rfl, by simp [Peers.start], rfl, rfl, Nat.le_refl 0, rfl, ?_,
      List.Pairwise.nil, ?_, ?_, ?_, ?_, Nat.le_refl 0⟩
    · simp [unacked]
    · simp [unacked]
    · intro i hi
      exact Or.inr (Or.inl (Nat.lt_succ_of_le hi))
    · show (cfg.queueDepth : ℤ) + 0 = 0 + cfg.queueDepth
      omega
    · exact Int.natCast_nonneg _
  obtain ⟨st', hst', hconsistent⟩ := startOutgoing_spec (F := F) cfg receivers
  obtain ⟨st, fill, hst, k, s, hinv', hfits'⟩ := startConns_matched cfg
    ⟨_, s, hinv, hfits⟩ ((List.finRange n).filter receivers)
  rw [startOutgoing, hst, Option.map_some, Option.some_inj] at hst'
  have hmatched : Matched cfg.queueDepth (Peers.start n cfg.queueDepth) st' fill := by
    rw [← hst']
    exact ⟨k, s, hinv'.congr rfl rfl rfl rfl hinv'.idx (fun _ _ _ => ⟨rfl, rfl⟩) hinv'.all,
      hfits'.same (same_of_eq (fun _ => rfl) rfl)⟩
  exact ⟨st', by rw [startOutgoing, hst, Option.map_some, hst'], hmatched.settled hconsistent⟩

/-! ## The calls that use the current buffer -/

theorem flushBuffer_matched (cfg : SendConfig) (h : Matched depth peers st (filling st.conns))
    (hb : (st.conns c).curBuff = some b)
    (hpkt : (peers.rx c).stopRequested = false → pkt.seq = (st.conns c).infoSeq ∧
      (∀ p ∈ peers.packets c, p.has flagEos = false) ∧ (peers.packets c).length + 2 < 2 ^ 32)
    (hflags : pkt.flags = 0 ∨ pkt.flags = flagEos) (clock : ℕ → UInt64) :
    ∃ st', flushBuffer cfg c clock st = some st' ∧
      Matched depth (peers.give c b pkt) st' (filling st'.conns) := by
  obtain ⟨fill, hfill⟩ := filling_eq_cons hb
  have hconsistent : Consistent st := by
    obtain ⟨k, s, hinv, -⟩ := h
    exact ⟨k, s, hinv⟩
  obtain ⟨st', hst', hconsistent'⟩ :=
    flushBuffer_spec cfg hconsistent clock (c := c) (by rw [hb]; rfl)
  have h₁ := prepareXmit_matched (hfill ▸ h) hpkt hflags
  obtain ⟨st₂, hst₂, h₂⟩ := sendBuffers_matched cfg h₁ c clock
  have h₃ : Matched depth (peers.give c b pkt) st' fill := by
    rw [flushBuffer, hb, Option.bind_some] at hst'
    simp only [hst₂, Option.map_some, Option.some_inj] at hst'
    rw [← hst']
    exact h₂.setConn c ⟨rfl, rfl, rfl, rfl, rfl⟩
  exact ⟨st', hst', h₃.settled hconsistent'⟩

end Hdb.Interconnect
