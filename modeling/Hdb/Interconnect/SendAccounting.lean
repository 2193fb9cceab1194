import Hdb.Interconnect.SendLoops

/-!
# Send buffer accounting

Between two calls the buffers outside the lists are the current buffers of the connections
(`Consistent`). Every call that the sender can make keeps this, and is possible.

Main result: `send_accounting`.
-/

namespace Hdb.Interconnect

open LinkedLists

variable {n : ℕ} {F : Type} {st st' : SendState n F} {k : SendList n → List ℕ} {s : ℤ → List ℕ}
  {fill : Multiset ℕ} {c : Fin n} {b : ℕ}

def Consistent (st : SendState n F) : Prop := Settled st (filling st.conns)

/-- Every active connection has a current buffer. -/
def Ready (st : SendState n F) : Prop := ∀ c, (st.conns c).stillActive → (st.conns c).curBuff.isSome

theorem Kept.ready (h : Kept st st') (hready : Ready st) : Ready st' := by
  intro c hactive
  rw [h.curBuff c]
  exact hready c (h.active c ▸ hactive)

theorem filling_update (conns : Fin n → MotionConn) (c : Fin n) (conn : MotionConn) :
    filling (Function.update conns c conn) + ((conns c).curBuff.toList : Multiset ℕ) =
      filling conns + (conn.curBuff.toList : Multiset ℕ) :=
  sum_updated (fun conn : MotionConn => (conn.curBuff.toList : Multiset ℕ)) conns c conn

/-- The current buffer of a connection is one of those that are being filled. -/
theorem filling_eq_cons {conns : Fin n → MotionConn} (hcur : (conns c).curBuff = some b) :
    ∃ fill, filling conns = b ::ₘ fill :=
  Multiset.exists_cons_of_mem (Multiset.mem_sum.mpr ⟨c, Finset.mem_univ c, by simp [hcur]⟩)

/-- The connection gives its current buffer away. -/
theorem filling_given {conns : Fin n → MotionConn} {conn : MotionConn}
    (hcur : (conns c).curBuff = some b) (hfill : filling conns = b ::ₘ fill)
    (hnone : conn.curBuff = none) : filling (Function.update conns c conn) = fill := by
  have h := filling_update conns c conn
  rw [hcur, hnone, hfill, ← Multiset.singleton_add, add_comm] at h
  exact add_left_cancel (h.trans (add_zero _))

/-! ## The accounting -/

/-- What a list of the pool, or a connection as its current buffer, has. -/
def contents (k : SendList n → List ℕ) (conns : Fin n → MotionConn) : SendList n ⊕ Fin n → List ℕ
  | .inl l => k l
  | .inr c => (conns c).curBuff.toList

/-- The counters of the ring count the unack queues, the buffers of the unack queues are each in the
slot that they name and in no other, and every allocated buffer is in exactly one place. -/
def Accounted (st : SendState n F) : Prop :=
  ∃ k s, st.lists.Represents k ∧ st.ring.slots.Represents s ∧
    st.ring.numOutStanding = ∑ c, ((k (.unackQueue c)).length : ℤ) ∧
    st.ring.numSharedOutStanding = ∑ c, max ((k (.unackQueue c)).length - 1 : ℤ) 0 ∧
    (∀ c, ∀ b ∈ k (.unackQueue c), 0 ≤ (st.buffers b).unackQueueRingSlot ∧
      (st.buffers b).unackQueueRingSlot < 2000 ∧
      ∀ i, b ∈ s i ↔ i = (st.buffers b).unackQueueRingSlot) ∧
    (∀ b < st.count, ∃! place, b ∈ contents k st.conns place) ∧
    ∑ place, (contents k st.conns place).length = st.count

theorem Consistent.accounted (h : Consistent st) : Accounted st := by
  obtain ⟨k, s, hinv⟩ := h
  have hsum : ∑ place, (contents k st.conns place : Multiset ℕ) = Multiset.range st.count := by
    rw [Fintype.sum_sum_type]
    exact hinv.all
  refine ⟨k, s, hinv.lists, hinv.slots, hinv.outstanding, ?_, ?_, ?_, ?_⟩
  · rw [hinv.shared]
    refine Finset.sum_congr rfl fun c _ => ?_
    rw [unacked]
    omega
  · intro c b hb
    have hin := (hinv.inSlot c b hb).resolve_left (by simp)
    obtain ⟨-, h0, h1, -⟩ := hinv.slotOf _ b hin
    exact ⟨h0, h1, fun i => ⟨fun hi => (hinv.slotOf i b hi).1.symm, fun hi => hi ▸ hin⟩⟩
  · intro b hb
    have hmem : b ∈ ∑ place, (contents k st.conns place : Multiset ℕ) := by
      rw [hsum]
      exact Multiset.mem_range.mpr hb
    obtain ⟨place, -, hplace⟩ := Multiset.mem_sum.mp hmem
    refine ⟨place, hplace, fun place' hplace' => ?_⟩
    by_contra hne
    have hnodup := Multiset.nodup_range st.count
    rw [← hsum, ← Finset.add_sum_erase _ _ (Finset.mem_univ place)] at hnodup
    refine Multiset.disjoint_left.mp (Multiset.nodup_add.mp hnodup).2.2 hplace ?_
    exact Multiset.mem_sum.mpr ⟨place', Finset.mem_erase.mpr ⟨hne, Finset.mem_univ _⟩, hplace'⟩
  · have hcard := congrArg Multiset.card hsum
    rwa [Multiset.card_range, Multiset.card_sum] at hcard

/-! ## The calls -/

theorem getSndBuffer_spec (h : Settled st fill) :
    ∃ r, getSndBuffer st = some r ∧ Settled r.2 (r.1.toList + fill) ∧ r.2.conns = st.conns := by
  obtain ⟨k, s, hinv⟩ := h
  have hlen := hinv.lists.length .freeList
  rw [getSndBuffer]
  split_ifs with hfree halloc
  · obtain ⟨b, xs, hk⟩ : ∃ b xs, k .freeList = b :: xs :=
      List.exists_cons_of_length_pos (by omega)
    have htake := hinv.take freeList_not_unack (show b ∈ k .freeList by simp [hk])
    rw [(pop_cons hinv.lists hk).1]
    exact ⟨_, rfl, ⟨_, s, htake⟩, rfl⟩
  · exact ⟨_, rfl, ⟨k, s, hinv.alloc _⟩, rfl⟩
  · exact ⟨_, rfl, ⟨k, s, by simpa using hinv⟩, rfl⟩

/-- The packet is numbered, and goes to the send queue. -/
theorem prepareXmit_spec (h : SendInv st k s (b ::ₘ fill) none) (c : Fin n) :
    Settled { prepareXmit c b st with
      lists := (prepareXmit c b st).lists.append (.sndQueue c) b } fill ∧
    Kept st (prepareXmit c b st) :=
  ⟨⟨_, s, ((h.setFilling fun buf => { buf with seq := (st.conns c).infoSeq }).setConn c
      fun conn => { conn with infoSeq := conn.infoSeq + 1 }).give (sndQueue_not_unack c)⟩,
    .of_update rfl rfl rfl⟩

theorem stopConn_spec (h : Consistent st) (hready : Ready st) (c : Fin n) :
    ∃ st', stopConn c st = some st' ∧ Consistent st' ∧ Ready st' := by
  rw [stopConn]
  dsimp only
  split_ifs with hstop
  · obtain ⟨b, hb⟩ := Option.isSome_iff_exists.mp (hready c (by simp_all))
    obtain ⟨fill, hfill⟩ := filling_eq_cons hb
    obtain ⟨k, s, hinv⟩ := h
    rw [hfill] at hinv
    obtain ⟨⟨k₁, s₁, h₁⟩, hkept₁⟩ := prepareXmit_spec hinv c
    obtain ⟨st₂, hst₂, ⟨k₂, s₂, h₂⟩, hconns₂⟩ := icBufferListReturn_spec h₁ rfl (Nat.lt_add_one _)
      (Or.inl ⟨(rfl : SendList.sndQueue c = _), rfl⟩)
    obtain ⟨st₃, hst₃, ⟨k₃, s₃, h₃⟩, hconns₃⟩ := icBufferListReturn_spec h₂ rfl (Nat.lt_add_one _)
      (Or.inr ⟨(rfl : SendList.unackQueue c = _), rfl⟩)
    have hkept : Kept st st₃ := hkept₁.trans (.of_conns (hconns₃.trans hconns₂))
    have hlen : ((prepareXmit c b st).lists.append (.sndQueue c) b).length (.sndQueue c) =
        (k₁ (.sndQueue c)).length := h₁.lists.length _
    rw [hb, Option.bind_some, hlen, Int.toNat_natCast, hst₂, Option.bind_some, unackLength_eq h₂,
      hst₃]
    refine ⟨_, rfl, ?_, fun c' => ?_⟩
    · rw [Consistent, SendState.setConn_conns,
        filling_given ((hkept.curBuff c).trans hb) (hkept.filling_eq.trans hfill) rfl]
      exact ⟨k₃, s₃, h₃.setConn c _⟩
    · -- The connection is no longer active, and the others have what they had.
      rw [SendState.setConn_conns]
      by_cases hc : c' = c
      · simp [hc]
      · rw [Function.update_of_ne hc]
        exact hkept.ready hready c'
  · exact ⟨st, rfl, h, hready⟩

theorem stopPass_spec (h : Consistent st) (hready : Ready st) (cs : List (Fin n)) :
    ∃ st', stopPass cs st = some st' ∧ Consistent st' ∧ Ready st' := by
  induction cs generalizing st with
  | nil => exact ⟨st, rfl, h, hready⟩
  | cons c cs ih =>
    obtain ⟨st₁, hst₁, h₁, hready₁⟩ := stopConn_spec h hready c
    obtain ⟨st', hst', h', hready'⟩ := ih h₁ hready₁
    exact ⟨st', by rw [stopPass, hst₁]; exact hst', h', hready'⟩

/-- Calls that keep the current buffers keep the consistency. -/
theorem Kept.consistent (h : Kept st st') (hsettled : Settled st' (filling st.conns)) :
    Consistent st' := by
  rw [Consistent, h.filling_eq]
  exact hsettled

variable [WindowSize F]

theorem flushBuffer_spec (cfg : SendConfig) (h : Consistent st) (clock : ℕ → UInt64)
    (hcur : (st.conns c).curBuff.isSome) :
    ∃ st', flushBuffer cfg c clock st = some st' ∧ Consistent st' := by
  obtain ⟨b, hb⟩ := Option.isSome_iff_exists.mp hcur
  obtain ⟨fill, hfill⟩ := filling_eq_cons hb
  obtain ⟨k, s, hinv⟩ := h
  rw [hfill] at hinv
  obtain ⟨h₁, hkept₁⟩ := prepareXmit_spec hinv c
  obtain ⟨st₂, hst₂, h₂, hkept₂⟩ := sendBuffers_spec cfg h₁ c clock
  have hkept : Kept st st₂ := hkept₁.trans ⟨hkept₂.curBuff, hkept₂.active⟩
  obtain ⟨k₂, s₂, hinv₂⟩ := h₂
  refine ⟨st₂.setConn c fun conn => { conn with curBuff := none }, ?_, ?_⟩
  · rw [flushBuffer, hb, Option.bind_some]
    simp only [hst₂, Option.map_some]
  · rw [Consistent, SendState.setConn_conns,
      filling_given ((hkept.curBuff c).trans hb) (hkept.filling_eq.trans hfill) rfl]
    exact ⟨k₂, s₂, hinv₂.setConn c _⟩

theorem handleStopMsgs_spec (cfg : SendConfig) (h : Consistent st) (hready : Ready st)
    (polls : List (List (AckPkt n))) :
    ∃ st', handleStopMsgs cfg polls st = some st' ∧ Consistent st' := by
  induction polls generalizing st with
  | nil =>
    obtain ⟨st', hst', h', -⟩ := stopPass_spec h hready (List.finRange n)
    exact ⟨st', hst', h'⟩
  | cons pkts polls ih =>
    obtain ⟨st₁, hst₁, h₁, hready₁⟩ := stopPass_spec h hready (List.finRange n)
    obtain ⟨st₂, stop, hst₂, hset₂, hkept₂⟩ := handleAcks_spec cfg h₁ pkts false false
    have h₂ : Consistent st₂ := hkept₂.consistent hset₂
    rw [handleStopMsgs, hst₁, Option.bind_some, hst₂, Option.bind_some]
    split_ifs
    · exact ih h₂ (hkept₂.ready hready₁)
    · exact ⟨st₂, rfl, h₂⟩

/-- **A step.** Every call that the sender can make is possible, and keeps the buffers
consistent. -/
theorem sendAct_spec (cfg : SendConfig) (h : Consistent st) {a : SendAction n}
    (ha : sendEnabled st a) : ∃ st', sendAct cfg st a = some st' ∧ Consistent st' := by
  cases a with
  | flush c clock => exact flushBuffer_spec cfg h clock ha.2
  | getBuffer c =>
    obtain ⟨r, hr, ⟨k, s, hinv⟩, hconns⟩ := getSndBuffer_spec h
    -- The connection had no current buffer.
    have hnone : (st.conns c).curBuff = none := ha
    have hfill := filling_update st.conns c { st.conns c with curBuff := r.1 }
    simp only [hnone, Option.toList_none, Multiset.coe_nil, add_zero] at hfill
    refine ⟨r.2.setConn c fun conn => { conn with curBuff := r.1 }, by rw [sendAct, hr]; rfl,
      k, s, ?_⟩
    rw [SendState.setConn_conns, hconns, hfill, add_comm]
    exact hinv.setConn c _
  | sendBuffers c clock =>
    obtain ⟨st', hst', h', hkept⟩ := sendBuffers_spec cfg h c clock
    exact ⟨st', hst', hkept.consistent h'⟩
  | handleAcks pkts =>
    obtain ⟨st', stop, hst', h', hkept⟩ := handleAcks_spec cfg h pkts false false
    exact ⟨st', by rw [sendAct, hst']; rfl, hkept.consistent h'⟩
  | checkExpiration now =>
    obtain ⟨st', hst', h', hkept⟩ := checkExpiration_spec cfg h now
    exact ⟨st', hst', hkept.consistent h'⟩
  | handleStopMsgs polls => exact handleStopMsgs_spec cfg h ha polls
  | deactivate c eos =>
    obtain ⟨k, s, hinv⟩ := h
    refine ⟨st.setConn c fun conn =>
      { conn with stillActive := false, state := if eos then .eosSent else conn.state }, rfl,
        k, s, ?_⟩
    have hfill := filling_update st.conns c
      { st.conns c with
        stillActive := false, state := if eos then .eosSent else (st.conns c).state }
    rw [SendState.setConn_conns, add_right_cancel hfill]
    exact hinv.setConn c _

/-! ## The start -/

theorem consistent_init (cfg : SendConfig) : Consistent (sendInit cfg : SendState n F) := by
  refine ⟨fun _ => [], fun _ => [], represents_init, represents_init, ?_, ?_, ?_, ?_, ?_, ?_, ?_⟩
  · simp [sendInit, outstanding, unacked]
  · simp [sendInit, sharedOutstanding, unacked]
  · simp [unacked]
  · simp
  · simp [unacked]
  · simp [sendInit, held, filling]
  · simp [sendInit]

theorem startConns_spec (cfg : SendConfig) (h : Consistent st) {cs : List (Fin n)} (hcs : cs.Nodup)
    (hnone : ∀ c ∈ cs, (st.conns c).curBuff = none) :
    ∃ st', startConns cfg cs st = some st' ∧ Consistent st' := by
  induction cs generalizing st with
  | nil => exact ⟨st, rfl, h⟩
  | cons c cs ih =>
    obtain ⟨hc, hcs⟩ := List.nodup_cons.mp hcs
    obtain ⟨k, s, hinv⟩ := h
    have h₁ : Settled { st with
        maxCount := st.maxCount + cfg.sndQueueDepth, cwnd := st.cwnd + ((1 : ℤ) : F) }
        (filling st.conns) :=
      ⟨k, s, hinv.congr rfl rfl rfl rfl hinv.idx (fun _ _ _ => ⟨rfl, rfl⟩) hinv.all⟩
    obtain ⟨r, hr, ⟨k₁, s₁, hinv₁⟩, hconns⟩ := getSndBuffer_spec h₁
    have hfill := filling_update st.conns c { st.conns c with curBuff := r.1, stillActive := true }
    simp only [hnone c List.mem_cons_self, Option.toList_none, Multiset.coe_nil, add_zero] at hfill
    have h₂ : Consistent (r.2.setConn c fun conn =>
        { conn with curBuff := r.1, stillActive := true }) := by
      refine ⟨k₁, s₁, ?_⟩
      rw [SendState.setConn_conns, hconns, hfill, add_comm]
      exact hinv₁.setConn c _
    obtain ⟨st', hst', h'⟩ := ih h₂ hcs (by
      intro c' hc'
      have hne : c' ≠ c := fun heq => hc (heq ▸ hc')
      rw [SendState.setConn_conns, Function.update_of_ne hne, hconns]
      exact hnone c' (List.mem_cons_of_mem c hc'))
    exact ⟨st', by rw [startConns, hr]; exact hst', h'⟩

theorem startOutgoing_spec (cfg : SendConfig) (receivers : Fin n → Bool) :
    ∃ st : SendState n F, startOutgoing cfg receivers = some st ∧ Consistent st := by
  obtain ⟨st, hst, k, s, hinv⟩ := startConns_spec cfg (consistent_init cfg (F := F))
    ((List.nodup_finRange n).filter receivers) fun _ _ => rfl
  refine ⟨{ st with minCwnd := st.cwnd, ssthresh := ((st.maxCount : ℤ) : F) }, ?_, k, s, ?_⟩
  · rw [startOutgoing, hst, Option.map_some]
  · exact hinv.congr rfl rfl rfl rfl hinv.idx (fun _ _ _ => ⟨rfl, rfl⟩) hinv.all

/-! ## The main result -/

/-- **Send buffer accounting.** From the start on, whatever calls the sender makes, in any order and
over any number of connections, every call is possible and the buffers are accounted for. -/
theorem send_accounting (cfg : SendConfig) (receivers : Fin n → Bool) (as : List (SendAction n))
    (henabled : ∀ st₀ ∈ (startOutgoing cfg receivers : Option (SendState n F)),
      Along (sendAct cfg) sendEnabled st₀ as) :
    ∃ st : SendState n F,
      ((startOutgoing cfg receivers).bind fun st₀ => run (sendAct cfg) st₀ as) = some st ∧
      Accounted st := by
  obtain ⟨st₀, hst₀, h₀⟩ := startOutgoing_spec (F := F) cfg receivers
  obtain ⟨st, hst, h⟩ := run_progress (fun _ _ h ha => sendAct_spec cfg h ha)
    (henabled st₀ hst₀) h₀
  exact ⟨st, by rw [hst₀, Option.bind_some, hst], h.accounted⟩

instance instDecidableReady (st : SendState n F) : Decidable (Ready st) :=
  inferInstanceAs (Decidable (∀ c, (st.conns c).stillActive → (st.conns c).curBuff.isSome))

instance instDecidableSendEnabled (st : SendState n F) (a : SendAction n) :
    Decidable (sendEnabled st a) :=
  match a with
  | .flush c _ =>
    inferInstanceAs (Decidable ((st.conns c).stillActive ∧ (st.conns c).curBuff.isSome))
  | .getBuffer c => inferInstanceAs (Decidable ((st.conns c).curBuff = none))
  | .handleStopMsgs _ => instDecidableReady st
  | .sendBuffers _ _ => inferInstanceAs (Decidable True)
  | .handleAcks _ => inferInstanceAs (Decidable True)
  | .checkExpiration _ => inferInstanceAs (Decidable True)
  | .deactivate _ _ => inferInstanceAs (Decidable True)

instance instWindowSizeRat : WindowSize ℚ where
  decLe := inferInstance
  decLt := inferInstance

def exampleConfig : SendConfig :=
  ⟨5, 20, 20, 4, 2, by decide, by decide, by decide⟩

/-- Two packets are sent, the first one is acknowledged, the second one expires. -/
def exampleCalls : List (SendAction 1) :=
  [.flush 0 fun _ => 1000000, .getBuffer 0, .flush 0 fun _ => 1000100,
    .handleAcks [⟨0, flagAck, 1, 1, [], 1000300, fun _ => 1000300⟩], .checkExpiration 3000000]

theorem send_accounting_two_packets : ∃ st : SendState 1 ℚ,
    ((startOutgoing exampleConfig fun _ => true).bind
      fun st₀ => run (sendAct exampleConfig) st₀ exampleCalls) = some st ∧ Accounted st ∧
      st.lists.toList (.unackQueue 0) = [1] ∧ st.lists.toList .freeList = [0] ∧
      (st.buffers 1).unackQueueRingSlot = 413 ∧ st.ring.slots.toList 413 = [1] ∧
      (st.buffers 1).nRetry = 1 := by
  obtain ⟨st, hst, haccounted⟩ :=
    send_accounting (F := ℚ) exampleConfig (fun _ => true) exampleCalls
    (by decide +kernel)
  have hlists : ∀ st ∈ ((startOutgoing exampleConfig fun _ => true).bind
      fun st₀ => run (sendAct exampleConfig) st₀ exampleCalls : Option (SendState 1 ℚ)),
      st.lists.toList (.unackQueue 0) = [1] ∧ st.lists.toList .freeList = [0] ∧
      (st.buffers 1).unackQueueRingSlot = 413 ∧ st.ring.slots.toList 413 = [1] ∧
      (st.buffers 1).nRetry = 1 := by
    decide +kernel
  exact ⟨st, hst, haccounted, hlists st hst⟩

end Hdb.Interconnect
