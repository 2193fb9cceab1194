import Hdb.Interconnect.UnackRing

/-!
# Expiration in the unack queue ring

A check makes as many turns as timer spans have passed since the current time of the ring, but not
more than there are slots. It sends exactly the packets again whose slot it passes, and puts each of
them back.
-/

namespace Hdb.Interconnect

open LinkedLists

variable {n : ℕ} {F : Type} {cfg : SendConfig} {st st' : SendState n F}
  {s s' : ℤ → List ℕ} {b b' fuel retransmits turns : ℕ} {xs : List ℕ} {c : Fin n} {now : UInt64}

/-! ## The period of a packet that is put back -/

theorem toNat_max_le {x y : UInt64} {k : ℕ} (hx : x.toNat ≤ k) (hy : y.toNat ≤ k) :
    (max x y).toNat ≤ k := by
  change (if x ≤ y then y else x).toNat ≤ k
  split_ifs
  · exact hy
  · exact hx

theorem toNat_min_le {x y : UInt64} {k : ℕ} (hx : x.toNat ≤ k) : (min x y).toNat ≤ k := by
  change (if x ≤ y then x else y).toNat ≤ k
  split_ifs with h
  · exact hx
  · exact (UInt64.le_iff_toNat_le.mp (UInt64.le_of_lt (UInt64.not_le.mp h))).trans hx

theorem computeExpirationPeriod_le (hrto : cfg.minRto ≤ 1000) (conn : MotionConn) (retry : UInt32) :
    (computeExpirationPeriod cfg conn retry).toNat ≤ 1000000 := by
  refine toNat_max_le ?_ (toNat_min_le (le_refl 1000000))
  rw [UInt64.toNat_ofNat', Nat.mod_eq_of_lt (by omega)]
  omega

/-! ## One slot -/

/-- The packet has been sent again and put back, for the period of its connection. -/
structure PutBack (cfg : SendConfig) (now : UInt64) (st st' : SendState n F) (b : ℕ) : Prop where
  retry : (st'.buffers b).nRetry = (st.buffers b).nRetry + 1
  slot : ∀ c ∈ (st.buffers b).conn, (st'.buffers b).unackQueueRingSlot =
    ringSlot cfg st.ring (computeExpirationPeriod cfg (st.conns c) (st'.buffers b).nRetry) now

/-- The packets of the current slot have been put back. -/
structure SlotExpired (cfg : SendConfig) (now : UInt64) (st st' : SendState n F)
    (s s' : ℤ → List ℕ) : Prop where
  holds : RingHolds st' s'
  current : st'.ring.currentTime = st.ring.currentTime
  idx : st'.ring.idx = st.ring.idx
  conns : st'.conns = st.conns
  conn : ∀ b, (st'.buffers b).conn = (st.buffers b).conn
  inSlot : ∀ b, InSlot st' s' b ↔ InSlot st s b
  kept : ∀ b, b ∉ s st.ring.idx → st'.buffers b = st.buffers b
  putBack : ∀ b ∈ s st.ring.idx, PutBack cfg now st st' b

/-- One pass of the inner loop, before the packet is put back. -/
def popped (st : SendState n F) (b : ℕ) : SendState n F :=
  { st with ring := { st.ring with slots := st.ring.slots.delete st.ring.idx b } }.setBuffer b
    fun buf => { buf with nRetry := buf.nRetry + 1 }

/-- The state after one pass. -/
def resend (cfg : SendConfig) (now : UInt64) (c : Fin n) (b : ℕ) (st : SendState n F) :
    SendState n F :=
  putIntoUnackQueueRing cfg b
    (computeExpirationPeriod cfg (st.conns c) ((st.buffers b).nRetry + 1)) now (popped st b)

theorem ringSlot_congr (cfg : SendConfig) {ring ring' : UnackQueueRing}
    (hidx : ring'.idx = ring.idx) (hcur : ring'.currentTime = ring.currentTime)
    (expTime now : UInt64) :
    ringSlot cfg ring' expTime now = ringSlot cfg ring expTime now := by
  rw [ringSlot, ringSlot, hidx, hcur]

theorem resend_eq (cfg : SendConfig) (hcur : st.ring.currentTime ≠ 0) (now : UInt64) (c : Fin n)
    (b : ℕ) : ∃ slot : ℕ,
      slot = ringSlot cfg st.ring
        (computeExpirationPeriod cfg (st.conns c) ((st.buffers b).nRetry + 1)) now ∧
      resend cfg now c b st = { st with
        buffers := Function.update st.buffers b
          { st.buffers b with nRetry := (st.buffers b).nRetry + 1, unackQueueRingSlot := slot }
        ring := { st.ring with
          slots := (st.ring.slots.delete st.ring.idx b).append slot b } } := by
  refine ⟨_, rfl, ?_⟩
  rw [resend, putIntoUnackQueueRing_eq cfg b _ now
    (show (popped st b).ring.currentTime ≠ 0 from hcur)]
  simp only [popped, SendState.setBuffer, Function.update_self, Function.update_idem]
  rfl

theorem resend_spec (cfg : SendConfig) (h : RingHolds st s) (hs : s st.ring.idx = b :: xs)
    (hcur : st.ring.currentTime ≠ 0) (hconn : (st.buffers b).conn = some c) (now : UInt64) :
    ∃ s', RingHolds (resend cfg now c b st) s' ∧ s' st.ring.idx = xs ∧
      ∀ b', InSlot (resend cfg now c b st) s' b' ↔ InSlot st s b' := by
  have hb : b ∈ s st.ring.idx := by simp [hs]
  have hin : InSlot st s b := (h.mem_iff.mp hb).1
  obtain ⟨slot, hslot, heq⟩ := resend_eq cfg hcur now c b
  obtain ⟨d, hd, hd', hahead⟩ := ringSlot_ahead cfg st.ring h.idx
    (computeExpirationPeriod cfg (st.conns c) ((st.buffers b).nRetry + 1)) now
  have hidx := h.idx
  have hlt : slot < 2000 := by omega
  have hne : (slot : ℤ) ≠ st.ring.idx := by omega
  -- The slots without the packet.
  have hout : ∀ i, b ∉ Function.update s st.ring.idx ((s st.ring.idx).erase b) i := fun i hmem =>
    ((mem_deleted h.slots hb).mp hmem).2 rfl
  have hdel : RingHolds { st with ring := { st.ring with
      slots := st.ring.slots.delete st.ring.idx b } }
      (Function.update s st.ring.idx ((s st.ring.idx).erase b)) := h.delete hb rfl rfl rfl
  have hpop :
      RingHolds (popped st b) (Function.update s st.ring.idx ((s st.ring.idx).erase b)) := by
    refine hdel.congr rfl h.idx fun b' hb' => ?_
    have hbb : b' ≠ b := fun heq => hout _ (heq ▸ hb')
    rw [popped, SendState.setBuffer_buffers, Function.update_of_ne hbb]
    exact ⟨rfl, rfl⟩
  have hbuf : (resend cfg now c b st).buffers = Function.update (popped st b).buffers b
      { (popped st b).buffers b with unackQueueRingSlot := slot } := by
    rw [heq]
    simp only [popped, SendState.setBuffer, Function.update_self, Function.update_idem]
  refine ⟨_, hpop.append hout hlt ?_ (by rw [heq]; rfl) (by rw [heq]; rfl) hbuf, ?_, fun b' => ?_⟩
  · rw [popped, SendState.setBuffer_buffers, Function.update_self, hconn]
    rfl
  · rw [Function.update_of_ne hne.symm, Function.update_self, hs, List.erase_cons_head]
  · rw [inSlot_append hbuf]
    by_cases hbb : b' = b
    · simp [hbb, hin]
    · rw [InSlot, popped, SendState.setBuffer_buffers, Function.update_of_ne hbb,
        mem_deleted h.slots hb]
      simp [hbb, InSlot]

theorem expireSlot_moves (cfg : SendConfig) (h : RingHolds st s) (hs : s st.ring.idx = xs)
    (hfuel : xs.length < fuel) (hcur : st.ring.currentTime ≠ 0) (now : UInt64) (retransmits : ℕ) :
    ∃ st' s' retransmits', expireSlot cfg now fuel retransmits st = some (st', retransmits') ∧
      SlotExpired cfg now st st' s s' := by
  induction xs generalizing st s fuel retransmits with
  | nil =>
    obtain ⟨fuel, rfl⟩ := Nat.exists_eq_add_one_of_ne_zero (Nat.ne_zero_of_lt hfuel)
    refine ⟨st, s, retransmits, by rw [expireSlot, pop_nil h.slots hs], h, rfl, rfl, rfl,
      fun _ => rfl, fun _ => Iff.rfl, fun _ _ => rfl, ?_⟩
    rw [hs]
    exact fun b hb => absurd hb List.not_mem_nil
  | cons b xs ih =>
    obtain ⟨fuel, rfl⟩ := Nat.exists_eq_add_one_of_ne_zero (Nat.ne_zero_of_lt hfuel)
    have hb : b ∈ s st.ring.idx := by simp [hs]
    have hnodup : (b :: xs).Nodup := hs ▸ h.slots.nodup _
    obtain ⟨c, hc⟩ := Option.isSome_iff_exists.mp (h.slotOf _ b hb).2.2.2
    obtain ⟨s₁, h₁, hs₁, hin₁⟩ := resend_spec cfg h hs hcur hc now
    obtain ⟨slot, hslot, heq⟩ := resend_eq cfg hcur now c b
    -- The state after the pass, of which only the links and the packet are new.
    have hbuf : (resend cfg now c b st).buffers = Function.update st.buffers b
        { st.buffers b with
          nRetry := (st.buffers b).nRetry + 1, unackQueueRingSlot := slot } := by rw [heq]
    have hring : (resend cfg now c b st).ring.idx = st.ring.idx ∧
        (resend cfg now c b st).ring.currentTime = st.ring.currentTime ∧
        (resend cfg now c b st).conns = st.conns := by
      rw [heq]
      exact ⟨rfl, rfl, rfl⟩
    obtain ⟨st', s', retransmits', hst', h'⟩ := ih h₁ (by rw [hring.1, hs₁])
      (by simpa using hfuel) (by rw [hring.2.1]; exact hcur) (retransmits + 1)
    have hpass : ∀ b', b' ≠ b → (resend cfg now c b st).buffers b' = st.buffers b' :=
      fun b' hbb => by
      rw [hbuf, Function.update_of_ne hbb]
    have hmem : ∀ b', b' ∈ s₁ (resend cfg now c b st).ring.idx ↔ b' ∈ xs := fun b' => by
      rw [hring.1, hs₁]
    have hlast := h'.kept b fun hbx => (List.nodup_cons.mp hnodup).1 ((hmem b).mp hbx)
    refine ⟨st', s', retransmits', ?_, h'.holds, h'.current.trans hring.2.1,
      h'.idx.trans hring.1, h'.conns.trans hring.2.2, fun b' => (h'.conn b').trans ?_,
      fun b' => (h'.inSlot b').trans (hin₁ b'), fun b' hb' => ?_, fun b' hb' => ?_⟩
    · rw [expireSlot, (pop_cons h.slots hs).1]
      simp only [SendState.setBuffer_buffers, Function.update_self, hc, Option.bind_some]
      exact hst'
    · rw [hbuf]
      by_cases hbb : b' = b
      · rw [hbb, Function.update_self]
      · rw [Function.update_of_ne hbb]
    · rw [hs, List.mem_cons, not_or] at hb'
      rw [h'.kept b' fun hbx => hb'.2 ((hmem b').mp hbx), hpass b' hb'.1]
    · rw [hs, List.mem_cons] at hb'
      obtain rfl | hb' := hb'
      · -- The packet itself goes to another slot, and is not in the rest of this one.
        refine ⟨?_, fun c' hc' => ?_⟩
        · rw [hlast, hbuf, Function.update_self]
        · rw [Option.mem_def, hc, Option.some_inj] at hc'
          rw [hlast, hbuf, Function.update_self, ← hc']
          exact congrArg Nat.cast hslot
      · have hbb : b' ≠ b := fun heq => (List.nodup_cons.mp hnodup).1 (heq ▸ hb')
        have hback := h'.putBack b' ((hmem b').mpr hb')
        refine ⟨?_, fun c' hc' => ?_⟩
        · rw [hback.retry, hpass b' hbb]
        · rw [hback.slot c' (by rw [hpass b' hbb]; exact hc'), hring.2.2,
            ringSlot_congr cfg hring.1 hring.2.1]

/-! ## The turns of the loop -/

/-- How many turns the loop makes. -/
def turnsMade (cfg : SendConfig) (st : SendState n F) (now : UInt64) (turns : ℕ) : ℕ :=
  min turns ((now.toNat - st.ring.currentTime.toNat) / span cfg)

/-- How many turns of the loop come before the slot of the packet. -/
def ahead (st : SendState n F) (b : ℕ) : ℕ :=
  slotsAhead st.ring.idx (st.buffers b).unackQueueRingSlot.toNat

/-- The time at which a packet is in the ring. -/
def packetTime (cfg : SendConfig) (st : SendState n F) (b : ℕ) : ℕ :=
  slotTime cfg st.ring (st.buffers b).unackQueueRingSlot

/-- The period for which a packet was put back last. -/
def lastPeriod (cfg : SendConfig) (st : SendState n F) (c : Fin n) (b : ℕ) : ℕ :=
  (computeExpirationPeriod cfg (st.conns c) (st.buffers b).nRetry).toNat

structure LoopExpired (cfg : SendConfig) (now : UInt64) (turns m : ℕ) (st st' : SendState n F)
    (s s' : ℤ → List ℕ) : Prop where
  holds : RingHolds st' s'
  current : st'.ring.currentTime.toNat = st.ring.currentTime.toNat + m * span cfg
  idx : st'.ring.idx = (st.ring.idx + m) % 2000
  conns : st'.conns = st.conns
  conn : ∀ b, (st'.buffers b).conn = (st.buffers b).conn
  inSlot : ∀ b, InSlot st' s' b ↔ InSlot st s b
  kept : ∀ b, (InSlot st s b → m ≤ ahead st b) → st'.buffers b = st.buffers b
  again : ∀ b, InSlot st s b → ahead st b < m →
    ∃ j, 1 ≤ j ∧ j ≤ turns ∧ (st'.buffers b).nRetry = (st.buffers b).nRetry + UInt32.ofNat j
  placed : ∀ b, InSlot st s b → ahead st b < m →
    now.toNat < st.ring.currentTime.toNat + ringLength cfg → ∀ c ∈ (st.buffers b).conn,
      packetTime cfg st' b ≤ now.toNat + lastPeriod cfg st' c b ∧
      (now.toNat + lastPeriod cfg st' c b < st.ring.currentTime.toNat + ringLength cfg →
        now.toNat + lastPeriod cfg st' c b < packetTime cfg st' b + span cfg)

/-- A packet that the turns have not come to is at the same time as before. -/
theorem packetTime_eq {m : ℕ} (h : RingHolds st s) (hb : InSlot st s b)
    (hcur : st'.ring.currentTime.toNat = st.ring.currentTime.toNat + m * span cfg)
    (hidx : st'.ring.idx = (st.ring.idx + m) % 2000) (hbuf : st'.buffers b = st.buffers b)
    (hm : m ≤ ahead st b) : packetTime cfg st' b = packetTime cfg st b := by
  have hslot := h.slot_lt hb
  have hlt := h.idx
  have hahead : slotsAhead st'.ring.idx (st.buffers b).unackQueueRingSlot.toNat + m =
      ahead st b := by
    rw [ahead, slotsAhead] at hm ⊢
    rw [hidx, slotsAhead]
    omega
  rw [packetTime, packetTime, slotTime, slotTime, hbuf, hcur]
  rw [← ahead, ← hahead]
  ring

/-- The state at the end of a turn. -/
def nextSlot (cfg : SendConfig) (st : SendState n F) : SendState n F :=
  { st with ring := { st.ring with
    currentTime := st.ring.currentTime + timerSpan cfg
    idx := (st.ring.idx + 1) % 2000 } }

/-- A packet is put back at most its period and more than one slot ahead. -/
theorem packetTime_putBack (hrto : cfg.minRto ≤ 1000) (h : RingHolds st s)
    (hle : st.ring.currentTime.toNat + span cfg ≤ now.toNat) (hnow : now.toNat < 2 ^ 63)
    (hback : PutBack cfg now st st' b) (hc : c ∈ (st.buffers b).conn)
    (hconns : st'.conns = st.conns) (hidx : st'.ring.idx = st.ring.idx)
    (hcur : st'.ring.currentTime = st.ring.currentTime) :
    packetTime cfg st' b ≤ now.toNat + lastPeriod cfg st' c b ∧
    st.ring.currentTime.toNat + span cfg ≤ packetTime cfg st' b ∧
    (now.toNat < st.ring.currentTime.toNat + ringLength cfg →
      now.toNat < packetTime cfg st' b + span cfg) ∧
    (now.toNat + lastPeriod cfg st' c b < st.ring.currentTime.toNat + ringLength cfg →
      now.toNat + lastPeriod cfg st' c b < packetTime cfg st' b + span cfg) := by
  have hperiod := computeExpirationPeriod_le hrto (st.conns c) (st'.buffers b).nRetry
  have hlast : lastPeriod cfg st' c b =
      (computeExpirationPeriod cfg (st.conns c) (st'.buffers b).nRetry).toNat := by
    rw [lastPeriod, hconns]
  have htime : packetTime cfg st' b = st.ring.currentTime.toNat +
      distance cfg (now.toNat + lastPeriod cfg st' c b - st.ring.currentTime.toNat) * span cfg := by
    rw [packetTime, hback.slot c hc, hlast, ← slotTime_ringSlot h.idx (by omega) (by omega),
      slotTime, slotTime, hidx, hcur]
  have hpos := span_pos cfg
  generalize hdiff : now.toNat + lastPeriod cfg st' c b - st.ring.currentTime.toNat = diff at htime
  have hspan : span cfg ≤ diff := by omega
  have hdist := distance_mul_le hspan
  have hone : span cfg ≤ distance cfg diff * span cfg :=
    Nat.le_mul_of_pos_left _ (one_le_distance cfg diff)
  refine ⟨by omega, by omega, fun hlt => ?_, fun hlt => ?_⟩
  · by_cases hreach : diff < ringLength cfg
    · have := lt_distance_mul hreach
      omega
    · rw [distance_of_le (Nat.not_lt.mp hreach)] at htime
      rw [ringLength] at hlt
      omega
  · have := lt_distance_mul (show diff < ringLength cfg by omega)
    omega

theorem ahead_eq_zero (h : RingHolds st s) (hb : InSlot st s b) :
    ahead st b = 0 ↔ b ∈ s st.ring.idx := by
  have hslot := h.slotOf _ b hb
  rw [ahead, slotsAhead_eq_zero h.idx (h.slot_lt hb), h.mem_iff]
  constructor
  · intro heq
    exact ⟨hb, by omega⟩
  · rintro ⟨-, heq⟩
    rw [heq, Int.toNat_natCast]

/-- A packet whose time has not passed is not reached. -/
theorem turnsMade_le_ahead (h : now.toNat < packetTime cfg st b + span cfg)
    (hle : st.ring.currentTime.toNat ≤ now.toNat) (turns : ℕ) :
    turnsMade cfg st now turns ≤ ahead st b := by
  refine (min_le_right _ _).trans
    (Nat.lt_succ_iff.mp ((Nat.div_lt_iff_lt_mul (span_pos cfg)).mpr ?_))
  rw [packetTime, slotTime, ← ahead] at h
  rw [Nat.succ_mul]
  omega

/-- A packet whose time has passed is reached, if the loop makes enough turns. -/
theorem ahead_lt_turnsMade (h : packetTime cfg st b + span cfg ≤ now.toNat)
    (hturns : ahead st b < turns) : ahead st b < turnsMade cfg st now turns := by
  refine lt_min hturns (Nat.succ_le_iff.mp ((Nat.le_div_iff_mul_le (span_pos cfg)).mpr ?_))
  rw [packetTime, slotTime, ← ahead] at h
  rw [Nat.succ_mul]
  omega

theorem turnsMade_succ (hcur : st'.ring.currentTime.toNat = st.ring.currentTime.toNat + span cfg)
    (hle : st.ring.currentTime.toNat + span cfg ≤ now.toNat) (turns : ℕ) :
    turnsMade cfg st now (turns + 1) = turnsMade cfg st' now turns + 1 := by
  have hdiv : (now.toNat - st.ring.currentTime.toNat) / span cfg =
      (now.toNat - st'.ring.currentTime.toNat) / span cfg + 1 := by
    rw [← Nat.add_div_right _ (span_pos cfg), hcur]
    congr 1
    omega
  rw [turnsMade, turnsMade, hdiv]
  omega

theorem LoopExpired.refl (h : RingHolds st s) (turns : ℕ) :
    LoopExpired cfg now turns 0 st st s s where
  holds := h
  current := by omega
  idx := (Nat.mod_eq_of_lt h.idx).symm
  conns := rfl
  conn _ := rfl
  inSlot _ := Iff.rfl
  kept _ _ := rfl
  again _ _ hlt := absurd hlt (Nat.not_lt_zero _)
  placed _ _ hlt := absurd hlt (Nat.not_lt_zero _)

theorem RingHolds.nextSlot (h : RingHolds st s) (cfg : SendConfig) :
    RingHolds (nextSlot cfg st) s :=
  h.congr rfl (Nat.mod_lt _ (by omega)) fun _ _ => ⟨rfl, rfl⟩

/-- One turn, and the turns behind it. -/
theorem LoopExpired.turn {st₁ : SendState n F} {s₁ : ℤ → List ℕ} {m : ℕ} (hrto : cfg.minRto ≤ 1000)
    (h : RingHolds st s) (hcur : st.ring.currentTime.toNat + span cfg ≤ now.toNat)
    (hnow : now.toNat < 2 ^ 63) (h₁ : SlotExpired cfg now st st₁ s s₁)
    (h' : LoopExpired cfg now turns m (nextSlot cfg st₁) st' s₁ s')
    (hm : m = turnsMade cfg (nextSlot cfg st₁) now turns) :
    LoopExpired cfg now (turns + 1) (m + 1) st st' s s' := by
  have hidx := h.idx
  have hspan : (timerSpan cfg).toNat = span cfg := timerSpan_toNat
  have hcur₂ : (nextSlot cfg st₁).ring.currentTime.toNat =
      st.ring.currentTime.toNat + span cfg := by
    rw [nextSlot, UInt64.toNat_add, h₁.current, hspan, Nat.mod_eq_of_lt (by omega)]
  have hidx₂ : (nextSlot cfg st₁).ring.idx = (st.ring.idx + 1) % 2000 := by rw [nextSlot, h₁.idx]
  -- A packet of another slot is one slot nearer.
  have hnear : ∀ b, InSlot st s b → b ∉ s st.ring.idx →
      ahead (nextSlot cfg st₁) b + 1 = ahead st b := by
    intro b hb hmem
    have hne : (st.buffers b).unackQueueRingSlot.toNat ≠ st.ring.idx := fun heq =>
      hmem ((ahead_eq_zero h hb).mp ((slotsAhead_eq_zero h.idx (h.slot_lt hb)).mpr heq))
    rw [ahead, hidx₂, ahead, ← slotsAhead_next h.idx (h.slot_lt hb) hne]
    exact congrArg (fun buf : ICBuffer n =>
      slotsAhead _ buf.unackQueueRingSlot.toNat + 1) (h₁.kept b hmem)
  refine ⟨h'.holds, ?_, ?_, h'.conns.trans h₁.conns, fun b => (h'.conn b).trans (h₁.conn b),
    fun b => (h'.inSlot b).trans (h₁.inSlot b), fun b hb => ?_, fun b hb hlt => ?_,
    fun b hb hlt hlen c hc => ?_⟩
  · rw [h'.current, hcur₂]
    ring
  · rw [h'.idx, hidx₂]
    omega
  · by_cases hin : InSlot st s b
    · have hahead := hb hin
      have hmem : b ∉ s st.ring.idx := fun hmem => by
        rw [(ahead_eq_zero h hin).mpr hmem] at hahead
        omega
      have hnext := hnear b hin hmem
      rw [h'.kept b fun _ => by omega]
      exact h₁.kept b hmem
    · rw [h'.kept b fun hin' => absurd ((h₁.inSlot b).mp hin') hin]
      exact h₁.kept b fun hmem => hin (h.mem_iff.mp hmem).1
  · by_cases hmem : b ∈ s st.ring.idx
    · have hretry := (h₁.putBack b hmem).retry
      by_cases hrest : m ≤ ahead (nextSlot cfg st₁) b
      · refine ⟨1, le_rfl, by omega, ?_⟩
        rw [h'.kept b fun _ => hrest]
        exact hretry
      · obtain ⟨j, hj, hj', hagain⟩ := h'.again b ((h₁.inSlot b).mpr hb) (Nat.not_le.mp hrest)
        refine ⟨j + 1, by omega, by omega, ?_⟩
        rw [hagain, UInt32.ofNat_add, add_comm (UInt32.ofNat j), ← add_assoc]
        exact congrArg (· + UInt32.ofNat j) hretry
    · have hnext := hnear b hb hmem
      obtain ⟨j, hj, hj', hagain⟩ := h'.again b ((h₁.inSlot b).mpr hb) (by omega)
      refine ⟨j, hj, by omega, ?_⟩
      rw [hagain]
      exact congrArg (fun buf : ICBuffer n => buf.nRetry + UInt32.ofNat j) (h₁.kept b hmem)
  · have hle₂ : (nextSlot cfg st₁).ring.currentTime.toNat ≤ now.toNat := by omega
    by_cases hmem : b ∈ s st.ring.idx
    · -- It is put back for a time that the remaining turns do not come to.
      obtain ⟨hle, hlow, hlate, hearly⟩ :=
        packetTime_putBack hrto h hcur hnow (h₁.putBack b hmem) hc
        h₁.conns h₁.idx h₁.current
      have hin₁ : InSlot st₁ s₁ b := (h₁.inSlot b).mpr hb
      have hfar : 1 ≤ ahead st₁ b := by
        refine Nat.one_le_iff_ne_zero.mpr fun hzero => ?_
        have hpos := span_pos cfg
        rw [packetTime, slotTime, ← ahead, hzero, h₁.current] at hlow
        omega
      have htime₂ : packetTime cfg (nextSlot cfg st₁) b = packetTime cfg st₁ b := by
        refine packetTime_eq h₁.holds hin₁ ?_ ?_ rfl hfar
        · rw [hcur₂, h₁.current, Nat.one_mul]
        · rfl
      have hrest : m ≤ ahead (nextSlot cfg st₁) b :=
        hm ▸ turnsMade_le_ahead (by rw [htime₂]; exact hlate hlen) hle₂ turns
      have hbuf : st'.buffers b = (nextSlot cfg st₁).buffers b := h'.kept b fun _ => hrest
      have htime : packetTime cfg st' b = packetTime cfg st₁ b :=
        (packetTime_eq (h₁.holds.nextSlot cfg) hin₁ h'.current h'.idx hbuf hrest).trans htime₂
      have hperiod : lastPeriod cfg st' c b = lastPeriod cfg st₁ c b := by
        rw [lastPeriod, h'.conns, hbuf]
        rfl
      rw [htime, hperiod]
      exact ⟨hle, hearly⟩
    · have hnext := hnear b hb hmem
      obtain ⟨hle, hearly⟩ := h'.placed b ((h₁.inSlot b).mpr hb) (by omega) (by omega) c (by
        rw [show (nextSlot cfg st₁).buffers b = st.buffers b from h₁.kept b hmem]
        exact hc)
      exact ⟨hle, fun hlt => hearly (by omega)⟩

theorem expireLoop_moves (hrto : cfg.minRto ≤ 1000) (h : RingHolds st s)
    (hcur : st.ring.currentTime ≠ 0) (hle : st.ring.currentTime.toNat ≤ now.toNat)
    (hnow : now.toNat < 2 ^ 63) (turns retransmits : ℕ) :
    ∃ st' s' retransmits', expireLoop cfg now turns retransmits st = some (st', retransmits') ∧
      LoopExpired cfg now turns (turnsMade cfg st now turns) st st' s s' := by
  have hspan : (timerSpan cfg).toNat = span cfg := timerSpan_toNat
  have hpos := span_pos cfg
  have hle' := span_le cfg
  have hsum : (st.ring.currentTime + timerSpan cfg).toNat =
      st.ring.currentTime.toNat + span cfg := by
    rw [UInt64.toNat_add, hspan, Nat.mod_eq_of_lt (by omega)]
  induction turns generalizing st s retransmits with
  | zero => exact ⟨st, s, retransmits, rfl, .refl h 0⟩
  | succ turns ih =>
    rw [expireLoop]
    split_ifs with hturn
    · rw [ge_iff_le, UInt64.le_iff_toNat_le, hsum] at hturn
      obtain ⟨st₁, s₁, retransmits₁, hst₁, h₁⟩ := expireSlot_moves cfg h rfl
        (Nat.lt_add_one _) hcur now retransmits
      have hcur₂ : (nextSlot cfg st₁).ring.currentTime.toNat =
          st.ring.currentTime.toNat + span cfg := by rw [nextSlot, h₁.current, hsum]
      obtain ⟨st', s', retransmits', hst', h'⟩ := ih (h₁.holds.nextSlot cfg) (fun hzero => by
          rw [hzero] at hcur₂
          exact absurd hcur₂ (by change 0 ≠ _; omega)) (by omega) retransmits₁ (by
          rw [UInt64.toNat_add, hspan, Nat.mod_eq_of_lt (by omega)])
      refine ⟨st', s', retransmits', ?_, ?_⟩
      · rw [h.slots.length, Int.toNat_natCast, hst₁]
        exact hst'
      · rw [turnsMade_succ hcur₂ hturn]
        exact .turn hrto h hturn hnow h₁ h' rfl
    · refine ⟨st, s, retransmits, rfl, ?_⟩
      rw [ge_iff_le, UInt64.le_iff_toNat_le, hsum] at hturn
      have hnone : turnsMade cfg st now (turns + 1) = 0 := by
        rw [turnsMade, Nat.div_eq_of_lt (by omega), Nat.min_zero]
      rw [hnone]
      exact .refl h _

/-! ## A check -/

/-- What a check does to the packets of the ring. -/
structure Checked (cfg : SendConfig) (now : UInt64) (st st' : SendState n F)
    (s s' : ℤ → List ℕ) : Prop where
  holds : RingHolds st' s'
  current : st'.ring.currentTime.toNat = now.toNat - now.toNat % span cfg
  conn : ∀ b, (st'.buffers b).conn = (st.buffers b).conn
  inSlot : ∀ b, InSlot st' s' b ↔ InSlot st s b
  other : ∀ b, ¬ InSlot st s b → st'.buffers b = st.buffers b
  resent_iff : ∀ b, InSlot st s b →
    (resent st st' b ↔ packetTime cfg st b + span cfg ≤ now.toNat)
  kept : ∀ b, InSlot st s b → resent st st' b = false →
    packetTime cfg st' b = packetTime cfg st b
  placed : ∀ b, InSlot st s b → resent st st' b →
    now.toNat < st.ring.currentTime.toNat + ringLength cfg → ∀ c ∈ (st.buffers b).conn,
      packetTime cfg st' b ≤ now.toNat + lastPeriod cfg st' c b ∧
      (now.toNat + lastPeriod cfg st' c b < st.ring.currentTime.toNat + ringLength cfg →
        now.toNat + lastPeriod cfg st' c b < packetTime cfg st' b + span cfg)

theorem floor_eq {current : ℕ} (haligned : current % span cfg = 0) (hle : current ≤ now.toNat) :
    current + (now.toNat - current) / span cfg * span cfg = now.toNat - now.toNat % span cfg := by
  obtain ⟨k, rfl⟩ := Nat.dvd_of_mod_eq_zero haligned
  obtain ⟨d, hd⟩ := Nat.exists_eq_add_of_le hle
  have hmod : now.toNat % span cfg = d % span cfg := by rw [hd, Nat.mul_add_mod]
  have hdiv := Nat.div_add_mod' d (span cfg)
  rw [hmod, hd, Nat.add_sub_cancel_left]
  omega

/-- A packet that has been sent again up to 2000 times counts as such. -/
theorem retry_ne {x : UInt32} {j : ℕ} (hj : 1 ≤ j) (hj' : j ≤ 2000) : x + UInt32.ofNat j ≠ x := by
  intro heq
  have hzero : (UInt32.ofNat j).toNat = 0 := by rw [add_eq_left.mp heq]; rfl
  rw [UInt32.toNat_ofNat', Nat.mod_eq_of_lt (by omega)] at hzero
  omega

variable [WindowSize F]

theorem checkExpiration_eq (h : expireLoop cfg now 2000 0 st = some (st', retransmits)) :
    ∃ st'', checkExpiration cfg now st = some st'' ∧ st''.buffers = st'.buffers ∧
      st''.conns = st'.conns ∧
      st''.ring = { st'.ring with currentTime := now - now % timerSpan cfg } := by
  rw [checkExpiration, h, Option.map_some]
  refine ⟨_, rfl, ?_⟩
  dsimp only
  split_ifs
  · exact ⟨rfl, rfl, rfl⟩
  · exact ⟨rfl, rfl, rfl⟩

theorem checkExpiration_moves (hrto : cfg.minRto ≤ 1000) (h : RingHolds st s)
    (hcur : st.ring.currentTime ≠ 0) (haligned : st.ring.currentTime.toNat % span cfg = 0)
    (hle : st.ring.currentTime.toNat ≤ now.toNat) (hnow : now.toNat < 2 ^ 63) :
    ∃ st' s', checkExpiration cfg now st = some st' ∧ Checked cfg now st st' s s' := by
  obtain ⟨st₁, s', retransmits, hst₁, h₁⟩ := expireLoop_moves hrto h hcur hle hnow 2000 0
  obtain ⟨st', hst', hbuf, hconns, hring⟩ := checkExpiration_eq hst₁
  have hspan : (timerSpan cfg).toNat = span cfg := timerSpan_toNat
  have hfloor := floor_eq haligned hle
  have hcur' : st'.ring.currentTime.toNat = now.toNat - now.toNat % span cfg := by
    rw [hring, UInt64.toNat_sub_of_le _ _ (UInt64.le_iff_toNat_le.mpr (by
      rw [UInt64.toNat_mod]; exact Nat.mod_le _ _)), UInt64.toNat_mod, hspan]
  generalize hm : turnsMade cfg st now 2000 = m at h₁
  rw [turnsMade] at hm
  -- Without a jump of the current time, the loop has brought the ring to it.
  have hsame : m < 2000 → ∀ b, packetTime cfg st' b = packetTime cfg st₁ b := by
    intro hlt b
    have hcur₁ : st'.ring.currentTime.toNat = st₁.ring.currentTime.toNat := by
      rw [hcur', h₁.current, ← hfloor, ← hm, min_eq_right (by omega)]
    rw [packetTime, packetTime, slotTime, slotTime, hcur₁, hbuf, hring]
  have hahead : ∀ b, InSlot st s b →
      (ahead st b < m ↔ packetTime cfg st b + span cfg ≤ now.toNat) := by
    intro b hb
    have hlt : ahead st b < 2000 := slotsAhead_lt _ _
    refine ⟨fun hreach => ?_, fun hdue => ?_⟩
    · by_contra hdue
      have := turnsMade_le_ahead (Nat.not_le.mp hdue) hle 2000
      rw [turnsMade] at this
      omega
    · have := ahead_lt_turnsMade hdue hlt
      rw [turnsMade] at this
      omega
  have hresent : ∀ b, InSlot st s b → (resent st st' b ↔ ahead st b < m) := by
    intro b hb
    rw [resent, bne_iff_ne, hbuf]
    refine ⟨fun hne => ?_, fun hlt => ?_⟩
    · by_contra hlt
      exact hne (by rw [h₁.kept b fun _ => Nat.not_lt.mp hlt])
    · obtain ⟨j, hj, hj', hagain⟩ := h₁.again b hb hlt
      rw [hagain]
      exact retry_ne hj hj'
  refine ⟨st', s', hst', ?_, hcur', fun b => by rw [hbuf, h₁.conn], fun b => ?_, fun b hb => ?_,
    fun b hb => (hresent b hb).trans (hahead b hb), fun b hb hno => ?_,
    fun b hb hyes hlen c hc => ?_⟩
  · exact h₁.holds.congr (by rw [hring]) (by rw [hring]; exact h₁.holds.idx) fun _ _ => by
      rw [hbuf]; exact ⟨rfl, rfl⟩
  · rw [InSlot, hbuf]
    exact h₁.inSlot b
  · rw [hbuf]
    exact h₁.kept b fun hin => absurd hin hb
  · have hlt : m ≤ ahead st b := by
      by_contra hlt
      rw [(hresent b hb).mpr (Nat.not_le.mp hlt)] at hno
      cases hno
    have hlt' : ahead st b < 2000 := slotsAhead_lt _ _
    rw [hsame (by omega), packetTime_eq h hb h₁.current h₁.idx (h₁.kept b fun _ => hlt) hlt]
  · have hlt : (now.toNat - st.ring.currentTime.toNat) / span cfg < 2000 := by
      rw [Nat.div_lt_iff_lt_mul (span_pos cfg), ← ringLength]
      omega
    have hplaced := h₁.placed b hb ((hresent b hb).mp hyes) hlen c hc
    have hperiod : lastPeriod cfg st' c b = lastPeriod cfg st₁ c b := by
      rw [lastPeriod, hconns, hbuf]
      rfl
    rw [hsame (by omega), hperiod]
    exact hplaced

end Hdb.Interconnect
