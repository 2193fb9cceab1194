import Hdb.Interconnect.SendInvariant
import Hdb.Lib.Run

/-!
# The unack queue ring as a timer wheel

The ring gives each packet a slot for the time at which it is to be sent again. A slot stands for a
time only relative to the current time and slot of the ring: `slotTime` is that time. The current
time lags behind the clock, and a check moves it on.

**The system** (`ringAct`). Packets are put into the ring, acknowledged, and checked for expiration,
at times that do not decrease; the round trip times of the connections change in between.

**The history** (`RingRun.puts`). For each packet in the ring, when and for how long it was last
put, and how far the current time was behind then. `Placed` says what the slot has to do with it,
and `RingInv` that every packet is placed.
-/

namespace Hdb.Interconnect

open LinkedLists

variable {n : ℕ} {F : Type}

/-- The settings, with the limit of `gp_interconnect_min_rto`. -/
structure RingConfig extends SendConfig where
  minRto_le : minRto ≤ 1000

/-- `TIMER_SPAN` and `UNACK_QUEUE_RING_LENGTH`. -/
def span (cfg : SendConfig) : ℕ := cfg.timerPeriod * 1000

def ringLength (cfg : SendConfig) : ℕ := 2000 * span cfg

/-- The last time that a packet was put into the ring. -/
structure Put where
  time : ℕ
  period : ℕ
  /-- How far the current time of the ring was behind, before the call. -/
  lag : ℕ
  /-- It was put back by a check. -/
  again : Bool
  deriving DecidableEq

/-- The expiration time is within one turn of the ring. -/
def Put.InReach (cfg : SendConfig) (put : Put) : Prop := put.lag + put.period < ringLength cfg

/-- The time from which on a check sends the packet again. -/
def Put.due (cfg : SendConfig) (put : Put) : ℕ :=
  put.time + put.period + if put.lag + put.period < span cfg then 2 * span cfg else span cfg

structure RingRun (n : ℕ) (F : Type) where
  sender : SendState n F
  /-- `none` for a packet that is not in the ring. -/
  puts : ℕ → Option Put
  clock : ℕ

inductive RingAction (n : ℕ)
  /-- A packet of a connection, which has been sent `retry` times again. -/
  | put (b : ℕ) (c : Fin n) (retry : UInt32) (expTime now : UInt64)
  | acknowledge (b : ℕ) (left : ℤ)
  | checkExpiration (now : UInt64)
  /-- The round trip times change. -/
  | measure (conns : Fin n → MotionConn)

/-- A packet has been sent again on the way from one state to the other. -/
def resent (st st' : SendState n F) (b : ℕ) : Bool :=
  (st'.buffers b).nRetry != (st.buffers b).nRetry

section System

variable [WindowSize F] (cfg : SendConfig)

/-- What a check records about the packets that it sends again. -/
def recordCheck (r : RingRun n F) (now : UInt64) (st : SendState n F) : RingRun n F where
  sender := st
  puts b :=
    if resent r.sender st b then
      (st.buffers b).conn.map fun c =>
        ⟨now.toNat, (computeExpirationPeriod cfg (st.conns c) (st.buffers b).nRetry).toNat,
          now.toNat - r.sender.ring.currentTime.toNat, true⟩
    else r.puts b
  clock := now.toNat

def ringAct (r : RingRun n F) : RingAction n → Option (RingRun n F)
  | .put b c retry expTime now =>
    let st := putIntoUnackQueueRing cfg b expTime now
      (r.sender.setBuffer b fun buf => { buf with conn := some c, nRetry := retry })
    some
      { sender := st
        puts := Function.update r.puts b
          (some ⟨now.toNat, expTime.toNat, now.toNat - st.ring.currentTime.toNat, false⟩)
        clock := now.toNat }
  | .acknowledge b left =>
    some { r with sender := leaveRing b left r.sender, puts := Function.update r.puts b none }
  | .checkExpiration now => (checkExpiration cfg now r.sender).map (recordCheck cfg r now)
  | .measure conns => some { r with sender := { r.sender with conns } }

/-- The clock does not go back. It counts microseconds, and has counted at least one timer
period. -/
structure ClockOk (r : RingRun n F) (now : UInt64) : Prop where
  clock_le : r.clock ≤ now.toNat
  span_le : span cfg ≤ now.toNat
  now_lt : now.toNat < 2 ^ 63

/-- When the functions are called. The condition on a check is its assertion. -/
def ringEnabled (r : RingRun n F) : RingAction n → Prop
  | .put b _ _ expTime now =>
    r.puts b = none ∧ cfg.minRto * 1000 ≤ expTime.toNat ∧ expTime.toNat ≤ 1000000 ∧
      ClockOk cfg r now
  | .acknowledge b _ => (r.puts b).isSome
  | .checkExpiration now => r.sender.ring.currentTime ≠ 0 ∧ ClockOk cfg r now
  | .measure _ => True

/-- A ring as `initUnackQueueRing` leaves it, with any buffers and connections. -/
def ringStart (st : SendState n F) : RingRun n F where
  sender := { st with ring := (sendInit cfg : SendState n F).ring }
  puts _ := none
  clock := 0

end System

/-! ## Slots and times -/

def slotsAhead (idx slot : ℕ) : ℕ := (slot + 2000 - idx) % 2000

/-- The time that a slot stands for. -/
def slotTime (cfg : SendConfig) (ring : UnackQueueRing) (slot : ℤ) : ℕ :=
  ring.currentTime.toNat + slotsAhead ring.idx slot.toNat * span cfg

/-- How many slots ahead a packet is put whose expiration time is `diff` from the current time. -/
def distance (cfg : SendConfig) (diff : ℕ) : ℕ :=
  (if ringLength cfg ≤ diff then ringLength cfg - 1 else if diff < span cfg then span cfg
    else diff) /
    span cfg

variable {cfg : SendConfig} {ring : UnackQueueRing} {expTime now : UInt64} {diff : ℕ} {slot : ℤ}

theorem span_pos (cfg : SendConfig) : 0 < span cfg :=
  Nat.mul_pos cfg.timerPeriod_pos (by omega)

theorem span_le (cfg : SendConfig) : span cfg ≤ 100000 :=
    Nat.mul_le_mul_right 1000 cfg.timerPeriod_le

theorem slotsAhead_lt (idx slot : ℕ) : slotsAhead idx slot < 2000 := Nat.mod_lt _ (by omega)

/-- A slot is less than a turn of the ring ahead. -/
theorem slotTime_le (cfg : SendConfig) (ring : UnackQueueRing) (slot : ℤ) :
    slotTime cfg ring slot + span cfg ≤ ring.currentTime.toNat + ringLength cfg := by
  have hmul : (slotsAhead ring.idx slot.toNat + 1) * span cfg ≤ 2000 * span cfg :=
    Nat.mul_le_mul_right _ (slotsAhead_lt _ _)
  rw [slotTime, ringLength, Nat.add_assoc, ← Nat.succ_mul]
  exact Nat.add_le_add_left hmul _

theorem slotsAhead_add {idx d : ℕ} (hidx : idx < 2000) (hd : d < 2000) :
    slotsAhead idx ((idx + d) % 2000) = d := by
  rw [slotsAhead]
  omega

theorem slotsAhead_eq_zero {idx slot : ℕ} (hidx : idx < 2000) (hslot : slot < 2000) :
    slotsAhead idx slot = 0 ↔ slot = idx := by
  rw [slotsAhead]
  omega

/-- A packet that is not in the current slot comes one slot nearer. -/
theorem slotsAhead_next {idx slot : ℕ} (hidx : idx < 2000) (hslot : slot < 2000)
    (hne : slot ≠ idx) :
    slotsAhead ((idx + 1) % 2000) slot + 1 = slotsAhead idx slot := by
  rw [slotsAhead, slotsAhead]
  omega

theorem distance_lt (cfg : SendConfig) (diff : ℕ) : distance cfg diff < 2000 := by
  have hpos := span_pos cfg
  rw [distance, Nat.div_lt_iff_lt_mul hpos]
  rw [ringLength]
  split_ifs <;> omega

theorem one_le_distance (cfg : SendConfig) (diff : ℕ) : 1 ≤ distance cfg diff := by
  have hpos := span_pos cfg
  rw [distance, Nat.one_le_div_iff hpos]
  rw [ringLength]
  split_ifs <;> omega

/-- A packet is not put behind its expiration time, unless that is less than a slot ahead. -/
theorem distance_mul_le (h : span cfg ≤ diff) : distance cfg diff * span cfg ≤ diff := by
  refine (Nat.div_mul_le_self _ _).trans ?_
  split_ifs <;> omega

theorem distance_of_lt (h : diff < span cfg) : distance cfg diff = 1 := by
  have hpos := span_pos cfg
  rw [distance, if_neg (by rw [ringLength]; omega), if_pos h, Nat.div_self hpos]

/-- Within a turn of the ring, it is put less than a slot before it. -/
theorem lt_distance_mul (h : diff < ringLength cfg) :
    diff < distance cfg diff * span cfg + span cfg := by
  have hpos := span_pos cfg
  rw [distance, if_neg (Nat.not_le.mpr h)]
  split_ifs with hlt
  · omega
  · exact Nat.lt_div_mul_add hpos

theorem distance_of_le (h : ringLength cfg ≤ diff) : distance cfg diff = 1999 := by
  have hpos := span_pos cfg
  rw [distance, if_pos h, ringLength, Nat.div_eq_iff hpos]
  omega

/-- The slot of a packet, in numbers that do not wrap around. -/
theorem ringSlot_eq (hidx : ring.idx < 2000) (hle : ring.currentTime.toNat ≤ now.toNat)
    (hsum : now.toNat + expTime.toNat < 2 ^ 64) :
    ringSlot cfg ring expTime now =
      (ring.idx + distance cfg (now.toNat + expTime.toNat - ring.currentTime.toNat)) % 2000 := by
  have hspan : (timerSpan cfg).toNat = span cfg := timerSpan_toNat
  have hlength : (unackQueueRingLength cfg).toNat = ringLength cfg := unackQueueRingLength_toNat
  have hpos := span_pos cfg
  have hlen : ringLength cfg = 2000 * span cfg := rfl
  have hadd : (now + expTime).toNat = now.toNat + expTime.toNat := by
    rw [UInt64.toNat_add, Nat.mod_eq_of_lt hsum]
  have hdiff : (now + expTime - ring.currentTime).toNat =
      now.toNat + expTime.toNat - ring.currentTime.toNat := by
    rw [UInt64.toNat_sub_of_le _ _ (by rw [UInt64.le_iff_toNat_le]; omega), hadd]
  have hbound := distance_lt cfg (now.toNat + expTime.toNat - ring.currentTime.toNat)
  have hone : (1 : UInt64).toNat = 1 := rfl
  -- The distance that the function divides is the one of `distance`.
  have hdiv : ((if now + expTime - ring.currentTime ≥ unackQueueRingLength cfg then
        unackQueueRingLength cfg - 1
      else if now + expTime - ring.currentTime < timerSpan cfg then timerSpan cfg
      else now + expTime - ring.currentTime) / timerSpan cfg).toNat =
      distance cfg (now.toNat + expTime.toNat - ring.currentTime.toNat) := by
    rw [UInt64.toNat_div, hspan, distance]
    congr 1
    simp only [ge_iff_le, UInt64.le_iff_toNat_le, UInt64.lt_iff_toNat_lt, hlength, hspan, hdiff]
    split_ifs
    · rw [UInt64.toNat_sub_of_le _ _ (by rw [UInt64.le_iff_toNat_le, hlength, hone]; omega),
        hlength, hone]
    · rw [hspan]
    · exact hdiff
  rw [ringSlot, UInt64.toNat_mod, UInt64.toNat_add, UInt64.toNat_ofNat', hdiv,
    Nat.mod_eq_of_lt (show ring.idx < 2 ^ 64 by omega)]
  generalize distance cfg _ = d at hbound ⊢
  rw [Nat.mod_eq_of_lt (show ring.idx + d < 2 ^ 64 by omega)]
  rfl

/-- The time of the slot that a packet is put into. -/
theorem slotTime_ringSlot (hidx : ring.idx < 2000) (hle : ring.currentTime.toNat ≤ now.toNat)
    (hsum : now.toNat + expTime.toNat < 2 ^ 64) :
    slotTime cfg ring (ringSlot cfg ring expTime now) = ring.currentTime.toNat +
      distance cfg (now.toNat + expTime.toNat - ring.currentTime.toNat) * span cfg := by
  rw [slotTime, ringSlot_eq hidx hle hsum, Int.toNat_natCast,
    slotsAhead_add hidx (distance_lt cfg _)]

/-! ## The packets in the ring -/

/-- The secondary links hold the slots `s`. -/
structure RingHolds (st : SendState n F) (s : ℤ → List ℕ) : Prop where
  slots : st.ring.slots.Represents s
  slotOf : ∀ i, ∀ b ∈ s i, (st.buffers b).unackQueueRingSlot = i ∧ 0 ≤ i ∧ i < 2000 ∧
    (st.buffers b).conn.isSome
  idx : st.ring.idx < 2000

/-- The packet is in the slot that it names. -/
def InSlot (st : SendState n F) (s : ℤ → List ℕ) (b : ℕ) : Prop :=
  b ∈ s (st.buffers b).unackQueueRingSlot

/-- What the slot of a packet says about its last put. -/
structure Placed (cfg : SendConfig) (ring : UnackQueueRing) (slot : ℤ) (put : Put) : Prop where
  early : put.InReach cfg → put.time + put.period < slotTime cfg ring slot + span cfg
  late : (put.again → put.lag < ringLength cfg) → slotTime cfg ring slot + span cfg ≤ put.due cfg
  turn : slotTime cfg ring slot + span cfg ≤ put.time + ringLength cfg

structure RingInv (cfg : SendConfig) (r : RingRun n F) (s : ℤ → List ℕ) : Prop where
  holds : RingHolds r.sender s
  inSlot : ∀ b, (r.puts b).isSome ↔ InSlot r.sender s b
  aligned : r.sender.ring.currentTime.toNat % span cfg = 0
  current_le : r.sender.ring.currentTime.toNat ≤ r.clock
  started : r.sender.ring.currentTime = 0 → ∀ b, r.puts b = none
  placed : ∀ b, ∀ put ∈ r.puts b,
    Placed cfg r.sender.ring (r.sender.buffers b).unackQueueRingSlot put

variable {st st' : SendState n F} {s : ℤ → List ℕ} {b b' : ℕ} {i : ℤ} {r : RingRun n F} {put : Put}

theorem RingHolds.mem_iff (h : RingHolds st s) : b ∈ s i ↔
    InSlot st s b ∧ (st.buffers b).unackQueueRingSlot = i := by
  refine ⟨fun hb => ?_, fun ⟨hb, hi⟩ => hi ▸ hb⟩
  have hi := (h.slotOf i b hb).1
  exact ⟨by rwa [InSlot, hi], hi⟩

theorem RingHolds.slot_lt (h : RingHolds st s) (hb : InSlot st s b) :
    (st.buffers b).unackQueueRingSlot.toNat < 2000 := by
  obtain ⟨-, h0, h1, -⟩ := h.slotOf _ b hb
  omega

/-- What the ring does not name can change. -/
theorem RingHolds.congr (h : RingHolds st s) (hslots : st'.ring.slots = st.ring.slots)
    (hidx : st'.ring.idx < 2000)
    (hbuf : ∀ b, InSlot st s b →
      (st'.buffers b).unackQueueRingSlot = (st.buffers b).unackQueueRingSlot ∧
      (st'.buffers b).conn = (st.buffers b).conn) : RingHolds st' s where
  slots := hslots ▸ h.slots
  slotOf i b hb := by
    obtain ⟨hslot, hconn⟩ := hbuf b (h.mem_iff.mp hb).1
    rw [hslot, hconn]
    exact h.slotOf i b hb
  idx := hidx

/-- A packet leaves its slot. -/
theorem RingHolds.delete (h : RingHolds st s) (hb : b ∈ s i) (hslots : st'.ring.slots =
      st.ring.slots.delete i b) (hidx : st'.ring.idx = st.ring.idx)
    (hbuf : st'.buffers = st.buffers) :
    RingHolds st' (Function.update s i ((s i).erase b)) where
  slots := hslots ▸ represents_delete h.slots hb
  slotOf i' b' hb' := by
    rw [hbuf]
    exact h.slotOf i' b' ((mem_deleted h.slots hb).mp hb').1
  idx := hidx ▸ h.idx

/-! ## Putting a packet into the ring -/

theorem putIntoUnackQueueRing_eq (cfg : SendConfig) (b : ℕ) (expTime now : UInt64)
    (hcur : st.ring.currentTime ≠ 0) :
    putIntoUnackQueueRing cfg b expTime now st =
      { st.setBuffer b fun buf =>
          { buf with unackQueueRingSlot := ringSlot cfg st.ring expTime now } with
        ring := { st.ring with
          slots := st.ring.slots.append (ringSlot cfg st.ring expTime now) b } } := by
  rw [putIntoUnackQueueRing, UnackQueueRing.started, if_neg hcur]

/-- The slots after a packet that was in none of them has been put into one. -/
theorem RingHolds.append (h : RingHolds st s) (hb : ∀ i, b ∉ s i) {slot : ℕ} (hslot : slot < 2000)
    (hconn : (st.buffers b).conn.isSome)
    (hslots : st'.ring.slots = st.ring.slots.append slot b) (hidx : st'.ring.idx = st.ring.idx)
    (hbuf : st'.buffers = Function.update st.buffers b
      { st.buffers b with unackQueueRingSlot := slot }) :
    RingHolds st' (Function.update s slot (s slot ++ [b])) where
  slots := hslots ▸ represents_append h.slots hb
  slotOf i b' hb' := by
    rw [hbuf]
    obtain hold | ⟨rfl, rfl⟩ := mem_appended.mp hb'
    · have hne : b' ≠ b := fun heq => hb i (heq ▸ hold)
      rw [Function.update_of_ne hne]
      exact h.slotOf i b' hold
    · rw [Function.update_self]
      exact ⟨rfl, by omega, by omega, hconn⟩
  idx := hidx ▸ h.idx

/-- The others stay in their slots. -/
theorem inSlot_append {slot : ℤ} (hbuf : st'.buffers =
      Function.update st.buffers b { st.buffers b with unackQueueRingSlot := slot }) :
    InSlot st' (Function.update s slot (s slot ++ [b])) b' ↔ b' = b ∨ InSlot st s b' := by
  rw [InSlot, InSlot, mem_appended, hbuf]
  by_cases hbb : b' = b
  · simp [hbb]
  · simp [hbb]

/-- The slot of a packet that was just put. -/
theorem placed_put (hidx : ring.idx < 2000) (hle : ring.currentTime.toNat ≤ now.toNat)
    (hsum : now.toNat + expTime.toNat < 2 ^ 64) :
    Placed cfg ring (ringSlot cfg ring expTime now)
      ⟨now.toNat, expTime.toNat, now.toNat - ring.currentTime.toNat, false⟩ := by
  have hdiff : now.toNat + expTime.toNat - ring.currentTime.toNat =
      now.toNat - ring.currentTime.toNat + expTime.toNat := by omega
  have htime : slotTime cfg ring (ringSlot cfg ring expTime now) = _ :=
    slotTime_ringSlot hidx hle hsum
  rw [hdiff] at htime
  constructor
  · intro hreach
    have hlt := lt_distance_mul hreach
    dsimp only at hlt ⊢
    omega
  · intro _
    rw [htime, Put.due]
    dsimp only
    split_ifs with hshort
    · rw [distance_of_lt hshort]
      omega
    · have hdist := distance_mul_le (Nat.not_lt.mp hshort)
      omega
  · exact (slotTime_le cfg ring _).trans (Nat.add_le_add_right hle _)

end Hdb.Interconnect
