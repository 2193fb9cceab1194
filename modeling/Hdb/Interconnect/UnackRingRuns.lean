import Hdb.Interconnect.SendAccounting
import Hdb.Interconnect.UnackRingExpiry

/-!
# The timer wheel over whole runs

In every run every call returns. A check sends no packet again before its expiration time, if the
packet was put within reach of the ring; and it sends every packet again that is due, unless a check
that came a whole turn of the ring late has put it back.
-/

namespace Hdb.Interconnect

open LinkedLists

variable {n : ℕ} {F : Type} {cfg : SendConfig} {r : RingRun n F} {s : ℤ → List ℕ} {b : ℕ}
  {now : UInt64}

/-! ## The steps -/

theorem Placed.congr {ring ring' : UnackQueueRing} {slot slot' : ℤ} {put : Put}
    (h : Placed cfg ring slot put) (htime : slotTime cfg ring' slot' = slotTime cfg ring slot) :
    Placed cfg ring' slot' put := by
  refine ⟨?_, ?_, ?_⟩
  · rw [htime]
    exact h.early
  · rw [htime]
    exact h.late
  · rw [htime]
    exact h.turn

/-- What the ring does not name can change, and the clock can go on. -/
theorem RingInv.measure (h : RingInv cfg r s) (conns : Fin n → MotionConn) :
    RingInv cfg { r with sender := { r.sender with conns } } s where
  holds := h.holds.congr rfl h.holds.idx fun _ _ => ⟨rfl, rfl⟩
  inSlot := h.inSlot
  aligned := h.aligned
  current_le := h.current_le
  started := h.started
  placed := h.placed

theorem RingInv.acknowledge (h : RingInv cfg r s) (hb : (r.puts b).isSome) (left : ℤ) :
    ∃ s', RingInv cfg
      { r with sender := leaveRing b left r.sender, puts := Function.update r.puts b none } s' := by
  have hin : InSlot r.sender s b := (h.inSlot b).mp hb
  refine ⟨_, h.holds.delete hin rfl rfl rfl, fun b' => ?_, h.aligned, h.current_le,
    fun hzero b' => ?_, fun b' put hput => ?_⟩
  · rw [InSlot, leaveRing, mem_deleted h.holds.slots hin]
    dsimp only
    by_cases hbb : b' = b
    · simp [hbb]
    · rw [Function.update_of_ne hbb, h.inSlot b']
      simp [InSlot, hbb]
  · dsimp only
    by_cases hbb : b' = b
    · rw [hbb, Function.update_self]
    · rw [Function.update_of_ne hbb]
      exact h.started hzero b'
  · dsimp only at hput
    by_cases hbb : b' = b
    · rw [hbb, Function.update_self] at hput
      cases hput
    · rw [Function.update_of_ne hbb] at hput
      exact (h.placed b' put hput).congr rfl

/-- The ring after its clock has been started has a current time up to the clock. -/
theorem RingInv.start (h : RingInv cfg r s) (hok : ClockOk cfg r now) :
    let ring := r.sender.ring.started cfg now
    ring.currentTime ≠ 0 ∧ ring.currentTime.toNat % span cfg = 0 ∧
      ring.currentTime.toNat ≤ now.toNat ∧
      ∀ b, (r.puts b).isSome → ring = r.sender.ring := by
  have hspan : (timerSpan cfg).toNat = span cfg := timerSpan_toNat
  have hpos := span_pos cfg
  have hclock := hok.clock_le
  have hlow := hok.span_le
  dsimp only
  rw [UnackQueueRing.started]
  split_ifs with hzero
  · have hfloor : (now - now % timerSpan cfg).toNat = now.toNat - now.toNat % span cfg := by
      rw [UInt64.toNat_sub_of_le _ _ (UInt64.le_iff_toNat_le.mpr (by
        rw [UInt64.toNat_mod]; exact Nat.mod_le _ _)), UInt64.toNat_mod, hspan]
    have hmod := Nat.mod_lt now.toNat hpos
    refine ⟨fun heq => ?_, ?_, ?_, fun b hb => ?_⟩
    · dsimp only at heq
      rw [heq] at hfloor
      change 0 = _ at hfloor
      omega
    · rw [hfloor]
      exact Nat.sub_mod_eq_zero_of_mod_eq (Nat.mod_mod _ _).symm
    · rw [hfloor]
      omega
    · rw [h.started hzero b] at hb
      cases hb
  · exact ⟨hzero, h.aligned, h.current_le.trans hclock, fun _ _ => rfl⟩

theorem RingInv.put (h : RingInv cfg r s) (hb : r.puts b = none) (hok : ClockOk cfg r now)
    (c : Fin n) (retry : UInt32) {expTime : UInt64} (hexp : expTime.toNat ≤ 1000000) :
    let st := putIntoUnackQueueRing cfg b expTime now
      (r.sender.setBuffer b fun buf => { buf with conn := some c, nRetry := retry })
    ∃ s', RingInv cfg
      { sender := st
        puts := Function.update r.puts b
          (some ⟨now.toNat, expTime.toNat, now.toNat - st.ring.currentTime.toNat, false⟩)
        clock := now.toNat } s' := by
  obtain ⟨hne, haligned, hle, hsame⟩ := h.start hok
  have hnow := hok.now_lt
  have hout : ∀ i, b ∉ s i := fun i hmem => by
    have hin := (h.inSlot b).mpr (h.holds.mem_iff.mp hmem).1
    rw [hb] at hin
    cases hin
  have hidx : (r.sender.ring.started cfg now).idx = r.sender.ring.idx := by
    rw [UnackQueueRing.started]
    split_ifs <;> rfl
  have hslots : (r.sender.ring.started cfg now).slots = r.sender.ring.slots := by
    rw [UnackQueueRing.started]
    split_ifs <;> rfl
  have hlt : (r.sender.ring.started cfg now).idx < 2000 := hidx ▸ h.holds.idx
  obtain ⟨d, -, -, hslot⟩ := ringSlot_ahead cfg (r.sender.ring.started cfg now) hlt expTime now
  -- The packet becomes one of its connection, and then goes to its slot.
  have hset :
    RingHolds (r.sender.setBuffer b fun buf => { buf with conn := some c, nRetry := retry })
      s := by
    refine h.holds.congr rfl h.holds.idx fun b' hb' => ?_
    have hbb : b' ≠ b := fun heq => hout _ (heq ▸ hb')
    rw [SendState.setBuffer_buffers, Function.update_of_ne hbb]
    exact ⟨rfl, rfl⟩
  intro st
  have hslotsOf : st.ring.slots = (r.sender.ring.started cfg now).slots.append
      (ringSlot cfg (r.sender.ring.started cfg now) expTime now) b := rfl
  have hbuf : st.buffers = Function.update
      (r.sender.setBuffer b fun buf => { buf with conn := some c, nRetry := retry }).buffers b
      { (r.sender.setBuffer b fun buf =>
        { buf with conn := some c, nRetry := retry }).buffers b with
        unackQueueRingSlot := ringSlot cfg (r.sender.ring.started cfg now) expTime now } := rfl
  have hholds : RingHolds st _ := hset.append hout (hslot ▸ Nat.mod_lt _ (by omega))
    (by rw [SendState.setBuffer_buffers, Function.update_self]; rfl) (hslots ▸ hslotsOf) hidx hbuf
  have hkept : ∀ b', b' ≠ b → st.buffers b' = r.sender.buffers b' := fun b' hbb => by
    rw [hbuf, Function.update_of_ne hbb, SendState.setBuffer_buffers, Function.update_of_ne hbb]
  refine ⟨_, hholds, fun b' => ?_, haligned, hle, fun hzero => absurd hzero hne,
    fun b' put hput => ?_⟩
  · rw [inSlot_append hbuf]
    dsimp only
    by_cases hbb : b' = b
    · simp [hbb]
    · rw [Function.update_of_ne hbb, h.inSlot b', InSlot, InSlot, SendState.setBuffer_buffers,
        Function.update_of_ne hbb]
      simp [hbb]
  · dsimp only at hput ⊢
    by_cases hbb : b' = b
    · rw [hbb, Function.update_self, Option.mem_some_iff] at hput
      rw [← hput, hbb, hbuf, Function.update_self]
      exact placed_put hlt hle (by omega)
    · rw [Function.update_of_ne hbb] at hput
      rw [hkept b' hbb]
      have hring := hsame b' (Option.isSome_iff_exists.mpr ⟨put, hput⟩)
      refine (h.placed b' put hput).congr ?_
      rw [slotTime, slotTime, ← hring]
      rfl

/-! ## Checks -/

/-- What a check at the time `now` owes a packet that was last put into the ring by `put`. -/
structure OnTime (cfg : SendConfig) (put : Put) (now : ℕ) (again : Bool) : Prop where
  notEarly : put.InReach cfg → again → put.time + put.period ≤ now
  notLate : (put.again → put.lag < ringLength cfg) → put.due cfg ≤ now → again
  turn : put.time + ringLength cfg ≤ now → again

theorem onTime_of_checked {st' : SendState n F} {s' : ℤ → List ℕ} {put : Put}
    (h : RingInv cfg r s) (hcheck : Checked cfg now r.sender st' s s') (hput : put ∈ r.puts b) :
    OnTime cfg put now.toNat (resent r.sender st' b) := by
  have hin : InSlot r.sender s b := (h.inSlot b).mp (Option.isSome_iff_exists.mpr ⟨put, hput⟩)
  have hplaced := h.placed b put hput
  refine ⟨fun hreach hagain => ?_, fun hlag hdue => ?_, fun hturn => ?_⟩
  · exact (hplaced.early hreach).le.trans ((hcheck.resent_iff b hin).mp hagain)
  · exact (hcheck.resent_iff b hin).mpr ((hplaced.late hlag).trans hdue)
  · exact (hcheck.resent_iff b hin).mpr (hplaced.turn.trans hturn)

/-- A packet that is not in the ring is not sent again. -/
theorem Checked.resent_inSlot {st st' : SendState n F} {s' : ℤ → List ℕ}
    (h : Checked cfg now st st' s s') (hagain : resent st st' b) : InSlot st s b := by
  by_contra hin
  rw [resent, bne_iff_ne, h.other b hin] at hagain
  exact hagain rfl

theorem RingInv.check {st' : SendState n F} {s' : ℤ → List ℕ} (h : RingInv cfg r s)
    (hok : ClockOk cfg r now) (hcheck : Checked cfg now r.sender st' s s') :
    RingInv cfg (recordCheck cfg r now st') s' := by
  have hpos := span_pos cfg
  have hlow := hok.span_le
  have hclock := hok.clock_le
  have hle := h.current_le
  have hmod := Nat.mod_lt now.toNat hpos
  refine ⟨hcheck.holds, fun b => ?_, ?_, ?_, fun hzero => ?_, fun b put hput => ?_⟩
  · rw [show InSlot (recordCheck cfg r now st').sender s' b ↔ InSlot r.sender s b from
      hcheck.inSlot b, recordCheck]
    dsimp only
    split_ifs with hagain
    · have hin := hcheck.resent_inSlot hagain
      rw [Option.isSome_map, hcheck.conn b]
      exact iff_of_true (h.holds.slotOf _ b hin).2.2.2 hin
    · exact h.inSlot b
  · rw [recordCheck, hcheck.current]
    exact Nat.sub_mod_eq_zero_of_mod_eq (Nat.mod_mod _ _).symm
  · rw [recordCheck, hcheck.current]
    exact Nat.sub_le _ _
  · have hcur := hcheck.current
    rw [show st'.ring.currentTime = 0 from hzero] at hcur
    change 0 = _ at hcur
    omega
  · rw [recordCheck] at hput ⊢
    dsimp only at hput ⊢
    split_ifs at hput with hagain
    · -- A packet that has been put back.
      have hin := hcheck.resent_inSlot hagain
      obtain ⟨c, hc, rfl⟩ := Option.mem_map.mp hput
      have hplaced := hcheck.placed b hin hagain
      rw [hcheck.conn b] at hc
      refine ⟨fun hreach => ?_, fun hlag => ?_, ?_⟩
      · rw [Put.InReach] at hreach
        dsimp only at hreach
        exact (hplaced (by omega) c hc).2 (by rw [lastPeriod]; omega)
      · have hlag' := hlag rfl
        dsimp only at hlag'
        have hle' := (hplaced (by omega) c hc).1
        rw [packetTime, lastPeriod] at hle'
        rw [Put.due]
        dsimp only
        split_ifs <;> omega
      · have hcur : st'.ring.currentTime.toNat ≤ now.toNat := hcheck.current ▸ Nat.sub_le _ _
        exact (slotTime_le cfg _ _).trans (Nat.add_le_add_right hcur _)
    · have hin : InSlot r.sender s b := (h.inSlot b).mp (Option.isSome_iff_exists.mpr ⟨put, hput⟩)
      exact (h.placed b put hput).congr (hcheck.kept b hin (Bool.eq_false_iff.mpr hagain))

/-! ## Runs -/

variable [WindowSize F]

theorem ringInv_start (cfg : SendConfig) (st : SendState n F) :
    RingInv cfg (ringStart cfg st) fun _ => [] where
  holds := ⟨represents_init, fun _ _ hb => absurd hb List.not_mem_nil, Nat.zero_lt_succ _⟩
  inSlot b := by simp [ringStart, InSlot]
  aligned := Nat.zero_mod _
  current_le := le_refl 0
  started _ _ := rfl
  placed _ _ hput := by cases hput

/-- The check of a run that meets the invariant. -/
theorem RingInv.checked (hrto : cfg.minRto ≤ 1000) (h : RingInv cfg r s)
    (hok : ringEnabled cfg r (.checkExpiration now)) : ∃ st' s',
      ringAct cfg r (.checkExpiration now) = some (recordCheck cfg r now st') ∧
      Checked cfg now r.sender st' s s' := by
  obtain ⟨hcur, hclock⟩ := hok
  obtain ⟨st', s', hst', hcheck⟩ := checkExpiration_moves hrto h.holds hcur h.aligned
    (h.current_le.trans hclock.clock_le) hclock.now_lt
  exact ⟨st', s', by rw [ringAct, hst', Option.map_some], hcheck⟩

theorem ringAct_spec (hrto : cfg.minRto ≤ 1000) (a : RingAction n) (h : ∃ s, RingInv cfg r s)
    (hok : ringEnabled cfg r a) : ∃ r', ringAct cfg r a = some r' ∧ ∃ s, RingInv cfg r' s := by
  obtain ⟨s, h⟩ := h
  cases a with
  | put b c retry expTime now =>
    obtain ⟨hnone, -, hexp, hclock⟩ := hok
    exact ⟨_, rfl, h.put hnone hclock c retry hexp⟩
  | acknowledge b left => exact ⟨_, rfl, h.acknowledge hok left⟩
  | checkExpiration now =>
    obtain ⟨st', s', hst', hcheck⟩ := h.checked hrto hok
    exact ⟨_, hst', s', h.check hok.2 hcheck⟩
  | measure conns => exact ⟨_, rfl, s, h.measure conns⟩

/-- **The timer wheel.** Every call of every run returns, and every check of it is on time. -/
theorem timer_wheel (cfg : RingConfig) (st : SendState n F) (as : List (RingAction n))
    (henabled : Along (ringAct cfg.toSendConfig) (ringEnabled cfg.toSendConfig)
      (ringStart cfg.toSendConfig st) as) :
    ∃ r, run (ringAct cfg.toSendConfig) (ringStart cfg.toSendConfig st) as = some r ∧
      ∀ now, ringEnabled cfg.toSendConfig r (.checkExpiration now) →
        ∃ r', ringAct cfg.toSendConfig r (.checkExpiration now) = some r' ∧
          ∀ b, ∀ put ∈ r.puts b,
            OnTime cfg.toSendConfig put now.toNat (resent r.sender r'.sender b) := by
  obtain ⟨r, hr, s, h⟩ :=
    run_progress (fun _ a h hok => ringAct_spec cfg.minRto_le a h hok) henabled
    ⟨_, ringInv_start cfg.toSendConfig st⟩
  refine ⟨r, hr, fun now hok => ?_⟩
  obtain ⟨st', s', hst', hcheck⟩ := h.checked cfg.minRto_le hok
  exact ⟨_, hst', fun b put hput => onTime_of_checked h hcheck hput⟩

instance instDecidableClockOk (cfg : SendConfig) (r : RingRun n F) (now : UInt64) :
    Decidable (ClockOk cfg r now) :=
  decidable_of_iff (r.clock ≤ now.toNat ∧ span cfg ≤ now.toNat ∧ now.toNat < 2 ^ 63)
    ⟨fun h => ⟨h.1, h.2.1, h.2.2⟩, fun h => ⟨h.1, h.2, h.3⟩⟩

instance instDecidableRingEnabled (cfg : SendConfig) (r : RingRun n F) (a : RingAction n) :
    Decidable (ringEnabled cfg r a) :=
  match a with
  | .put b _ _ expTime now => inferInstanceAs (Decidable (r.puts b = none ∧
      cfg.minRto * 1000 ≤ expTime.toNat ∧ expTime.toNat ≤ 1000000 ∧ ClockOk cfg r now))
  | .acknowledge b _ => inferInstanceAs (Decidable (r.puts b).isSome)
  | .checkExpiration now =>
    inferInstanceAs (Decidable (r.sender.ring.currentTime ≠ 0 ∧ ClockOk cfg r now))
  | .measure _ => inferInstanceAs (Decidable True)

theorem fastRetry_depth : 1 ≤ 2 := by decide

theorem fastRetry_minRto : 1 ≤ 1000 := by decide

/-- The settings with a given timer period, and the smallest `gp_interconnect_min_rto`. -/
def fastRetry (timerPeriod : ℕ) (hpos : 1 ≤ timerPeriod) (hle : timerPeriod ≤ 100) : RingConfig :=
  ⟨⟨timerPeriod, 1, 20, 4, 2, hpos, hle, fastRetry_depth⟩, fastRetry_minRto⟩

/-- Two packets, of which the first is acknowledged, and a check that sends the other again. -/
def wheelCalls : List (RingAction 1) :=
  [.put 0 0 0 20000 1000000, .put 1 0 0 30000 1001000, .acknowledge 0 1, .checkExpiration 1050000]

theorem timer_wheel_two_packets :
    ∃ r, run (ringAct (fastRetry 5 (by decide) (by decide)).toSendConfig)
        (ringStart (fastRetry 5 (by decide) (by decide)).toSendConfig
          (sendInit exampleConfig : SendState 1 ℚ)) wheelCalls = some r ∧
      ∀ now, ringEnabled (fastRetry 5 (by decide) (by decide)).toSendConfig r
          (.checkExpiration now) →
        ∃ r', ringAct (fastRetry 5 (by decide) (by decide)).toSendConfig r
            (.checkExpiration now) = some r' ∧
          ∀ b, ∀ put ∈ r.puts b, OnTime (fastRetry 5 (by decide) (by decide)).toSendConfig put
            now.toNat (resent r.sender r'.sender b) :=
  timer_wheel (fastRetry 5 (by decide) (by decide)) (sendInit exampleConfig) wheelCalls
    (by decide +kernel)

/-- The last put of a packet and whether a check sends it again, after some calls that are
enabled. -/
def checkedAfter (cfg : SendConfig) (as : List (RingAction 1)) (now : UInt64) (b : ℕ) :
    Option (Put × Bool) :=
  let start : RingRun 1 ℚ := ringStart cfg (sendInit cfg)
  if Along (ringAct cfg) (ringEnabled cfg) start (as ++ [.checkExpiration now]) then
    (run (ringAct cfg) start as).bind fun r =>
      (ringAct cfg r (.checkExpiration now)).bind fun r' =>
        (r.puts b).map fun put => (put, resent r.sender r'.sender b)
  else none

/-- A check can come after the expiration time and a timer span, and not send the packet again:
where the period is less than the span, and where the check before it came a turn of the ring late.
And it can send a packet again before its expiration time, which was out of reach of the ring. -/
theorem timer_wheel_not_exact :
    checkedAfter (fastRetry 100 (by decide) (by decide)).toSendConfig [.put 0 0 0 1000 1000001]
      1101001 0 = some (⟨1000001, 1000, 1, false⟩, false) ∧
    checkedAfter (fastRetry 1 (by decide) (by decide)).toSendConfig
      [.put 1 0 0 1000 1000000, .put 0 0 0 1000000 2900000] 3000000 0 =
        some (⟨2900000, 1000000, 1900000, false⟩, true) ∧
    checkedAfter (fastRetry 1 (by decide) (by decide)).toSendConfig
      [.put 0 0 0 1000000 1000000,
        .measure fun _ => ⟨0, 0, 0, 0, 0, 0, none, true, false, .started, 1⟩,
        .checkExpiration 4500000] 4502000 0 = some (⟨4500000, 1000, 3500000, true⟩, false) := by
  decide +kernel

end Hdb.Interconnect
