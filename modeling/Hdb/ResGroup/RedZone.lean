import Hdb.ResGroup.Control
import Hdb.Lib.Run
import Mathlib.Tactic

/-!
# The red-zone threshold

The pool keeps its free chunks and the threshold below which the runaway detector becomes active in
two unsigned 32-bit atomics. Every reservation takes its percentage from the threshold and every
release adds its own back, rounded each time. Free chunks go negative when groups use more than
there is; `IsGroupInRedZone` compares them as unsigned.

Main results: `poolStep_invariant`, what one call does to the threshold where nothing is rounded,
and `redZone_follows_pool`, when the threshold follows the pool and when the test is monotone.
-/

namespace Hdb.ResGroup

/-! ## 32-bit words -/

/-- A word read as `int32`. -/
def toInt32 (x : ℤ) : ℤ := (x + 2 ^ 31) % 2 ^ 32 - 2 ^ 31

/-- A word read as `uint32`. -/
def toUint32 (x : ℤ) : ℕ := (x % 2 ^ 32).toNat

theorem toInt32_of_lt {x : ℤ} (hlo : -2 ^ 31 ≤ x) (hhi : x < 2 ^ 31) : toInt32 x = x := by
  unfold toInt32
  omega

theorem toUint32_of_lt {x : ℤ} (hlo : 0 ≤ x) (hhi : x < 2 ^ 32) : (toUint32 x : ℤ) = x := by
  unfold toUint32
  omega

theorem toInt32_toUint32 (x : ℤ) : toInt32 (toUint32 x) = toInt32 x := by
  unfold toInt32 toUint32
  omega

theorem toUint32_lt (x : ℤ) : toUint32 x < 2 ^ 32 := by
  unfold toUint32
  omega

/-! ## The pool -/

/-- The two atomics. The last field records that more was taken from the threshold than it had. -/
structure MemPool where
  freeChunks : ℕ
  safeChunksThreshold : ℕ
  belowZero : Bool
  deriving DecidableEq, Repr

inductive PoolCall
  | mempoolReserve (chunks : ℤ)
  | mempoolRelease (chunks : ℤ)
  deriving DecidableEq, Repr

/-- `chunks * (100 - runaway_detector_activation_percent) / 100`, in `int`. -/
def safePart (percent : ℕ) (chunks : ℤ) : ℤ := (toInt32 (chunks * (100 - percent))).tdiv 100

/-- The free chunks as `int32`. -/
def MemPool.free (pool : MemPool) : ℤ := toInt32 pool.freeChunks

def mempoolReserve (percent : ℕ) (pool : MemPool) (chunks : ℤ) : MemPool :=
  let oldFreeChunks := pool.free
  let reserved := mempoolReserved oldFreeChunks chunks
  if reserved = 0 then pool
  else
    { freeChunks := toUint32 (oldFreeChunks - reserved)
      safeChunksThreshold := toUint32 (pool.safeChunksThreshold - safePart percent reserved)
      belowZero :=
        pool.belowZero || decide ((pool.safeChunksThreshold : ℤ) - safePart percent reserved < 0) }

def mempoolRelease (percent : ℕ) (pool : MemPool) (chunks : ℤ) : MemPool :=
  { freeChunks := toUint32 (pool.freeChunks + chunks)
    safeChunksThreshold := toUint32 (pool.safeChunksThreshold + safePart percent chunks)
    belowZero :=
      pool.belowZero || decide ((pool.safeChunksThreshold : ℤ) + safePart percent chunks < 0) }

def poolStep (percent : ℕ) (pool : MemPool) : PoolCall → Option MemPool
  | .mempoolReserve chunks => some (mempoolReserve percent pool chunks)
  | .mempoolRelease chunks => some (mempoolRelease percent pool chunks)

/-- `InitResGroups`. -/
def initPool (percent totalChunks : ℕ) : MemPool where
  freeChunks := totalChunks
  safeChunksThreshold := toUint32 (safePart percent totalChunks)
  belowZero := false

/-- What the call changes the free chunks by. -/
def poolDelta (pool : MemPool) : PoolCall → ℤ
  | .mempoolReserve chunks => -mempoolReserved pool.free chunks
  | .mempoolRelease chunks => chunks

/-- The call moves a number of chunks whose percentage is a whole number, and the two counters and
the product with the percentage stay within their 32 bits. A release is not negative (an
assertion). -/
structure WholeStep (percent : ℕ) (pool : MemPool) (call : PoolCall) : Prop where
  dvd : 100 ∣ poolDelta pool call * (100 - percent)
  product : |poolDelta pool call * (100 - percent)| < 2 ^ 31
  free : pool.free + poolDelta pool call < 2 ^ 31
  threshold : pool.safeChunksThreshold + safePart percent (poolDelta pool call) < 2 ^ 32
  nonneg : ∀ chunks, call = .mempoolRelease chunks → 0 ≤ chunks

/-- The threshold covers the percentage of the free chunks, rounded down. -/
structure Covered (percent : ℕ) (pool : MemPool) : Prop where
  freeChunks_lt : pool.freeChunks < 2 ^ 32
  threshold_lt : pool.safeChunksThreshold < 2 ^ 32
  covers : max 0 pool.free * (100 - percent) < 100 * (pool.safeChunksThreshold + 1)
  belowZero : pool.belowZero = false

/-! ## One call -/

theorem safePart_mul {percent : ℕ} {chunks : ℤ} (hdvd : 100 ∣ chunks * (100 - percent))
    (hlt : |chunks * (100 - percent)| < 2 ^ 31) :
    safePart percent chunks * 100 = chunks * (100 - percent) := by
  rw [abs_lt] at hlt
  rw [safePart, toInt32_of_lt hlt.1.le hlt.2]
  exact Int.tdiv_mul_cancel hdvd

theorem safePart_neg {percent : ℕ} {chunks : ℤ} (hdvd : 100 ∣ chunks * (100 - percent))
    (hlt : |chunks * (100 - percent)| < 2 ^ 31) :
    safePart percent (-chunks) = -safePart percent chunks := by
  have hneg : 100 ∣ -chunks * (100 - (percent : ℤ)) := by
    rw [neg_mul]
    exact (Int.dvd_neg).mpr hdvd
  have hneglt : |-chunks * (100 - (percent : ℤ))| < 2 ^ 31 := by
    rw [neg_mul, abs_neg]
    exact hlt
  apply mul_right_cancel₀ (show (100 : ℤ) ≠ 0 by norm_num)
  rw [neg_mul (safePart percent chunks), safePart_mul hneg hneglt, safePart_mul hdvd hlt, neg_mul]

/-- The threshold has moved with the free chunks since `start`. -/
structure Follows (percent : ℕ) (start pool : MemPool) : Prop where
  freeChunks_lt : pool.freeChunks < 2 ^ 32
  threshold_lt : pool.safeChunksThreshold < 2 ^ 32
  free_ge : min 0 start.free ≤ pool.free
  moved : (pool.safeChunksThreshold : ℤ) * 100 =
    start.safeChunksThreshold * 100 + (pool.free - start.free) * (100 - percent)
  belowZero : pool.belowZero = false

theorem follows_start {percent : ℕ} {start : MemPool} (h : Covered percent start) :
    Follows percent start start where
  freeChunks_lt := h.freeChunks_lt
  threshold_lt := h.threshold_lt
  free_ge := min_le_right _ _
  moved := by ring
  belowZero := h.belowZero

theorem MemPool.free_range (pool : MemPool) : -2 ^ 31 ≤ pool.free ∧ pool.free < 2 ^ 31 := by
  unfold MemPool.free toInt32
  omega

theorem MemPool.toUint32_free (pool : MemPool) (chunks : ℤ) :
    toUint32 (pool.free - chunks) = toUint32 (pool.freeChunks + -chunks) := by
  unfold toUint32 MemPool.free toInt32
  omega

/-- A change that does not leave the 32 bits. -/
theorem MemPool.free_change (pool : MemPool) {delta : ℤ} (hlo : -2 ^ 31 ≤ pool.free + delta)
    (hhi : pool.free + delta < 2 ^ 31) :
    toInt32 (toUint32 (pool.freeChunks + delta)) = pool.free + delta := by
  rw [toInt32_toUint32]
  revert hlo hhi
  unfold MemPool.free toInt32
  omega

/-- A change of both counters by corresponding amounts. -/
theorem Follows.change {percent : ℕ} {start pool : MemPool} (hp : percent ≤ 100)
    (hcov : Covered percent start) (h : Follows percent start pool) (delta part : ℤ)
    (hpart : part * 100 = delta * (100 - percent)) (hge : min 0 start.free ≤ pool.free + delta)
    (hfree : pool.free + delta < 2 ^ 31)
    (hthreshold : (pool.safeChunksThreshold : ℤ) + part < 2 ^ 32) :
    0 ≤ pool.safeChunksThreshold + part ∧
    Follows percent start ⟨toUint32 (pool.freeChunks + delta),
      toUint32 (pool.safeChunksThreshold + part), false⟩ := by
  have hlow : -2 ^ 31 ≤ pool.free + delta := by
    have hstart := start.free_range.1
    exact (le_min (by norm_num) hstart).trans hge
  have hnewfree := pool.free_change hlow hfree
  have hsum : ((pool.safeChunksThreshold : ℤ) + part) * 100 = start.safeChunksThreshold * 100 +
      (pool.free + delta - start.free) * (100 - percent) := by
    rw [add_mul, h.moved, hpart]
    ring
  -- how far the threshold can go down
  have hbound : -(max 0 start.free) * (100 - percent) ≤
      (pool.free + delta - start.free) * (100 - percent) := by
    have hpercent : (0 : ℤ) ≤ 100 - percent := by omega
    apply mul_le_mul_of_nonneg_right _ hpercent
    have hsplit := min_add_max (0 : ℤ) start.free
    linarith only [hge, hsplit]
  have hnonneg : 0 ≤ (pool.safeChunksThreshold : ℤ) + part := by
    have hlt : -1 * 100 < ((pool.safeChunksThreshold : ℤ) + part) * 100 := by
      have hcovers := hcov.covers
      linarith only [hsum, hbound, hcovers]
    exact Int.add_one_le_of_lt (lt_of_mul_lt_mul_right hlt (by norm_num))
  refine ⟨hnonneg, toUint32_lt _, toUint32_lt _, ?_, ?_, rfl⟩
  · change min 0 start.free ≤ toInt32 _
    rw [hnewfree]
    exact hge
  · change (toUint32 _ : ℤ) * 100 = _ + (toInt32 _ - start.free) * _
    rw [hnewfree, toUint32_of_lt hnonneg hthreshold]
    exact hsum

/-- **One call** that moves a whole percentage moves the threshold with the pool. -/
theorem poolStep_invariant {percent : ℕ} {start pool pool' : MemPool} {call : PoolCall}
    (hp : percent ≤ 100) (hcov : Covered percent start) (h : Follows percent start pool)
    (hok : WholeStep percent pool call) (hstep : poolStep percent pool call = some pool') :
    Follows percent start pool' := by
  have hfree := h.free_ge
  obtain ⟨hdvd, hproduct, hfit, hthreshold, hnn⟩ := hok
  cases call with
  | mempoolReserve chunks =>
    obtain rfl := Option.some.inj hstep
    have hdelta : poolDelta pool (.mempoolReserve chunks) =
        -mempoolReserved pool.free chunks := rfl
    rw [hdelta] at hdvd hproduct hfit hthreshold
    rw [mempoolReserve]
    generalize hr : mempoolReserved pool.free chunks = reserved at *
    split_ifs with hzero
    · exact h
    · rw [neg_mul] at hdvd hproduct
      rw [abs_neg] at hproduct
      have hdvd' : (100 : ℤ) ∣ reserved * (100 - percent) := (Int.dvd_neg).mp hdvd
      rw [safePart_neg hdvd' hproduct] at hthreshold
      have hge : min 0 start.free ≤ pool.free + -reserved := by
        have hle : reserved ≤ max 0 pool.free := hr ▸ min_le_left _ _
        have hsplit := min_add_max (0 : ℤ) pool.free
        have hmin : min 0 start.free ≤ min 0 pool.free := le_min (min_le_left _ _) hfree
        linarith only [hle, hsplit, hmin]
      obtain ⟨hnonneg, hfollows⟩ := h.change hp hcov (-reserved) (-safePart percent reserved)
        (by rw [neg_mul, neg_mul, safePart_mul hdvd' hproduct]) hge hfit hthreshold
      have hbelow : decide ((pool.safeChunksThreshold : ℤ) - safePart percent reserved < 0) =
          false :=
        decide_eq_false (not_lt.mpr (by rw [sub_eq_add_neg]; exact hnonneg))
      rw [pool.toUint32_free, hbelow, h.belowZero, sub_eq_add_neg]
      exact hfollows
  | mempoolRelease chunks =>
    obtain rfl := Option.some.inj hstep
    have hdelta : poolDelta pool (.mempoolRelease chunks) = chunks := rfl
    rw [hdelta] at hdvd hproduct hfit hthreshold
    obtain ⟨hnonneg, hfollows⟩ := h.change hp hcov chunks (safePart percent chunks)
      (safePart_mul hdvd hproduct) (hfree.trans (le_add_of_nonneg_right (hnn chunks rfl))) hfit
      hthreshold
    have hbelow : decide ((pool.safeChunksThreshold : ℤ) + safePart percent chunks < 0) = false :=
      decide_eq_false (not_lt.mpr hnonneg)
    rw [mempoolRelease, hbelow, h.belowZero]
    exact hfollows

/-- The threshold `InitResGroups` sets covers the pool. -/
theorem covered_initPool {percent totalChunks : ℕ} (hp : percent ≤ 100)
    (htotal : totalChunks < 2 ^ 31) (hproduct : totalChunks * (100 - percent) < 2 ^ 31) :
    Covered percent (initPool percent totalChunks) := by
  obtain ⟨rest, hrest⟩ : ∃ rest, rest = 100 - percent := ⟨_, rfl⟩
  have hcast : (100 - percent : ℤ) = rest := by omega
  have hpart : safePart percent totalChunks = ((totalChunks * rest / 100 : ℕ) : ℤ) := by
    have hlow : -2 ^ 31 ≤ (0 : ℤ) := by norm_num
    rw [← hrest] at hproduct
    rw [safePart, hcast, toInt32_of_lt (hlow.trans (by positivity)) (by exact_mod_cast hproduct)]
    exact_mod_cast Int.ofNat_tdiv (totalChunks * rest) 100
  have hfree : toInt32 totalChunks = totalChunks := toInt32_of_lt (by omega) (by omega)
  have hthreshold : toUint32 ((totalChunks * rest / 100 : ℕ) : ℤ) = totalChunks * rest / 100 := by
    rw [← hrest] at hproduct
    unfold toUint32
    omega
  refine ⟨by dsimp only [initPool]; omega, toUint32_lt _, ?_, rfl⟩
  change max 0 (toInt32 totalChunks) * _ < 100 * ((toUint32 _ : ℤ) + 1)
  rw [hfree, hpart, hthreshold, hcast, max_eq_right (Int.natCast_nonneg _)]
  have hdiv := Nat.lt_mul_div_succ (totalChunks * rest) (show 0 < 100 by norm_num)
  exact_mod_cast hdiv

/-- The threshold along a run of whole steps. -/
theorem run_follows {percent : ℕ} {start pool : MemPool} {calls : List PoolCall}
    (hp : percent ≤ 100) (hcov : Covered percent start)
    (hok : Along (poolStep percent) (WholeStep percent) start calls)
    (hrun : run (poolStep percent) start calls = some pool) : Follows percent start pool :=
  run_invariant_along
    (fun _ _ _ h hwhole hstep => poolStep_invariant hp hcov h hwhole hstep) hok
    (follows_start hcov) hrun

/-! ## The red zone -/

variable {g p : ℕ}

/-- The test compares the two counters as unsigned words. -/
def isGroupInRedZone (pool : MemPool) (slot : Option (ResGroupSlotData g))
    (group : ResGroupData p) : Bool :=
  if pool.safeChunksThreshold ≤ pool.freeChunks then false
  else
    match slot with
    | none => false
    | some slot =>
      if slot.memUsage < slot.memQuota then false
      else if group.memSharedUsage < group.memSharedGranted then false
      else true

theorem isGroupInRedZone_iff {pool : MemPool} {slot : Option (ResGroupSlotData g)}
    {group : ResGroupData p} :
    isGroupInRedZone pool slot group = true ↔ pool.freeChunks < pool.safeChunksThreshold ∧
      ∃ sl ∈ slot, sl.memQuota ≤ sl.memUsage ∧ group.memSharedGranted ≤ group.memSharedUsage := by
  unfold isGroupInRedZone
  cases slot with
  | none => simp
  | some sl =>
    simp only [Option.mem_some_iff, exists_eq_left']
    split_ifs <;> simp_all

/-- With fewer free chunks the process is still in the red zone. -/
def StaysInRedZone (pool : MemPool) (slot : Option (ResGroupSlotData g))
    (group : ResGroupData p) : Prop :=
  ∀ freeChunks : ℕ, freeChunks < 2 ^ 32 → toInt32 freeChunks ≤ pool.free →
    isGroupInRedZone pool slot group = true →
    isGroupInRedZone { pool with freeChunks := freeChunks } slot group = true

/-- **A process in the red zone leaves it when the pool is overused**: only negative free chunks
keep the test monotone. -/
theorem staysInRedZone_iff {pool : MemPool} (hfree : pool.freeChunks < 2 ^ 32)
    (hthreshold : pool.safeChunksThreshold < 2 ^ 32) (slot : Option (ResGroupSlotData g))
    (group : ResGroupData p) :
    StaysInRedZone pool slot group ↔ pool.free < 0 ∨
      pool.safeChunksThreshold ≤ pool.freeChunks ∨
      ∀ sl ∈ slot, sl.memUsage < sl.memQuota ∨
        group.memSharedUsage < group.memSharedGranted := by
  constructor
  · intro hstays
    by_contra hno
    push Not at hno
    obtain ⟨hnonneg, hlt, sl, hsl, hquota, hshared⟩ := hno
    -- one chunk more than there is
    have hminus : toInt32 ((2 ^ 32 - 1 : ℕ) : ℤ) ≤ pool.free := by
      have heq : toInt32 ((2 ^ 32 - 1 : ℕ) : ℤ) = -1 := by decide
      rw [heq]
      exact (by norm_num : (-1 : ℤ) ≤ 0).trans hnonneg
    have hred := hstays (2 ^ 32 - 1) (by norm_num) hminus
      (isGroupInRedZone_iff.mpr ⟨hlt, sl, hsl, hquota, hshared⟩)
    have hlt' := (isGroupInRedZone_iff.mp hred).1
    dsimp only at hlt'
    omega
  · intro h freeChunks hlt hle hred
    obtain ⟨hred, sl, hsl, hquota, hshared⟩ := isGroupInRedZone_iff.mp hred
    refine isGroupInRedZone_iff.mpr ⟨?_, sl, hsl, hquota, hshared⟩
    obtain hneg | hsafe | hunused := h
    · dsimp only
      unfold MemPool.free toInt32 at hneg hle
      omega
    · exact absurd hred (not_lt.mpr hsafe)
    · obtain hused | hused := hunused sl hsl
      · exact absurd hquota (not_le.mpr hused)
      · exact absurd hshared (not_le.mpr hused)

/-- **When the threshold follows the pool**, and when the test is monotone. -/
theorem redZone_follows_pool {percent : ℕ} (hp : percent ≤ 100) :
    (∀ start pool calls, Covered percent start →
      Along (poolStep percent) (WholeStep percent) start calls →
      run (poolStep percent) start calls = some pool →
      pool.belowZero = false ∧ (pool.freeChunks = start.freeChunks →
        pool.safeChunksThreshold = start.safeChunksThreshold)) ∧
    ∀ (pool : MemPool) (slot : Option (ResGroupSlotData g)) (group : ResGroupData p),
      pool.freeChunks < 2 ^ 32 → pool.safeChunksThreshold < 2 ^ 32 →
      (StaysInRedZone pool slot group ↔ pool.free < 0 ∨
        pool.safeChunksThreshold ≤ pool.freeChunks ∨
        ∀ sl ∈ slot, sl.memUsage < sl.memQuota ∨
          group.memSharedUsage < group.memSharedGranted) := by
  refine ⟨fun start pool calls hcov hok hrun => ?_,
    fun pool slot group hfree hthreshold => staysInRedZone_iff hfree hthreshold slot group⟩
  have hfollows := run_follows hp hcov hok hrun
  refine ⟨hfollows.belowZero, fun hsame => ?_⟩
  have hmoved := hfollows.moved
  rw [MemPool.free, MemPool.free, hsame, sub_self, zero_mul, add_zero] at hmoved
  omega

/-- A slot that has used its quota. -/
def fullSlot : ResGroupSlotData 0 := ⟨some 1, none, 10, 10, 1⟩

/-- A group that has used its shared part. -/
def fullGroup : ResGroupData 0 where
  groupId := some 1
  memGap := 0
  memExpected := 20
  memQuotaGranted := 10
  memSharedGranted := 10
  memQuotaUsed := 10
  memUsage := 20
  memSharedUsage := 10
  nRunning := 1
  nRunningBypassed := 0
  waitProcs := []
  lockedForDrop := false
  caps := ⟨1, 20, 50, .vmtracker, by decide, by decide, by decide⟩

theorem run_fifty : run (poolStep 80) (initPool 80 100) [.mempoolReserve 50, .mempoolRelease 50] =
    some (initPool 80 100) := by decide

theorem wholeSteps_fifty : Along (poolStep 80) (WholeStep 80) (initPool 80 100)
    [.mempoolReserve 50, .mempoolRelease 50] := by
  refine ⟨⟨by decide, by decide, by decide, by decide, by rintro _ ⟨⟩⟩, fun s hs => ?_⟩
  obtain rfl : mempoolReserve 80 (initPool 80 100) 50 = s := Option.some.inj hs
  refine ⟨⟨by decide, by decide, by decide, by decide, ?_⟩, fun _ _ => trivial⟩
  rintro chunks h
  rw [PoolCall.mempoolRelease.injEq] at h
  omega

/-- 50 chunks of 100 at 80 percent. -/
theorem redZone_follows_fifty :
    ((initPool 80 100).belowZero = false ∧
      ((initPool 80 100).freeChunks = (initPool 80 100).freeChunks →
        (initPool 80 100).safeChunksThreshold = (initPool 80 100).safeChunksThreshold)) ∧
    (StaysInRedZone ⟨30, 20, false⟩ (some fullSlot) fullGroup ↔
      MemPool.free ⟨30, 20, false⟩ < 0 ∨ 20 ≤ 30 ∨ ∀ sl ∈ some fullSlot, sl.memUsage < sl.memQuota ∨
        fullGroup.memSharedUsage < fullGroup.memSharedGranted) := by
  obtain ⟨hruns, htest⟩ := redZone_follows_pool (by decide : 80 ≤ 100)
  exact ⟨hruns _ _ _ (covered_initPool (by decide) (by decide) (by decide)) wholeSteps_fifty
    run_fifty, htest ⟨30, 20, false⟩ (some fullSlot) fullGroup (by decide) (by decide)⟩

/-- Five chunks reserved at once take one from the threshold, released one by one they give nothing
back; and a pool with one chunk less than none is not in the red zone, an empty one is. -/
theorem threshold_drifts :
    ¬ (∀ calls pool, run (poolStep 80) (initPool 80 100) calls = some pool →
        pool.freeChunks = (initPool 80 100).freeChunks →
        pool.safeChunksThreshold = (initPool 80 100).safeChunksThreshold) ∧
    ¬ StaysInRedZone ⟨0, 20, false⟩ (some fullSlot) fullGroup := by
  refine ⟨fun h => ?_, fun h => ?_⟩
  · have hsame := h [.mempoolReserve 5, .mempoolRelease 1, .mempoolRelease 1, .mempoolRelease 1,
      .mempoolRelease 1, .mempoolRelease 1] ⟨100, 19, false⟩ (by decide) rfl
    exact absurd hsame (by decide)
  · have hred := h (2 ^ 32 - 1) (by decide) (by decide) (by decide)
    exact absurd hred (by decide)

end Hdb.ResGroup
