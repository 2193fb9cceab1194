import Hdb.Mem.Vmem
import Mathlib.Algebra.Order.BigOperators.Group.Finset

/-!
# The accounting of the vmem tracker is exact

What a process has added to a counter is its number of chunks, up to what the call it is in has
still to add or to take back (`owed`). Between calls nothing is owed, so that the counters are the
sums of the chunks of the processes; a reservation that fails takes back all it has added.

The chunks of a process are those of its bytes as long as `newszChunk`, computed before the calls
that may reserve and release memory themselves, is still right after them (`chunksCurrent`).

Main results: `vmem_exact` and `stale_newszChunk`.
-/

namespace Hdb.Mem

open Finset

variable {P S : Type}

/-! ## What a call owes -/

/-- What the process has added to a counter beyond its chunks. -/
def owed : VmemPc → Counter → Int
  | .idle, _ => 0
  | .addSession _, _ => 0
  | .groupReserve r _, c => if c = .session then r.numChunksToReserve else 0
  | .addSegment r _, c => if c = .segment then 0 else r.numChunksToReserve
  | .change todo delta (.fail _ _), c => if c ∈ todo then -delta else 0
  | .change todo delta (.registered _), c => if c ∈ todo then -delta else 0
  | .change todo delta .released, c => if c ∈ todo then 0 else delta
  | .change todo delta .unregistered, c => if c ∈ todo then 0 else delta
  | .change todo delta .shutDown, c => if c ∈ todo then 0 else delta

variable (cfg : VmemConfig P S)

/-- A reservation under way: what the process had before it, and the chunks its bytes will need. -/
structure ReservationOk (t : Tracker) (r : Reservation) : Prop where
  bytes : t.held.trackedBytes = r.held.trackedBytes + r.newlyRequestedBytes
  requested : 0 ≤ r.newlyRequestedBytes
  chunks : t.held.trackedVmemChunks = r.held.trackedVmemChunks
  level : r.held.trackedVmemChunks = cfg.chunks r.held.trackedBytes
  startup : t.startupBytes ≤ r.held.trackedBytes
  share : ∀ c, c ≠ .group → r.held.share c = r.held.trackedVmemChunks
  group : t.held.share .group = r.held.share .group + owed t.pc .group

/-- What holds at each place of a process. -/
def PlaceOk (t : Tracker) : Prop :=
  match t.pc with
  | .idle => t.held.trackedVmemChunks = cfg.chunks t.held.trackedBytes
  | .addSession r | .groupReserve r _ | .addSegment r _ =>
    ReservationOk cfg t r ∧
      r.held.trackedVmemChunks + r.numChunksToReserve = cfg.chunks t.held.trackedBytes
  | .change todo delta (.fail r status) =>
    ReservationOk cfg t r ∧ todo.Nodup ∧ delta = -r.numChunksToReserve ∧ status ≠ .success
  | .change todo delta .released =>
    todo.Nodup ∧ t.held.trackedVmemChunks + delta = cfg.chunks t.held.trackedBytes
  | .change todo _ (.registered _) =>
    todo.Nodup ∧ t.held.trackedVmemChunks = cfg.chunks t.held.trackedBytes ∧ .group ∉ todo
  | .change todo delta .unregistered =>
    todo.Nodup ∧ t.held.trackedVmemChunks = cfg.chunks t.held.trackedBytes ∧
      delta = -t.startupChunks
  | .change todo delta .shutDown =>
    todo.Nodup ∧ delta = -t.held.trackedVmemChunks ∧ t.startupChunks = 0 ∧ t.startupBytes = 0

structure TrackerOk (t : Tracker) : Prop where
  place : PlaceOk cfg t
  share : ∀ c, c ≠ .group → t.held.share c = t.held.trackedVmemChunks + owed t.pc c
  startup : t.startupBytes = t.startupChunks * 2 ^ cfg.chunkSizeInBits ∧ 0 ≤ t.startupChunks
  startup_le : t.startupBytes ≤ t.held.trackedBytes
  small : cfg.chunks t.held.trackedBytes < 2 ^ 31
  waived : 0 ≤ t.waivedChunks
  calls : ∀ call ∈ t.suspended, 0 ≤ call.newlyRequestedBytes ∧ call.newszChunk < 2 ^ 31
  uninited : t.vmemTrackerInited = false →
    (t.pc = .idle ∧ t.held.trackedBytes = 0 ∧ t.held.trackedVmemChunks = 0) ∨
      ∃ todo delta, t.pc = .change todo delta .shutDown

/-- A failure has left everything as it was, and a success is within the limit. -/
structure ReturnedOk (x : Returned) : Prop where
  failed : x.status ≠ .success → x.held.trackedBytes = x.reservation.held.trackedBytes ∧
    x.held.trackedVmemChunks = x.reservation.held.trackedVmemChunks ∧
    x.held.share = x.reservation.held.share
  limit : x.status = .success → x.reservation.executing = true →
    x.newVmem ≤ cfg.vmemLimitChunks + x.waivedChunks

variable [Fintype P] [DecidableEq P] [DecidableEq S]

structure VmemInv (st : VmemState P S) : Prop where
  procs : ∀ p, TrackerOk cfg (st.proc p)
  segment : st.segmentVmemChunks = ∑ p, (st.proc p).held.share .segment
  session : ∀ s, st.sessionVmem s =
    ∑ p, if cfg.sess p = s then (st.proc p).held.share .session else 0
  returned : ∀ x ∈ st.returned, ReturnedOk cfg x

omit [Fintype P] [DecidableEq P] [DecidableEq S] in
theorem trackerOk_noTracker : TrackerOk cfg noTracker where
  place := by simp [PlaceOk, noTracker, VmemConfig.chunks]
  share := by simp [noTracker, owed]
  startup := by simp [noTracker]
  startup_le := le_rfl
  small := by simp [noTracker, VmemConfig.chunks]
  waived := le_rfl
  calls := by simp [noTracker]
  uninited := fun _ => Or.inl ⟨rfl, rfl, rfl⟩

omit [DecidableEq P] in
theorem vmemInv_init : VmemInv cfg vmemInit where
  procs _ := trackerOk_noTracker cfg
  segment := by simp [vmemInit, noTracker]
  session s := by simp [vmemInit, noTracker]
  returned := by simp [vmemInit]

/-! ## Sums -/

omit [DecidableEq S] in
theorem sum_update (g : P → Tracker) (p : P) (t : Tracker) (f : P → Tracker → Int) :
    ∑ q, f q (Function.update g p t q) = ∑ q, f q (g q) + (f p t - f p (g p)) := by
  rw [← Finset.add_sum_erase univ _ (mem_univ p), ← Finset.add_sum_erase univ (fun q => f q (g q))
    (mem_univ p), Function.update_self]
  have hrest : ∑ q ∈ univ.erase p, f q (Function.update g p t q) = ∑ q ∈ univ.erase p,
      f q (g q) := by
    refine Finset.sum_congr rfl ?_
    intro q hq
    rw [Function.update_of_ne (Finset.ne_of_mem_erase hq)]
  rw [hrest]
  ring

variable {cfg} {st st' : VmemState P S} {p : P}

/-- A step on the variables of a process that adds nothing to a counter. -/
theorem VmemInv.setTracker (h : VmemInv cfg st) {t : Tracker} (ht : TrackerOk cfg t)
    (hshare : t.held.share = (st.proc p).held.share) : VmemInv cfg (setTracker st p t) where
  procs q := by
    show TrackerOk cfg (Function.update st.proc p t q)
    by_cases hq : q = p
    · rw [hq, Function.update_self]
      exact ht
    · rw [Function.update_of_ne hq]
      exact h.procs q
  segment := by
    show st.segmentVmemChunks = ∑ q, (Function.update st.proc p t q).held.share .segment
    rw [sum_update st.proc p t fun _ x => x.held.share .segment, hshare, sub_self, add_zero]
    exact h.segment
  session s := by
    show st.sessionVmem s =
      ∑ q, if cfg.sess q = s then (Function.update st.proc p t q).held.share .session else 0
    rw [sum_update st.proc p t fun q x => if cfg.sess q = s then x.held.share .session else 0,
      hshare, sub_self, add_zero]
    exact h.session s
  returned := h.returned

/-- The variables of a process after it has added to a counter. -/
def Tracker.addShare (t : Tracker) (c : Counter) (delta : Int) : Tracker :=
  { t with
    held := { t.held with share := Function.update t.held.share c (t.held.share c + delta) } }

/-- A step that adds to a counter. -/
theorem VmemInv.addCounter (h : VmemInv cfg st) {t : Tracker} {c : Counter} {delta : Int}
    (ht : TrackerOk cfg (t.addShare c delta)) (hshare : t.held.share = (st.proc p).held.share) :
    VmemInv cfg (addCounter cfg st p c delta t) := by
  have hproc : (Mem.addCounter cfg st p c delta t).proc =
      Function.update st.proc p (t.addShare c delta) := by
    cases c <;> rfl
  have hret : (Mem.addCounter cfg st p c delta t).returned = st.returned := by
    cases c <;> rfl
  refine ⟨?_, ?_, ?_, hret ▸ h.returned⟩
  · intro q
    rw [hproc]
    by_cases hq : q = p
    · rw [hq, Function.update_self]
      exact ht
    · rw [Function.update_of_ne hq]
      exact h.procs q
  · rw [hproc, sum_update st.proc p _ fun _ x => x.held.share .segment, ← h.segment, ← hshare]
    cases c with
    | segment =>
      show st.segmentVmemChunks + delta = st.segmentVmemChunks +
        (Function.update t.held.share .segment (t.held.share .segment + delta) .segment -
          t.held.share .segment)
      rw [Function.update_self]
      ring
    | session =>
      show st.segmentVmemChunks = st.segmentVmemChunks +
        (Function.update t.held.share .session (t.held.share .session + delta) .segment -
          t.held.share .segment)
      rw [Function.update_of_ne (by decide)]
      ring
    | group =>
      show st.segmentVmemChunks = st.segmentVmemChunks +
        (Function.update t.held.share .group (t.held.share .group + delta) .segment -
          t.held.share .segment)
      rw [Function.update_of_ne (by decide)]
      ring
  · intro s
    rw [hproc, sum_update st.proc p _ fun q x =>
      if cfg.sess q = s then x.held.share .session else 0, ← h.session, ← hshare]
    cases c with
    | session =>
      show Function.update st.sessionVmem (cfg.sess p) (st.sessionVmem (cfg.sess p) + delta) s =
        st.sessionVmem s + ((if cfg.sess p = s then
          Function.update t.held.share .session (t.held.share .session + delta) .session else 0) -
          if cfg.sess p = s then t.held.share .session else 0)
      by_cases hs : cfg.sess p = s
      · subst hs
        rw [Function.update_self, Function.update_self, if_pos rfl, if_pos rfl]
        ring
      · rw [Function.update_of_ne (Ne.symm hs), if_neg hs, if_neg hs]
        ring
    | group =>
      show st.sessionVmem s = st.sessionVmem s + ((if cfg.sess p = s then
          Function.update t.held.share .group (t.held.share .group + delta) .session else 0) -
          if cfg.sess p = s then t.held.share .session else 0)
      rw [Function.update_of_ne (by decide)]
      ring
    | segment =>
      show st.sessionVmem s = st.sessionVmem s + ((if cfg.sess p = s then
          Function.update t.held.share .segment (t.held.share .segment + delta) .session else 0) -
          if cfg.sess p = s then t.held.share .session else 0)
      rw [Function.update_of_ne (by decide)]
      ring

omit [DecidableEq P] [Fintype P] [DecidableEq S] in
@[simp] theorem addShare_share (t : Tracker) (c c' : Counter) (delta : Int) :
    (t.addShare c delta).held.share c' =
      if c' = c then t.held.share c + delta else t.held.share c' :=
  Function.update_apply _ _ _ _

/-! ## Chunks -/

omit [DecidableEq P] [Fintype P] [DecidableEq S] in
theorem chunks_mono {a b : Int} (h : a ≤ b) : cfg.chunks a ≤ cfg.chunks b :=
  Int.ediv_le_ediv (by positivity) h

omit [DecidableEq P] [Fintype P] [DecidableEq S] in
theorem chunks_add_mul (a k : Int) :
    cfg.chunks (a + k * 2 ^ cfg.chunkSizeInBits) = cfg.chunks a + k :=
  Int.add_mul_ediv_right a k (by positivity)

omit [DecidableEq P] [Fintype P] [DecidableEq S] in
theorem chunks_nonneg {a : Int} (h : 0 ≤ a) : 0 ≤ cfg.chunks a :=
  Int.ediv_nonneg h (by positivity)

theorem toInt32_of_small {x : Int} (h₀ : 0 ≤ x) (h : x < 2 ^ 31) : toInt32 x = x := by
  rw [toInt32, Int.emod_eq_of_lt (by omega) (by omega)]
  omega

theorem toInt32_lt (x : Int) : toInt32 x < 2 ^ 31 := by
  have := Int.emod_lt_of_pos (x + 2 ^ 31) (by norm_num : (0 : Int) < 2 ^ 32)
  rw [toInt32]
  omega

namespace TrackerOk

omit [DecidableEq P] [Fintype P] [DecidableEq S]

variable {t : Tracker}

theorem bytes_nonneg (h : TrackerOk cfg t) : 0 ≤ t.held.trackedBytes := by
  have h₁ : 0 ≤ t.startupBytes := by
    rw [h.startup.1]
    exact mul_nonneg h.startup.2 (by positivity)
  exact h₁.trans h.startup_le

theorem level (h : TrackerOk cfg t) (hpc : t.pc = .idle) :
    t.held.trackedVmemChunks = cfg.chunks t.held.trackedBytes := by
  have hp := h.place
  rw [PlaceOk, hpc] at hp
  exact hp

/-- A process in a call, other than the one that shuts its tracker down, is initialized. -/
theorem inited (h : TrackerOk cfg t) (h₁ : t.pc ≠ .idle)
    (h₂ : ∀ todo delta, t.pc ≠ .change todo delta .shutDown) : t.vmemTrackerInited = true := by
  by_contra hu
  rcases h.uninited (Bool.not_eq_true _ ▸ hu) with ⟨hpc, -⟩ | ⟨todo, delta, hpc⟩
  · exact h₁ hpc
  · exact h₂ todo delta hpc

/-- The share of an idle process is its chunks. -/
theorem share_idle (h : TrackerOk cfg t) (hpc : t.pc = .idle) (c : Counter) (hc : c ≠ .group) :
    t.held.share c = t.held.trackedVmemChunks := by
  rw [h.share c hc, hpc]
  exact add_zero _

theorem reserveVmem (h : TrackerOk cfg t) (hpc : t.pc = .idle) (hinit : t.vmemTrackerInited = true)
    {n : Nat} (hsmall : cfg.chunks (t.held.trackedBytes + n) < 2 ^ 31) (executing : Bool) :
    TrackerOk cfg (t.reserveVmem cfg n executing) := by
  have hbytes := h.bytes_nonneg
  have hlevel := h.level hpc
  have hle : t.held.trackedBytes ≤ t.held.trackedBytes + n := by omega
  rw [Tracker.reserveVmem]
  split_ifs with hneed
  · refine { h with place := ?_, calls := ?_ }
    · simp only [PlaceOk, hpc]
      exact hlevel
    intro call hcall
    rcases List.mem_cons.mp hcall with rfl | hcall
    · exact ⟨Int.natCast_nonneg n, toInt32_lt _⟩
    · exact h.calls call hcall
  · rw [toInt32_of_small (chunks_nonneg (by omega)) hsmall] at hneed
    have hsame : cfg.chunks (t.held.trackedBytes + n) = t.held.trackedVmemChunks :=
      le_antisymm (not_lt.mp hneed) (hlevel.le.trans (chunks_mono hle))
    refine { h with
      place := ?_, startup_le := h.startup_le.trans hle, small := hsmall
      uninited := fun hu => absurd (hu.symm.trans hinit) (by decide) }
    simp only [PlaceOk, hpc]
    exact hsame.symm

theorem resume {t' : Tracker} (h : TrackerOk cfg t) (hpc : t.pc = .idle)
    (hinit : t.vmemTrackerInited = true)
    (hcur : ∀ call ∈ t.suspended.head?,
      call.newszChunk = cfg.chunks (t.held.trackedBytes + call.newlyRequestedBytes))
    (hs : t.resume = some t') : TrackerOk cfg t' ∧ t'.held.share = t.held.share := by
  rw [Tracker.resume] at hs
  cases hsus : t.suspended with
  | nil => simp [hsus] at hs
  | cons call rest =>
    simp only [hsus, Option.some.injEq] at hs
    obtain ⟨hreq, hlt⟩ := h.calls call (by simp [hsus])
    have hnew := hcur call (by simp [hsus])
    have hlevel := h.level hpc
    subst hs
    refine ⟨{ h with
      place := ⟨⟨rfl, hreq, rfl, hlevel, h.startup_le, h.share_idle hpc, ?_⟩, ?_⟩
      share := ?_, startup_le := ?_, small := ?_
      calls := fun c hc => h.calls c (by simp [hsus, hc])
      uninited := fun hu => absurd (hu.symm.trans hinit) (by decide) }, rfl⟩
    · show t.held.share .group = t.held.share .group + 0
      rw [add_zero]
    · show t.held.trackedVmemChunks + (call.newszChunk - t.held.trackedVmemChunks) =
        cfg.chunks (t.held.trackedBytes + call.newlyRequestedBytes)
      rw [← hnew]
      ring
    · intro c hc
      show t.held.share c = t.held.trackedVmemChunks + 0
      rw [add_zero]
      exact h.share_idle hpc c hc
    · show t.startupBytes ≤ t.held.trackedBytes + call.newlyRequestedBytes
      have := h.startup_le
      omega
    · show cfg.chunks (t.held.trackedBytes + call.newlyRequestedBytes) < 2 ^ 31
      rw [← hnew]
      exact hlt

theorem releaseVmem (h : TrackerOk cfg t) (hpc : t.pc = .idle) (hinit : t.vmemTrackerInited = true)
    (n : Nat) : TrackerOk cfg (t.releaseVmem cfg n) ∧
      (t.releaseVmem cfg n).held.share = t.held.share := by
  have hst := h.startup_le
  have hbytes := h.bytes_nonneg
  have hlevel := h.level hpc
  have h₀ : 0 ≤ t.startupBytes := by
    rw [h.startup.1]
    exact mul_nonneg h.startup.2 (by positivity)
  have hle : t.held.trackedBytes - min (t.held.trackedBytes - t.startupBytes) n ≤
      t.held.trackedBytes := by omega
  have hge : t.startupBytes ≤
      t.held.trackedBytes - min (t.held.trackedBytes - t.startupBytes) n := by omega
  have hsmall := (chunks_mono hle).trans_lt h.small
  rw [Tracker.releaseVmem]
  dsimp only
  rw [toInt32_of_small (chunks_nonneg (h₀.trans hge)) hsmall]
  split_ifs with hzero hred
  · exact ⟨h, rfl⟩
  · refine ⟨{ h with
      place := ⟨by decide, by ring⟩
      share := ?_, startup_le := hge, small := hsmall
      uninited := fun hu => absurd (hu.symm.trans hinit) (by decide) }, rfl⟩
    intro c hc
    show t.held.share c = t.held.trackedVmemChunks + _
    rw [h.share_idle hpc c hc]
    cases c <;> simp [owed] at hc ⊢
  · refine ⟨{ h with
      place := ?_, startup_le := hge, small := hsmall
      uninited := fun hu => absurd (hu.symm.trans hinit) (by decide) }, rfl⟩
    simp only [PlaceOk, hpc]
    exact le_antisymm (not_lt.mp hred) (by rw [hlevel]; exact chunks_mono hle)

/-! ### Reserving chunks -/

variable {r : Reservation}

theorem addSession (h : TrackerOk cfg t) (hpc : t.pc = .addSession r) (total : Int) :
    TrackerOk cfg ({ t with pc := .groupReserve r total }.addShare .session
      r.numChunksToReserve) := by
  have hinit := h.inited (by simp [hpc]) (by simp [hpc])
  have hplace := h.place
  simp only [PlaceOk, hpc] at hplace
  obtain ⟨hr, hlevel⟩ := hplace
  have hgroup := hr.group
  rw [hpc] at hgroup
  refine { h with
    place := ⟨{ hr with group := ?_ }, hlevel⟩
    share := ?_, uninited := fun hu => absurd (hu.symm.trans hinit) (by decide) }
  · rw [addShare_share, if_neg (by decide)]
    simpa [owed, Tracker.addShare] using hgroup
  · intro c hc
    have hold := h.share c hc
    rw [hpc] at hold
    rw [addShare_share]
    cases c <;> simp [owed, Tracker.addShare] at hold hc ⊢ <;> omega

theorem groupGranted (h : TrackerOk cfg t) {total : Int} (hpc : t.pc = .groupReserve r total)
    (waiverUsed : Bool) :
    TrackerOk cfg ({ t with pc := .addSegment r waiverUsed }.addShare .group
      r.numChunksToReserve) := by
  have hinit := h.inited (by simp [hpc]) (by simp [hpc])
  have hplace := h.place
  simp only [PlaceOk, hpc] at hplace
  obtain ⟨hr, hlevel⟩ := hplace
  have hgroup := hr.group
  rw [hpc] at hgroup
  refine { h with
    place := ⟨{ hr with group := ?_ }, hlevel⟩
    share := ?_, uninited := fun hu => absurd (hu.symm.trans hinit) (by decide) }
  · rw [addShare_share, if_pos rfl]
    simpa [owed, Tracker.addShare] using hgroup
  · intro c hc
    have hold := h.share c hc
    rw [hpc] at hold
    rw [addShare_share, if_neg hc]
    cases c <;> simp [owed, Tracker.addShare] at hold hc ⊢ <;> omega

theorem groupExhausted (h : TrackerOk cfg t) {total : Int} (hpc : t.pc = .groupReserve r total) :
    TrackerOk cfg ({ t with
      pc := .change [.session, .group] (-r.numChunksToReserve)
        (.fail r .queryMemoryExhausted) }.addShare .group r.numChunksToReserve) := by
  have hinit := h.inited (by simp [hpc]) (by simp [hpc])
  have hplace := h.place
  simp only [PlaceOk, hpc] at hplace
  obtain ⟨hr, -⟩ := hplace
  have hgroup := hr.group
  rw [hpc] at hgroup
  refine { h with
    place := ⟨{ hr with group := ?_ }, by decide, rfl, by decide⟩
    share := ?_, uninited := fun hu => absurd (hu.symm.trans hinit) (by decide) }
  · rw [addShare_share, if_pos rfl]
    simpa [owed, Tracker.addShare] using hgroup
  · intro c hc
    have hold := h.share c hc
    rw [hpc] at hold
    rw [addShare_share, if_neg hc]
    cases c <;> simp [owed, Tracker.addShare] at hold hc ⊢ <;> omega

theorem groupRefused (h : TrackerOk cfg t) {total : Int} (hpc : t.pc = .groupReserve r total) :
    TrackerOk cfg { t with
      pc := .change [.session] (-r.numChunksToReserve)
        (.fail r .resourceGroupMemoryExhausted) } := by
  have hinit := h.inited (by simp [hpc]) (by simp [hpc])
  have hplace := h.place
  simp only [PlaceOk, hpc] at hplace
  obtain ⟨hr, -⟩ := hplace
  have hgroup := hr.group
  rw [hpc] at hgroup
  refine { h with
    place := ⟨{ hr with group := ?_ }, by decide, rfl, by decide⟩
    share := ?_, uninited := fun hu => absurd (hu.symm.trans hinit) (by decide) }
  · simpa [owed] using hgroup
  · intro c hc
    have hold := h.share c hc
    rw [hpc] at hold
    cases c <;> simp [owed] at hold hc ⊢ <;> omega

theorem segmentExhausted (h : TrackerOk cfg t) {waiverUsed : Bool}
    (hpc : t.pc = .addSegment r waiverUsed) :
    TrackerOk cfg ({ t with
      pc := .change [.session, .segment, .group] (-r.numChunksToReserve)
        (.fail r .vmemExhausted) }.addShare .segment r.numChunksToReserve) := by
  have hinit := h.inited (by simp [hpc]) (by simp [hpc])
  have hplace := h.place
  simp only [PlaceOk, hpc] at hplace
  obtain ⟨hr, -⟩ := hplace
  have hgroup := hr.group
  rw [hpc] at hgroup
  refine { h with
    place := ⟨{ hr with group := ?_ }, by decide, rfl, by decide⟩
    share := ?_, uninited := fun hu => absurd (hu.symm.trans hinit) (by decide) }
  · rw [addShare_share, if_neg (by decide)]
    simpa [owed, Tracker.addShare] using hgroup
  · intro c hc
    have hold := h.share c hc
    rw [hpc] at hold
    rw [addShare_share]
    cases c <;> simp [owed, Tracker.addShare] at hold hc ⊢ <;> omega

theorem segmentReserved (h : TrackerOk cfg t) {waiverUsed : Bool}
    (hpc : t.pc = .addSegment r waiverUsed) {w : Int} (hw : 0 ≤ w) :
    TrackerOk cfg ({ t with
      pc := .idle
      held := { t.held with
        trackedVmemChunks := t.held.trackedVmemChunks + r.numChunksToReserve }
      waivedChunks := w }.addShare .segment r.numChunksToReserve) := by
  have hinit := h.inited (by simp [hpc]) (by simp [hpc])
  have hplace := h.place
  simp only [PlaceOk, hpc] at hplace
  obtain ⟨hr, hlevel⟩ := hplace
  refine { h with
    place := ?_, share := ?_, waived := hw
    uninited := fun hu => absurd (hu.symm.trans hinit) (by decide) }
  · show t.held.trackedVmemChunks + r.numChunksToReserve = cfg.chunks t.held.trackedBytes
    rw [hr.chunks]
    exact hlevel
  · intro c hc
    have hold := h.share c hc
    rw [hpc] at hold
    rw [addShare_share]
    cases c <;> simp [owed, Tracker.addShare] at hold hc ⊢ <;> omega

/-! ### Changing counters -/

theorem change (h : TrackerOk cfg t) {c : Counter} {todo : List Counter} {delta : Int}
    {finish : Finish} (hpc : t.pc = .change (c :: todo) delta finish) :
    TrackerOk cfg ({ t with pc := .change todo delta finish }.addShare c delta) := by
  have hplace := h.place
  simp only [PlaceOk, hpc] at hplace
  have hshare : ∀ d, d ≠ .group → c ∉ todo →
      ({ t with pc := .change todo delta finish }.addShare c delta).held.share d =
        t.held.trackedVmemChunks + owed (.change todo delta finish) d := by
    intro d hd hc
    have hold := h.share d hd
    rw [hpc] at hold
    rw [addShare_share]
    by_cases hdc : d = c
    · subst hdc
      rw [if_pos rfl]
      cases finish <;> simp [owed, hc] at hold ⊢ <;> omega
    · rw [if_neg hdc]
      cases finish <;> simp [owed, hdc] at hold ⊢ <;> omega
  cases finish with
  | fail r status =>
    have hinit := h.inited (by simp [hpc]) (by simp [hpc])
    obtain ⟨hr, hnd, hdelta, hstatus⟩ := hplace
    obtain ⟨hc, hnd⟩ := List.nodup_cons.mp hnd
    have hgroup := hr.group
    rw [hpc] at hgroup
    refine { h with
      place := ⟨{ hr with group := ?_ }, hnd, hdelta, hstatus⟩
      share := fun d hd => hshare d hd hc, uninited :=
        fun hu => absurd (hu.symm.trans hinit) (by decide) }
    rw [addShare_share]
    by_cases hcg : Counter.group = c
    · subst hcg
      rw [if_pos rfl]
      simp [owed, Tracker.addShare, hc] at hgroup ⊢
      omega
    · rw [if_neg hcg]
      simpa [owed, Tracker.addShare, hcg] using hgroup
  | released =>
    have hinit := h.inited (by simp [hpc]) (by simp [hpc])
    obtain ⟨hc, hnd⟩ := List.nodup_cons.mp hplace.1
    exact { h with
      place := ⟨hnd, hplace.2⟩
      share := fun d hd => hshare d hd hc, uninited :=
        fun hu => absurd (hu.symm.trans hinit) (by decide) }
  | registered executing =>
    have hinit := h.inited (by simp [hpc]) (by simp [hpc])
    obtain ⟨hc, hnd⟩ := List.nodup_cons.mp hplace.1
    exact { h with
      place := ⟨hnd, hplace.2.1, fun hg => hplace.2.2 (List.mem_cons_of_mem _ hg)⟩
      share := fun d hd => hshare d hd hc, uninited :=
        fun hu => absurd (hu.symm.trans hinit) (by decide) }
  | unregistered =>
    have hinit := h.inited (by simp [hpc]) (by simp [hpc])
    obtain ⟨hc, hnd⟩ := List.nodup_cons.mp hplace.1
    exact { h with
      place := ⟨hnd, hplace.2⟩
      share := fun d hd => hshare d hd hc, uninited :=
        fun hu => absurd (hu.symm.trans hinit) (by decide) }
  | shutDown =>
    obtain ⟨hc, hnd⟩ := List.nodup_cons.mp hplace.1
    exact { h with
      place := ⟨hnd, hplace.2⟩
      share := fun d hd => hshare d hd hc, uninited := fun _ => Or.inr ⟨todo, delta, rfl⟩ }

theorem finish (h : TrackerOk cfg t) {delta : Int} {finish : Finish}
    (hpc : t.pc = .change [] delta finish) :
    TrackerOk cfg (t.finish delta finish) ∧ (t.finish delta finish).held.share = t.held.share := by
  have hplace := h.place
  simp only [PlaceOk, hpc] at hplace
  have hshare : ∀ c, c ≠ .group → t.held.share c =
      t.held.trackedVmemChunks + owed (.change [] delta finish) c := fun c hc => hpc ▸ h.share c hc
  cases finish with
  | fail r status =>
    obtain ⟨hr, -, -, -⟩ := hplace
    have hinit := h.inited (by simp [hpc]) (by simp [hpc])
    have hbytes : t.held.trackedBytes - r.newlyRequestedBytes = r.held.trackedBytes := by
      rw [hr.bytes]
      ring
    have hreq := hr.requested
    refine ⟨{ h with
      place := ?_, share := hshare, startup_le := ?_, small := ?_
      uninited := fun hu => absurd (hu.symm.trans hinit) (by decide) }, rfl⟩
    · show t.held.trackedVmemChunks = cfg.chunks (t.held.trackedBytes - r.newlyRequestedBytes)
      rw [hbytes, hr.chunks]
      exact hr.level
    · show t.startupBytes ≤ t.held.trackedBytes - r.newlyRequestedBytes
      rw [hbytes]
      exact hr.startup
    · show cfg.chunks (t.held.trackedBytes - r.newlyRequestedBytes) < 2 ^ 31
      exact (chunks_mono (by omega)).trans_lt h.small
  | released =>
    have hinit := h.inited (by simp [hpc]) (by simp [hpc])
    refine ⟨{ h with
      place := hplace.2, share := ?_
      uninited := fun hu => absurd (hu.symm.trans hinit) (by decide) }, rfl⟩
    intro c hc
    show t.held.share c = t.held.trackedVmemChunks + delta + 0
    rw [hshare c hc]
    simp [owed]
  | registered executing =>
    have hinit := h.inited (by simp [hpc]) (by simp [hpc])
    refine ⟨{ h with
      place := ⟨⟨(add_zero _).symm, le_rfl, rfl, hplace.2.1, h.startup_le, ?_, ?_⟩, ?_⟩
      share := hshare
      uninited := fun hu => absurd (hu.symm.trans hinit) (by decide) }, rfl⟩
    · intro c hc
      rw [hshare c hc]
      simp [owed]
    · show t.held.share .group = t.held.share .group + 0
      rw [add_zero]
    · show t.held.trackedVmemChunks + 0 = cfg.chunks t.held.trackedBytes
      rw [add_zero]
      exact hplace.2.1
  | unregistered =>
    have hinit := h.inited (by simp [hpc]) (by simp [hpc])
    obtain ⟨-, hlevel, hdelta⟩ := hplace
    have hback : cfg.chunks (t.held.trackedBytes - t.startupBytes) =
        t.held.trackedVmemChunks - t.startupChunks := by
      rw [hlevel, h.startup.1, sub_eq_add_neg, ← neg_mul, chunks_add_mul, ← sub_eq_add_neg]
    refine ⟨{ h with
      place := hback.symm, share := ?_, startup := ⟨by simp [Tracker.finish], le_rfl⟩
      startup_le := sub_nonneg.mpr h.startup_le, small := ?_
      uninited := fun hu => absurd (hu.symm.trans hinit) (by decide) }, rfl⟩
    · intro c hc
      show t.held.share c = t.held.trackedVmemChunks - t.startupChunks + 0
      rw [hshare c hc, hdelta]
      simp [owed]
      ring
    · show cfg.chunks (t.held.trackedBytes - t.startupBytes) < 2 ^ 31
      have h₁ := h.startup.2
      have h₂ := h.small
      rw [hback, hlevel]
      omega
  | shutDown =>
    obtain ⟨-, hdelta, hsc, hsb⟩ := hplace
    have hzero : t.held.trackedVmemChunks + delta = 0 := by omega
    refine ⟨{ h with
      place := ?_, share := ?_, startup_le := ?_, small := ?_
      uninited := fun _ => Or.inl ⟨rfl, rfl, hzero⟩ }, rfl⟩
    · show t.held.trackedVmemChunks + delta = cfg.chunks 0
      rw [hzero]
      simp [VmemConfig.chunks]
    · intro c hc
      show t.held.share c = t.held.trackedVmemChunks + delta + 0
      rw [hshare c hc]
      simp [owed]
    · show t.startupBytes ≤ 0
      rw [hsb]
    · show cfg.chunks 0 < 2 ^ 31
      simp [VmemConfig.chunks]

/-- A failure returns with what the process had before. -/
theorem returned (h : TrackerOk cfg t) {delta : Int} {finish : Finish}
    (hpc : t.pc = .change [] delta finish) : ∀ x ∈ returnedOf t delta finish, ReturnedOk cfg x := by
  intro x hx
  cases finish with
  | fail r status =>
    have hplace := h.place
    simp only [PlaceOk, hpc] at hplace
    obtain ⟨hr, -, -, hstatus⟩ := hplace
    obtain rfl := List.mem_singleton.mp hx
    refine ⟨fun _ => ⟨?_, hr.chunks, ?_⟩, fun hs => absurd hs hstatus⟩
    · show t.held.trackedBytes - r.newlyRequestedBytes = r.held.trackedBytes
      rw [hr.bytes]
      ring
    · funext c
      show t.held.share c = r.held.share c
      by_cases hc : c = .group
      · have hgroup := hr.group
        rw [hpc] at hgroup
        rw [hc, hgroup]
        simp [owed]
      · rw [h.share c hc, hpc, hr.share c hc, hr.chunks]
        simp [owed]
  | released | registered | unregistered | shutDown => exact absurd hx List.not_mem_nil

/-! ### Startup memory -/

theorem registerStartupMemory (h : TrackerOk cfg t) (hpc : t.pc = .idle)
    (hinit : t.vmemTrackerInited = true) {n : Nat} (executing : Bool)
    (hsmall : cfg.chunks (t.registerStartupMemory cfg n executing).held.trackedBytes < 2 ^ 31) :
    TrackerOk cfg (t.registerStartupMemory cfg n executing) := by
  have hnonneg : 0 ≤ cfg.chunks (n + 2 ^ cfg.chunkSizeInBits - 1) := by
    refine chunks_nonneg ?_
    have : (0 : Int) < 2 ^ cfg.chunkSizeInBits := by positivity
    omega
  refine { h with
    place := ⟨by decide, ?_, by decide⟩
    share := ?_, startup := ⟨rfl, hnonneg⟩, startup_le := ?_, small := hsmall
    uninited := fun hu => absurd (hu.symm.trans hinit) (by decide) }
  · show t.held.trackedVmemChunks + _ = cfg.chunks (t.held.trackedBytes + _ * _)
    rw [chunks_add_mul, h.level hpc]
  · intro c hc
    show t.held.share c = t.held.trackedVmemChunks + _ + _
    rw [h.share_idle hpc c hc]
    cases c <;> simp [owed, Tracker.registerStartupMemory] at hc ⊢
  · show _ ≤ t.held.trackedBytes + _
    have := h.bytes_nonneg
    exact le_add_of_nonneg_left this

theorem unregisterStartupMemory (h : TrackerOk cfg t) (hpc : t.pc = .idle)
    (hinit : t.vmemTrackerInited = true) :
    TrackerOk cfg { t with
      pc := .change [.segment, .session] (-t.startupChunks) .unregistered } := by
  refine { h with
    place := ⟨by decide, h.level hpc, rfl⟩
    share := ?_, uninited := fun hu => absurd (hu.symm.trans hinit) (by decide) }
  intro c hc
  rw [h.share_idle hpc c hc]
  cases c <;> simp [owed] at hc ⊢

theorem shutdown (h : TrackerOk cfg t) (hpc : t.pc = .idle) (hzero : t.startupChunks = 0) :
    TrackerOk cfg { t with
      vmemTrackerInited := false
      pc := .change [.segment, .session, .group] (-t.held.trackedVmemChunks) .shutDown } := by
  refine { h with
    place := ⟨by decide, rfl, hzero, by rw [h.startup.1, hzero, zero_mul]⟩
    share := ?_, uninited := fun _ => Or.inr ⟨_, _, rfl⟩ }
  intro c hc
  rw [h.share_idle hpc c hc]
  cases c <;> simp [owed] at hc ⊢

/-- Variables that no counter depends on may change between calls. -/
theorem between (h : TrackerOk cfg t) (hpc : t.pc = .idle) (hinit : t.vmemTrackerInited = true)
    {w : Int} (hw : 0 ≤ w) {calls : List ReserveCall}
    (hcalls : ∀ call ∈ calls, call ∈ t.suspended) :
    TrackerOk cfg { t with waivedChunks := w, suspended := calls } := by
  refine { h with
    place := ?_, waived := hw, calls := fun call hc => h.calls call (hcalls call hc)
    uninited := fun hu => absurd (hu.symm.trans hinit) (by decide) }
  simp only [PlaceOk, hpc]
  exact h.level hpc

theorem init (h : TrackerOk cfg t) (hpc : t.pc = .idle) (hinit : t.vmemTrackerInited = false) :
    TrackerOk cfg { t with
      vmemTrackerInited := true
      held := { t.held with trackedBytes := 0, trackedVmemChunks := 0 } } := by
  have hzero : t.held.trackedBytes = 0 ∧ t.held.trackedVmemChunks = 0 := by
    rcases h.uninited hinit with ⟨-, h₁, h₂⟩ | ⟨todo, delta, hc⟩
    · exact ⟨h₁, h₂⟩
    · rw [hpc] at hc
      cases hc
  refine { h with
    place := ?_, share := ?_, startup_le := ?_, small := ?_
    uninited := fun hu => absurd (show true = false from hu) (by decide) }
  · simp only [PlaceOk, hpc]
    simp [VmemConfig.chunks]
  · intro c hc
    have hold := h.share c hc
    rw [hzero.2] at hold
    exact hold
  · show t.startupBytes ≤ 0
    have := h.startup_le
    rw [hzero.1] at this
    exact this
  · simp [VmemConfig.chunks]

end TrackerOk

/-! ## Every run -/

omit [Fintype P] [DecidableEq P] [DecidableEq S] in
theorem canCall_iff (t : Tracker) : t.canCall = true ↔ t.pc = .idle ∧
    t.vmemTrackerInited = true := by
  rw [Tracker.canCall]
  cases t.pc <;> simp

omit [Fintype P] [DecidableEq P] [DecidableEq S] in
theorem noCall_iff (t : Tracker) : t.noCall = true ↔ t.canCall = true ∧ t.suspended = [] := by
  simp [Tracker.noCall]

/-- The chunks of a request fit in 32 bits, and those computed before the calls inside
`VmemTracker_ReserveVmem` are still right after them. -/
def chunksCurrent (cfg : VmemConfig P S) (st : VmemState P S) : VmemAction P → Bool
  | .reserveVmem p n _ => cfg.chunks ((st.proc p).held.trackedBytes + n) < 2 ^ 31
  | .registerStartupMemory p n executing =>
    cfg.chunks ((st.proc p).registerStartupMemory cfg n executing).held.trackedBytes < 2 ^ 31
  | .resume p => (st.proc p).suspended.head?.all fun call =>
    call.newszChunk = cfg.chunks ((st.proc p).held.trackedBytes + call.newlyRequestedBytes)
  | _ => true

theorem VmemInv.groupReserve (h : VmemInv cfg st) {r : Reservation} {total : Int}
    (hpc : (st.proc p).pc = .groupReserve r total) (granted waiverUsed : Bool) :
    VmemInv cfg (groupReserve cfg st p r total granted waiverUsed) := by
  have ht := h.procs p
  rw [Mem.groupReserve]
  cases granted with
  | true =>
    rw [if_pos rfl]
    dsimp only
    split_ifs
    · exact h.addCounter (ht.groupExhausted hpc) rfl
    · exact h.addCounter (ht.groupGranted hpc _) rfl
  | false =>
    rw [if_neg Bool.false_ne_true]
    exact h.setTracker (ht.groupRefused hpc) rfl

theorem VmemInv.addSegment (h : VmemInv cfg st) {r : Reservation} {waiverUsed : Bool}
    (hpc : (st.proc p).pc = .addSegment r waiverUsed) :
    VmemInv cfg (addSegment cfg st p r waiverUsed) := by
  have ht := h.procs p
  rw [Mem.addSegment]
  dsimp only
  by_cases hex : (cfg.vmemLimitChunks < st.segmentVmemChunks + r.numChunksToReserve ∧
      r.executing = true) ∧ cfg.vmemLimitChunks + (st.proc p).waivedChunks <
        st.segmentVmemChunks + r.numChunksToReserve
  · rw [if_pos hex]
    exact h.addCounter (ht.segmentExhausted hpc) rfl
  · rw [if_neg hex]
    refine { h.addCounter (ht.segmentReserved hpc ?_) rfl with returned := ?_ }
    · split_ifs
      · exact le_rfl
      · exact ht.waived
    · intro x hx
      rcases List.mem_cons.mp hx with rfl | hx
      · refine ⟨fun hs => absurd rfl hs, fun _ hexec => ?_⟩
        have hw := ht.waived
        by_contra hlt
        exact hex ⟨⟨by simp only at hlt; omega, hexec⟩, not_le.mp hlt⟩
      · exact h.returned x hx

theorem VmemInv.proceed (h : VmemInv cfg st) {granted waiverUsed : Bool}
    (hs : proceed cfg st p granted waiverUsed = some st') : VmemInv cfg st' := by
  have ht := h.procs p
  rw [Mem.proceed] at hs
  cases hpc : (st.proc p).pc with
  | idle => simp [hpc] at hs
  | addSession r =>
    simp only [hpc, Option.some.injEq] at hs
    subst hs
    exact h.addCounter (ht.addSession hpc _) rfl
  | groupReserve r total =>
    simp only [hpc, Option.some.injEq] at hs
    subst hs
    exact h.groupReserve hpc granted waiverUsed
  | addSegment r waiverUsed =>
    simp only [hpc, Option.some.injEq] at hs
    subst hs
    exact h.addSegment hpc
  | change todo delta finish =>
    cases todo with
    | nil =>
      simp only [hpc, Option.some.injEq] at hs
      subst hs
      obtain ⟨hok, hshare⟩ := ht.finish hpc
      refine { h.setTracker hok hshare with returned := ?_ }
      intro x hx
      rcases List.mem_append.mp hx with hx | hx
      · exact ht.returned hpc x hx
      · exact h.returned x hx
    | cons c todo =>
      simp only [hpc, Option.some.injEq] at hs
      subst hs
      exact h.addCounter (ht.change hpc) rfl

/-- **One step keeps the accounts.** -/
theorem VmemInv.step (h : VmemInv cfg st) {a : VmemAction P} (hok : chunksCurrent cfg st a = true)
    (hs : vmemStep cfg st a = some st') : VmemInv cfg st' := by
  cases a with
  | init p =>
    have ht := h.procs p
    simp only [vmemStep] at hs
    cases hpc : (st.proc p).pc with
    | idle =>
      simp only [hpc] at hs
      split_ifs at hs with hinit
      cases hs
      have hnew := ht.init hpc hinit
      simp only [hpc] at hnew
      exact h.setTracker hnew rfl
    | addSession | groupReserve | addSegment | change => simp [hpc] at hs
  | reserveVmem p n executing =>
    simp only [vmemStep] at hs
    split_ifs at hs with hc
    cases hs
    obtain ⟨hpc, hinit⟩ := (canCall_iff _).mp hc
    refine h.setTracker ((h.procs p).reserveVmem hpc hinit (of_decide_eq_true hok) executing) ?_
    rw [Tracker.reserveVmem]
    split_ifs <;> rfl
  | resume p =>
    simp only [vmemStep] at hs
    split_ifs at hs with hc
    obtain ⟨hpc, hinit⟩ := (canCall_iff _).mp hc
    obtain ⟨t, ht, rfl⟩ := Option.map_eq_some_iff.mp hs
    have hcur : ∀ call ∈ (st.proc p).suspended.head?, call.newszChunk =
        cfg.chunks ((st.proc p).held.trackedBytes + call.newlyRequestedBytes) := by
      intro call hcall
      rw [chunksCurrent, Option.mem_def.mp hcall] at hok
      exact of_decide_eq_true hok
    obtain ⟨hnew, hshare⟩ := (h.procs p).resume hpc hinit hcur ht
    exact h.setTracker hnew hshare
  | throw p =>
    simp only [vmemStep] at hs
    split_ifs at hs with hc
    cases hs
    obtain ⟨hpc, hinit⟩ := (canCall_iff _).mp hc
    exact h.setTracker ((h.procs p).between hpc hinit (h.procs p).waived
      fun _ hx => absurd hx List.not_mem_nil) rfl
  | releaseVmem p n =>
    simp only [vmemStep] at hs
    split_ifs at hs with hc
    cases hs
    obtain ⟨hpc, hinit⟩ := (canCall_iff _).mp hc
    obtain ⟨hnew, hshare⟩ := (h.procs p).releaseVmem hpc hinit n
    exact h.setTracker hnew hshare
  | registerStartupMemory p n executing =>
    simp only [vmemStep] at hs
    split_ifs at hs with hc
    cases hs
    obtain ⟨hpc, hinit⟩ := (canCall_iff _).mp ((noCall_iff _).mp hc.1).1
    exact h.setTracker ((h.procs p).registerStartupMemory hpc hinit executing
      (of_decide_eq_true hok)) rfl
  | unregisterStartupMemory p =>
    simp only [vmemStep] at hs
    split_ifs at hs with hc
    cases hs
    obtain ⟨hpc, hinit⟩ := (canCall_iff _).mp ((noCall_iff _).mp hc).1
    exact h.setTracker ((h.procs p).unregisterStartupMemory hpc hinit) rfl
  | shutdown p =>
    simp only [vmemStep] at hs
    split_ifs at hs with hc
    cases hs
    obtain ⟨hpc, -⟩ := (canCall_iff _).mp ((noCall_iff _).mp hc.1).1
    exact h.setTracker ((h.procs p).shutdown hpc hc.2) rfl
  | requestWaiver p n =>
    simp only [vmemStep] at hs
    split_ifs at hs with hc
    cases hs
    obtain ⟨hpc, hinit⟩ := (canCall_iff _).mp hc
    exact h.setTracker ((h.procs p).between hpc hinit
      (le_max_of_le_left (Int.natCast_nonneg n)) fun _ hx => hx) rfl
  | resetWaiver p =>
    simp only [vmemStep] at hs
    split_ifs at hs with hc
    cases hs
    obtain ⟨hpc, hinit⟩ := (canCall_iff _).mp hc
    exact h.setTracker ((h.procs p).between hpc hinit le_rfl fun _ hx => hx) rfl
  | proceed p granted waiverUsed => exact h.proceed hs

/-- **The accounting is exact.** In a run in which the chunks a reservation has computed are still
right when it goes on, the counters are, when no process is in a call, the sums of the chunks of the
processes, and these are the chunks of their bytes. A reservation that fails leaves the process with
what it had, in bytes, in chunks and in every counter; one that succeeds, of an executing process,
has seen a total of the segment within the limit and the waiver. -/
theorem vmem_exact (cfg : VmemConfig P S) {as : List (VmemAction P)}
    (hok : Along (vmemStep cfg) (chunksCurrent cfg · · = true) vmemInit as)
    (hrun : run (vmemStep cfg) vmemInit as = some st) :
    ((∀ p, (st.proc p).pc = .idle) →
      st.segmentVmemChunks = ∑ p, (st.proc p).held.trackedVmemChunks ∧
      (∀ s, st.sessionVmem s =
        ∑ p, if cfg.sess p = s then (st.proc p).held.trackedVmemChunks else 0) ∧
      (∀ p, (st.proc p).held.trackedVmemChunks = cfg.chunks (st.proc p).held.trackedBytes ∧
        0 ≤ (st.proc p).held.trackedBytes ∧ 0 ≤ (st.proc p).held.trackedVmemChunks) ∧
      0 ≤ st.segmentVmemChunks ∧ ∀ s, 0 ≤ st.sessionVmem s) ∧
    ∀ x ∈ st.returned, ReturnedOk cfg x := by
  have h : VmemInv cfg st :=
    run_invariant_along (fun _ _ _ h hok hs => h.step hok hs) hok (vmemInv_init cfg) hrun
  refine ⟨?_, h.returned⟩
  intro hidle
  have hlevel : ∀ p, (st.proc p).held.trackedVmemChunks =
      cfg.chunks (st.proc p).held.trackedBytes :=
    fun p => (h.procs p).level (hidle p)
  have hnonneg : ∀ p, 0 ≤ (st.proc p).held.trackedVmemChunks := by
    intro p
    rw [hlevel p]
    exact chunks_nonneg (h.procs p).bytes_nonneg
  have hseg : st.segmentVmemChunks = ∑ p, (st.proc p).held.trackedVmemChunks := by
    rw [h.segment]
    exact Finset.sum_congr rfl fun p _ => (h.procs p).share_idle (hidle p) _ (by decide)
  have hsess : ∀ s, st.sessionVmem s =
      ∑ p, if cfg.sess p = s then (st.proc p).held.trackedVmemChunks else 0 := by
    intro s
    rw [h.session]
    refine Finset.sum_congr rfl fun p _ => ?_
    rw [(h.procs p).share_idle (hidle p) _ (by decide)]
  refine ⟨hseg, hsess, fun p => ⟨hlevel p, (h.procs p).bytes_nonneg, hnonneg p⟩, ?_, ?_⟩
  · rw [hseg]
    exact Finset.sum_nonneg fun p _ => hnonneg p
  · intro s
    rw [hsess s]
    refine Finset.sum_nonneg fun p _ => ?_
    split_ifs
    · exact hnonneg p
    · exact le_rfl

/-- A process that reserves a chunk. -/
def reserveChunk : List (VmemAction (Fin 1)) :=
  [.reserveVmem 0 1048576 true, .resume 0, .proceed 0 true false, .proceed 0 true false,
    .proceed 0 true false]

/-- Chunks of a megabyte, and a limit of one chunk. -/
def oneChunk : VmemConfig (Fin 1) Unit := ⟨fun _ => (), 20, 1, 0⟩

/-- The second reservation is beyond the limit: it takes back what it has added. -/
theorem vmem_exact_oneChunk :
    ∃ st, run (vmemStep oneChunk) vmemInit (.init 0 :: reserveChunk ++ reserveChunk ++
        [.proceed 0 true false, .proceed 0 true false, .proceed 0 true false,
          .proceed 0 true false]) = some st ∧
      st.returned.map (·.status) = [.vmemExhausted, .success] ∧ st.segmentVmemChunks = 1 ∧
      ∀ x ∈ st.returned, ReturnedOk oneChunk x := by
  obtain ⟨st, hst⟩ : ∃ st, run (vmemStep oneChunk) vmemInit (.init 0 :: reserveChunk ++ reserveChunk
      ++ [.proceed 0 true false, .proceed 0 true false, .proceed 0 true false,
        .proceed 0 true false]) = some st :=
    Option.isSome_iff_exists.mp (by decide +kernel)
  have hshape : (run (vmemStep oneChunk) vmemInit (.init 0 :: reserveChunk ++ reserveChunk ++
      [.proceed 0 true false, .proceed 0 true false, .proceed 0 true false,
        .proceed 0 true false])).map
        (fun st => (st.returned.map (·.status), st.segmentVmemChunks)) =
      some ([.vmemExhausted, .success], 1) := by decide +kernel
  rw [hst, Option.map_some, Option.some.injEq, Prod.mk.injEq] at hshape
  exact ⟨st, hst, hshape.1, hshape.2, (vmem_exact oneChunk (by decide +kernel) hst).2⟩

/-- A chunk is released while the next one is being reserved. -/
def staleRun : List (VmemAction (Fin 1)) :=
  .init 0 :: reserveChunk ++ [.reserveVmem 0 1048576 true, .releaseVmem 0 1048576,
    .proceed 0 true false, .proceed 0 true false, .proceed 0 true false, .proceed 0 true false,
    .resume 0, .proceed 0 true false, .proceed 0 true false, .proceed 0 true false]

/-- **A stale number of chunks.** With a limit of 8 chunks: the process ends up with two chunks for
the bytes of one, though it is in no call. -/
theorem stale_newszChunk :
    ∃ st, run (vmemStep (⟨fun _ => (), 20, 8, 0⟩ : VmemConfig (Fin 1) Unit)) vmemInit staleRun =
        some st ∧
      (∀ p, (st.proc p).noCall = true) ∧ (st.proc 0).held.trackedVmemChunks = 2 ∧
      VmemConfig.chunks (⟨fun _ => (), 20, 8, 0⟩ : VmemConfig (Fin 1) Unit)
        (st.proc 0).held.trackedBytes = 1 := by
  obtain ⟨st, hst⟩ : ∃ st,
    run (vmemStep (⟨fun _ => (), 20, 8, 0⟩ : VmemConfig (Fin 1) Unit)) vmemInit
      staleRun = some st := Option.isSome_iff_exists.mp (by decide +kernel)
  have hshape : (run (vmemStep (⟨fun _ => (), 20, 8, 0⟩ : VmemConfig (Fin 1) Unit)) vmemInit
      staleRun).map (fun st => ((st.proc 0).noCall, (st.proc 0).held.trackedVmemChunks,
        (st.proc 0).held.trackedBytes)) = some (true, 2, 1048576) := by decide +kernel
  rw [hst, Option.map_some, Option.some.injEq, Prod.mk.injEq, Prod.mk.injEq] at hshape
  refine ⟨st, hst, ?_, hshape.2.1, ?_⟩
  · intro p
    rw [Subsingleton.elim p 0]
    exact hshape.1
  · rw [hshape.2.2]
    decide

end Hdb.Mem
