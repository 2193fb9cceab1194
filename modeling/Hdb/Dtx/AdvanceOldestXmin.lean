import Hdb.Dtx.CommittedTest
import Hdb.Lib.FirstFrom

/-!
# Advancing the distributed horizon

`DistributedLog_AdvanceOldestXmin` passes over the transactions that are older than all distributed
snapshots, up to the oldest local `xmin`. It compares distributed ids with `TransactionIdPrecedes`,
modulo `2 ^ 32`; the visibility test compares them as plain numbers, and distributed ids never wrap.

Main results: `advanceLoop_spec`, where the loop stops, and `distributedLogAdvanceOldestXmin_iff`,
when that is at the first transaction the visibility test would not ignore.
-/

namespace Hdb.Dtx

/-! ## The function -/

/-- `TransactionIdAdvance` on the 32 bits the code has. -/
def xidAdvance (xid : ℕ) : ℕ :=
  if (xid + 1) % 2 ^ 32 < firstNormalTransactionId then firstNormalTransactionId
  else (xid + 1) % 2 ^ 32

/-- The loop of `DistributedLog_AdvanceOldestXmin`; `none` when it has not ended after that many
rounds. -/
def advanceLoop (entry : ℕ → ℕ × ℕ) (oldestLocalXmin distribTransactionTimeStamp
    xminAllDistributedSnapshots : ℕ) : ℕ → ℕ → Option ℕ
  | 0, _ => none
  | rounds + 1, oldestXmin =>
    if transactionIdPrecedes oldestXmin oldestLocalXmin then
      let ptr := entry oldestXmin
      if ptr.1 = distribTransactionTimeStamp ∧
          transactionIdPrecedes ptr.2 xminAllDistributedSnapshots = false then
        some oldestXmin
      else
        advanceLoop entry oldestLocalXmin distribTransactionTimeStamp xminAllDistributedSnapshots
          rounds (xidAdvance oldestXmin)
    else some oldestXmin

/-- `DistributedLog_AdvanceOldestXmin`: the horizon it writes and returns. -/
def distributedLogAdvanceOldestXmin (log : DistributedLog)
    (oldestLocalXmin distribTransactionTimeStamp xminAllDistributedSnapshots : ℕ) : Option ℕ :=
  advanceLoop log.entry oldestLocalXmin distribTransactionTimeStamp xminAllDistributedSnapshots
    (2 ^ 31 + 1) log.oldestXmin

/-! ## Where the loop goes -/

/-- How far `xid` is behind `oldestLocalXmin`. -/
def behind (oldestLocalXmin xid : ℕ) : ℕ := (oldestLocalXmin + 2 ^ 32 - xid) % 2 ^ 32

/-- An id the loop can be at: at most half the ids behind the oldest local `xmin`. -/
structure Scanned (oldestLocalXmin xid : ℕ) : Prop where
  pos : 0 < xid
  lt : xid < 2 ^ 32
  behind_le : behind oldestLocalXmin xid ≤ 2 ^ 31

variable {oldestLocalXmin xid : ℕ}

theorem precedes_oldestLocalXmin (hn : 3 ≤ oldestLocalXmin) (hL : oldestLocalXmin < 2 ^ 32)
    (h : Scanned oldestLocalXmin xid) :
    transactionIdPrecedes xid oldestLocalXmin = true ↔ xid ≠ oldestLocalXmin := by
  obtain ⟨hpos, hlt, hbehind⟩ := h
  unfold behind at hbehind
  unfold transactionIdPrecedes transactionIdIsNormal firstNormalTransactionId
  split_ifs with hnormal
  · simp only [Bool.or_eq_true, Bool.not_eq_true', decide_eq_false_iff_not] at hnormal
    rw [decide_eq_true_iff]
    omega
  · rw [decide_eq_true_iff]
    omega

theorem behind_xidAdvance (hn : 3 ≤ oldestLocalXmin) (hL : oldestLocalXmin < 2 ^ 32)
    (h : Scanned oldestLocalXmin xid) (hne : xid ≠ oldestLocalXmin) :
    Scanned oldestLocalXmin (xidAdvance xid) ∧
    behind oldestLocalXmin (xidAdvance xid) < behind oldestLocalXmin xid := by
  obtain ⟨hpos, hlt, hbehind⟩ := h
  have hadvance : xidAdvance xid = if xid + 1 = 2 ^ 32 ∨ xid = 1 then 3 else xid + 1 := by
    unfold xidAdvance firstNormalTransactionId
    split_ifs <;> omega
  unfold behind at hbehind
  have hlt : behind oldestLocalXmin (xidAdvance xid) < behind oldestLocalXmin xid := by
    rw [hadvance]
    unfold behind
    split_ifs <;> omega
  refine ⟨⟨?_, ?_, by unfold behind at hlt ⊢; omega⟩, hlt⟩
  · rw [hadvance]
    split_ifs <;> omega
  · rw [hadvance]
    split_ifs <;> omega

theorem scanned_iterate (hn : 3 ≤ oldestLocalXmin) (hL : oldestLocalXmin < 2 ^ 32)
    (h : Scanned oldestLocalXmin xid) (k : ℕ)
    (hne : ∀ i < k, xidAdvance^[i] xid ≠ oldestLocalXmin) :
    Scanned oldestLocalXmin (xidAdvance^[k] xid) ∧
    behind oldestLocalXmin (xidAdvance^[k] xid) ≤ behind oldestLocalXmin xid := by
  induction k with
  | zero => exact ⟨h, le_rfl⟩
  | succ k ih =>
    obtain ⟨hscanned, hle⟩ := ih fun i hi => hne i (by omega)
    obtain ⟨hscanned', hlt⟩ := behind_xidAdvance hn hL hscanned (hne k (by omega))
    rw [Function.iterate_succ_apply']
    exact ⟨hscanned', hlt.le.trans hle⟩

/-- No id the loop looks at is before the one it started from. -/
theorem not_precedes_start {y : ℕ} (hL : oldestLocalXmin < 2 ^ 32)
    (h : Scanned oldestLocalXmin xid) (hy : Scanned oldestLocalXmin y) (hne : y ≠ oldestLocalXmin)
    (hle : behind oldestLocalXmin y ≤ behind oldestLocalXmin xid) (hnormal : 3 ≤ y) :
    transactionIdPrecedes y xid = false := by
  obtain ⟨-, hlt, hbehind⟩ := h
  obtain ⟨-, hylt, -⟩ := hy
  unfold behind at hle hbehind
  unfold transactionIdPrecedes transactionIdIsNormal firstNormalTransactionId
  split_ifs with hspecial
  · simp only [Bool.or_eq_true, Bool.not_eq_true', decide_eq_false_iff_not] at hspecial
    rw [decide_eq_false_iff_not]
    omega
  · rw [decide_eq_false_iff_not]
    omega

/-- The loop passes over an entry. -/
def Passes (T xminAll : ℕ) (e : ℕ × ℕ) : Prop :=
  ¬ (e.1 = T ∧ transactionIdPrecedes e.2 xminAll = false)

/-- **The loop ends** at the oldest local `xmin` or at the first entry before it that is not passed
over. -/
theorem advanceLoop_spec (hn : 3 ≤ oldestLocalXmin) (hL : oldestLocalXmin < 2 ^ 32)
    (h : Scanned oldestLocalXmin xid) (entry : ℕ → ℕ × ℕ) (T xminAll : ℕ) {rounds : ℕ}
    (hrounds : behind oldestLocalXmin xid < rounds) :
    ∃ x, advanceLoop entry oldestLocalXmin T xminAll rounds xid = some x ∧
      FirstFrom xidAdvance (fun y => y = oldestLocalXmin ∨ ¬ Passes T xminAll (entry y)) xid x := by
  induction rounds generalizing xid with
  | zero => omega
  | succ rounds ih =>
    have hprec := precedes_oldestLocalXmin hn hL h
    rw [advanceLoop]
    by_cases hne : xid = oldestLocalXmin
    · rw [if_neg fun hp => hprec.mp hp hne]
      exact ⟨xid, rfl, .here (.inl hne)⟩
    · rw [if_pos (hprec.mpr hne)]
      by_cases hstop : (entry xid).1 = T ∧ transactionIdPrecedes (entry xid).2 xminAll = false
      · exact ⟨xid, if_pos hstop, .here (.inr (not_not.mpr hstop))⟩
      · obtain ⟨hscanned, hlt⟩ := behind_xidAdvance hn hL h hne
        obtain ⟨x, hx, hfirst⟩ := ih hscanned (by omega)
        refine ⟨x, (if_neg hstop).trans hx, .there ?_ hfirst⟩
        rintro (heq | hno)
        · exact hne heq
        · exact hno hstop

/-! ## The visibility test -/

/-- The visibility test ignores an entry: there is none, or it is complete and of another start of
the dispatcher or older than all snapshots. -/
def Ignored (T xminAll : ℕ) (e : ℕ × ℕ) : Prop :=
  (e.1 = 0 ∧ e.2 = 0) ∨ (e.1 ≠ 0 ∧ e.2 ≠ 0 ∧ (e.1 ≠ T ∨ e.2 < xminAll))

theorem uncachedTest_eq_ignore {log : DistributedLog} (ds : DistributedSnapshot)
    (isVacuumCheck : Bool) {y : ℕ}
    (hstart : 3 ≤ y → transactionIdPrecedes y log.oldestXmin = false) :
    uncachedTest log ds y isVacuumCheck = some .ignore ↔
      y < 3 ∨ Ignored ds.distribTransactionTimeStamp ds.xminAllDistributedSnapshots
        (log.entry y) := by
  unfold uncachedTest transactionIdIsNormal firstNormalTransactionId
  by_cases hspecial : y < 3
  · rw [if_pos (decide_eq_false (not_le.mpr hspecial))]
    exact iff_of_true rfl (.inl hspecial)
  · have hnormal := not_lt.mp hspecial
    rw [if_neg (by simp [hnormal]), or_iff_right hspecial, distributedLogCommittedCheck,
      hstart hnormal, if_neg Bool.false_ne_true, Ignored]
    dsimp only
    generalize log.entry y = e
    by_cases hfound : e.1 ≠ 0 ∧ e.2 ≠ 0
    · rw [if_pos hfound]
      dsimp only
      by_cases hT : e.1 = ds.distribTransactionTimeStamp
      · rw [if_neg (not_not.mpr hT), Option.some_inj, distribXidAnswer]
        by_cases hlt : e.2 < ds.xminAllDistributedSnapshots
        · rw [if_pos hlt]
          exact iff_of_true rfl (.inr ⟨hfound.1, hfound.2, .inr hlt⟩)
        · rw [if_neg hlt]
          refine iff_of_false (by split_ifs <;> simp) ?_
          rintro (h | ⟨-, -, h | h⟩)
          · exact hfound.1 h.1
          · exact h hT
          · exact hlt h
      · rw [if_pos hT]
        exact iff_of_true rfl (.inr ⟨hfound.1, hfound.2, .inl hT⟩)
    · rw [if_neg hfound]
      by_cases hzero : e.1 = 0 ∧ e.2 = 0
      · rw [if_pos hzero]
        exact iff_of_true rfl (.inl hzero)
      · rw [if_neg hzero]
        refine iff_of_false (by simp) ?_
        rintro (h | ⟨h₁, h₂, -⟩)
        · exact hzero h
        · exact hfound ⟨h₁, h₂⟩

/-- The two ids are special, or less than half the ids apart. -/
def WithinHalf (d xminAll : ℕ) : Prop :=
  d < 3 ∨ xminAll < 3 ∨ (xminAll ≤ d + 2 ^ 31 ∧ d < xminAll + 2 ^ 31)

/-- When comparing modulo `2 ^ 32` is comparing as plain numbers. -/
theorem precedes_iff_lt {d xminAll : ℕ} (hd : d < 2 ^ 32) (hX : xminAll < 2 ^ 32) :
    (transactionIdPrecedes d xminAll = true ↔ d < xminAll) ↔ WithinHalf d xminAll := by
  unfold transactionIdPrecedes transactionIdIsNormal firstNormalTransactionId WithinHalf
  split_ifs with hspecial
  · simp only [Bool.or_eq_true, Bool.not_eq_true', decide_eq_false_iff_not] at hspecial
    rw [decide_eq_true_iff]
    refine iff_of_true Iff.rfl ?_
    omega
  · simp only [Bool.or_eq_true, Bool.not_eq_true', decide_eq_false_iff_not] at hspecial
    rw [decide_eq_true_iff]
    omega

/-- The loop and the visibility test agree on an entry: its distributed id is within half the ids of
`xminAll` if it has the time stamp, and an entry that is half zero, an error to the test, is not
passed over. The test ignores the special ids. -/
def EntryAgrees (T xminAll xid : ℕ) (e : ℕ × ℕ) : Prop :=
  if xid < 3 then Passes T xminAll e
  else (e.1 ≠ 0 → e.1 = T → WithinHalf e.2 xminAll) ∧
    (e.1 = 0 → e.2 ≠ 0 → ¬ Passes T xminAll e) ∧ (e.2 = 0 → e.1 = 0)

theorem entryAgrees_iff {T xminAll y : ℕ} {e : ℕ × ℕ} (h₁ : 1 ≤ xminAll) (hX : xminAll < 2 ^ 32)
    (he : e.2 < 2 ^ 32) :
    (Passes T xminAll e ↔ y < 3 ∨ Ignored T xminAll e) ↔ EntryAgrees T xminAll y e := by
  unfold EntryAgrees
  split_ifs with hspecial
  · simp [hspecial]
  · have hlt := precedes_iff_lt he hX
    have hzero : e.2 = 0 → transactionIdPrecedes e.2 xminAll = true := by
      intro h
      rw [h]
      exact decide_eq_true (Nat.lt_of_succ_le h₁)
    unfold Passes Ignored
    by_cases hp : transactionIdPrecedes e.2 xminAll = true
    · rw [hp] at hlt ⊢
      grind
    · rw [Bool.not_eq_true] at hp
      rw [hp] at hlt ⊢
      grind

/-! ## The horizon -/

/-- The first id from the horizon on that is the oldest local `xmin` or that the visibility test
does not ignore. -/
def FirstKept (log : DistributedLog) (ds : DistributedSnapshot) (oldestLocalXmin : ℕ)
    (isVacuumCheck : Bool) (x : ℕ) : Prop :=
  FirstFrom xidAdvance
    (fun y => y = oldestLocalXmin ∨ uncachedTest log ds y isVacuumCheck ≠ some .ignore)
    log.oldestXmin x

/-- **When the horizon is advanced to the first transaction a snapshot may need**: on every entry
the loop looks at, it agrees with the visibility test. -/
theorem distributedLogAdvanceOldestXmin_iff (log : DistributedLog) (ds : DistributedSnapshot)
    (oldestLocalXmin : ℕ) (isVacuumCheck : Bool)
    (hn : 3 ≤ oldestLocalXmin) (hL : oldestLocalXmin < 2 ^ 32)
    (hstart : Scanned oldestLocalXmin log.oldestXmin)
    (hX : 1 ≤ ds.xminAllDistributedSnapshots ∧ ds.xminAllDistributedSnapshots < 2 ^ 32)
    (hentry : ∀ x, (log.entry x).2 < 2 ^ 32) :
    (∃ x, distributedLogAdvanceOldestXmin log oldestLocalXmin ds.distribTransactionTimeStamp
        ds.xminAllDistributedSnapshots = some x ∧
      FirstKept log ds oldestLocalXmin isVacuumCheck x) ↔
    ∀ k, (∀ i < k, xidAdvance^[i] log.oldestXmin ≠ oldestLocalXmin ∧
        Passes ds.distribTransactionTimeStamp ds.xminAllDistributedSnapshots
          (log.entry (xidAdvance^[i] log.oldestXmin))) →
      xidAdvance^[k] log.oldestXmin ≠ oldestLocalXmin →
      EntryAgrees ds.distribTransactionTimeStamp ds.xminAllDistributedSnapshots
        (xidAdvance^[k] log.oldestXmin) (log.entry (xidAdvance^[k] log.oldestXmin)) := by
  have hrounds : behind oldestLocalXmin log.oldestXmin < 2 ^ 31 + 1 :=
    Nat.lt_succ_of_le hstart.behind_le
  obtain ⟨x, hx, hfirst⟩ := advanceLoop_spec hn hL hstart log.entry ds.distribTransactionTimeStamp
    ds.xminAllDistributedSnapshots hrounds
  have hvalue : (∃ x, distributedLogAdvanceOldestXmin log oldestLocalXmin
        ds.distribTransactionTimeStamp ds.xminAllDistributedSnapshots = some x ∧
      FirstKept log ds oldestLocalXmin isVacuumCheck x) ↔
      FirstKept log ds oldestLocalXmin isVacuumCheck x := by
    rw [distributedLogAdvanceOldestXmin, hx]
    simp
  rw [hvalue, FirstKept, firstFrom_iff_agree hfirst]
  refine forall_congr' fun k => ?_
  simp only [not_or, not_not]
  refine imp_congr_right fun hpassed => ?_
  by_cases hend : xidAdvance^[k] log.oldestXmin = oldestLocalXmin
  · exact iff_of_true (iff_of_true (.inl hend) (.inl hend)) fun hne => absurd hend hne
  · obtain ⟨hscanned, hle⟩ := scanned_iterate hn hL hstart k fun i hi => (hpassed i hi).1
    have hignore := uncachedTest_eq_ignore ds isVacuumCheck
      (not_precedes_start hL hstart hscanned hend hle)
    rw [← entryAgrees_iff hX.1 hX.2 (hentry _), or_iff_right hend, or_iff_right hend, ne_eq,
      hignore, not_iff_not]
    exact (imp_iff_right hend).symm

/-- The distributed transaction `2 ^ 31 + 10` committed as the local one 100. -/
def farLog : DistributedLog := ⟨100, fun x => if x = 100 then (7, 2 ^ 31 + 10) else (0, 0)⟩

/-- A snapshot with the distributed transaction 5 still in progress. -/
def oldSnapshot : DistributedSnapshot := ⟨7, 5, 5, 2 ^ 31 + 20, [5]⟩

theorem scanned_farLog : Scanned 101 farLog.oldestXmin := ⟨by decide, by decide, by decide⟩

/-- The ids are within half of one another when the snapshot begins at `2 ^ 31`. -/
theorem advanceOldestXmin_near :
    ∃ x, distributedLogAdvanceOldestXmin farLog 101 7 (2 ^ 31) = some x ∧
      FirstKept farLog ⟨7, 2 ^ 31, 2 ^ 31, 2 ^ 31 + 20, []⟩ 101 false x := by
  have hentry : ∀ x, (farLog.entry x).2 < 2 ^ 32 := by
    intro x
    unfold farLog
    dsimp only
    split_ifs <;> decide
  refine (distributedLogAdvanceOldestXmin_iff farLog ⟨7, 2 ^ 31, 2 ^ 31, 2 ^ 31 + 20, []⟩ 101 false
    (by decide) (by decide) scanned_farLog (by decide) hentry).mpr fun k hpassed hne => ?_
  -- the first entry stops the loop
  cases k with
  | zero => exact ⟨fun _ _ => .inr (.inr (by decide)), fun h => absurd h (by decide), by decide⟩
  | succ k => exact absurd (hpassed 0 (Nat.succ_pos k)).2 (not_not.mpr (by decide))

/-- The horizon passes over a transaction that the test does not ignore: it is visible in the
snapshot, and in progress to a vacuum check. -/
theorem advanceOldestXmin_passes_needed :
    ¬ ∃ x, distributedLogAdvanceOldestXmin farLog 101 oldSnapshot.distribTransactionTimeStamp
        oldSnapshot.xminAllDistributedSnapshots = some x ∧
      FirstKept farLog oldSnapshot 101 false x := by
  rintro ⟨x, hx, k, rfl, -, hno⟩
  have hx' : distributedLogAdvanceOldestXmin farLog 101 oldSnapshot.distribTransactionTimeStamp
      oldSnapshot.xminAllDistributedSnapshots = some 101 := by decide
  rw [hx', Option.some_inj] at hx
  cases k with
  | zero => exact absurd hx (by decide)
  | succ k => exact hno 0 (Nat.succ_pos k) (.inr (by decide))

end Hdb.Dtx
