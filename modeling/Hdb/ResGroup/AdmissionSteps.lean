import Hdb.ResGroup.Admission

/-!
# Resource groups: admission under the lock

The functions that run under `ResGroupLock` keep `Admitted`, and what they grant stays within the
concurrency of the group (`Grants`): the loop of `wakeupSlots` first, then notification, release,
alteration and drop, which are made of it.
-/

namespace Hdb.ResGroup

open ResGroupControl

variable {g s p : ℕ} {c c' : ResGroupControl g s p} {i j : Fin g} {x y : Fin s} {q : Fin p}
  {cfg : NodeConfig p} {st : Fin p → SelfState g s}

/-! ## Moving chunks -/

/-- The group is the same but for its memory. -/
structure SameBooks (d d' : ResGroupData p) : Prop where
  groupId : d'.groupId = d.groupId
  memQuotaUsed : d'.memQuotaUsed = d.memQuotaUsed
  nRunning : d'.nRunning = d.nRunning
  waitProcs : d'.waitProcs = d.waitProcs
  lockedForDrop : d'.lockedForDrop = d.lockedForDrop
  nRunningBypassed : d'.nRunningBypassed = d.nRunningBypassed

/-- The group `i` and the pool after chunks have moved. -/
def poolUpdate (c : ResGroupControl g s p) (i : Fin g) (d : ResGroupData p) (f : ℤ) :
    ResGroupControl g s p :=
  { c.setGroup i d with freeChunks := f }

theorem poolUpdate_group (c : ResGroupControl g s p) (i : Fin g) (d : ResGroupData p) (f : ℤ) :
    (poolUpdate c i d f).groups i = d := Function.update_self ..

theorem poolUpdate_other (c : ResGroupControl g s p) (d : ResGroupData p) (f : ℤ) (hj : j ≠ i) :
    (poolUpdate c i d f).groups j = c.groups j := Function.update_of_ne hj ..

theorem SameBooks.poolUpdate {d : ResGroupData p} (hd : SameBooks (c.groups i) d) (f : ℤ)
    (j : Fin g) : SameBooks (c.groups j) ((poolUpdate c i d f).groups j) := by
  by_cases hj : j = i
  · rw [hj, poolUpdate_group]
    exact hd
  · rw [poolUpdate_other c d f hj]
    exact ⟨rfl, rfl, rfl, rfl, rfl, rfl⟩

theorem Admitted.poolUpdate {d : ResGroupData p} {f : ℤ} (h : Admitted cfg c st)
    (hd : SameBooks (c.groups i) d)
    (hw : (c.groups i).groupId ≠ none → (c.groups i).memQuotaUsed ≤ d.memQuotaGranted) :
    Admitted cfg (poolUpdate c i d f) st := by
  have hsame := hd.poolUpdate f
  refine ⟨h.counted.same ⟨rfl, fun _ => rfl, fun _ => rfl, fun _ => rfl,
    fun j => (hsame j).groupId, fun j => (hsame j).memQuotaUsed, fun j => (hsame j).nRunning,
    fun j => (hsame j).lockedForDrop⟩ fun j hj => ?_,
    h.heldBy.same ⟨rfl, rfl, rfl, fun _ => rfl, fun _ => rfl, fun j => (hsame j).waitProcs⟩,
    fun hrole => (h.bypass hrole).congr (fun j => (hsame j).groupId)
      fun j => (hsame j).nRunningBypassed⟩
  by_cases hji : j = i
  · rw [hji] at hj ⊢
    rw [poolUpdate_group]
    exact hw hj
  · rw [poolUpdate_other c d f hji]
    exact h.counted.within j hj

theorem SameButGrants.books {d d' : ResGroupData p} (h : SameButGrants d d') : SameBooks d d' :=
  ⟨h.groupId, h.memQuotaUsed, h.nRunning, h.waitProcs, h.lockedForDrop, h.nRunningBypassed⟩

theorem Admitted.autoReserve (h : Admitted cfg c st) (i : Fin g) (caps : ResGroupCaps) :
    Admitted cfg (mempoolAutoReserve c i caps) st := by
  rw [mempoolAutoReserve]
  split_ifs
  · refine h.poolUpdate (groupRebalanceQuota_same ..).books fun hid => ?_
    exact (h.counted.within i hid).trans
      (groupRebalanceQuota_quota_le _ _ (mempoolAutoReserved_nonneg ..) caps)
  · exact h

/-- The quota that is released is not in use. -/
theorem memQuotaUsed_le_released {T : ℕ} {d : ResGroupData p}
    (h : d.memQuotaUsed ≤ d.memQuotaGranted) :
    d.memQuotaUsed ≤ d.memQuotaGranted - max (memQuotaToFree T d) 0 := by
  have hkept : 0 ≤ if 0 < (d.caps.concurrency : ℤ) - d.nRunning then
      slotGetMemQuotaExpected T d.caps * ((d.caps.concurrency : ℤ) - d.nRunning) else 0 := by
    split_ifs with hfree
    · exact Int.mul_nonneg (Int.natCast_nonneg _) (le_of_lt hfree)
    · exact le_refl 0
  rw [memQuotaToFree]
  omega

theorem Admitted.autoRelease (h : Admitted cfg c st) (i : Fin g) :
    Admitted cfg (mempoolAutoRelease c i) st :=
  h.poolUpdate ⟨rfl, rfl, rfl, rfl, rfl, rfl⟩ fun hid =>
    memQuotaUsed_le_released (h.counted.within i hid)

/-! ## Getting slots -/

theorem Admitted.refused (h : Admitted cfg c st) (hget : groupGetSlot c i = some (none, c')) :
    Admitted cfg c' st := by
  obtain ⟨-, -, rfl⟩ | ⟨-, -, rfl⟩ | ⟨x, next, hx, -⟩ := groupGetSlot_cases hget
  · exact h
  · exact h.autoReserve i _
  · cases hx

/-- A granted slot is one of the group, and nobody has it yet. -/
theorem Admitted.granted (h : Admitted cfg c st) (hid : (c.groups i).groupId ≠ none)
    (hlock : (c.groups i).lockedForDrop = false) (hget : groupGetSlot c i = some (some x, c')) :
    SlotsCounted cfg.role c' ∧ SlotsHeld cfg.session (some x) c' st ∧
      (c'.slots x).group = some i := by
  obtain ⟨hx, -⟩ | ⟨hx, -⟩ | ⟨y, next, hx, -, hfree, hfits, rfl⟩ := groupGetSlot_cases hget
  · cases hx
  · cases hx
  · cases hx
    have hr := h.autoReserve i (c.groups i).caps
    have hsame := mempoolAutoReserve_same c i (c.groups i).caps
    have hfree' : (mempoolAutoReserve c i (c.groups i).caps).freeSlot = x :: next := by
      rw [mempoolAutoReserve_freeSlot, hfree]
    rw [memQuotaFits_iff, hsame.caps] at hfits
    refine ⟨hr.counted.take hfree' (by rw [hsame.groupId]; exact hid)
      (by rw [hsame.lockedForDrop]; exact hlock) (Int.natCast_nonneg _) hfits,
      hr.heldBy.take ?_, ?_⟩
    · rw [← hr.counted.free, hfree']
      exact List.mem_cons_self
    · rw [grantSlot_slot_self]

theorem SlotsCounted.wakeup {role : GpRole} (h : SlotsCounted role c) (i : Fin g) (q : Fin p)
    (qs : List (Fin p)) (r : Option (Fin s)) : SlotsCounted role (wakeup c i q qs r) := by
  refine h.queue rfl rfl fun j => ?_
  by_cases hj : j = i
  · rw [hj, wakeup_group]
  · rw [(wakeup_step c i q qs r).other j hj]

theorem wakeupSlotsLoop_admitted {qs : List (Fin p)} (h : Admitted cfg c st)
    (hid : (c.groups i).groupId ≠ none) (hlock : (c.groups i).lockedForDrop = false)
    (hqueue : (c.groups i).waitProcs = qs) (hloop : wakeupSlotsLoop true i qs c = some c') :
    Admitted cfg c' st := by
  induction qs generalizing c with
  | nil =>
    cases hloop
    exact h
  | cons q qs ih =>
    rw [wakeupSlotsLoop, if_pos rfl] at hloop
    split at hloop
    · cases hloop
    case _ c1 hget =>
      cases hloop
      exact h.refused hget
    case _ x c1 hget =>
      obtain ⟨hcounted, hheld, hx⟩ := h.granted hid hlock hget
      have hstep := groupGetSlot_step hget
      have hqueue1 : (c1.groups i).waitProcs = q :: qs := by
        rw [groupGetSlot_waitProcs hget, hqueue]
      refine ih (c := wakeup c1 i q qs (some x)) ⟨hcounted.wakeup i q qs (some x),
        hheld.wakeup hqueue1 fun y hy => ?_, fun hrole => ((h.bypass hrole).step hstep).step
          (wakeup_step c1 i q qs (some x))⟩ ?_ ?_ (wakeup_waitProcs c1 i q qs (some x)) hloop
      · cases hy
        exact hx
      · rw [(wakeup_step c1 i q qs (some x)).groupId, hstep.groupId]
        exact hid
      · rw [(wakeup_step c1 i q qs (some x)).lockedForDrop, hstep.lockedForDrop]
        exact hlock

theorem wakeupSlotsLoop_all_admitted {qs : List (Fin p)} (h : Admitted cfg c st)
    (hqueue : (c.groups i).waitProcs = qs) (hloop : wakeupSlotsLoop false i qs c = some c') :
    Admitted cfg c' st := by
  induction qs generalizing c with
  | nil =>
    cases hloop
    exact h
  | cons q qs ih =>
    rw [wakeupSlotsLoop, if_neg Bool.false_ne_true] at hloop
    exact ih (c := wakeup c i q qs none) ⟨h.counted.wakeup i q qs none,
      h.heldBy.wakeup hqueue (by simp), fun hrole => (h.bypass hrole).step
        (wakeup_step c i q qs none)⟩ (wakeup_waitProcs c i q qs none) hloop

theorem wakeupSlotsLoop_all_nRunning {qs : List (Fin p)}
    (hloop : wakeupSlotsLoop false i qs c = some c') :
    (c'.groups i).nRunning = (c.groups i).nRunning := by
  induction qs generalizing c with
  | nil =>
    cases hloop
    rfl
  | cons q qs ih =>
    rw [wakeupSlotsLoop, if_neg Bool.false_ne_true] at hloop
    rw [ih hloop, wakeup_group]

/-- A group that is locked for drop must not be granted anything. -/
theorem wakeupSlots_admitted (h : Admitted cfg c st) (hid : (c.groups i).groupId ≠ none)
    (hlock : (c.groups i).lockedForDrop = false ∨ (c.groups i).waitProcs = [] ∨
      slotObtainable c.totalChunks c.freeChunks (c.groups i) = false)
    (hwake : wakeupSlots c i true = some c') : Admitted cfg c' st := by
  obtain hlock | hnil | hno := hlock
  · exact wakeupSlotsLoop_admitted h hid hlock rfl hwake
  · rw [wakeupSlots, hnil] at hwake
    cases hwake
    exact h
  · rw [wakeupSlots] at hwake
    cases hqueue : (c.groups i).waitProcs with
    | nil =>
      rw [hqueue] at hwake
      cases hwake
      exact h
    | cons q qs =>
      rw [hqueue, wakeupSlotsLoop, if_pos rfl] at hwake
      split at hwake
      · cases hwake
      case _ c1 hget =>
        cases hwake
        exact h.refused hget
      case _ x c1 hget =>
        exact absurd (slotObtainable_of_granted hget) (Bool.eq_false_iff.mp hno)

/-! ## Notification, release, alteration and drop -/

theorem Admitted.cgroupMemInc (h : Admitted cfg c st) (i : Fin g) :
    Admitted cfg (groupApplyCgroupMemInc c i) st := by
  rw [groupApplyCgroupMemInc]
  split_ifs
  · exact h
  · exact h.poolUpdate ⟨rfl, rfl, rfl, rfl, rfl, rfl⟩ fun hid => h.counted.within i hid

theorem groupMemOnNotify_admitted {role : GpRole} (h : Admitted cfg c st)
    (hid : (c.groups i).groupId ≠ none) (hnotify : groupMemOnNotify role c i = some c') :
    Admitted cfg c' st := by
  rw [groupMemOnNotify] at hnotify
  split at hnotify
  · rw [groupMemOnNotifyForVmtracker] at hnotify
    split_ifs at hnotify with hrole hlock
    case neg =>
      exact wakeupSlots_admitted h hid (.inl (Bool.eq_false_iff.mpr hlock)) hnotify
    all_goals
      cases hnotify
      exact h
  · cases hnotify
    rw [groupMemOnNotifyForCgroup]
    split_ifs
    · exact h.cgroupMemInc i
    · exact h

theorem notifyLoop_admitted {role : GpRole} {skipGroupId : Option ℕ} {is : List (Fin g)}
    (h : Admitted cfg c st) (hloop : notifyLoop role skipGroupId is c = some c') :
    Admitted cfg c' st := by
  induction is generalizing c with
  | nil =>
    cases hloop
    exact h
  | cons i is ih =>
    rw [notifyLoop] at hloop
    split_ifs at hloop with hskip
    · exact ih h hloop
    · obtain ⟨c1, hnotify, hloop⟩ := Option.bind_eq_some_iff.mp hloop
      have h1 := groupMemOnNotify_admitted h (fun hid => hskip (.inl hid)) hnotify
      split_ifs at hloop
      · cases hloop
        exact h1
      · exact ih h1 hloop

theorem notifyLoop_groupId {role : GpRole} {skipGroupId : Option ℕ} {is : List (Fin g)}
    (hloop : notifyLoop role skipGroupId is c = some c') (j : Fin g) :
    (c'.groups j).groupId = (c.groups j).groupId ∧
      (c'.groups j).lockedForDrop = (c.groups j).lockedForDrop := by
  induction is generalizing c with
  | nil =>
    cases hloop
    exact ⟨rfl, rfl⟩
  | cons i is ih =>
    rw [notifyLoop] at hloop
    split_ifs at hloop with hskip
    · exact ih hloop
    · obtain ⟨c1, hnotify, hloop⟩ := Option.bind_eq_some_iff.mp hloop
      have hstep := groupMemOnNotify_step hnotify
      have h1 : (c1.groups j).groupId = (c.groups j).groupId ∧
          (c1.groups j).lockedForDrop = (c.groups j).lockedForDrop := by
        by_cases hj : j = i
        · subst hj
          exact ⟨hstep.groupId, hstep.lockedForDrop⟩
        · rw [hstep.other j hj]
          exact ⟨rfl, rfl⟩
      split_ifs at hloop
      · cases hloop
        exact h1
      · exact ⟨(ih hloop).1.trans h1.1, (ih hloop).2.trans h1.2⟩

/-- A slot whose holder has left goes back, and the queues are looked at. -/
theorem groupReleaseSlot_admitted {role : GpRole} {se : Fin p} (hcounted : SlotsCounted cfg.role c)
    (hheld : SlotsHeld cfg.session none (slotReturned se c i x) st)
    (hbypass : cfg.role = .dispatch → BypassCounted cfg.gpRole c st)
    (hx : (c.slots x).group = some i)
    (hrel : groupReleaseSlot cfg.role role se c i x = some c') :
    Admitted cfg c' st := by
  obtain ⟨c2, hput, hrel⟩ := Option.bind_eq_some_iff.mp hrel
  have hid : (c.groups i).groupId ≠ none := (hcounted.live x i hx).2
  have hlock : (c.groups i).lockedForDrop = false := by
    refine Bool.eq_false_iff.mpr fun hlocked => ?_
    have hzero := (hcounted.nRunning i hid).symm.trans (hcounted.locked i hlocked)
    have hpos : 0 < (slotsIn c i).card := Finset.card_pos.mpr ⟨x, mem_slotsIn.mpr hx⟩
    omega
  have h5 : Admitted cfg (mempoolAutoRelease (slotReturned se c i x) i) st :=
    Admitted.autoRelease ⟨hcounted.putBack hx se, hheld, fun hrole => (hbypass hrole).congr
      (slotReturned_groupId se c i x) (slotReturned_bypassed se c i x)⟩ i
  have hgroup5 : ((mempoolAutoRelease (slotReturned se c i x) i).groups i).groupId =
        (c.groups i).groupId ∧
      ((mempoolAutoRelease (slotReturned se c i x) i).groups i).lockedForDrop =
        (c.groups i).lockedForDrop := by
    rw [mempoolAutoRelease_group, slotReturned_group]
    exact ⟨rfl, rfl⟩
  have h2 : Admitted cfg c2 st ∧ (c2.groups i).groupId = (c.groups i).groupId ∧
      (c2.groups i).lockedForDrop = (c.groups i).lockedForDrop := by
    rw [groupPutSlot_eq] at hput
    dsimp only at hput
    split_ifs at hput
    · have hsame := notifyLoop_groupId hput i
      exact ⟨notifyLoop_admitted h5 hput, hsame.1.trans hgroup5.1, hsame.2.trans hgroup5.2⟩
    · cases hput
      exact ⟨h5, hgroup5⟩
  split_ifs at hrel
  · exact wakeupSlots_admitted h2.1 (by rw [h2.2.1]; exact hid)
      (.inl (by rw [h2.2.2]; exact hlock)) hrel
  · cases hrel
    exact h2.1

theorem Admitted.alterGroup (h : Admitted cfg c st) (i : Fin g) (limit : ResGroupLimit)
    (caps : ResGroupCaps) : Admitted cfg (alterGroup c i limit caps) st :=
  h.poolUpdate (f := c.freeChunks) ⟨rfl, rfl, rfl, rfl, rfl, rfl⟩ fun hid => h.counted.within i hid

theorem Admitted.applyMemCaps (h : Admitted cfg c st) (i : Fin g) :
    Admitted cfg (groupApplyMemCaps c i).2 st := by
  have h1 : Admitted cfg (c.setGroup i { c.groups i with
      memExpected := groupGetMemExpected c.totalChunks (c.groups i).caps }) st :=
    h.poolUpdate (f := c.freeChunks) ⟨rfl, rfl, rfl, rfl, rfl, rfl⟩
      fun hid => h.counted.within i hid
  exact (h1.autoRelease i).autoReserve i _

theorem groupApplyMemCaps_lockedForDrop (c : ResGroupControl g s p) (i : Fin g) :
    ((groupApplyMemCaps c i).2.groups i).lockedForDrop = (c.groups i).lockedForDrop := by
  rw [groupApplyMemCaps]
  dsimp only
  rw [(mempoolAutoReserve_same _ i _).lockedForDrop, mempoolAutoRelease_group, setGroup_groups_self]

/-- The alteration would grant a slot in a group that is locked for drop. -/
def grantsWhenLocked (c : ResGroupControl g s p) (i : Fin g) (limit : ResGroupLimit)
    (caps : ResGroupCaps) : Bool :=
  let c1 := (groupApplyMemCaps (alterGroup c i limit caps) i).2
  limit.isMem && decide (caps.memAuditor = .vmtracker) && (c.groups i).lockedForDrop &&
    !(c.groups i).waitProcs.isEmpty &&
    slotObtainable c1.totalChunks c1.freeChunks (c1.groups i)

theorem groupApplyMemCaps_waitProcs (c : ResGroupControl g s p) (i : Fin g) :
    ((groupApplyMemCaps c i).2.groups i).waitProcs = (c.groups i).waitProcs := by
  rw [groupApplyMemCaps]
  dsimp only
  rw [(mempoolAutoReserve_same _ i _).waitProcs, mempoolAutoRelease_group, setGroup_groups_self]

theorem ResGroupAlterOnCommit_admitted {role : GpRole} {limit : ResGroupLimit}
    {caps : ResGroupCaps} (h : Admitted cfg c st) (hid : (c.groups i).groupId ≠ none)
    (hok : grantsWhenLocked c i limit caps = false)
    (halter : ResGroupAlterOnCommit role c i limit caps = some c') : Admitted cfg c' st := by
  have h1 := h.alterGroup i limit caps
  have hgroup : (alterGroup c i limit caps).groups i = { c.groups i with
      caps := caps
      memGap := (c.groups i).memGap +
        memLimitGap c.totalChunks (c.groups i).caps caps limit } := setGroup_groups_self ..
  rw [ResGroupAlterOnCommit] at halter
  split_ifs at halter with hmem
  · rw [groupMemOnAlter] at halter
    split at halter
    case _ haud =>
      rw [hgroup] at haud
      change caps.memAuditor = .vmtracker at haud
      obtain ⟨c2, hwake, halter⟩ := Option.bind_eq_some_iff.mp halter
      have h2 : Admitted cfg c2 st := by
        refine wakeupSlots_admitted (h1.applyMemCaps i) ?_ ?_ hwake
        · rw [groupApplyMemCaps_groupId, hgroup]
          exact hid
        · rw [groupApplyMemCaps_lockedForDrop, groupApplyMemCaps_waitProcs, hgroup]
          simp only [grantsWhenLocked, hmem, haud, decide_true, Bool.true_and,
            Bool.and_eq_false_iff, Bool.not_eq_false', List.isEmpty_iff] at hok
          exact or_assoc.mp hok
      split_ifs at halter
      · exact notifyLoop_admitted h2 halter
      · cases halter
        exact h2
    · rw [groupMemOnAlterForCgroup] at halter
      split_ifs at halter
      · cases halter
        exact h1
      · obtain ⟨c2, hnotify, rfl⟩ := Option.map_eq_some_iff.mp halter
        have h2 : Admitted cfg c2 st :=
          notifyLoop_admitted (h1.poolUpdate (d := (ResGroup.alterGroup c i limit caps).groups i)
            ⟨rfl, rfl, rfl, rfl, rfl, rfl⟩ fun hid => h1.counted.within i hid)
            (by rw [poolUpdate, setGroup, Function.update_eq_self]; exact hnotify)
        exact h2.poolUpdate (f := c2.freeChunks) ⟨rfl, rfl, rfl, rfl, rfl, rfl⟩
          fun hid => h2.counted.within i hid
      · cases halter
        exact h1.cgroupMemInc i
  · cases halter
    exact h1

/-- The control after `ResGroupDropFinish` has woken up the queue. -/
theorem Admitted.unlock (h : Admitted cfg c st) (i : Fin g) :
    Admitted cfg (c.setGroup i { c.groups i with lockedForDrop := false }) st := by
  have hgroup (j : Fin g) : (c.setGroup i { c.groups i with lockedForDrop := false }).groups j =
      { c.groups j with
        lockedForDrop :=
          ((c.setGroup i { c.groups i with lockedForDrop := false }).groups j).lockedForDrop } := by
    by_cases hj : j = i
    · rw [hj, setGroup_groups_self]
    · rw [setGroup_groups_of_ne _ _ hj]
  have hlock (j : Fin g)
      (hj : ((c.setGroup i { c.groups i with lockedForDrop := false }).groups j).lockedForDrop =
        true) : (c.groups j).lockedForDrop = true := by
    by_cases hji : j = i
    · rw [hji, setGroup_groups_self] at hj
      cases hj
    · rw [setGroup_groups_of_ne _ _ hji] at hj
      exact hj
  have hc := h.counted
  refine ⟨⟨hc.ids.congr fun j => by rw [hgroup j], hc.nodup, hc.free, fun x k hk => ?_, hc.quota,
    fun k => ?_, fun k => ?_, fun k => ?_, fun k hk => ?_, fun hrole k => ?_⟩,
    h.heldBy.same ⟨rfl, rfl, rfl, fun _ => rfl, fun _ => rfl, fun k => by rw [hgroup k]⟩,
    fun hrole => (h.bypass hrole).congr (fun k => by rw [hgroup k]) fun k => by rw [hgroup k]⟩
  · rw [hgroup k]
    exact hc.live x k hk
  · rw [hgroup k]
    exact hc.nRunning k
  · rw [hgroup k]
    exact hc.used k
  · rw [hgroup k]
    exact hc.within k
  · rw [hgroup k]
    exact hc.locked k (hlock k hk)
  · refine Bool.eq_false_iff.mpr fun hk => ?_
    exact absurd ((hc.unlocked hrole k).symm.trans (hlock k hk)) Bool.false_ne_true

theorem ResGroupCheckForDrop_admitted (h : Admitted cfg c st) (hid : (c.groups i).groupId ≠ none)
    (hcheck : ResGroupCheckForDrop cfg.role c i = some c') : Admitted cfg c' st := by
  rw [ResGroupCheckForDrop] at hcheck
  split_ifs at hcheck with hrole hrun
  · cases hcheck
    exact h
  · obtain rfl := Option.some.inj hcheck
    rw [ne_eq, not_not] at hrole
    have hc := h.counted
    have hgroup (j : Fin g) : (c.setGroup i { c.groups i with lockedForDrop := true }).groups j =
        { c.groups j with
          lockedForDrop :=
            ((c.setGroup i { c.groups i with lockedForDrop := true }).groups j).lockedForDrop
              } := by
      by_cases hj : j = i
      · rw [hj, setGroup_groups_self]
      · rw [setGroup_groups_of_ne _ _ hj]
    refine ⟨⟨hc.ids.congr fun j => by rw [hgroup j], hc.nodup, hc.free, fun x k hk => ?_, hc.quota,
      fun k => ?_, fun k => ?_, fun k => ?_, fun k hk => ?_, fun hexec => ?_⟩,
      h.heldBy.same ⟨rfl, rfl, rfl, fun _ => rfl, fun _ => rfl, fun k => by rw [hgroup k]⟩,
      fun hrole => (h.bypass hrole).congr (fun k => by rw [hgroup k]) fun k => by rw [hgroup k]⟩
    · rw [hgroup k]
      exact hc.live x k hk
    · rw [hgroup k]
      exact hc.nRunning k
    · rw [hgroup k]
      exact hc.used k
    · rw [hgroup k]
      exact hc.within k
    · by_cases hki : k = i
      · -- neither a slot nor a bypassed query is left in the group
        have hslots := hc.nRunning i hid
        have hbypass := (h.bypass hrole).count i hid
        rw [hki, setGroup_groups_self]
        change (c.groups i).nRunning = 0
        omega
      · rw [setGroup_groups_of_ne _ _ hki] at hk ⊢
        exact hc.locked k hk
    · rw [hrole] at hexec
      cases hexec

/-- The group can be removed: no slot of it is in use and, on the dispatcher, no bypassed query runs
in it. -/
def isVacant (role : GpRole) (c : ResGroupControl g s p) (i : Fin g) : Bool :=
  decide ((c.groups i).nRunning = 0) &&
    (decide (role = .execute) || decide ((c.groups i).nRunningBypassed = 0))

/-- A vacant group loses its id. -/
theorem Admitted.vacate {d : ResGroupData p} {f : ℤ} (h : Admitted cfg c st)
    (hid : (c.groups i).groupId ≠ none) (hvacant : isVacant cfg.role c i = true)
    (hnone : d.groupId = none) (hwait : d.waitProcs = (c.groups i).waitProcs)
    (hlock : d.lockedForDrop = (c.groups i).lockedForDrop)
    (hrun : d.nRunning = (c.groups i).nRunning) :
    Admitted cfg (ResGroup.poolUpdate c i d f) st := by
  rw [isVacant, Bool.and_eq_true, decide_eq_true_iff, Bool.or_eq_true, decide_eq_true_iff,
    decide_eq_true_iff] at hvacant
  have hc := h.counted
  have hself := poolUpdate_group c i d f
  have hother {k : Fin g} (hk : k ≠ i) : (ResGroup.poolUpdate c i d f).groups k = c.groups k :=
    poolUpdate_other c d f hk
  have hvalid {k : Fin g} (hk : ((ResGroup.poolUpdate c i d f).groups k).groupId ≠ none) :
      k ≠ i := by
    rintro rfl
    rw [hself] at hk
    exact hk hnone
  have hslot {x : Fin s} {k : Fin g} (hk : (c.slots x).group = some k) : k ≠ i := by
    rintro rfl
    have hpos : 0 < (slotsIn c k).card := Finset.card_pos.mpr ⟨x, mem_slotsIn.mpr hk⟩
    have hcount := hc.nRunning k hid
    omega
  constructor
  · constructor
    case ids =>
      intro k l m hk hl
      have hki := hvalid (k := k) (by rw [hk]; exact Option.some_ne_none m)
      have hli := hvalid (k := l) (by rw [hl]; exact Option.some_ne_none m)
      rw [hother hki] at hk
      rw [hother hli] at hl
      exact hc.ids k l m hk hl
    case nodup => exact hc.nodup
    case free => exact hc.free
    case live =>
      intro x k hk
      rw [hother (hslot hk)]
      exact hc.live x k hk
    case quota => exact hc.quota
    case nRunning =>
      intro k hk
      have hki := hvalid hk
      rw [hother hki] at hk ⊢
      exact hc.nRunning k hk
    case used =>
      intro k hk
      have hki := hvalid hk
      rw [hother hki] at hk ⊢
      exact hc.used k hk
    case within =>
      intro k hk
      have hki := hvalid hk
      rw [hother hki] at hk ⊢
      exact hc.within k hk
    case locked =>
      intro k hk
      by_cases hki : k = i
      · rw [hki, hself, hlock] at hk
        rw [hki, hself, hrun]
        exact hc.locked i hk
      · rw [hother hki] at hk ⊢
        exact hc.locked k hk
    case unlocked =>
      intro hrole k
      by_cases hki : k = i
      · rw [hki, hself, hlock]
        exact hc.unlocked hrole i
      · rw [hother hki]
        exact hc.unlocked hrole k
  · refine h.heldBy.same ⟨rfl, rfl, rfl, fun _ => rfl, fun _ => rfl, fun k => ?_⟩
    by_cases hki : k = i
    · rw [hki, hself, hwait]
    · rw [hother hki]
  · intro hrole
    have hb := h.bypass hrole
    have hzero : (c.groups i).nRunningBypassed = 0 := hvacant.2.resolve_left fun hexec => by
      rw [hrole] at hexec
      cases hexec
    refine ⟨fun k hk => ?_, fun q k hqd hq => ?_⟩
    · have hki := hvalid hk
      rw [hother hki] at hk ⊢
      exact hb.count k hk
    · have hki : k ≠ i := by
        rintro rfl
        have hcount := hb.count k hid
        have hpos : 0 < (bypassedIn cfg.gpRole st k).card :=
          Finset.card_pos.mpr ⟨q, Finset.mem_filter.mpr ⟨Finset.mem_univ q, hqd, hq⟩⟩
        omega
      rw [hother hki]
      exact hb.live q k hqd hq

theorem removeGroup_admitted (h : Admitted cfg c st) (hid : (c.groups i).groupId ≠ none)
    (hvacant : isVacant cfg.role c i = true) (hremove : removeGroup cfg.role c i = some c') :
    Admitted cfg c' st := by
  rw [removeGroup] at hremove
  dsimp only at hremove
  refine notifyLoop_admitted ?_ hremove
  rw [groupMemOnDrop]
  split
  · have heq (d1 d2 : ResGroupData p) (f : ℤ) :
        ({ c.setGroup i d1 with freeChunks := f } : ResGroupControl g s p).setGroup i d2 =
          poolUpdate c i d2 f := by
      simp only [setGroup, poolUpdate, Function.update_idem]
    rw [groupMemOnDropForVmtracker, heq]
    refine h.vacate hid hvacant ?_ ?_ ?_ ?_
    all_goals
      dsimp only
      try rw [setGroup_groups_self]
  · change Admitted cfg (poolUpdate c i { c.groups i with groupId := none } _) st
    exact h.vacate hid hvacant rfl rfl rfl rfl

theorem createGroup_admitted {groupId : ℕ} {caps : ResGroupCaps} (h : Admitted cfg c st)
    (hcreate : createGroup c groupId caps = some c') : Admitted cfg c' st := by
  rw [createGroup] at hcreate
  split_ifs at hcreate with hfind
  obtain ⟨i, hnew, rfl⟩ := Option.map_eq_some_iff.mp hcreate
  have hnone : (c.groups i).groupId = none := by
    have := List.find?_some hnew
    exact of_decide_eq_true this
  have hfresh (j : Fin g) : (c.groups j).groupId ≠ some groupId := fun hj => hfind <|
    List.find?_isSome.mpr ⟨j, List.mem_finRange j, decide_eq_true hj⟩
  have hsame := groupRebalanceQuota_same c.totalChunks
    (newGroup (p := p) c.totalChunks groupId caps)
    (mempoolReserved c.freeChunks (groupGetMemExpected c.totalChunks caps)) caps
  have hgranted := groupRebalanceQuota_quota_le c.totalChunks
    (newGroup (p := p) c.totalChunks groupId caps)
    (mempoolReserved_nonneg (f := c.freeChunks) (n := groupGetMemExpected c.totalChunks caps)
      (Int.natCast_nonneg _)) caps
  dsimp only
  generalize groupRebalanceQuota c.totalChunks (newGroup (p := p) c.totalChunks groupId caps)
    (mempoolReserved c.freeChunks (groupGetMemExpected c.totalChunks caps)) caps = d at *
  generalize c.freeChunks - mempoolReserved c.freeChunks
    (groupGetMemExpected c.totalChunks caps) = f
  change Admitted cfg (poolUpdate c i d f) st
  have hself := poolUpdate_group c i d f
  have hother {k : Fin g} (hk : k ≠ i) : (poolUpdate c i d f).groups k = c.groups k :=
    poolUpdate_other c d f hk
  have hc := h.counted
  have hslot {x : Fin s} {k : Fin g} (hk : (c.slots x).group = some k) : k ≠ i := by
    rintro rfl
    exact (hc.live x k hk).2 hnone
  have hempty : slotsIn (poolUpdate c i d f) i = ∅ := by
    refine Finset.eq_empty_of_forall_notMem fun x hx => ?_
    exact hslot (mem_slotsIn.mp hx) rfl
  constructor
  · constructor
    case ids =>
      intro k l m hk hl
      by_cases hki : k = i <;> by_cases hli : l = i
      · rw [hki, hli]
      · rw [hki, hself, hsame.groupId] at hk
        rw [hother hli] at hl
        cases hk
        exact absurd hl (hfresh l)
      · rw [hli, hself, hsame.groupId] at hl
        rw [hother hki] at hk
        cases hl
        exact absurd hk (hfresh k)
      · rw [hother hki] at hk
        rw [hother hli] at hl
        exact hc.ids k l m hk hl
    case nodup => exact hc.nodup
    case free => exact hc.free
    case live =>
      intro x k hk
      rw [hother (hslot hk)]
      exact hc.live x k hk
    case quota => exact hc.quota
    case nRunning =>
      intro k hk
      by_cases hki : k = i
      · rw [hki, hempty, hself, hsame.nRunning]
        rfl
      · rw [hother hki] at hk ⊢
        exact hc.nRunning k hk
    case used =>
      intro k hk
      by_cases hki : k = i
      · rw [hki, hempty, hself, hsame.memQuotaUsed]
        rfl
      · rw [hother hki] at hk ⊢
        exact hc.used k hk
    case within =>
      intro k hk
      by_cases hki : k = i
      · rw [hki, hself, hsame.memQuotaUsed]
        exact hgranted
      · rw [hother hki] at hk ⊢
        exact hc.within k hk
    case locked =>
      intro k hk
      by_cases hki : k = i
      · rw [hki, hself, hsame.lockedForDrop] at hk
        cases hk
      · rw [hother hki] at hk ⊢
        exact hc.locked k hk
    case unlocked =>
      intro hrole k
      by_cases hki : k = i
      · rw [hki, hself, hsame.lockedForDrop]
        rfl
      · rw [hother hki]
        exact hc.unlocked hrole k
  · have hh := h.heldBy
    refine ⟨hh.granted, hh.acquired, hh.assigned, hh.exclusive, hh.kept, hh.unheld, hh.nProcs,
      fun k q hq => ?_, fun k => ?_, hh.session⟩
    · by_cases hki : k = i
      · rw [hki, hself, hsame.waitProcs] at hq
        cases hq
      · rw [hother hki] at hq
        exact hh.waiting k q hq
    · by_cases hki : k = i
      · rw [hki, hself, hsame.waitProcs]
        exact List.nodup_nil
      · rw [hother hki]
        exact hh.waitNodup k
  · intro hrole
    have hb := h.bypass hrole
    have hnobody {q : Fin p} {k : Fin g} (hqd : cfg.gpRole q = .dispatch)
        (hq : (st q).isBypassedIn k = true) : k ≠ i := by
      rintro rfl
      exact hb.live q k hqd hq hnone
    refine ⟨fun k hk => ?_, fun q k hqd hq => ?_⟩
    · by_cases hki : k = i
      · have hempty' : bypassedIn cfg.gpRole st i = ∅ :=
          Finset.eq_empty_of_forall_notMem fun q hq =>
            hnobody (Finset.mem_filter.mp hq).2.1 (Finset.mem_filter.mp hq).2.2 rfl
        rw [hki, hempty', hself, hsame.nRunningBypassed]
        rfl
      · rw [hother hki] at hk ⊢
        exact hb.count k hk
    · rw [hother (hnobody hqd hq)]
      exact hb.live q k hqd hq

theorem ResGroupDropFinish_admitted {isCommit : Bool} (h : Admitted cfg c st)
    (hid : (c.groups i).groupId ≠ none)
    (hvacant : isCommit = true → isVacant cfg.role c i = true)
    (hdrop : ResGroupDropFinish cfg.role c i isCommit = some c') : Admitted cfg c' st := by
  obtain ⟨c2, hwoken, hdrop⟩ := Option.bind_eq_some_iff.mp hdrop
  have h2 : Admitted cfg c2 st ∧ (c2.groups i).groupId = (c.groups i).groupId ∧
      isVacant cfg.role c2 i = isVacant cfg.role c i := by
    split_ifs at hwoken
    · obtain ⟨c1, hwake, rfl⟩ := Option.map_eq_some_iff.mp hwoken
      have hstep := wakeupSlotsLoop_step hwake
      refine ⟨(wakeupSlotsLoop_all_admitted h rfl hwake).unlock i, ?_, ?_⟩
      · rw [setGroup_groups_self]
        exact hstep.groupId
      · have hrun := wakeupSlotsLoop_all_nRunning hwake
        simp only [isVacant, setGroup_groups_self, hrun, hstep.bypassed]
    · cases hwoken
      exact ⟨h, rfl, rfl⟩
  split_ifs at hdrop with hcommit
  · exact removeGroup_admitted h2.1 (by rw [h2.2.1]; exact hid)
      (by rw [h2.2.2]; exact hvacant hcommit) hdrop
  · cases hdrop
    exact h2.1

end Hdb.ResGroup
