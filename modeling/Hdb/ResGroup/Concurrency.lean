import Hdb.ResGroup.AdmissionSteps

/-!
# Resource groups: a grant stays within the concurrency

`Grants c c'` says of a function under the lock that whoever has been given a slot was waiting in
the queue of a group that is not locked for drop and, when the function returns, has at most
`concurrency` slots in use.
-/

namespace Hdb.ResGroup

open ResGroupControl

variable {g s p : ℕ} {c c' : ResGroupControl g s p} {i j : Fin g} {x y : Fin s} {q : Fin p}

/-- The slots in use are within the concurrency. -/
def WithinConcurrency (d : ResGroupData p) : Prop := d.nRunning ≤ d.caps.concurrency

structure Grants (c c' : ResGroupControl g s p) : Prop where
  bound : ∀ i, WithinConcurrency (c.groups i) → WithinConcurrency (c'.groups i)
  locked : ∀ i, (c'.groups i).lockedForDrop = (c.groups i).lockedForDrop
  queue : ∀ i, (c'.groups i).waitProcs ⊆ (c.groups i).waitProcs
  new : ∀ q x, c'.resSlot q = some x → c.resSlot q ≠ some x →
    ∃ i, q ∈ (c.groups i).waitProcs ∧ WithinConcurrency (c'.groups i) ∧
      (c'.groups i).lockedForDrop = false

namespace Grants

theorem refl (c : ResGroupControl g s p) : Grants c c :=
  ⟨fun _ h => h, fun _ => rfl, fun _ => List.Subset.refl _, fun _ _ h hn => absurd h hn⟩

theorem trans {c'' : ResGroupControl g s p} (h : Grants c c') (h' : Grants c' c'') :
    Grants c c'' where
  bound i hi := h'.bound i (h.bound i hi)
  locked i := (h'.locked i).trans (h.locked i)
  queue i := List.Subset.trans (h'.queue i) (h.queue i)
  new q x hx hn := by
    by_cases hmid : c'.resSlot q = some x
    · obtain ⟨i, hq, hb, hl⟩ := h.new q x hmid hn
      exact ⟨i, hq, h'.bound i hb, (h'.locked i).trans hl⟩
    · obtain ⟨i, hq, hb, hl⟩ := h'.new q x hx hmid
      exact ⟨i, h.queue i hq, hb, hl⟩

/-- A function that gives nobody a slot. -/
theorem quiet (hres : c'.resSlot = c.resSlot)
    (hrun : ∀ i, (c'.groups i).nRunning ≤ (c.groups i).nRunning)
    (hcaps : ∀ i, (c'.groups i).caps = (c.groups i).caps)
    (hlock : ∀ i, (c'.groups i).lockedForDrop = (c.groups i).lockedForDrop)
    (hqueue : ∀ i, (c'.groups i).waitProcs = (c.groups i).waitProcs) : Grants c c' where
  bound i hi := by
    rw [WithinConcurrency, hcaps i]
    exact (hrun i).trans hi
  locked := hlock
  queue i := by rw [hqueue i]; exact List.Subset.refl _
  new q x hx hn := absurd (hres ▸ hx) hn

theorem poolUpdate {d : ResGroupData p} {f : ℤ} (hrun : d.nRunning ≤ (c.groups i).nRunning)
    (hcaps : d.caps = (c.groups i).caps) (hlock : d.lockedForDrop = (c.groups i).lockedForDrop)
    (hqueue : d.waitProcs = (c.groups i).waitProcs) : Grants c (poolUpdate c i d f) := by
  refine quiet rfl (fun j => ?_) (fun j => ?_) (fun j => ?_) fun j => ?_
  all_goals by_cases hj : j = i
  case pos => rw [hj, poolUpdate_group]; exact hrun
  case pos => rw [hj, poolUpdate_group]; exact hcaps
  case pos => rw [hj, poolUpdate_group]; exact hlock
  case pos => rw [hj, poolUpdate_group]; exact hqueue
  all_goals rw [poolUpdate_other c d f hj]

end Grants

theorem mempoolAutoReserve_grants (c : ResGroupControl g s p) (i : Fin g) (caps : ResGroupCaps) :
    Grants c (mempoolAutoReserve c i caps) := by
  rw [mempoolAutoReserve]
  split_ifs
  · have hsame := groupRebalanceQuota_same c.totalChunks (c.groups i)
      (mempoolAutoReserved c.freeChunks (c.groups i)) caps
    exact Grants.poolUpdate hsame.nRunning.le hsame.caps hsame.lockedForDrop hsame.waitProcs
  · exact Grants.refl c

theorem groupGetSlot_refused_grants (h : groupGetSlot c i = some (none, c')) : Grants c c' := by
  obtain ⟨-, -, rfl⟩ | ⟨-, -, rfl⟩ | ⟨x, next, hx, -⟩ := groupGetSlot_cases h
  · exact Grants.refl _
  · exact mempoolAutoReserve_grants c i _
  · cases hx

theorem groupGetSlot_resSlot {r : Option (Fin s)} (h : groupGetSlot c i = some (r, c')) :
    c'.resSlot = c.resSlot := by
  have hreserve := mempoolAutoReserve_resSlot c i (c.groups i).caps
  obtain ⟨-, -, rfl⟩ | ⟨-, -, rfl⟩ | ⟨x, next, -, -, -, -, rfl⟩ := groupGetSlot_cases h
  · rfl
  · exact hreserve
  · exact hreserve

/-- The check of `groupGetSlot`. -/
theorem groupGetSlot_withinConcurrency (h : groupGetSlot c i = some (some x, c')) :
    WithinConcurrency (c'.groups i) := by
  obtain ⟨hx, -⟩ | ⟨hx, -⟩ | ⟨y, next, -, hconc, -, -, rfl⟩ := groupGetSlot_cases h
  · cases hx
  · cases hx
  · have hsame := mempoolAutoReserve_same c i (c.groups i).caps
    rw [WithinConcurrency, grantSlot_group]
    dsimp only
    rw [hsame.nRunning, hsame.caps]
    omega

/-- One round of the loop of `wakeupSlots`. -/
theorem wakeup_granted_grants {c1 : ResGroupControl g s p} {qs : List (Fin p)}
    (hlock : (c.groups i).lockedForDrop = false) (hqueue : (c.groups i).waitProcs = q :: qs)
    (hget : groupGetSlot c i = some (some x, c1)) : Grants c (wakeup c1 i q qs (some x)) := by
  have hstep := (groupGetSlot_step hget).trans (wakeup_step c1 i q qs (some x))
  have hbound : WithinConcurrency ((wakeup c1 i q qs (some x)).groups i) := by
    rw [wakeup_group]
    exact groupGetSlot_withinConcurrency hget
  constructor
  case bound =>
    intro j hj
    by_cases hji : j = i
    · rw [hji]
      exact hbound
    · rw [hstep.other j hji]
      exact hj
  case locked =>
    intro j
    by_cases hji : j = i
    · rw [hji]
      exact hstep.lockedForDrop
    · rw [hstep.other j hji]
  case queue =>
    intro j
    by_cases hji : j = i
    · rw [hji, wakeup_waitProcs, hqueue]
      exact List.subset_cons_self q qs
    · rw [hstep.other j hji]
      exact List.Subset.refl _
  case new =>
    intro q' y hy hn
    by_cases hq' : q' = q
    · refine ⟨i, ?_, hbound, hstep.lockedForDrop.trans hlock⟩
      rw [hq', hqueue]
      exact List.mem_cons_self
    · refine absurd ?_ hn
      rw [← groupGetSlot_resSlot hget, ← hy]
      exact (Function.update_of_ne hq' ..).symm

theorem wakeupSlotsLoop_grants {qs : List (Fin p)} (hlock : (c.groups i).lockedForDrop = false)
    (hqueue : (c.groups i).waitProcs = qs) (hloop : wakeupSlotsLoop true i qs c = some c') :
    Grants c c' := by
  induction qs generalizing c with
  | nil =>
    cases hloop
    exact Grants.refl _
  | cons q qs ih =>
    rw [wakeupSlotsLoop, if_pos rfl] at hloop
    split at hloop
    · cases hloop
    case _ c1 hget =>
      cases hloop
      exact groupGetSlot_refused_grants hget
    case _ x c1 hget =>
      have hround := wakeup_granted_grants hlock hqueue hget
      exact hround.trans (ih ((hround.locked i).trans hlock)
        (wakeup_waitProcs c1 i q qs (some x)) hloop)

theorem wakeupSlots_grants
    (hlock : (c.groups i).lockedForDrop = false ∨ (c.groups i).waitProcs = [] ∨
      slotObtainable c.totalChunks c.freeChunks (c.groups i) = false)
    (hwake : wakeupSlots c i true = some c') : Grants c c' := by
  obtain hlock | hnil | hno := hlock
  · exact wakeupSlotsLoop_grants hlock rfl hwake
  · rw [wakeupSlots, hnil] at hwake
    cases hwake
    exact Grants.refl _
  · rw [wakeupSlots] at hwake
    cases hqueue : (c.groups i).waitProcs with
    | nil =>
      rw [hqueue] at hwake
      cases hwake
      exact Grants.refl _
    | cons q qs =>
      rw [hqueue, wakeupSlotsLoop, if_pos rfl] at hwake
      split at hwake
      · cases hwake
      case _ c1 hget =>
        cases hwake
        exact groupGetSlot_refused_grants hget
      case _ x c1 hget =>
        exact absurd (slotObtainable_of_granted hget) (Bool.eq_false_iff.mp hno)

theorem groupApplyCgroupMemInc_grants (c : ResGroupControl g s p) (i : Fin g) :
    Grants c (groupApplyCgroupMemInc c i) := by
  rw [groupApplyCgroupMemInc]
  split_ifs
  · exact Grants.refl c
  · exact Grants.poolUpdate (le_refl _) rfl rfl rfl

theorem notifyLoop_grants {role : GpRole} {skipGroupId : Option ℕ} {is : List (Fin g)}
    (hloop : notifyLoop role skipGroupId is c = some c') : Grants c c' := by
  induction is generalizing c with
  | nil =>
    cases hloop
    exact Grants.refl _
  | cons i is ih =>
    rw [notifyLoop] at hloop
    split_ifs at hloop with hskip
    · exact ih hloop
    · obtain ⟨c1, hnotify, hloop⟩ := Option.bind_eq_some_iff.mp hloop
      have h1 : Grants c c1 := by
        rw [groupMemOnNotify] at hnotify
        split at hnotify
        · rw [groupMemOnNotifyForVmtracker] at hnotify
          split_ifs at hnotify with hrole hlock
          case neg => exact wakeupSlotsLoop_grants (Bool.eq_false_iff.mpr hlock) rfl hnotify
          all_goals
            cases hnotify
            exact Grants.refl _
        · cases hnotify
          rw [groupMemOnNotifyForCgroup]
          split_ifs
          · exact groupApplyCgroupMemInc_grants c i
          · exact Grants.refl c
      split_ifs at hloop
      · cases hloop
        exact h1
      · exact h1.trans (ih hloop)

theorem slotReturned_grants (se : Fin p) (c : ResGroupControl g s p) (i : Fin g) (x : Fin s) :
    Grants c (mempoolAutoRelease (slotReturned se c i x) i) := by
  have hother (j : Fin g) (hj : j ≠ i) :
      (mempoolAutoRelease (slotReturned se c i x) i).groups j = c.groups j :=
    autoRelease_slotReturned_other se c x hj
  have hself : (mempoolAutoRelease (slotReturned se c i x) i).groups i =
      { c.groups i with
        memQuotaUsed := (c.groups i).memQuotaUsed - (c.slots x).memQuota
        nRunning := (c.groups i).nRunning - 1
        memQuotaGranted :=
          ((mempoolAutoRelease (slotReturned se c i x) i).groups i).memQuotaGranted
        memSharedGranted :=
          ((mempoolAutoRelease (slotReturned se c i x) i).groups i).memSharedGranted } := by
    rw [mempoolAutoRelease_group, slotReturned_group]
  refine Grants.quiet rfl (fun j => ?_) (fun j => ?_) (fun j => ?_) fun j => ?_
  all_goals by_cases hj : j = i
  case pos =>
    rw [hj, hself]
    exact sub_le_self _ Int.one_nonneg
  case pos => rw [hj, hself]
  case pos => rw [hj, hself]
  case pos => rw [hj, hself]
  all_goals rw [hother j hj]

theorem groupReleaseSlot_grants {node role : GpRole} {se : Fin p}
    (hlock : (c.groups i).lockedForDrop = false)
    (hrel : groupReleaseSlot node role se c i x = some c') : Grants c c' := by
  obtain ⟨c2, hput, hrel⟩ := Option.bind_eq_some_iff.mp hrel
  have hreturned := slotReturned_grants se c i x
  have h2 : Grants c c2 := by
    rw [groupPutSlot_eq] at hput
    dsimp only at hput
    split_ifs at hput
    · exact hreturned.trans (notifyLoop_grants hput)
    · cases hput
      exact hreturned
  split_ifs at hrel
  · exact h2.trans (wakeupSlotsLoop_grants ((h2.locked i).trans hlock) rfl hrel)
  · cases hrel
    exact h2

end Hdb.ResGroup
