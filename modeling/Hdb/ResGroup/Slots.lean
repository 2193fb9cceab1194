import Hdb.ResGroup.Node

/-!
# Resource groups: what one slot and one group can do

`groupGetSlot_cases` says everything `groupGetSlot` can do, and `GroupStep` what the operations of
one group leave alone. `slotObtainable` is the answer that `groupGetSlot` gives; it reads only the
group and the pool and only grows with the pool. A refused `groupGetSlot` refuses again
(`slotObtainable_of_refused`), since it leaves the pool empty or the group with all it expects.
-/

namespace Hdb.ResGroup

open ResGroupControl

variable {g s p : ℕ} {c c' : ResGroupControl g s p} {i j : Fin g}

@[simp] theorem setGroup_groups_self (c : ResGroupControl g s p) (i : Fin g) (d : ResGroupData p) :
    (c.setGroup i d).groups i = d := Function.update_self ..

@[simp] theorem setGroup_groups_of_ne (c : ResGroupControl g s p) (d : ResGroupData p) (h : j ≠ i) :
    (c.setGroup i d).groups j = c.groups j := Function.update_of_ne h ..

@[simp] theorem setGroup_totalChunks (c : ResGroupControl g s p) (i : Fin g) (d : ResGroupData p) :
    (c.setGroup i d).totalChunks = c.totalChunks := rfl

@[simp] theorem setGroup_freeChunks (c : ResGroupControl g s p) (i : Fin g) (d : ResGroupData p) :
    (c.setGroup i d).freeChunks = c.freeChunks := rfl

@[simp] theorem setGroup_freeSlot (c : ResGroupControl g s p) (i : Fin g) (d : ResGroupData p) :
    (c.setGroup i d).freeSlot = c.freeSlot := rfl

@[simp] theorem setSlot_slots_self (c : ResGroupControl g s p) (x : Fin s)
    (d : ResGroupSlotData g) : (c.setSlot x d).slots x = d := Function.update_self ..

@[simp] theorem setSlot_slots_of_ne (c : ResGroupControl g s p) {x y : Fin s}
    (d : ResGroupSlotData g) (h : y ≠ x) : (c.setSlot x d).slots y = c.slots y :=
  Function.update_of_ne h ..

@[simp] theorem setSlot_groups (c : ResGroupControl g s p) (x : Fin s) (d : ResGroupSlotData g) :
    (c.setSlot x d).groups = c.groups := rfl

@[simp] theorem setSlot_totalChunks (c : ResGroupControl g s p) (x : Fin s)
    (d : ResGroupSlotData g) : (c.setSlot x d).totalChunks = c.totalChunks := rfl

@[simp] theorem setSlot_freeChunks (c : ResGroupControl g s p) (x : Fin s)
    (d : ResGroupSlotData g) : (c.setSlot x d).freeChunks = c.freeChunks := rfl

/-! ## A slot from the grants and the pool -/

theorem mempoolReserved_mono {f f' : ℤ} (h : max 0 f ≤ max 0 f') (n : ℤ) :
    mempoolReserved f n ≤ mempoolReserved f' n :=
  min_le_min_right n h

/-- `groupRebalanceQuota` touches the two grants only. -/
structure SameButGrants (d d' : ResGroupData p) : Prop where
  groupId : d'.groupId = d.groupId
  memGap : d'.memGap = d.memGap
  memExpected : d'.memExpected = d.memExpected
  memQuotaUsed : d'.memQuotaUsed = d.memQuotaUsed
  memUsage : d'.memUsage = d.memUsage
  memSharedUsage : d'.memSharedUsage = d.memSharedUsage
  nRunning : d'.nRunning = d.nRunning
  nRunningBypassed : d'.nRunningBypassed = d.nRunningBypassed
  waitProcs : d'.waitProcs = d.waitProcs
  lockedForDrop : d'.lockedForDrop = d.lockedForDrop
  caps : d'.caps = d.caps

theorem groupRebalanceQuota_same (T : ℕ) (d : ResGroupData p) (chunks : ℤ) (caps : ResGroupCaps) :
    SameButGrants d (groupRebalanceQuota T d chunks caps) := by
  rw [groupRebalanceQuota]
  split_ifs <;> exact ⟨rfl, rfl, rfl, rfl, rfl, rfl, rfl, rfl, rfl, rfl, rfl⟩

theorem groupRebalanceQuota_zero (T : ℕ) (d : ResGroupData p) (caps : ResGroupCaps) :
    groupRebalanceQuota T d 0 caps = d := by
  rw [groupRebalanceQuota]
  split_ifs with h
  · simp only [min_eq_left h, add_zero, sub_zero]
  · simp only [add_zero]

theorem groupRebalanceQuota_quota_mono (T : ℕ) (group : ResGroupData p) (caps : ResGroupCaps)
    {a b : ℤ} (h : a ≤ b) :
    (groupRebalanceQuota T group a caps).memQuotaGranted ≤
      (groupRebalanceQuota T group b caps).memQuotaGranted := by
  rw [groupRebalanceQuota, groupRebalanceQuota]
  split_ifs
  · exact Int.add_le_add_left (min_le_min_right _ h) _
  · exact le_refl _

theorem groupRebalanceQuota_quota_le (T : ℕ) (d : ResGroupData p) {chunks : ℤ} (h : 0 ≤ chunks)
    (caps : ResGroupCaps) :
    d.memQuotaGranted ≤ (groupRebalanceQuota T d chunks caps).memQuotaGranted := by
  have hmono := groupRebalanceQuota_quota_mono T d caps h
  rw [groupRebalanceQuota_zero] at hmono
  exact hmono

theorem memQuotaFits_iff {T : ℕ} {group : ResGroupData p} :
    memQuotaFits T group = true ↔
      group.memQuotaUsed + slotGetMemQuotaExpected T group.caps ≤ group.memQuotaGranted :=
  decide_eq_true_iff

theorem memQuotaFits_rebalance_mono {T : ℕ} {group : ResGroupData p} {a b : ℤ}
    {caps : ResGroupCaps} (h : a ≤ b)
    (hfits : memQuotaFits T (groupRebalanceQuota T group a caps) = true) :
    memQuotaFits T (groupRebalanceQuota T group b caps) = true := by
  have hsame := groupRebalanceQuota_same T group
  rw [memQuotaFits_iff, (hsame _ _).memQuotaUsed, (hsame _ _).caps] at hfits ⊢
  exact hfits.trans (groupRebalanceQuota_quota_mono T group caps h)

/-- A larger pool only helps. -/
theorem slotObtainable_mono {T : ℕ} {f f' : ℤ} {group : ResGroupData p}
    (h : max 0 f ≤ max 0 f') (hf : slotObtainable T f group = true) :
    slotObtainable T f' group = true := by
  simp only [slotObtainable, Bool.and_eq_true] at hf ⊢
  refine ⟨hf.1, ?_⟩
  have hfits := hf.2
  split_ifs at hfits ⊢ with hn
  · simp only [mempoolAutoReserved, if_pos hn] at hfits ⊢
    exact memQuotaFits_rebalance_mono (mempoolReserved_mono h _) hfits
  · exact hfits

/-- A group that has all it expects does not look at the pool. -/
theorem slotObtainable_of_stocked {T : ℕ} {group : ResGroupData p} (f f' : ℤ)
    (h : group.memExpected ≤ group.memSharedGranted + group.memQuotaGranted) :
    slotObtainable T f group = slotObtainable T f' group := by
  have hn : ¬ 0 < group.memExpected - (group.memSharedGranted + group.memQuotaGranted) := by omega
  simp only [slotObtainable, if_neg hn]

theorem slotObtainable_congr {T : ℕ} {f : ℤ} {group group' : ResGroupData p}
    (hexp : group'.memExpected = group.memExpected)
    (hquota : group'.memQuotaGranted = group.memQuotaGranted)
    (hshared : group'.memSharedGranted = group.memSharedGranted)
    (hused : group'.memQuotaUsed = group.memQuotaUsed)
    (hrun : group'.nRunning = group.nRunning) (hcaps : group'.caps = group.caps) :
    slotObtainable T f group' = slotObtainable T f group := by
  simp only [slotObtainable, memQuotaFits, groupRebalanceQuota, mempoolAutoReserved, hexp, hquota,
    hshared, hused, hrun, hcaps]
  split_ifs <;> simp only [hused, hcaps, hquota]

/-! ## What the operations of one group leave alone -/

/-- An operation on the group `i`: the other groups stay as they are and the pool does not grow. -/
structure GroupStep (i : Fin g) (c c' : ResGroupControl g s p) : Prop where
  total : c'.totalChunks = c.totalChunks
  other : ∀ j, j ≠ i → c'.groups j = c.groups j
  groupId : (c'.groups i).groupId = (c.groups i).groupId
  lockedForDrop : (c'.groups i).lockedForDrop = (c.groups i).lockedForDrop
  caps : (c'.groups i).caps = (c.groups i).caps
  bypassed : (c'.groups i).nRunningBypassed = (c.groups i).nRunningBypassed
  free : c'.freeChunks ≤ c.freeChunks

namespace GroupStep

theorem refl (i : Fin g) (c : ResGroupControl g s p) : GroupStep i c c :=
  ⟨rfl, fun _ _ => rfl, rfl, rfl, rfl, rfl, le_refl _⟩

theorem trans {c'' : ResGroupControl g s p} (h : GroupStep i c c') (h' : GroupStep i c' c'') :
    GroupStep i c c'' where
  total := h'.total.trans h.total
  other j hj := (h'.other j hj).trans (h.other j hj)
  groupId := h'.groupId.trans h.groupId
  lockedForDrop := h'.lockedForDrop.trans h.lockedForDrop
  caps := h'.caps.trans h.caps
  bypassed := h'.bypassed.trans h.bypassed
  free := h'.free.trans h.free

theorem groupId_all (h : GroupStep i c c') (j : Fin g) :
    (c'.groups j).groupId = (c.groups j).groupId := by
  by_cases hj : j = i
  · subst hj
    exact h.groupId
  · rw [h.other j hj]

end GroupStep

theorem mempoolReserved_nonneg {f n : ℤ} (hn : 0 ≤ n) : 0 ≤ mempoolReserved f n :=
  le_min (le_max_left 0 f) hn

theorem mempoolAutoReserved_nonneg (f : ℤ) (group : ResGroupData p) :
    0 ≤ mempoolAutoReserved f group := by
  rw [mempoolAutoReserved]
  split_ifs with hn
  · exact mempoolReserved_nonneg (le_of_lt hn)
  · exact le_refl 0

theorem groupRebalanceQuota_stocks (T : ℕ) (d : ResGroupData p) (chunks : ℤ)
    (caps : ResGroupCaps) :
    (groupRebalanceQuota T d chunks caps).memSharedGranted +
        (groupRebalanceQuota T d chunks caps).memQuotaGranted =
      d.memSharedGranted + d.memQuotaGranted + chunks := by
  rw [groupRebalanceQuota]
  split_ifs
  · simp only
    omega
  · simp only
    omega

theorem mempoolAutoReserve_group (c : ResGroupControl g s p) (i : Fin g) (caps : ResGroupCaps) :
    (mempoolAutoReserve c i caps).groups i =
      if 0 < (c.groups i).memExpected -
          ((c.groups i).memSharedGranted + (c.groups i).memQuotaGranted) then
        groupRebalanceQuota c.totalChunks (c.groups i)
          (mempoolAutoReserved c.freeChunks (c.groups i)) caps
      else c.groups i := by
  rw [mempoolAutoReserve]
  split_ifs
  · exact Function.update_self ..
  · rfl

theorem mempoolAutoReserve_free (c : ResGroupControl g s p) (i : Fin g) (caps : ResGroupCaps) :
    (mempoolAutoReserve c i caps).freeChunks =
      c.freeChunks - mempoolAutoReserved c.freeChunks (c.groups i) := by
  rw [mempoolAutoReserve, mempoolAutoReserved]
  split_ifs
  · rfl
  · exact (sub_zero _).symm

theorem mempoolAutoReserve_total (c : ResGroupControl g s p) (i : Fin g) (caps : ResGroupCaps) :
    (mempoolAutoReserve c i caps).totalChunks = c.totalChunks := by
  rw [mempoolAutoReserve]
  split_ifs <;> rfl

theorem mempoolAutoReserve_other (c : ResGroupControl g s p) (caps : ResGroupCaps) (h : j ≠ i) :
    (mempoolAutoReserve c i caps).groups j = c.groups j := by
  rw [mempoolAutoReserve]
  split_ifs
  · exact Function.update_of_ne h ..
  · rfl

theorem mempoolAutoReserve_same (c : ResGroupControl g s p) (i : Fin g) (caps : ResGroupCaps) :
    SameButGrants (c.groups i) ((mempoolAutoReserve c i caps).groups i) := by
  rw [mempoolAutoReserve_group]
  split_ifs
  · exact groupRebalanceQuota_same ..
  · exact ⟨rfl, rfl, rfl, rfl, rfl, rfl, rfl, rfl, rfl, rfl, rfl⟩

theorem mempoolAutoReserve_quota_le (c : ResGroupControl g s p) (i : Fin g) (caps : ResGroupCaps) :
    (c.groups i).memQuotaGranted ≤ ((mempoolAutoReserve c i caps).groups i).memQuotaGranted := by
  rw [mempoolAutoReserve_group]
  split_ifs
  · exact groupRebalanceQuota_quota_le _ _ (mempoolAutoReserved_nonneg ..) caps
  · exact le_refl _

theorem mempoolAutoReserve_step (c : ResGroupControl g s p) (i : Fin g) (caps : ResGroupCaps) :
    GroupStep i c (mempoolAutoReserve c i caps) where
  total := mempoolAutoReserve_total c i caps
  other _ hj := mempoolAutoReserve_other c caps hj
  groupId := (mempoolAutoReserve_same c i caps).groupId
  lockedForDrop := (mempoolAutoReserve_same c i caps).lockedForDrop
  caps := (mempoolAutoReserve_same c i caps).caps
  bypassed := (mempoolAutoReserve_same c i caps).nRunningBypassed
  free := by
    rw [mempoolAutoReserve_free]
    have := mempoolAutoReserved_nonneg c.freeChunks (c.groups i)
    omega

/-- After `mempoolAutoReserve` the pool is empty or the group has all it expects: a second one gets
nothing. -/
theorem mempoolAutoReserved_again (c : ResGroupControl g s p) (i : Fin g) (caps : ResGroupCaps) :
    mempoolAutoReserved (mempoolAutoReserve c i caps).freeChunks
      ((mempoolAutoReserve c i caps).groups i) = 0 := by
  have hexp := (mempoolAutoReserve_same c i caps).memExpected
  rw [mempoolAutoReserved, mempoolAutoReserve_free, hexp, mempoolAutoReserve_group]
  by_cases hneed : 0 < (c.groups i).memExpected -
      ((c.groups i).memSharedGranted + (c.groups i).memQuotaGranted)
  · rw [if_pos hneed, groupRebalanceQuota_stocks]
    simp only [mempoolAutoReserved, if_pos hneed, mempoolReserved]
    split_ifs with hstill
    · omega
    · rfl
  · rw [if_neg hneed, if_neg hneed]

/-- The answer of `groupGetSlot` before and after the chunks are reserved is the same. -/
theorem slotObtainable_mempoolAutoReserve (c : ResGroupControl g s p) (i : Fin g) :
    slotObtainable c.totalChunks (mempoolAutoReserve c i (c.groups i).caps).freeChunks
        ((mempoolAutoReserve c i (c.groups i).caps).groups i) =
      slotObtainable c.totalChunks c.freeChunks (c.groups i) := by
  have hsame := mempoolAutoReserve_same c i (c.groups i).caps
  rw [slotObtainable, slotObtainable, mempoolAutoReserved_again, groupRebalanceQuota_zero, ite_self,
    hsame.nRunning, hsame.caps, mempoolAutoReserve_group]

/-! ## What `groupGetSlot` can do -/

/-- The slot `x`, at the head of the free list, becomes a slot of the group `i`. -/
def grantSlot (c : ResGroupControl g s p) (i : Fin g) (x : Fin s) (next : List (Fin s))
    (slotMemQuota : ℤ) : ResGroupControl g s p :=
  { c with
    groups := Function.update c.groups i
      { c.groups i with
        memQuotaUsed := (c.groups i).memQuotaUsed + slotMemQuota
        nRunning := (c.groups i).nRunning + 1 }
    slots := Function.update c.slots x
      { c.slots x with
        group := some i, groupId := (c.groups i).groupId, memQuota := slotMemQuota, memUsage := 0 }
    freeSlot := next }

theorem mempoolAutoReserve_resSlot (c : ResGroupControl g s p) (i : Fin g) (caps : ResGroupCaps) :
    (mempoolAutoReserve c i caps).resSlot = c.resSlot := by
  rw [mempoolAutoReserve]
  split_ifs <;> rfl

theorem mempoolAutoReserve_freeSlot (c : ResGroupControl g s p) (i : Fin g) (caps : ResGroupCaps) :
    (mempoolAutoReserve c i caps).freeSlot = c.freeSlot := by
  rw [mempoolAutoReserve]
  split_ifs <;> rfl

theorem groupGetSlot_cases {r : Option (Fin s)} (h : groupGetSlot c i = some (r, c')) :
    (r = none ∧ ((c.groups i).caps.concurrency : ℤ) ≤ (c.groups i).nRunning ∧ c' = c) ∨
    (r = none ∧ memQuotaFits c'.totalChunks (c'.groups i) = false ∧
      c' = mempoolAutoReserve c i (c.groups i).caps) ∨
    (∃ x next, r = some x ∧ (c.groups i).nRunning < (c.groups i).caps.concurrency ∧
      c.freeSlot = x :: next ∧
      memQuotaFits c.totalChunks ((mempoolAutoReserve c i (c.groups i).caps).groups i) = true ∧
      c' = grantSlot (mempoolAutoReserve c i (c.groups i).caps) i x next
        (slotGetMemQuotaExpected c.totalChunks (c.groups i).caps)) := by
  rw [groupGetSlot] at h
  by_cases hconc : ((c.groups i).caps.concurrency : ℤ) ≤ (c.groups i).nRunning
  · rw [if_pos hconc] at h
    cases h
    exact .inl ⟨rfl, hconc, rfl⟩
  rw [if_neg hconc] at h
  dsimp only at h
  by_cases hfits : memQuotaFits (mempoolAutoReserve c i (c.groups i).caps).totalChunks
      ((mempoolAutoReserve c i (c.groups i).caps).groups i) = true
  · rw [if_pos hfits, Option.map_eq_some_iff] at h
    obtain ⟨⟨x, d⟩, hd, hx⟩ := h
    rw [slotpoolAllocSlot, setGroup_freeSlot, mempoolAutoReserve_freeSlot] at hd
    split at hd
    · cases hd
    case _ x' next heq =>
      cases hd
      cases hx
      rw [mempoolAutoReserve_total] at hfits
      refine .inr (.inr ⟨x, next, rfl, not_le.mp hconc, heq, hfits, ?_⟩)
      simp only [initSlot, setGroup, setSlot, grantSlot, Function.update_self,
        Function.update_idem, mempoolAutoReserve_total, (mempoolAutoReserve_same c i _).caps]
  · rw [if_neg hfits] at h
    cases h
    exact .inr (.inl ⟨rfl, Bool.eq_false_iff.mpr hfits, rfl⟩)

theorem grantSlot_group (c : ResGroupControl g s p) (i : Fin g) (x : Fin s) (next : List (Fin s))
    (slotMemQuota : ℤ) :
    (grantSlot c i x next slotMemQuota).groups i =
      { c.groups i with
        memQuotaUsed := (c.groups i).memQuotaUsed + slotMemQuota
        nRunning := (c.groups i).nRunning + 1 } := Function.update_self ..

theorem grantSlot_step (c : ResGroupControl g s p) (i : Fin g) (x : Fin s) (next : List (Fin s))
    (slotMemQuota : ℤ) : GroupStep i c (grantSlot c i x next slotMemQuota) where
  total := rfl
  other _ hj := Function.update_of_ne hj ..
  groupId := by rw [grantSlot_group]
  lockedForDrop := by rw [grantSlot_group]
  caps := by rw [grantSlot_group]
  bypassed := by rw [grantSlot_group]
  free := le_refl _

theorem groupGetSlot_step {r : Option (Fin s)} (h : groupGetSlot c i = some (r, c')) :
    GroupStep i c c' := by
  obtain ⟨-, -, rfl⟩ | ⟨-, -, rfl⟩ | ⟨x, next, -, -, -, -, rfl⟩ := groupGetSlot_cases h
  · exact GroupStep.refl i c'
  · exact mempoolAutoReserve_step c i _
  · exact (mempoolAutoReserve_step c i _).trans (grantSlot_step _ i x next _)

theorem groupGetSlot_waitProcs {r : Option (Fin s)} (h : groupGetSlot c i = some (r, c')) :
    (c'.groups i).waitProcs = (c.groups i).waitProcs := by
  obtain ⟨-, -, rfl⟩ | ⟨-, -, rfl⟩ | ⟨x, next, -, -, -, -, rfl⟩ := groupGetSlot_cases h
  · rfl
  · exact (mempoolAutoReserve_same c i _).waitProcs
  · rw [grantSlot_group]
    exact (mempoolAutoReserve_same c i _).waitProcs

theorem slotObtainable_false_of_running {T : ℕ} {f : ℤ} {d : ResGroupData p}
    (h : (d.caps.concurrency : ℤ) ≤ d.nRunning) : slotObtainable T f d = false := by
  rw [slotObtainable, decide_eq_false (not_lt.mpr h), Bool.false_and]

/-- **A refused `groupGetSlot` refuses again.** -/
theorem slotObtainable_of_refused (h : groupGetSlot c i = some (none, c')) :
    slotObtainable c'.totalChunks c'.freeChunks (c'.groups i) = false := by
  obtain ⟨-, hconc, rfl⟩ | ⟨-, hfits, rfl⟩ | ⟨x, next, hx, -⟩ := groupGetSlot_cases h
  · exact slotObtainable_false_of_running hconc
  · rw [slotObtainable, mempoolAutoReserved_again, groupRebalanceQuota_zero, ite_self, hfits,
      Bool.and_false]
  · cases hx

/-- `groupGetSlot` gives a slot only when `slotObtainable` says so. -/
theorem slotObtainable_of_granted {x : Fin s} (h : groupGetSlot c i = some (some x, c')) :
    slotObtainable c.totalChunks c.freeChunks (c.groups i) = true := by
  obtain ⟨hx, -⟩ | ⟨hx, -⟩ | ⟨y, next, -, hconc, -, hfits, -⟩ := groupGetSlot_cases h
  · cases hx
  · cases hx
  · rw [slotObtainable, decide_eq_true hconc, Bool.true_and, ← mempoolAutoReserve_group]
    exact hfits

/-! ## What `segmentSlot` can do -/

theorem segmentSlot_cases {cfg : NodeConfig p} {q : Fin p} {x : Fin s} {groupId : ℕ}
    {caps : ResGroupCaps} (h : segmentSlot cfg c q i groupId caps = some (x, c')) :
    (c.resGroupSlot (cfg.session q) = some x ∧ (c.slots x).groupId = some groupId ∧ c' = c) ∨
    ∃ next, c.resGroupSlot (cfg.session q) = none ∧ c.freeSlot = x :: next ∧
      c' = grantSlot (mempoolAutoReserve c i caps) i x next
        (slotGetMemQuotaOnQE c.totalChunks caps ((mempoolAutoReserve c i caps).groups i)) := by
  rw [segmentSlot] at h
  split at h
  case _ y hres =>
    split_ifs at h with hid
    cases h
    exact .inl ⟨hres, hid, rfl⟩
  case _ hres =>
    obtain ⟨⟨y, c1⟩, halloc, h⟩ := Option.map_eq_some_iff.mp h
    rw [slotpoolAllocSlot] at halloc
    split at halloc
    · cases halloc
    case _ z next hfree =>
      cases halloc
      cases h
      refine .inr ⟨next, hres, hfree, ?_⟩
      have hreserve : mempoolAutoReserve { c with freeSlot := next } i caps =
          { mempoolAutoReserve c i caps with freeSlot := next } := by
        rw [mempoolAutoReserve, mempoolAutoReserve]
        split_ifs <;> rfl
      rw [hreserve]
      simp only [initSlot, setGroup, setSlot, grantSlot, Function.update_self,
        mempoolAutoReserve_total]

/-- The quota that an executor takes fits into what the group has been granted. -/
theorem slotGetMemQuotaOnQE_fits {T : ℕ} {caps : ResGroupCaps} {d : ResGroupData p}
    (hconc : 0 < caps.concurrency) (h : d.memQuotaUsed ≤ d.memQuotaGranted) :
    0 ≤ slotGetMemQuotaOnQE T caps d ∧
      d.memQuotaUsed + slotGetMemQuotaOnQE T caps d ≤ d.memQuotaGranted := by
  have hrest : 0 ≤ d.memQuotaGranted - d.memQuotaUsed := sub_nonneg.mpr h
  have hexp : 0 ≤ slotGetMemQuotaExpected T caps := Int.natCast_nonneg _
  have hbound (m : ℤ) (hm : 0 < m) :
      0 ≤ min (slotGetMemQuotaExpected T caps) ((d.memQuotaGranted - d.memQuotaUsed).tdiv m) ∧
        d.memQuotaUsed +
          min (slotGetMemQuotaExpected T caps) ((d.memQuotaGranted - d.memQuotaUsed).tdiv m) ≤
          d.memQuotaGranted := by
    have hpos := Int.tdiv_nonneg hrest hm.le
    have hle := Int.tdiv_le_self m hrest
    omega
  rw [slotGetMemQuotaOnQE]
  split_ifs with hfree
  · exact hbound _ (Int.natCast_pos.mpr hconc)
  · exact hbound _ (not_le.mp hfree)

/-! ## Waking up a queue -/

theorem wakeup_group (c : ResGroupControl g s p) (i : Fin g) (q : Fin p) (qs : List (Fin p))
    (x : Option (Fin s)) :
    (wakeup c i q qs x).groups i = { c.groups i with waitProcs := qs } := Function.update_self ..

theorem wakeup_step (c : ResGroupControl g s p) (i : Fin g) (q : Fin p) (qs : List (Fin p))
    (x : Option (Fin s)) : GroupStep i c (wakeup c i q qs x) where
  total := rfl
  other _ hj := Function.update_of_ne hj ..
  groupId := by rw [wakeup_group]
  lockedForDrop := by rw [wakeup_group]
  caps := by rw [wakeup_group]
  bypassed := by rw [wakeup_group]
  free := le_refl _

theorem wakeup_waitProcs (c : ResGroupControl g s p) (i : Fin g) (q : Fin p) (qs : List (Fin p))
    (x : Option (Fin s)) : ((wakeup c i q qs x).groups i).waitProcs = qs := by
  rw [wakeup_group]

theorem wakeupSlotsLoop_step {grant : Bool} {qs : List (Fin p)}
    (h : wakeupSlotsLoop grant i qs c = some c') : GroupStep i c c' := by
  induction qs generalizing c with
  | nil =>
    cases h
    exact GroupStep.refl i c'
  | cons q qs ih =>
    rw [wakeupSlotsLoop] at h
    split_ifs at h
    · split at h
      · cases h
      case _ c1 hget =>
        cases h
        exact groupGetSlot_step hget
      case _ x c1 hget =>
        exact ((groupGetSlot_step hget).trans (wakeup_step c1 i q qs (some x))).trans (ih h)
    · exact (wakeup_step c i q qs none).trans (ih h)

/-- The loop ends with an empty queue or with a group that gets no slot. -/
theorem wakeupSlotsLoop_grant {qs : List (Fin p)} (hq : (c.groups i).waitProcs = qs)
    (h : wakeupSlotsLoop true i qs c = some c') :
    (c'.groups i).waitProcs = [] ∨
      slotObtainable c'.totalChunks c'.freeChunks (c'.groups i) = false := by
  induction qs generalizing c with
  | nil =>
    cases h
    exact .inl hq
  | cons q qs ih =>
    rw [wakeupSlotsLoop, if_pos rfl] at h
    split at h
    · cases h
    case _ c1 hget =>
      cases h
      exact .inr (slotObtainable_of_refused hget)
    case _ x c1 hget => exact ih (wakeup_waitProcs c1 i q qs (some x)) h

theorem wakeupSlotsLoop_all {qs : List (Fin p)} (hq : (c.groups i).waitProcs = qs)
    (h : wakeupSlotsLoop false i qs c = some c') :
    (c'.groups i).waitProcs = [] ∧ c'.freeChunks = c.freeChunks := by
  induction qs generalizing c with
  | nil =>
    cases h
    exact ⟨hq, rfl⟩
  | cons q qs ih =>
    rw [wakeupSlotsLoop, if_neg Bool.false_ne_true] at h
    exact ih (c := wakeup c i q qs none) (wakeup_waitProcs c i q qs none) h

/-! ## Putting a slot back -/

/-- The slot `x` back in the pool, before the overused quota is released. -/
def slotReturned (session : Fin p) (c : ResGroupControl g s p) (i : Fin g) (x : Fin s) :
    ResGroupControl g s p :=
  { c with
    groups := Function.update c.groups i
      { c.groups i with
        memQuotaUsed := (c.groups i).memQuotaUsed - (c.slots x).memQuota
        nRunning := (c.groups i).nRunning - 1 }
    slots := Function.update c.slots x
      { c.slots x with groupId := none, group := none, memQuota := -1, memUsage := 0 }
    freeSlot := x :: c.freeSlot
    resGroupSlot := Function.update c.resGroupSlot session none }

theorem slotReturned_group (session : Fin p) (c : ResGroupControl g s p) (i : Fin g) (x : Fin s) :
    (slotReturned session c i x).groups i =
      { c.groups i with
        memQuotaUsed := (c.groups i).memQuotaUsed - (c.slots x).memQuota
        nRunning := (c.groups i).nRunning - 1 } := Function.update_self ..

theorem mempoolAutoRelease_group (c : ResGroupControl g s p) (i : Fin g) :
    (mempoolAutoRelease c i).groups i =
      { c.groups i with
        memQuotaGranted :=
          (c.groups i).memQuotaGranted - max (memQuotaToFree c.totalChunks (c.groups i)) 0
        memSharedGranted :=
          (c.groups i).memSharedGranted - max (memSharedToFree c.totalChunks (c.groups i)) 0 } :=
  Function.update_self ..

theorem groupPutSlot_eq (role : GpRole) (session : Fin p) (c : ResGroupControl g s p) (i : Fin g)
    (x : Fin s) :
    groupPutSlot role session c i x =
      let c1 := slotReturned session c i x
      if 0 < mempoolAutoReleased c1.totalChunks (c1.groups i) then
        notifyGroupsOnMem role (c.groups i).groupId (mempoolAutoRelease c1 i)
      else some (mempoolAutoRelease c1 i) := by
  have hc1 : slotReturned session c i x =
      { (slotpoolFreeSlot (c.setGroup i { c.groups i with
          memQuotaUsed := (c.groups i).memQuotaUsed - (c.slots x).memQuota }) x).setGroup i
          { (slotpoolFreeSlot (c.setGroup i { c.groups i with
              memQuotaUsed := (c.groups i).memQuotaUsed - (c.slots x).memQuota }) x).groups i with
            nRunning := (c.groups i).nRunning - 1 } with
        resGroupSlot := Function.update c.resGroupSlot session none } := by
    simp only [slotReturned, slotpoolFreeSlot, setGroup, setSlot, Function.update_self,
      Function.update_idem]
  have hid : ((mempoolAutoRelease (slotReturned session c i x) i).groups i).groupId =
      (c.groups i).groupId := by
    rw [mempoolAutoRelease_group, slotReturned_group]
  dsimp only
  rw [← hid, hc1, groupPutSlot]
  simp only [slotpoolFreeSlot, setGroup, setSlot, Function.update_self]

end Hdb.ResGroup
