import Hdb.ResGroup.Slots

/-!
# Resource groups: no waiter is forgotten

On the dispatcher a waiter is forgotten when its group could give it a slot and nobody looks at the
queue. Chunks go back to the pool on four paths. Release of a slot, alteration and drop notify the
other groups. `groupDecMemUsage`, which gives back what a session had taken from the pool over the
grant of its group, notifies nobody: its result is ignored by every caller.

The invariant is `Attended`: no group whose queue is not empty could get a slot. One group at a
time, `Served` says so; a notification needs only `ServedDry`, the same with an empty pool, and
restores `Served` for every group it reaches (`notifyLoop_spec`).

Main result: `no_waiter_forgotten`, for the runs in which no chunk comes back through
`groupDecMemUsage` while a group waits for memory. `waiter_forgotten` is a run in which one does.
-/

namespace Hdb.ResGroup

open ResGroupControl

variable {g s p : ℕ} {c c' : ResGroupControl g s p} {i j : Fin g}

/-! ## The invariant -/

/-- The queue of the group holds nobody who could have a slot. -/
def Served (c : ResGroupControl g s p) (i : Fin g) : Prop :=
  (c.groups i).groupId ≠ none → (c.groups i).caps.memAuditor = .vmtracker →
    (c.groups i).lockedForDrop = false → (c.groups i).waitProcs ≠ [] →
    slotObtainable c.totalChunks c.freeChunks (c.groups i) = false

/-- The same with nothing in the pool. -/
def ServedDry (c : ResGroupControl g s p) (i : Fin g) : Prop :=
  (c.groups i).groupId ≠ none → (c.groups i).caps.memAuditor = .vmtracker →
    (c.groups i).lockedForDrop = false → (c.groups i).waitProcs ≠ [] →
    slotObtainable c.totalChunks 0 (c.groups i) = false

theorem slotObtainable_false_of_le {T : ℕ} {f f' : ℤ} {d : ResGroupData p}
    (hf : slotObtainable T f' d = false) (h : max 0 f ≤ max 0 f') : slotObtainable T f d = false :=
  Bool.eq_false_iff.mpr fun ht => Bool.eq_false_iff.mp hf (slotObtainable_mono h ht)

theorem Served.dry (h : Served c i) : ServedDry c i := fun hid haud hlock hq =>
  slotObtainable_false_of_le (h hid haud hlock hq) ((max_self 0).trans_le (le_max_left 0 _))

theorem Served.mono (h : Served c i) (hd : c'.groups i = c.groups i)
    (ht : c'.totalChunks = c.totalChunks) (hf : c'.freeChunks ≤ c.freeChunks) : Served c' i := by
  rw [Served, hd, ht]
  exact fun hid haud hlock hq =>
    slotObtainable_false_of_le (h hid haud hlock hq) (max_le_max_left 0 hf)

theorem ServedDry.congr (h : ServedDry c i) (hd : c'.groups i = c.groups i)
    (ht : c'.totalChunks = c.totalChunks) : ServedDry c' i := by
  rw [ServedDry, hd, ht]
  exact h

theorem ServedDry.served_of_zero (h : ServedDry c i) (hf : c.freeChunks = 0) : Served c i := by
  rw [Served, hf]
  exact h

theorem served_of_waitProcs_nil (h : (c.groups i).waitProcs = []) : Served c i :=
  fun _ _ _ hq => absurd h hq

theorem wakeupSlots_served (h : wakeupSlots c i true = some c') : Served c' i := by
  obtain hnil | hno := wakeupSlotsLoop_grant rfl h
  · exact served_of_waitProcs_nil hnil
  · exact fun _ _ _ _ => hno

theorem GroupStep.served_other (h : GroupStep i c c') (hj : j ≠ i) (hs : Served c j) :
    Served c' j :=
  hs.mono (h.other j hj) h.total h.free

/-! ## Notification -/

theorem groupApplyCgroupMemInc_step (c : ResGroupControl g s p) (i : Fin g) :
    GroupStep i c (groupApplyCgroupMemInc c i) := by
  rw [groupApplyCgroupMemInc]
  split_ifs with hinc
  · exact GroupStep.refl i c
  · refine ⟨rfl, fun j hj => Function.update_of_ne hj .., ?_, ?_, ?_, ?_, ?_⟩
    all_goals simp only [setGroup, Function.update_self]
    omega

theorem groupMemOnNotifyForCgroup_step (c : ResGroupControl g s p) (i : Fin g) :
    GroupStep i c (groupMemOnNotifyForCgroup c i) := by
  rw [groupMemOnNotifyForCgroup]
  split_ifs
  · exact groupApplyCgroupMemInc_step c i
  · exact GroupStep.refl i c

theorem groupMemOnNotify_step {role : GpRole} (h : groupMemOnNotify role c i = some c') :
    GroupStep i c c' := by
  rw [groupMemOnNotify] at h
  split at h
  · rw [groupMemOnNotifyForVmtracker] at h
    split_ifs at h
    case neg => exact wakeupSlotsLoop_step h
    all_goals
      cases h
      exact GroupStep.refl i c
  · cases h
    exact groupMemOnNotifyForCgroup_step c i

/-- On the dispatcher the notified group looks at its queue, or has no use for the chunks. -/
theorem groupMemOnNotify_served (h : groupMemOnNotify .dispatch c i = some c')
    (hdry : ServedDry c i) : Served c' i := by
  have hstep := groupMemOnNotify_step h
  intro hid haud hlock hq
  rw [hstep.groupId] at hid
  rw [hstep.caps] at haud
  rw [hstep.lockedForDrop] at hlock
  rw [groupMemOnNotify, haud] at h
  simp only [groupMemOnNotifyForVmtracker, ne_eq, not_true_eq_false, if_false, hlock,
    Bool.false_eq_true] at h
  split_ifs at h with hnil hstock
  · cases h
    exact absurd hnil hq
  · cases h
    rw [slotObtainable_of_stocked _ 0 (by omega)]
    exact hdry hid haud hlock hq
  · exact wakeupSlots_served h (by rw [hstep.groupId]; exact hid) (by rw [hstep.caps]; exact haud)
      (by rw [hstep.lockedForDrop]; exact hlock) hq

/-- What the loop of `notifyGroupsOnMem` over the groups `is` does on the dispatcher. -/
structure Notified (skipGroupId : Option ℕ) (is : List (Fin g)) (c c' : ResGroupControl g s p) :
    Prop where
  total : c'.totalChunks = c.totalChunks
  free : c'.freeChunks ≤ c.freeChunks
  groupId : ∀ j, (c'.groups j).groupId = (c.groups j).groupId
  skipped : ∀ j, (c.groups j).groupId = none ∨ (c.groups j).groupId = skipGroupId →
    c'.groups j = c.groups j
  notMem : ∀ j, j ∉ is → c'.groups j = c.groups j
  served : ∀ j ∈ is, ¬ ((c.groups j).groupId = none ∨ (c.groups j).groupId = skipGroupId) →
    ServedDry c j → Served c' j

theorem notifyLoop_spec {skipGroupId : Option ℕ} {is : List (Fin g)}
    (h : notifyLoop .dispatch skipGroupId is c = some c') : Notified skipGroupId is c c' := by
  induction is generalizing c with
  | nil =>
    cases h
    exact ⟨rfl, le_refl _, fun _ => rfl, fun _ _ => rfl, fun _ _ => rfl, fun _ hj => nomatch hj⟩
  | cons i is ih =>
    rw [notifyLoop] at h
    split_ifs at h with hskip
    · have hrest := ih h
      refine { hrest with notMem := ?_, served := ?_ }
      · exact fun j hj => hrest.notMem j fun hmem => hj (List.mem_cons_of_mem i hmem)
      · intro j hj hns hdry
        obtain rfl | hj := List.mem_cons.mp hj
        · exact absurd hskip hns
        · exact hrest.served j hj hns hdry
    · obtain ⟨c1, hnotify, h⟩ := Option.bind_eq_some_iff.mp h
      have hstep := groupMemOnNotify_step hnotify
      have hne {j : Fin g} (hj : (c.groups j).groupId = none ∨
          (c.groups j).groupId = skipGroupId) : j ≠ i := fun heq => hskip (heq ▸ hj)
      split_ifs at h with hzero
      · cases h
        refine ⟨hstep.total, hstep.free, hstep.groupId_all, fun j hj => hstep.other j (hne hj),
          fun j hj => hstep.other j fun heq => hj (heq ▸ List.mem_cons_self), ?_⟩
        intro j _ _ hdry
        by_cases hji : j = i
        · subst hji
          exact groupMemOnNotify_served hnotify hdry
        · exact (hdry.congr (hstep.other j hji) hstep.total).served_of_zero hzero
      · have hrest := ih h
        refine ⟨hrest.total.trans hstep.total, hrest.free.trans hstep.free,
          fun j => (hrest.groupId j).trans (hstep.groupId_all j), fun j hj => ?_,
          fun j hj => ?_, ?_⟩
        · rw [hrest.skipped j (by rw [hstep.groupId_all]; exact hj), hstep.other j (hne hj)]
        · rw [hrest.notMem j fun hmem => hj (List.mem_cons_of_mem i hmem),
            hstep.other j fun heq => hj (heq ▸ List.mem_cons_self)]
        · intro j hj hns hdry
          have hns1 : ¬ ((c1.groups j).groupId = none ∨ (c1.groups j).groupId = skipGroupId) := by
            rw [hstep.groupId_all]
            exact hns
          have hserved : j = i → Served c1 j := fun hji => by
            subst hji
            exact groupMemOnNotify_served hnotify hdry
          by_cases hmem : j ∈ is
          · refine hrest.served j hmem hns1 ?_
            by_cases hji : j = i
            · exact (hserved hji).dry
            · exact hdry.congr (hstep.other j hji) hstep.total
          · have hji : j = i := (List.mem_cons.mp hj).resolve_right hmem
            exact (hserved hji).mono (hrest.notMem j hmem) hrest.total hrest.free

/-! ## The operations under the lock -/

/-- No two groups have one id. -/
def UniqueIds (c : ResGroupControl g s p) : Prop :=
  ∀ i j k, (c.groups i).groupId = some k → (c.groups j).groupId = some k → i = j

/-- No queue holds somebody who could have a slot. -/
structure Attended (c : ResGroupControl g s p) : Prop where
  ids : UniqueIds c
  served : ∀ i, Served c i

theorem UniqueIds.congr (h : UniqueIds c)
    (hid : ∀ j, (c'.groups j).groupId = (c.groups j).groupId) : UniqueIds c' := by
  intro i j k hi hj
  rw [hid] at hi hj
  exact h i j k hi hj

/-- A notification serves every group but the one that gave the chunks back. -/
theorem notifyGroupsOnMem_served {skipGroupId : Option ℕ}
    (h : notifyGroupsOnMem .dispatch skipGroupId c = some c')
    (hskip : ∀ j k, (c.groups j).groupId = some k → skipGroupId = some k → j = i)
    (hdry : ∀ j, j ≠ i → ServedDry c j) (hj : j ≠ i) : Served c' j := by
  have hspec := notifyLoop_spec h
  cases hid : (c.groups j).groupId with
  | none =>
    have hid' : (c'.groups j).groupId = none := (hspec.groupId j).trans hid
    exact fun hne => absurd hid' hne
  | some k =>
    refine hspec.served j (List.mem_finRange j) ?_ (hdry j hj)
    rw [hid]
    exact fun hs => hs.elim (fun hn => nomatch hn) fun hk => hj (hskip j k hid hk.symm)

/-- A group that gave chunks back to the pool: the others are notified, and then its own queue is
woken up. -/
theorem Attended.wakeupSlots {c1 : ResGroupControl g s p} (hids : UniqueIds c)
    (hother : ∀ j, j ≠ i → c1.groups j = c.groups j)
    (hid : (c1.groups i).groupId = (c.groups i).groupId)
    (hserved : ∀ j, j ≠ i → Served c1 j) (h : wakeupSlots c1 i true = some c') : Attended c' := by
  have hstep := wakeupSlotsLoop_step h
  refine ⟨hids.congr fun j => ?_, fun j => ?_⟩
  · rw [hstep.groupId_all]
    by_cases hj : j = i
    · rw [hj, hid]
    · rw [hother j hj]
  · by_cases hj : j = i
    · rw [hj]
      exact wakeupSlots_served h
    · exact hstep.served_other hj (hserved j hj)

theorem autoRelease_slotReturned_other (session : Fin p) (c : ResGroupControl g s p) (x : Fin s)
    (hj : j ≠ i) :
    (mempoolAutoRelease (slotReturned session c i x) i).groups j = c.groups j := by
  rw [mempoolAutoRelease]
  exact (Function.update_of_ne hj ..).trans (Function.update_of_ne hj ..)

theorem autoRelease_slotReturned_groupId (session : Fin p) (c : ResGroupControl g s p) (i : Fin g)
    (x : Fin s) (j : Fin g) :
    ((mempoolAutoRelease (slotReturned session c i x) i).groups j).groupId =
      (c.groups j).groupId := by
  by_cases hj : j = i
  · rw [hj, mempoolAutoRelease_group, slotReturned_group]
  · rw [autoRelease_slotReturned_other session c x hj]

/-- A query dispatcher puts its slot back. -/
theorem groupReleaseSlot_attended {session : Fin p} {x : Fin s} (hids : UniqueIds c)
    (hserved : ∀ j, j ≠ i → Served c j)
    (h : groupReleaseSlot .dispatch .dispatch session c i x = some c') : Attended c' := by
  obtain ⟨c2, hput, h⟩ := Option.bind_eq_some_iff.mp h
  rw [if_pos rfl] at h
  have hother (j : Fin g) (hj : j ≠ i) :
      (mempoolAutoRelease (slotReturned session c i x) i).groups j = c.groups j :=
    autoRelease_slotReturned_other session c x hj
  have hid_all := autoRelease_slotReturned_groupId session c i x
  rw [groupPutSlot_eq] at hput
  dsimp only at hput
  split_ifs at hput with hrel
  · have hspec := notifyLoop_spec hput
    have hskip (j : Fin g) (hj : j ≠ i) : Served c2 j := by
      refine notifyGroupsOnMem_served hput (fun j k hj hk => ?_) (fun j hj => ?_) hj
      · rw [hid_all] at hj
        exact hids j i k hj hk
      · exact (hserved j hj).dry.congr (hother j hj) rfl
    refine Attended.wakeupSlots (hids.congr fun j => (hspec.groupId j).trans (hid_all j))
      (fun _ _ => rfl) rfl hskip h
  · cases hput
    have hfree : (mempoolAutoRelease (slotReturned session c i x) i).freeChunks ≤ c.freeChunks := by
      change c.freeChunks + _ ≤ c.freeChunks
      omega
    exact Attended.wakeupSlots hids hother (hid_all i)
      (fun j hj => (hserved j hj).mono (hother j hj) rfl hfree) h

theorem removeGroup_attended (hids : UniqueIds c) (hserved : ∀ j, j ≠ i → Served c j)
    (h : removeGroup .dispatch c i = some c') : Attended c' := by
  rw [removeGroup] at h
  dsimp only at h
  have hdrop (j : Fin g) (hj : j ≠ i) : (groupMemOnDrop c i).groups j = c.groups j := by
    rw [groupMemOnDrop]
    split
    · exact Function.update_of_ne hj ..
    · rfl
  have htotal : (groupMemOnDrop c i).totalChunks = c.totalChunks := by
    rw [groupMemOnDrop]
    split <;> rfl
  generalize groupMemOnDrop c i = c1 at h hdrop htotal
  have hspec := notifyLoop_spec h
  have hother (j : Fin g) (hj : j ≠ i) :
      (c1.setGroup i { c1.groups i with groupId := none }).groups j = c.groups j := by
    rw [setGroup_groups_of_ne _ _ hj, hdrop j hj]
  have hnone : (c'.groups i).groupId = none := by
    rw [hspec.groupId, setGroup_groups_self]
  refine ⟨fun j j' k hj hj' => ?_, fun j => ?_⟩
  · have hne {l : Fin g} (hl : (c'.groups l).groupId = some k) : l ≠ i := by
      intro hli
      rw [hli, hnone] at hl
      cases hl
    have hback {l : Fin g} (hl : (c'.groups l).groupId = some k) :
        (c.groups l).groupId = some k := by
      rw [← hother l (hne hl), ← hspec.groupId]
      exact hl
    exact hids j j' k (hback hj) (hback hj')
  · by_cases hji : j = i
    · rw [hji]
      exact fun hid => absurd hnone hid
    · refine notifyGroupsOnMem_served h (fun l k hl hk => ?_) (fun l hl => ?_) hji
      · by_contra hli
        rw [hother l hli] at hl
        exact hli (hids l i k hl hk)
      · exact (hserved l hl).dry.congr (hother l hl) htotal

theorem caps_of_not_isMem {caps caps' : ResGroupCaps} {limit : ResGroupLimit}
    (h : caps.alter limit = some caps') (hmem : limit.isMem = false) : caps' = caps := by
  cases limit with
  | cpu | memorySpillRatio | cpuset =>
    cases h
    rfl
  | concurrency | memory | memorySharedQuota => cases hmem

theorem alterGroup_other (c : ResGroupControl g s p) (limit : ResGroupLimit) (caps : ResGroupCaps)
    (hj : j ≠ i) : (alterGroup c i limit caps).groups j = c.groups j :=
  Function.update_of_ne hj ..

theorem alterGroup_groupId (c : ResGroupControl g s p) (limit : ResGroupLimit)
    (caps : ResGroupCaps) (j : Fin g) :
    ((alterGroup c i limit caps).groups j).groupId = (c.groups j).groupId := by
  by_cases hj : j = i
  · subst hj
    rw [alterGroup, setGroup_groups_self]
  · rw [alterGroup_other c limit caps hj]

theorem groupApplyMemCaps_other (c : ResGroupControl g s p) (hj : j ≠ i) :
    (groupApplyMemCaps c i).2.groups j = c.groups j := by
  rw [groupApplyMemCaps]
  dsimp only
  rw [mempoolAutoReserve_other _ _ hj, mempoolAutoRelease]
  exact (Function.update_of_ne hj ..).trans (Function.update_of_ne hj ..)

theorem groupApplyMemCaps_total (c : ResGroupControl g s p) (i : Fin g) :
    (groupApplyMemCaps c i).2.totalChunks = c.totalChunks := by
  rw [groupApplyMemCaps]
  dsimp only
  rw [mempoolAutoReserve_total]
  rfl

theorem groupApplyMemCaps_groupId (c : ResGroupControl g s p) (i : Fin g) :
    ((groupApplyMemCaps c i).2.groups i).groupId = (c.groups i).groupId := by
  rw [groupApplyMemCaps]
  dsimp only
  rw [(mempoolAutoReserve_same _ i _).groupId, mempoolAutoRelease_group, setGroup_groups_self]

/-- The pool has grown only if the caller is told to notify. -/
theorem groupApplyMemCaps_free (c : ResGroupControl g s p) (i : Fin g)
    (h : (groupApplyMemCaps c i).1 = false) :
    (groupApplyMemCaps c i).2.freeChunks ≤ c.freeChunks := by
  rw [groupApplyMemCaps] at h ⊢
  simp only [decide_eq_false_iff_not, not_lt] at h
  dsimp only
  rw [mempoolAutoReserve_free]
  refine le_trans (sub_le_sub_left h _) ?_
  simp only [mempoolAutoRelease, setGroup_freeChunks, setGroup_totalChunks, add_sub_cancel_right,
    le_refl]

theorem groupMemOnAlterForVmtracker_attended (hids : UniqueIds c)
    (hserved : ∀ j, j ≠ i → Served c j)
    (h : groupMemOnAlterForVmtracker .dispatch c i = some c') : Attended c' := by
  obtain ⟨c2, hwake, h⟩ := Option.bind_eq_some_iff.mp h
  have hother {j : Fin g} (hj : j ≠ i) : (groupApplyMemCaps c i).2.groups j = c.groups j :=
    groupApplyMemCaps_other c hj
  have hstep : GroupStep i (groupApplyMemCaps c i).2 c2 := wakeupSlotsLoop_step hwake
  have hid (j : Fin g) : (c2.groups j).groupId = (c.groups j).groupId := by
    rw [hstep.groupId_all]
    by_cases hj : j = i
    · rw [hj, groupApplyMemCaps_groupId]
    · rw [hother hj]
  have htotal := hstep.total.trans (groupApplyMemCaps_total c i)
  split_ifs at h with hnotify
  · have hspec := notifyLoop_spec h
    refine ⟨hids.congr fun j => (hspec.groupId j).trans (hid j), fun j => ?_⟩
    by_cases hj : j = i
    · rw [hj]
      exact (wakeupSlots_served hwake).mono (hspec.skipped i (.inr rfl)) hspec.total hspec.free
    · refine notifyGroupsOnMem_served h (fun l k hl hk => ?_) (fun l hl => ?_) hj
      · rw [hid] at hl hk
        exact hids l i k hl hk
      · exact (hserved l hl).dry.congr ((hstep.other l hl).trans (hother hl)) htotal
  · cases h
    refine ⟨hids.congr hid, fun j => ?_⟩
    by_cases hj : j = i
    · rw [hj]
      exact wakeupSlots_served hwake
    · exact (hserved j hj).mono ((hstep.other j hj).trans (hother hj)) htotal
        (hstep.free.trans (groupApplyMemCaps_free c i (Bool.eq_false_iff.mpr hnotify)))

theorem served_of_cgroup (h : (c.groups i).caps.memAuditor = .cgroup) : Served c i := by
  intro _ haud
  rw [h] at haud
  cases haud

theorem groupMemOnAlterForCgroup_attended (hids : UniqueIds c)
    (hserved : ∀ j, j ≠ i → Served c j) (haud : (c.groups i).caps.memAuditor = .cgroup)
    (h : groupMemOnAlterForCgroup .dispatch c i = some c') : Attended c' := by
  rw [groupMemOnAlterForCgroup] at h
  split_ifs at h
  · cases h
    refine ⟨hids, fun j => ?_⟩
    by_cases hj : j = i
    · exact served_of_cgroup (hj ▸ haud)
    · exact hserved j hj
  · obtain ⟨c2, hnotify, rfl⟩ := Option.map_eq_some_iff.mp h
    have hspec := notifyLoop_spec hnotify
    have hi : c2.groups i = c.groups i := hspec.skipped i (.inr rfl)
    refine ⟨hids.congr fun j => ?_, fun j => ?_⟩
    · by_cases hj : j = i
      · rw [hj, setGroup_groups_self, hi]
      · rw [setGroup_groups_of_ne _ _ hj]
        exact hspec.groupId j
    · by_cases hj : j = i
      · refine served_of_cgroup ?_
        rw [hj, setGroup_groups_self, hi]
        exact haud
      · have hserved2 : Served c2 j :=
          notifyGroupsOnMem_served hnotify (fun l k hl hk => hids l i k hl hk)
            (fun l hl => (hserved l hl).dry.congr rfl rfl) hj
        exact hserved2.mono (setGroup_groups_of_ne _ _ hj) rfl (le_refl _)
  · cases h
    have hstep := groupApplyCgroupMemInc_step c i
    refine ⟨hids.congr hstep.groupId_all, fun j => ?_⟩
    by_cases hj : j = i
    · refine served_of_cgroup ?_
      rw [hj, hstep.caps]
      exact haud
    · exact hstep.served_other hj (hserved j hj)

theorem ResGroupAlterOnCommit_attended {limit : ResGroupLimit} {caps : ResGroupCaps}
    (hc : Attended c) (hcaps : (c.groups i).caps.alter limit = some caps)
    (h : ResGroupAlterOnCommit .dispatch c i limit caps = some c') : Attended c' := by
  have hids : UniqueIds (alterGroup c i limit caps) :=
    hc.ids.congr (alterGroup_groupId c limit caps)
  have hserved (j : Fin g) (hj : j ≠ i) : Served (alterGroup c i limit caps) j :=
    (hc.served j).mono (alterGroup_other c limit caps hj) rfl (le_refl _)
  rw [ResGroupAlterOnCommit] at h
  split_ifs at h with hmem
  · rw [groupMemOnAlter] at h
    split at h
    · exact groupMemOnAlterForVmtracker_attended hids hserved h
    case _ haud => exact groupMemOnAlterForCgroup_attended hids hserved haud h
  · cases h
    refine ⟨hids, fun j => ?_⟩
    by_cases hj : j = i
    · subst hj
      rw [Served, alterGroup, setGroup_groups_self,
        caps_of_not_isMem hcaps (Bool.eq_false_iff.mpr hmem)]
      intro hid haud hlock hq
      rw [← hc.served j hid haud hlock hq]
      exact slotObtainable_congr rfl rfl rfl rfl rfl rfl
    · exact hserved j hj

theorem ResGroupDropFinish_attended {isCommit : Bool} (hc : Attended c)
    (h : ResGroupDropFinish .dispatch c i isCommit = some c') : Attended c' := by
  obtain ⟨c2, hwoken, h⟩ := Option.bind_eq_some_iff.mp h
  rw [if_pos rfl, Option.map_eq_some_iff] at hwoken
  obtain ⟨c1, hwake, rfl⟩ := hwoken
  have hstep := wakeupSlotsLoop_step hwake
  obtain ⟨hnil, -⟩ := wakeupSlotsLoop_all rfl hwake
  have hids : UniqueIds (c1.setGroup i { c1.groups i with lockedForDrop := false }) := by
    refine hc.ids.congr fun j => ?_
    by_cases hj : j = i
    · rw [hj, setGroup_groups_self]
      exact hstep.groupId
    · rw [setGroup_groups_of_ne _ _ hj, hstep.other j hj]
  have hserved (j : Fin g) (hj : j ≠ i) :
      Served (c1.setGroup i { c1.groups i with lockedForDrop := false }) j :=
    (hc.served j).mono ((setGroup_groups_of_ne _ _ hj).trans (hstep.other j hj)) hstep.total
      hstep.free
  split_ifs at h
  · exact removeGroup_attended hids hserved h
  · cases h
    refine ⟨hids, fun j => ?_⟩
    by_cases hj : j = i
    · refine served_of_waitProcs_nil ?_
      rw [hj, setGroup_groups_self]
      exact hnil
    · exact hserved j hj

end Hdb.ResGroup
