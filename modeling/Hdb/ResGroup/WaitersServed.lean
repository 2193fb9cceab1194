import Hdb.ResGroup.Waiters

/-!
# Resource groups: the runs in which no waiter is forgotten

The steps of the dispatcher keep `Attended`, except those that return chunks to the pool and tell
nobody (`chunksReturned`) while a group other than the one whose queue they wake up waits for
memory. These are the discharges of `groupDecMemUsage`, and an executor that is the last to leave a
slot: the notification of `groupPutSlot` does nothing for it.
-/

namespace Hdb.ResGroup

open ResGroupControl

variable {g s p : ℕ} {c c' : ResGroupControl g s p} {i j : Fin g}

/-! ## Memory -/

/-- The group is the same but for what its sessions use. -/
def SameButUsage (d d' : ResGroupData p) : Prop :=
  d' = { d with
    memUsage := d'.memUsage
    memSharedUsage := d'.memSharedUsage
    nRunningBypassed := d'.nRunningBypassed }

theorem SameButUsage.refl (d : ResGroupData p) : SameButUsage d d := rfl

theorem SameButUsage.set (d : ResGroupData p) (memUsage memSharedUsage nRunningBypassed : ℤ) :
    SameButUsage d
      { d with
        memUsage := memUsage
        memSharedUsage := memSharedUsage
        nRunningBypassed := nRunningBypassed } := rfl

theorem SameButUsage.trans {d d' d'' : ResGroupData p} (h : SameButUsage d d')
    (h' : SameButUsage d' d'') : SameButUsage d d'' := by
  rw [SameButUsage] at h h' ⊢
  rw [h', h]

theorem sameButUsage_update {d : ResGroupData p} (h : SameButUsage (c.groups i) d) (j : Fin g) :
    SameButUsage (c.groups j) ((c.setGroup i d).groups j) := by
  by_cases hj : j = i
  · rw [hj, setGroup_groups_self]
    exact h
  · rw [setGroup_groups_of_ne _ _ hj]
    exact SameButUsage.refl _

theorem incSlot_same (c : ResGroupControl g s p) (i : Fin g) (x : Fin s) (chunks : ℤ) (j : Fin g) :
    SameButUsage (c.groups j) ((incSlot c i x chunks).groups j) :=
  sameButUsage_update (SameButUsage.set ..) j

theorem decSlot_same (c : ResGroupControl g s p) (i : Fin g) (x : Fin s) (chunks : ℤ) (j : Fin g) :
    SameButUsage (c.groups j) ((decSlot c i x chunks).groups j) :=
  sameButUsage_update (SameButUsage.set ..) j

theorem groupIncMemUsage_same (c : ResGroupControl g s p) (i : Fin g) (slot : ResGroupSlotData g)
    (chunks : ℤ) (j : Fin g) :
    SameButUsage (c.groups j) ((groupIncMemUsage c i slot chunks).2.2.groups j) :=
  sameButUsage_update (SameButUsage.set ..) j

theorem groupDecMemUsage_same (c : ResGroupControl g s p) (i : Fin g) (slot : ResGroupSlotData g)
    (chunks : ℤ) (j : Fin g) :
    SameButUsage (c.groups j) ((groupDecMemUsage c i slot chunks).2.groups j) :=
  sameButUsage_update (SameButUsage.set ..) j

theorem groupIncMemUsage_free_le (c : ResGroupControl g s p) (i : Fin g)
    (slot : ResGroupSlotData g) (chunks : ℤ) :
    (groupIncMemUsage c i slot chunks).2.2.freeChunks ≤ c.freeChunks :=
  sub_le_self _ (le_max_left 0 _)

theorem deltaSharedInc_nonneg (slot : ResGroupSlotData g) {chunks : ℤ} (h : 0 ≤ chunks) :
    0 ≤ deltaSharedInc slot chunks := by
  rw [deltaSharedInc]
  split_ifs <;> omega

/-- What a charge takes from the pool is what its discharge gives back. -/
theorem deltaGlobalDec_add (granted old : ℤ) {delta : ℤ} (h : 0 ≤ delta) :
    deltaGlobalDec granted (old + delta) delta = deltaGlobalInc granted old delta := by
  rw [deltaGlobalDec, deltaGlobalInc]
  omega

theorem deltaSharedDec_add (slot : ResGroupSlotData g) (chunks : ℤ) :
    deltaSharedDec { slot with memUsage := slot.memUsage + chunks } chunks =
      deltaSharedInc slot chunks := rfl

/-- **Reverting a charge leaves everything as it was.** -/
theorem groupDecMemUsage_groupIncMemUsage (c : ResGroupControl g s p) (i : Fin g)
    (slot : ResGroupSlotData g) {chunks : ℤ} (h : 0 ≤ chunks) :
    groupDecMemUsage (groupIncMemUsage c i slot chunks).2.2 i
      (groupIncMemUsage c i slot chunks).2.1 chunks = (slot, c) := by
  simp only [groupDecMemUsage, groupIncMemUsage, globalReleased, setGroup, Function.update_self,
    Function.update_idem, deltaSharedDec_add, deltaGlobalDec_add _ _ (deltaSharedInc_nonneg slot h),
    add_sub_cancel_right, sub_add_cancel, Function.update_eq_self]

theorem decSlot_incSlot (c : ResGroupControl g s p) (i : Fin g) (x : Fin s) {chunks : ℤ}
    (h : 0 ≤ chunks) : decSlot (incSlot c i x chunks) i x chunks = c := by
  simp only [decSlot, incSlot, groupDecMemUsage, groupIncMemUsage, globalReleased, setGroup,
    setSlot, Function.update_self, Function.update_idem, deltaSharedDec_add,
    deltaGlobalDec_add _ _ (deltaSharedInc_nonneg (c.slots x) h), add_sub_cancel_right,
    sub_add_cancel, Function.update_eq_self]

/-! ## Chunks that come back without a notification -/

/-- Somebody waits in the queue of the group, and the group has fewer chunks than it expects. -/
def waitsForMemory (d : ResGroupData p) : Bool :=
  d.groupId.isSome && decide (d.caps.memAuditor = .vmtracker) && !d.lockedForDrop &&
    !d.waitProcs.isEmpty && decide (d.memSharedGranted + d.memQuotaGranted < d.memExpected)

/-- The chunks that the step returns to the pool without telling the other groups: those of
`groupDecMemUsage`, and those that the group releases when the last process to leave its slot is an
executor. A reservation that is reverted returns only what it took. -/
def chunksReturned (cfg : NodeConfig p) (n : Node g s p) : Action g p → ℤ
  | .unassign q =>
    match (n.procs q).state with
    | .assigned i x =>
      globalReleased n.ctl i (n.ctl.slots x) (n.procs q).memUsage +
        if cfg.gpRole q = .execute ∧ (n.ctl.slots x).nProcs = 1 then
          mempoolAutoReleased n.ctl.totalChunks
            ((slotReturned (cfg.session q) (detachSlot n q i x) i x).groups i)
        else 0
    | .bypassed i slot => globalReleased n.ctl i slot (n.procs q).memUsage
    | _ => 0
  | .releaseMemory q memoryChunks =>
    match (n.procs q).state with
    | .assigned i x => globalReleased n.ctl i (n.ctl.slots x) memoryChunks
    | .bypassed i slot => globalReleased n.ctl i slot memoryChunks
    | _ => 0
  | _ => 0

/-- The group whose queue the step wakes up after it returned the chunks: that of a slot whose last
process leaves. -/
def queueWoken (n : Node g s p) : Action g p → Option (Fin g)
  | .unassign q =>
    match (n.procs q).state with
    | .assigned i x => if (n.ctl.slots x).nProcs = 1 then some i else none
    | _ => none
  | _ => none

/-- The step returns no chunks unasked, or nobody else waits for them. -/
def returnsUnawaited (cfg : NodeConfig p) (n : Node g s p) (a : Action g p) : Bool :=
  decide (chunksReturned cfg n a ≤ 0) ||
    decide (∀ j, queueWoken n a = some j ∨ waitsForMemory (n.ctl.groups j) = false)

/-- The chunks that are reserved for a slot that an executor takes for itself are split as the
waiting group would split them, and its quota is within its grant. -/
def reservesAlike (cfg : NodeConfig p) (n : Node g s p) : Action g p → Bool
  | .switchOnSegment q groupId caps =>
    (n.ctl.resGroupSlot (cfg.session q)).isSome ||
      (groupHashFind n.ctl groupId).all fun i =>
        decide ((n.ctl.groups i).memQuotaUsed ≤ (n.ctl.groups i).memQuotaGranted) &&
          (decide (caps = (n.ctl.groups i).caps) || !waitsForMemory (n.ctl.groups i))
  | _ => true

/-- A group that does not wait for memory has all the chunks it expects, if anybody waits at all. -/
theorem stocked_of_not_waits {d : ResGroupData p} (h : waitsForMemory d = false)
    (hid : d.groupId ≠ none) (haud : d.caps.memAuditor = .vmtracker)
    (hlock : d.lockedForDrop = false) (hq : d.waitProcs ≠ []) :
    d.memExpected ≤ d.memSharedGranted + d.memQuotaGranted := by
  by_contra hlt
  refine Bool.false_ne_true (h.symm.trans ?_)
  simp only [waitsForMemory, Bool.and_eq_true, decide_eq_true_eq, Bool.not_eq_true']
  exact ⟨⟨⟨⟨Option.isSome_iff_ne_none.mpr hid, haud⟩, hlock⟩,
    List.isEmpty_eq_false_iff.mpr hq⟩, not_le.mp hlt⟩

theorem Served.usage (h : Served c j) (hd : SameButUsage (c.groups j) (c'.groups j))
    (ht : c'.totalChunks = c.totalChunks)
    (hok : c'.freeChunks ≤ c.freeChunks ∨ waitsForMemory (c.groups j) = false) : Served c' j := by
  rw [Served, hd, ht]
  intro hid haud hlock hq
  have hcongr : slotObtainable c.totalChunks c'.freeChunks
      { c.groups j with
        memUsage := (c'.groups j).memUsage
        memSharedUsage := (c'.groups j).memSharedUsage
        nRunningBypassed := (c'.groups j).nRunningBypassed } =
      slotObtainable c.totalChunks c'.freeChunks (c.groups j) :=
    slotObtainable_congr rfl rfl rfl rfl rfl rfl
  rw [hcongr]
  have hserved := h hid haud hlock hq
  obtain hfree | hstock := hok
  · exact slotObtainable_false_of_le hserved (max_le_max_left 0 hfree)
  · rw [slotObtainable_of_stocked _ c.freeChunks (stocked_of_not_waits hstock hid haud hlock hq)]
    exact hserved

theorem UniqueIds.usage (h : UniqueIds c)
    (hd : ∀ j, SameButUsage (c.groups j) (c'.groups j)) : UniqueIds c' :=
  h.congr fun j => by rw [hd j]

theorem Attended.usage (h : Attended c) (hd : ∀ j, SameButUsage (c.groups j) (c'.groups j))
    (ht : c'.totalChunks = c.totalChunks)
    (hok : ∀ j, c'.freeChunks ≤ c.freeChunks ∨ waitsForMemory (c.groups j) = false) :
    Attended c' :=
  ⟨h.ids.usage hd, fun j => (h.served j).usage (hd j) ht (hok j)⟩

theorem Attended.shrink (h : Attended c) (hd : ∀ j, SameButUsage (c.groups j) (c'.groups j))
    (ht : c'.totalChunks = c.totalChunks) (hfree : c'.freeChunks ≤ c.freeChunks) : Attended c' :=
  h.usage hd ht fun _ => .inl hfree

/-! ## The executors of the dispatcher -/

/-- What the loop of `notifyGroupsOnMem` does in an executor. -/
structure Unheard (c c' : ResGroupControl g s p) : Prop where
  total : c'.totalChunks = c.totalChunks
  free : c'.freeChunks ≤ c.freeChunks
  groupId : ∀ j, (c'.groups j).groupId = (c.groups j).groupId
  caps : ∀ j, (c'.groups j).caps = (c.groups j).caps
  vmtracker : ∀ j, (c.groups j).caps.memAuditor = .vmtracker → c'.groups j = c.groups j

theorem groupMemOnNotify_execute (h : groupMemOnNotify .execute c i = some c') : Unheard c c' := by
  rw [groupMemOnNotify] at h
  split at h
  case _ =>
    rw [groupMemOnNotifyForVmtracker, if_pos (by decide)] at h
    cases h
    exact ⟨rfl, le_refl _, fun _ => rfl, fun _ => rfl, fun _ _ => rfl⟩
  case _ haud =>
    cases h
    have hstep := groupMemOnNotifyForCgroup_step c i
    refine ⟨hstep.total, hstep.free, hstep.groupId_all, fun j => ?_, fun j hj => ?_⟩
    · by_cases hji : j = i
      · rw [hji]
        exact hstep.caps
      · rw [hstep.other j hji]
    · refine hstep.other j fun hji => ?_
      rw [hji, haud] at hj
      cases hj

theorem Unheard.trans {c'' : ResGroupControl g s p} (h : Unheard c c') (h' : Unheard c' c'') :
    Unheard c c'' where
  total := h'.total.trans h.total
  free := h'.free.trans h.free
  groupId j := (h'.groupId j).trans (h.groupId j)
  caps j := (h'.caps j).trans (h.caps j)
  vmtracker j hj := (h'.vmtracker j (by rw [h.caps]; exact hj)).trans (h.vmtracker j hj)

theorem notifyLoop_execute {skipGroupId : Option ℕ} {is : List (Fin g)}
    (h : notifyLoop .execute skipGroupId is c = some c') : Unheard c c' := by
  induction is generalizing c with
  | nil =>
    cases h
    exact ⟨rfl, le_refl _, fun _ => rfl, fun _ => rfl, fun _ _ => rfl⟩
  | cons i is ih =>
    rw [notifyLoop] at h
    split_ifs at h
    · exact ih h
    · obtain ⟨c1, hnotify, h⟩ := Option.bind_eq_some_iff.mp h
      have h1 := groupMemOnNotify_execute hnotify
      split_ifs at h
      · cases h
        exact h1
      · exact h1.trans (ih h)

/-- The groups that do not wait for memory, and all groups if the pool has not grown, stay
served. -/
theorem Unheard.served {f : ℤ} (h : Unheard c c') (hs : Served { c with freeChunks := f } j)
    (hok : c.freeChunks ≤ f ∨ waitsForMemory (c.groups j) = false) : Served c' j := by
  intro hid haud
  rw [h.groupId] at hid
  rw [h.caps] at haud
  rw [h.vmtracker j haud, h.total]
  intro hlock hq
  have hold : slotObtainable c.totalChunks f (c.groups j) = false := hs hid haud hlock hq
  obtain hfree | hnot := hok
  · exact slotObtainable_false_of_le hold (max_le_max_left 0 (h.free.trans hfree))
  · rw [slotObtainable_of_stocked _ f (stocked_of_not_waits hnot hid haud hlock hq)]
    exact hold

/-- An executor puts its slot back; `f` is what the pool had before the executor left the slot. -/
theorem groupReleaseSlot_execute_attended {session : Fin p} {x : Fin s} {f : ℤ}
    (hids : UniqueIds c) (hserved : ∀ j, j ≠ i → Served { c with freeChunks := f } j)
    (hok : c.freeChunks +
        mempoolAutoReleased c.totalChunks ((slotReturned session c i x).groups i) ≤ f ∨
      ∀ j, j ≠ i → waitsForMemory (c.groups j) = false)
    (h : groupReleaseSlot .dispatch .execute session c i x = some c') : Attended c' := by
  obtain ⟨c2, hput, h⟩ := Option.bind_eq_some_iff.mp h
  rw [if_pos rfl] at h
  have hother (j : Fin g) (hj : j ≠ i) :
      (mempoolAutoRelease (slotReturned session c i x) i).groups j = c.groups j :=
    autoRelease_slotReturned_other session c x hj
  have hquiet : Unheard (mempoolAutoRelease (slotReturned session c i x) i) c2 := by
    rw [groupPutSlot_eq] at hput
    dsimp only at hput
    split_ifs at hput
    · exact notifyLoop_execute hput
    · cases hput
      exact ⟨rfl, le_refl _, fun _ => rfl, fun _ => rfl, fun _ _ => rfl⟩
  refine Attended.wakeupSlots (c := c2) (hids.congr fun j => ?_) (fun _ _ => rfl) rfl
    (fun j hj => ?_) h
  · exact (hquiet.groupId j).trans (autoRelease_slotReturned_groupId session c i x j)
  · refine hquiet.served (f := f) ((hserved j hj).mono (hother j hj) rfl (le_refl f)) ?_
    rw [hother j hj]
    exact hok.imp_right fun hnone => hnone j hj

/-- A slot that is taken, with its quota, leaves no more to obtain. -/
theorem slotObtainable_taken {T : ℕ} {f slotMemQuota : ℤ} {d : ResGroupData p}
    (hquota : 0 ≤ slotMemQuota) (h : slotObtainable T f d = false) :
    slotObtainable T f
      { d with
        memQuotaUsed := d.memQuotaUsed + slotMemQuota
        nRunning := d.nRunning + 1 } = false := by
  refine Bool.eq_false_iff.mpr fun ht => Bool.eq_false_iff.mp h ?_
  rw [slotObtainable, Bool.and_eq_true, decide_eq_true_iff] at ht ⊢
  obtain ⟨hconc, hfits⟩ := ht
  refine ⟨lt_trans (lt_add_one _) hconc, ?_⟩
  have hreserved : mempoolAutoReserved f
      { d with memQuotaUsed := d.memQuotaUsed + slotMemQuota, nRunning := d.nRunning + 1 } =
        mempoolAutoReserved f d := rfl
  split_ifs at hfits ⊢
  · rw [memQuotaFits_iff] at hfits ⊢
    rw [hreserved] at hfits
    simp only [groupRebalanceQuota] at hfits ⊢
    split_ifs at hfits ⊢
    all_goals
      dsimp only at hfits ⊢
      omega
  · rw [memQuotaFits_iff] at hfits ⊢
    dsimp only at hfits
    omega

/-! ## Steps -/

variable {n n' : Node g s p} {cfg : NodeConfig p} {q : Fin p}

theorem createGroup_attended {groupId : ℕ} {caps : ResGroupCaps} (hc : Attended c)
    (h : createGroup c groupId caps = some c') : Attended c' := by
  rw [createGroup] at h
  split_ifs at h with hfind
  obtain ⟨i, hnew, rfl⟩ := Option.map_eq_some_iff.mp h
  have hsame := groupRebalanceQuota_same c.totalChunks
    (newGroup (p := p) c.totalChunks groupId caps)
    (mempoolReserved c.freeChunks (groupGetMemExpected c.totalChunks caps)) caps
  have hfree : ∀ j, (c.groups j).groupId ≠ some groupId := fun j hj => hfind <|
    List.find?_isSome.mpr ⟨j, List.mem_finRange j, decide_eq_true hj⟩
  refine ⟨fun j l k hj hl => ?_, fun j => ?_⟩
  · dsimp only [setGroup] at hj hl
    by_cases hji : j = i <;> by_cases hli : l = i
    · rw [hji, hli]
    · rw [hji, Function.update_self, hsame.groupId] at hj
      rw [Function.update_of_ne hli] at hl
      cases hj
      exact absurd hl (hfree l)
    · rw [hli, Function.update_self, hsame.groupId] at hl
      rw [Function.update_of_ne hji] at hj
      cases hl
      exact absurd hj (hfree j)
    · rw [Function.update_of_ne hji] at hj
      rw [Function.update_of_ne hli] at hl
      exact hc.ids j l k hj hl
  · by_cases hji : j = i
    · refine served_of_waitProcs_nil ?_
      dsimp only [setGroup]
      rw [hji, Function.update_self, hsame.waitProcs]
      rfl
    · refine (hc.served j).mono (Function.update_of_ne hji ..) rfl ?_
      refine sub_le_self _ (mempoolReserved_nonneg ?_)
      exact Int.natCast_nonneg _

theorem groupWaitQueuePush_group (c : ResGroupControl g s p) (i : Fin g) (q : Fin p) :
    (groupWaitQueuePush c i q).groups i =
      { c.groups i with waitProcs := (c.groups i).waitProcs ++ [q] } := Function.update_self ..

theorem groupWaitQueuePush_step (c : ResGroupControl g s p) (i : Fin g) (q : Fin p) :
    GroupStep i c (groupWaitQueuePush c i q) where
  total := rfl
  other _ hj := Function.update_of_ne hj ..
  groupId := by rw [groupWaitQueuePush_group]
  lockedForDrop := by rw [groupWaitQueuePush_group]
  caps := by rw [groupWaitQueuePush_group]
  bypassed := by rw [groupWaitQueuePush_group]
  free := le_refl _

theorem groupWaitQueueErase_group (c : ResGroupControl g s p) (i : Fin g) (q : Fin p) :
    (groupWaitQueueErase c i q).groups i =
      { c.groups i with waitProcs := (c.groups i).waitProcs.erase q } := Function.update_self ..

theorem groupWaitQueueErase_step (c : ResGroupControl g s p) (i : Fin g) (q : Fin p) :
    GroupStep i c (groupWaitQueueErase c i q) where
  total := rfl
  other _ hj := Function.update_of_ne hj ..
  groupId := by rw [groupWaitQueueErase_group]
  lockedForDrop := by rw [groupWaitQueueErase_group]
  caps := by rw [groupWaitQueueErase_group]
  bypassed := by rw [groupWaitQueueErase_group]
  free := le_refl _

/-- A step of one group keeps the invariant if that group is served afterwards. -/
theorem GroupStep.attended (h : GroupStep i c c') (hc : Attended c) (hi : Served c' i) :
    Attended c' := by
  refine ⟨hc.ids.congr h.groupId_all, fun j => ?_⟩
  by_cases hj : j = i
  · rw [hj]
    exact hi
  · exact h.served_other hj (hc.served j)

/-- An executor takes a slot of its own. -/
theorem grantSlot_autoReserve_attended {caps : ResGroupCaps} {x : Fin s} {next : List (Fin s)}
    {slotMemQuota : ℤ} (hc : Attended c) (hquota : 0 ≤ slotMemQuota)
    (hok : caps = (c.groups i).caps ∨ waitsForMemory (c.groups i) = false) :
    Attended (grantSlot (mempoolAutoReserve c i caps) i x next slotMemQuota) := by
  have hsame := mempoolAutoReserve_same c i caps
  refine ((mempoolAutoReserve_step c i caps).trans (grantSlot_step _ i x next _)).attended hc ?_
  rw [Served, grantSlot_group]
  intro hid haud hlock hq
  refine slotObtainable_taken hquota ?_
  change slotObtainable (mempoolAutoReserve c i caps).totalChunks
    (mempoolAutoReserve c i caps).freeChunks ((mempoolAutoReserve c i caps).groups i) = false
  rw [hsame.groupId] at hid
  rw [hsame.caps] at haud
  rw [hsame.lockedForDrop] at hlock
  rw [hsame.waitProcs] at hq
  have hserved := hc.served i hid haud hlock hq
  rw [mempoolAutoReserve_total]
  obtain rfl | hnot := hok
  · rw [slotObtainable_mempoolAutoReserve]
    exact hserved
  · have hstock := stocked_of_not_waits hnot hid haud hlock hq
    rw [mempoolAutoReserve, if_neg (by omega)]
    exact hserved

theorem groupWaitQueuePush_served
    (h : (c.groups i).lockedForDrop = true ∨
      slotObtainable c.totalChunks c.freeChunks (c.groups i) = false) :
    Served (groupWaitQueuePush c i q) i := by
  rw [Served, groupWaitQueuePush_group]
  intro _ _ hlock _
  obtain hlocked | hno := h
  · exact absurd (hlocked.symm.trans hlock) (Bool.noConfusion ·)
  · rw [← hno]
    exact slotObtainable_congr rfl rfl rfl rfl rfl rfl

theorem groupWaitQueueErase_served (h : Served c i) : Served (groupWaitQueueErase c i q) i := by
  rw [Served, groupWaitQueueErase_group]
  intro hid haud hlock hq
  have hne : (c.groups i).waitProcs ≠ [] := fun hnil => hq (by simp only [hnil, List.erase_nil])
  rw [← h hid haud hlock hne]
  exact slotObtainable_congr rfl rfl rfl rfl rfl rfl

theorem acquireSlot_attended {groupId : ℕ} (hc : Attended n.ctl)
    (h : acquireSlot n q i groupId = some n') : Attended n'.ctl := by
  rw [acquireSlot] at h
  split_ifs at h with hid hlock
  · obtain rfl := Option.some.inj h
    exact hc
  · obtain rfl := Option.some.inj h
    exact (groupWaitQueuePush_step n.ctl i q).attended hc (groupWaitQueuePush_served (.inl hlock))
  · obtain ⟨⟨r, c1⟩, hget, h⟩ := Option.map_eq_some_iff.mp h
    have hstep := groupGetSlot_step hget
    obtain rfl := h
    cases r with
    | some x =>
      refine hstep.attended hc fun hid' haud' _ hq => ?_
      -- a slot is granted at once only when nobody waits
      rw [groupGetSlot_waitProcs hget] at hq
      rw [hstep.groupId] at hid'
      rw [hstep.caps] at haud'
      have hno := hc.served i hid' haud' (Bool.eq_false_iff.mpr hlock) hq
      exact absurd (slotObtainable_of_granted hget) (Bool.eq_false_iff.mp hno)
    | none =>
      exact (hstep.trans (groupWaitQueuePush_step c1 i q)).attended hc
        (groupWaitQueuePush_served (.inr (slotObtainable_of_refused hget)))

theorem groupWaitCancel_attended (hrole : cfg.role = .dispatch) (hc : Attended n.ctl)
    (h : groupWaitCancel cfg n q i = some n') : Attended n'.ctl := by
  rw [groupWaitCancel, hrole] at h
  split_ifs at h
  · obtain rfl := Option.some.inj h
    exact (groupWaitQueueErase_step n.ctl i q).attended hc
      (groupWaitQueueErase_served (hc.served i))
  · split at h
    · obtain ⟨c', hrel, rfl⟩ := Option.map_eq_some_iff.mp h
      have hc' : Attended { n.ctl with resSlot := Function.update n.ctl.resSlot q none } :=
        ⟨hc.ids, hc.served⟩
      exact groupReleaseSlot_attended hc'.ids (fun j _ => hc'.served j) hrel
    · obtain rfl := Option.some.inj h
      exact hc

theorem returnsUnawaited_cases {a : Action g p} (h : returnsUnawaited cfg n a = true) :
    chunksReturned cfg n a ≤ 0 ∨
      ∀ j, queueWoken n a = some j ∨ waitsForMemory (n.ctl.groups j) = false := by
  rw [returnsUnawaited, Bool.or_eq_true, decide_eq_true_iff, decide_eq_true_iff] at h
  exact h

theorem detachSlot_same (n : Node g s p) (q : Fin p) (i : Fin g) (x : Fin s) (j : Fin g) :
    SameButUsage (n.ctl.groups j) ((detachSlot n q i x).groups j) :=
  decSlot_same n.ctl i x _ j

theorem detachSlot_nProcs (n : Node g s p) (q : Fin p) (i : Fin g) (x : Fin s) :
    ((detachSlot n q i x).slots x).nProcs = (n.ctl.slots x).nProcs - 1 := by
  simp only [detachSlot, decSlot, groupDecMemUsage, setSlot, Function.update_self]

theorem detachSlot_other (n : Node g s p) (q : Fin p) (x : Fin s) (hj : j ≠ i) :
    (detachSlot n q i x).groups j = n.ctl.groups j := Function.update_of_ne hj ..

/-- The last process leaves its slot. -/
theorem releaseAssigned_attended {x : Fin s} (hrole : cfg.role = .dispatch)
    (hc : Attended n.ctl) (hstate : (n.procs q).state = .assigned i x)
    (hzero : ((detachSlot n q i x).slots x).nProcs = 0)
    (hok : returnsUnawaited cfg n (.unassign q) = true)
    (h : groupReleaseSlot cfg.role (cfg.gpRole q) (cfg.session q) (detachSlot n q i x) i x =
      some c') : Attended c' := by
  have hone : (n.ctl.slots x).nProcs = 1 := by
    rw [detachSlot_nProcs] at hzero
    omega
  have hcases := returnsUnawaited_cases hok
  simp only [chunksReturned, queueWoken, hstate, hone, if_true, and_true] at hcases
  have hids : UniqueIds (detachSlot n q i x) := hc.ids.usage (detachSlot_same n q i x)
  have hnot (hnone : ∀ j, some i = some j ∨ waitsForMemory (n.ctl.groups j) = false) (j : Fin g)
      (hj : j ≠ i) : waitsForMemory (n.ctl.groups j) = false :=
    (hnone j).resolve_left fun hi => hj (Option.some.inj hi).symm
  rw [hrole] at h
  cases hqd : cfg.gpRole q with
  | dispatch =>
    rw [hqd] at h
    rw [hqd, if_neg (by decide), add_zero] at hcases
    refine groupReleaseSlot_attended hids (fun j hj => ?_) h
    exact (hc.served j).usage (detachSlot_same n q i x j) rfl
      (hcases.imp (add_le_of_nonpos_right ·) fun hnone => hnot hnone j hj)
  | execute =>
    rw [hqd] at h
    rw [hqd, if_pos rfl] at hcases
    refine groupReleaseSlot_execute_attended (f := n.ctl.freeChunks) hids (fun j _ => ?_) ?_ h
    · exact (hc.served j).usage (detachSlot_same n q i x j) rfl (.inl (le_refl _))
    · refine hcases.imp (fun hle => ?_) fun hnone j hj => ?_
      · change n.ctl.freeChunks + globalReleased n.ctl i (n.ctl.slots x) (n.procs q).memUsage +
          mempoolAutoReleased n.ctl.totalChunks _ ≤ n.ctl.freeChunks
        omega
      · rw [detachSlot_other n q x hj]
        exact hnot hnone j hj

theorem unassign_attended (hrole : cfg.role = .dispatch) (hc : Attended n.ctl)
    (hok : returnsUnawaited cfg n (.unassign q) = true) (h : unassign cfg n q = some n') :
    Attended n'.ctl := by
  have hcases := returnsUnawaited_cases hok
  simp only [chunksReturned, queueWoken] at hcases
  rw [unassign] at h
  split at h
  case _ i slot hstate =>
    obtain rfl := Option.some.inj h
    simp only [hstate, reduceCtorEq, false_or] at hcases
    split_ifs
    · refine hc.usage (fun j => (sameButUsage_update (SameButUsage.set ..) j).trans
        (groupDecMemUsage_same _ i slot _ j)) rfl fun j => ?_
      refine hcases.imp (fun hle => ?_) fun hnone => hnone j
      refine add_le_of_nonpos_right (le_trans (le_of_eq ?_) hle)
      simp only [globalReleased, setGroup_groups_self]
    · refine hc.usage (groupDecMemUsage_same n.ctl i slot _) rfl fun j => ?_
      exact hcases.imp (add_le_of_nonpos_right ·) fun hnone => hnone j
  case _ i x hstate =>
    dsimp only at h
    split_ifs at h with hzero
    · obtain ⟨c', hrel, rfl⟩ := Option.map_eq_some_iff.mp h
      exact releaseAssigned_attended hrole hc hstate hzero hok hrel
    · obtain rfl := Option.some.inj h
      rw [detachSlot_nProcs] at hzero
      have hmore : (n.ctl.slots x).nProcs ≠ 1 := by omega
      simp only [hstate, hmore, if_false, and_false, add_zero, reduceCtorEq, false_or] at hcases
      refine hc.usage (detachSlot_same n q i x) rfl fun j => ?_
      exact hcases.imp (add_le_of_nonpos_right ·) fun hnone => hnone j
  case _ hstate =>
    obtain rfl := Option.some.inj h
    exact hc
  all_goals cases h

theorem releaseMemory_attended {memoryChunks : ℕ} (hc : Attended n.ctl)
    (hok : returnsUnawaited cfg n (.releaseMemory q memoryChunks) = true) :
    Attended (releaseMemory n q memoryChunks).ctl := by
  have hcases := returnsUnawaited_cases hok
  simp only [chunksReturned, queueWoken, reduceCtorEq, false_or] at hcases
  rw [releaseMemory]
  dsimp only
  split
  case _ i slot hstate =>
    simp only [hstate] at hcases
    refine hc.usage (groupDecMemUsage_same n.ctl i slot memoryChunks) rfl fun j => ?_
    exact hcases.imp (add_le_of_nonpos_right ·) fun hnone => hnone j
  case _ i x hstate =>
    simp only [hstate] at hcases
    refine hc.usage (decSlot_same n.ctl i x memoryChunks) rfl fun j => ?_
    exact hcases.imp (add_le_of_nonpos_right ·) fun hnone => hnone j
  all_goals exact hc

theorem reserveMemory_attended {memoryChunks overuseChunks : ℕ} {critSection : Bool}
    (hc : Attended n.ctl) :
    Attended (reserveMemory n q memoryChunks overuseChunks critSection).ctl := by
  rw [reserveMemory]
  dsimp only
  split
  case _ i slot hstate =>
    split_ifs
    · exact hc
    · rw [groupDecMemUsage_groupIncMemUsage _ _ _ (Int.natCast_nonneg memoryChunks)]
      exact hc
    · exact hc.shrink (groupIncMemUsage_same n.ctl i slot memoryChunks) rfl
        (groupIncMemUsage_free_le n.ctl i slot memoryChunks)
  case _ i x hstate =>
    split_ifs
    · rw [decSlot_incSlot n.ctl i x (Int.natCast_nonneg memoryChunks)]
      exact hc
    · exact hc.shrink (incSlot_same n.ctl i x memoryChunks) rfl
        (groupIncMemUsage_free_le n.ctl i (n.ctl.slots x) memoryChunks)
  all_goals exact hc

theorem ResGroupCheckForDrop_attended (hc : Attended c)
    (h : ResGroupCheckForDrop .dispatch c i = some c') : Attended c' := by
  rw [ResGroupCheckForDrop, if_neg (not_not_intro rfl)] at h
  split_ifs at h
  obtain rfl := Option.some.inj h
  refine ⟨hc.ids.congr fun j => ?_, fun j => ?_⟩
  · by_cases hj : j = i
    · rw [hj, setGroup_groups_self]
    · rw [setGroup_groups_of_ne _ _ hj]
  · by_cases hj : j = i
    · rw [hj, Served, setGroup_groups_self]
      simp
    · exact (hc.served j).mono (setGroup_groups_of_ne _ _ hj) rfl (le_refl _)

theorem attachBypassed_attended {groupId : ℕ} (hc : Attended n.ctl) :
    Attended (attachBypassed cfg n q i groupId).ctl :=
  hc.shrink (groupIncMemUsage_same n.ctl i (bypassedSlot i groupId) _) rfl
    (groupIncMemUsage_free_le _ i (bypassedSlot i groupId) _)

theorem assignBypassed_attended {groupId : ℕ} (hc : Attended n.ctl) :
    Attended (assignBypassed cfg n q i groupId).ctl := by
  rw [assignBypassed]
  split_ifs
  · exact hc
  · exact attachBypassed_attended (hc.shrink (sameButUsage_update (SameButUsage.set ..)) rfl
      (le_refl _))

theorem attachSlot_attended {x : Fin s} (hc : Attended n.ctl) :
    Attended (attachSlot cfg n q i x).ctl :=
  hc.shrink (incSlot_same n.ctl i x _) rfl (groupIncMemUsage_free_le n.ctl i (n.ctl.slots x) _)

theorem switchOnSegment_attended {groupId : ℕ} {caps : ResGroupCaps} (hc : Attended n.ctl)
    (hfind : groupHashFind n.ctl groupId = some i)
    (hok : reservesAlike cfg n (.switchOnSegment q groupId caps) = true)
    (h : switchOnSegment cfg n q i groupId caps = some n') : Attended n'.ctl := by
  rw [switchOnSegment] at h
  split_ifs at h with hconc
  obtain ⟨⟨x, c⟩, hslot, rfl⟩ := Option.map_eq_some_iff.mp h
  refine attachSlot_attended (n := { n with ctl := c }) ?_
  obtain ⟨-, -, rfl⟩ | ⟨next, hres, -, rfl⟩ := segmentSlot_cases hslot
  · exact hc
  · simp only [reservesAlike, hres, hfind, Option.isSome_none, Bool.false_or, Option.all_some,
      Bool.and_eq_true, Bool.or_eq_true, decide_eq_true_eq, Bool.not_eq_true'] at hok
    obtain ⟨hwithin, hsplit⟩ := hok
    have hsame := mempoolAutoReserve_same n.ctl i caps
    refine grantSlot_autoReserve_attended hc (slotGetMemQuotaOnQE_fits hconc ?_).1 hsplit
    rw [hsame.memQuotaUsed]
    exact hwithin.trans (mempoolAutoReserve_quota_le n.ctl i caps)

/-- **One step of the dispatcher.** -/
theorem nodeStep_attended {a : Action g p} (hrole : cfg.role = .dispatch) (hc : Attended n.ctl)
    (hok : returnsUnawaited cfg n a = true ∧ reservesAlike cfg n a = true)
    (h : nodeStep cfg n a = some n') : Attended n'.ctl := by
  cases a with
  | createGroup groupId caps =>
    obtain ⟨c', hcreate, rfl⟩ := Option.map_eq_some_iff.mp h
    exact createGroup_attended hc hcreate
  | createFinish groupId isCommit =>
    simp only [nodeStep, hrole] at h
    split_ifs at h
    · obtain rfl := Option.some.inj h
      exact hc
    · obtain ⟨i, -, h⟩ := Option.bind_eq_some_iff.mp h
      obtain ⟨c', hremove, rfl⟩ := Option.map_eq_some_iff.mp h
      exact removeGroup_attended hc.ids (fun j _ => hc.served j) hremove
  | alter groupId limit =>
    simp only [nodeStep, hrole] at h
    obtain ⟨i, -, h⟩ := Option.bind_eq_some_iff.mp h
    obtain ⟨caps, hcaps, h⟩ := Option.bind_eq_some_iff.mp h
    obtain ⟨c', halter, rfl⟩ := Option.map_eq_some_iff.mp h
    exact ResGroupAlterOnCommit_attended hc hcaps halter
  | checkForDrop groupId =>
    simp only [nodeStep, hrole] at h
    obtain ⟨i, -, h⟩ := Option.bind_eq_some_iff.mp h
    obtain ⟨c', hcheck, rfl⟩ := Option.map_eq_some_iff.mp h
    exact ResGroupCheckForDrop_attended hc hcheck
  | dropFinish groupId isCommit =>
    simp only [nodeStep, hrole] at h
    split_ifs at h
    split at h
    · obtain rfl := Option.some.inj h
      exact hc
    · obtain ⟨c', hdrop, rfl⟩ := Option.map_eq_some_iff.mp h
      exact ResGroupDropFinish_attended hc hdrop
  | acquireSlot q i groupId =>
    simp only [nodeStep] at h
    split_ifs at h
    exact acquireSlot_attended hc h
  | awake q =>
    simp only [nodeStep] at h
    split at h
    · split_ifs at h
      obtain rfl := Option.some.inj h
      rw [awake]
      split
      · exact ⟨hc.ids, hc.served⟩
      · exact hc
    · cases h
  | attach q =>
    simp only [nodeStep] at h
    split at h
    · obtain rfl := Option.some.inj h
      exact attachSlot_attended hc
    · cases h
  | waitCancel q =>
    simp only [nodeStep] at h
    split at h
    · exact groupWaitCancel_attended hrole hc h
    · cases h
  | unassign q => exact unassign_attended hrole hc hok.1 h
  | assignBypassed q i groupId =>
    simp only [nodeStep] at h
    split_ifs at h
    obtain rfl := Option.some.inj h
    exact assignBypassed_attended hc
  | switchOnSegment q groupId caps =>
    simp only [nodeStep] at h
    split_ifs at h
    obtain ⟨i, hfind, h⟩ := Option.bind_eq_some_iff.mp h
    exact switchOnSegment_attended hc hfind hok.2 h
  | switchBypassed q groupId =>
    simp only [nodeStep] at h
    split_ifs at h
    obtain ⟨i, -, rfl⟩ := Option.map_eq_some_iff.mp h
    exact attachBypassed_attended hc
  | reserveMemory q memoryChunks overuseChunks critSection =>
    obtain rfl := Option.some.inj h
    exact reserveMemory_attended hc
  | releaseMemory q memoryChunks =>
    simp only [nodeStep] at h
    split_ifs at h
    obtain rfl := Option.some.inj h
    exact releaseMemory_attended hc hok.1

theorem initialNode_attended (g s p totalChunks : ℕ) :
    Attended (initialNode g s p totalChunks).ctl :=
  ⟨fun _ _ _ h => (nomatch h), fun _ h => absurd rfl h⟩

theorem groupGetSlot_of_not_obtainable
    (h : slotObtainable c.totalChunks c.freeChunks (c.groups i) = false) :
    ∃ c', groupGetSlot c i = some (none, c') := by
  by_cases hconc : ((c.groups i).caps.concurrency : ℤ) ≤ (c.groups i).nRunning
  · exact ⟨c, by rw [groupGetSlot, if_pos hconc]⟩
  · rw [slotObtainable, decide_eq_true (not_le.mp hconc), Bool.true_and,
      ← mempoolAutoReserve_group] at h
    refine ⟨mempoolAutoReserve c i (c.groups i).caps, ?_⟩
    rw [groupGetSlot, if_neg hconc]
    dsimp only
    rw [mempoolAutoReserve_total, if_neg (Bool.eq_false_iff.mp h)]

/-- **No waiter is forgotten.** In every run of the dispatcher in which no step returns chunks to
the pool unasked while another group waits for memory, and an executor that takes a slot of its own
reserves for it as its group would, no group that is not locked for drop has somebody in its queue
to whom `groupGetSlot` would give a slot. -/
theorem no_waiter_forgotten (cfg : NodeConfig p) (hrole : cfg.role = .dispatch) {totalChunks : ℕ}
    {as : List (Action g p)} {n : Node g s p}
    (hok : Along (nodeStep cfg)
      (fun n a => returnsUnawaited cfg n a = true ∧ reservesAlike cfg n a = true)
      (initialNode g s p totalChunks) as)
    (hrun : run (nodeStep cfg) (initialNode g s p totalChunks) as = some n) (i : Fin g)
    (hid : (n.ctl.groups i).groupId ≠ none)
    (haud : (n.ctl.groups i).caps.memAuditor = .vmtracker)
    (hlock : (n.ctl.groups i).lockedForDrop = false) (hwait : (n.ctl.groups i).waitProcs ≠ []) :
    ∃ c, groupGetSlot n.ctl i = some (none, c) := by
  have hinv : Attended n.ctl :=
    run_invariant_along (I := fun n : Node g s p => Attended n.ctl)
      (fun _ _ _ hc hok h => nodeStep_attended hrole hc hok h) hok
      (initialNode_attended g s p totalChunks) hrun
  exact groupGetSlot_of_not_obtainable (hinv.served i hid haud hlock hwait)

/-! ## Runs -/

/-- A dispatcher whose processes are query dispatchers with a session each. -/
def dispatcher (p : ℕ) : NodeConfig p where
  role := .dispatch
  gpRole _ := .dispatch
  session := id
  onDispatcher _ _ := rfl

/-- Capabilities of a group of `vmtracker` without a shared part. -/
def quotaCaps (concurrency memLimit : ℕ) (h : memLimit ≤ 100) : ResGroupCaps where
  concurrency := concurrency
  memLimit := memLimit
  memSharedQuota := 0
  memAuditor := .vmtracker
  memLimit_le := h
  memSharedQuota_le := emptyCaps.memSharedQuota_le
  concurrency_cgroup := nofun

theorem fifty_le_hundred : 50 ≤ 100 := by decide

/-- Three sessions and one slot: the second is woken up by the first, the third waits on. -/
def threeForOneSlot : List (Action 1 3) :=
  [.createGroup 1 (quotaCaps 1 50 fifty_le_hundred), .createFinish 1 true, .acquireSlot 0 0 1,
    .attach 0, .acquireSlot 1 0 1, .acquireSlot 2 0 1, .unassign 0]

theorem no_waiter_forgotten_threeForOneSlot :
    ∃ n : Node 1 3 3, run (nodeStep (dispatcher 3)) (initialNode 1 3 3 100) threeForOneSlot =
      some n ∧ (n.ctl.groups 0).waitProcs = [2] ∧ ∃ c, groupGetSlot n.ctl 0 = some (none, c) := by
  obtain ⟨n, hrun⟩ := Option.isSome_iff_exists.mp
    (show (run (nodeStep (dispatcher 3)) (initialNode 1 3 3 100) threeForOneSlot).isSome from by
      decide +kernel)
  have hshape : (run (nodeStep (dispatcher 3)) (initialNode 1 3 3 100) threeForOneSlot).map
      (fun n => ((n.ctl.groups 0).groupId, (n.ctl.groups 0).caps.memAuditor,
        (n.ctl.groups 0).lockedForDrop, (n.ctl.groups 0).waitProcs)) =
      some (some 1, .vmtracker, false, [2]) := by
    decide +kernel
  rw [hrun, Option.map_some, Option.some.injEq, Prod.mk.injEq, Prod.mk.injEq, Prod.mk.injEq]
    at hshape
  obtain ⟨hid, haud, hlock, hwait⟩ := hshape
  refine ⟨n, hrun, hwait, no_waiter_forgotten (dispatcher 3) rfl (by decide +kernel) hrun 0 ?_ haud
    hlock ?_⟩
  · rw [hid]
    exact Option.some_ne_none 1
  · rw [hwait]
    exact List.cons_ne_nil 2 []

/-- The first session uses 50 chunks of the pool over the 10 of its slot. The second group, created
meanwhile, gets 40 of the 50 chunks it expects, so its first session waits; the chunks come back
when the first session leaves its group. -/
def overuseThenLeave : List (Action 2 2) :=
  [.createGroup 1 (quotaCaps 1 10 (by decide)), .createFinish 1 true, .acquireSlot 0 0 1, .attach 0,
    .reserveMemory 0 60 0 false, .createGroup 2 (quotaCaps 1 50 fifty_le_hundred),
    .createFinish 2 true, .acquireSlot 1 1 2, .unassign 0]

/-- **A forgotten waiter.** After `UnassignResGroup` 50 chunks are free, the second group could give
its waiter a slot, and nobody has looked at its queue. -/
theorem waiter_forgotten :
    ∃ n : Node 2 2 2, run (nodeStep (dispatcher 2)) (initialNode 2 2 2 100) overuseThenLeave =
      some n ∧ (n.ctl.groups 1).groupId = some 2 ∧ (n.ctl.groups 1).lockedForDrop = false ∧
      (n.ctl.groups 1).waitProcs = [1] ∧
      (groupGetSlot n.ctl 1).map Prod.fst = some (some 0) := by
  obtain ⟨n, hrun⟩ := Option.isSome_iff_exists.mp
    (show (run (nodeStep (dispatcher 2)) (initialNode 2 2 2 100) overuseThenLeave).isSome from by
      decide +kernel)
  have hshape : (run (nodeStep (dispatcher 2)) (initialNode 2 2 2 100) overuseThenLeave).map
      (fun n => ((n.ctl.groups 1).groupId, (n.ctl.groups 1).lockedForDrop,
        (n.ctl.groups 1).waitProcs, (groupGetSlot n.ctl 1).map Prod.fst)) =
      some (some 2, false, [1], some (some 0)) := by
    decide +kernel
  rw [hrun, Option.map_some, Option.some.injEq, Prod.mk.injEq, Prod.mk.injEq, Prod.mk.injEq]
    at hshape
  exact ⟨n, hrun, hshape⟩

end Hdb.ResGroup
