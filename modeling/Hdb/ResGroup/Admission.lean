import Hdb.ResGroup.Waiters
import Mathlib.Data.Finset.Card

/-!
# Resource groups: who has which slot

`Admitted` ties the slots to the groups and to the processes. `SlotsCounted`: `nRunning` and
`memQuotaUsed` count the slots in use. `SlotsHeld`: a slot that is not in the free list is held by a
woken process (`resSlot`), by a process that has just acquired it, or by the processes of one
session that are assigned to it.

Between the moment a slot leaves the free list and the moment somebody has it, it is the `orphan`
of `SlotsHeld`. The steps of one process are all instances of `SlotsHeld.move`.
-/

namespace Hdb.ResGroup

open ResGroupControl

variable {g s p : ℕ} {c c' : ResGroupControl g s p} {i j : Fin g} {x y : Fin s} {q : Fin p}

/-- The slot that the process has in its hands or has been granted. -/
def held (c : ResGroupControl g s p) (st : Fin p → SelfState g s) (q : Fin p) : Option (Fin s) :=
  match st q with
  | .acquired _ x => some x
  | .assigned _ x => some x
  | .awaiting _ => c.resSlot q
  | .idle => none
  | .bypassed _ _ => none

/-- The process is attached to the slot `x`. -/
def SelfState.isAssignedTo (x : Fin s) : SelfState g s → Bool
  | .assigned _ y => y = x
  | _ => false

/-- The process runs in the group in bypass mode. -/
def SelfState.isBypassedIn (i : Fin g) : SelfState g s → Bool
  | .bypassed j _ => j = i
  | _ => false

/-- The bypassed queries of the group, of which only the query dispatchers keep count. -/
def bypassedIn (gpRole : Fin p → GpRole) (st : Fin p → SelfState g s) (i : Fin g) :
    Finset (Fin p) :=
  Finset.univ.filter fun q => gpRole q = .dispatch ∧ (st q).isBypassedIn i = true

/-- The processes attached to the slot. -/
def attachedTo (st : Fin p → SelfState g s) (x : Fin s) : Finset (Fin p) :=
  Finset.univ.filter fun q => (st q).isAssignedTo x = true

/-- The slots of the group that are in use. -/
def slotsIn (c : ResGroupControl g s p) (i : Fin g) : Finset (Fin s) :=
  Finset.univ.filter fun x => (c.slots x).group = some i

@[simp] theorem mem_slotsIn : x ∈ slotsIn c i ↔ (c.slots x).group = some i := by
  simp [slotsIn]

@[simp] theorem mem_attachedTo {st : Fin p → SelfState g s} :
    q ∈ attachedTo st x ↔ (st q).isAssignedTo x = true := by
  simp [attachedTo]

theorem isAssignedTo_iff {state : SelfState g s} :
    state.isAssignedTo x = true ↔ ∃ i, state = .assigned i x := by
  cases state with
  | assigned i y => simp [SelfState.isAssignedTo]
  | idle | awaiting | acquired | bypassed => simp [SelfState.isAssignedTo]

/-- What the groups count agrees with the slots. -/
structure SlotsCounted (role : GpRole) (c : ResGroupControl g s p) : Prop where
  ids : UniqueIds c
  nodup : c.freeSlot.Nodup
  free : ∀ x, x ∈ c.freeSlot ↔ (c.slots x).group = none
  /-- A slot in use belongs to a group that has not been dropped. -/
  live : ∀ x i, (c.slots x).group = some i →
    (c.slots x).groupId = (c.groups i).groupId ∧ (c.groups i).groupId ≠ none
  quota : ∀ x, (c.slots x).group ≠ none → 0 ≤ (c.slots x).memQuota
  nRunning : ∀ i, (c.groups i).groupId ≠ none → (c.groups i).nRunning = (slotsIn c i).card
  used : ∀ i, (c.groups i).groupId ≠ none →
    (c.groups i).memQuotaUsed = ∑ x ∈ slotsIn c i, (c.slots x).memQuota
  within : ∀ i, (c.groups i).groupId ≠ none →
    (c.groups i).memQuotaUsed ≤ (c.groups i).memQuotaGranted
  locked : ∀ i, (c.groups i).lockedForDrop = true → (c.groups i).nRunning = 0
  unlocked : role = .execute → ∀ i, (c.groups i).lockedForDrop = false

/-- Every slot in use has its holder; `orphan` is a slot that has been taken and not yet handed
over. -/
structure SlotsHeld (session : Fin p → Fin p) (orphan : Option (Fin s))
    (c : ResGroupControl g s p) (st : Fin p → SelfState g s) : Prop where
  granted : ∀ q x, c.resSlot q = some x →
    ∃ i, st q = .awaiting i ∧ c.procIsWaiting q = false ∧ (c.slots x).group = some i
  acquired : ∀ q i x, st q = .acquired i x → (c.slots x).group = some i
  assigned : ∀ q i x, st q = .assigned i x → (c.slots x).group = some i
  /-- A slot is shared only by attached processes of one session. -/
  exclusive : ∀ q q' x, held c st q = some x → held c st q' = some x → q = q' ∨
    ((st q).isAssignedTo x = true ∧ (st q').isAssignedTo x = true ∧ session q = session q')
  kept : ∀ x, (c.slots x).group ≠ none → orphan ≠ some x → ∃ q, held c st q = some x
  unheld : ∀ x, orphan = some x → ∀ q, held c st q ≠ some x
  nProcs : ∀ x, (c.slots x).nProcs = (attachedTo st x).card
  waiting : ∀ i q, q ∈ (c.groups i).waitProcs → st q = .awaiting i ∧ c.procIsWaiting q = true
  waitNodup : ∀ i, (c.groups i).waitProcs.Nodup
  session : ∀ se x, c.resGroupSlot se = some x →
    ∃ q, session q = se ∧ (st q).isAssignedTo x = true

/-- `nRunningBypassed` counts the bypassed queries, on the dispatcher. -/
structure BypassCounted (gpRole : Fin p → GpRole) (c : ResGroupControl g s p)
    (st : Fin p → SelfState g s) : Prop where
  count : ∀ i, (c.groups i).groupId ≠ none →
    (c.groups i).nRunningBypassed = (bypassedIn gpRole st i).card
  live : ∀ q i, gpRole q = .dispatch → (st q).isBypassedIn i = true → (c.groups i).groupId ≠ none

/-- The invariant of admission. -/
structure Admitted (cfg : NodeConfig p) (c : ResGroupControl g s p)
    (st : Fin p → SelfState g s) : Prop where
  counted : SlotsCounted cfg.role c
  heldBy : SlotsHeld cfg.session none c st
  bypass : cfg.role = .dispatch → BypassCounted cfg.gpRole c st

theorem BypassCounted.congr {gpRole : Fin p → GpRole} {st : Fin p → SelfState g s}
    (h : BypassCounted gpRole c st)
    (hid : ∀ j, (c'.groups j).groupId = (c.groups j).groupId)
    (hn : ∀ j, (c'.groups j).nRunningBypassed = (c.groups j).nRunningBypassed) :
    BypassCounted gpRole c' st where
  count j := by rw [hid, hn]; exact h.count j
  live q j := by rw [hid]; exact h.live q j

theorem BypassCounted.step {gpRole : Fin p → GpRole} {st : Fin p → SelfState g s}
    (h : BypassCounted gpRole c st) (hs : GroupStep i c c') : BypassCounted gpRole c' st := by
  refine h.congr hs.groupId_all fun j => ?_
  by_cases hj : j = i
  · subst hj
    exact hs.bypassed
  · rw [hs.other j hj]

variable {role : GpRole} {session : Fin p → Fin p} {orphan : Option (Fin s)}
  {st st' : Fin p → SelfState g s}

/-! ## Steps that do not move a slot -/

/-- The two controls agree on what the groups count, but for the granted quota. -/
structure SameCounts (c c' : ResGroupControl g s p) : Prop where
  freeSlot : c'.freeSlot = c.freeSlot
  slotGroup : ∀ x, (c'.slots x).group = (c.slots x).group
  slotGroupId : ∀ x, (c'.slots x).groupId = (c.slots x).groupId
  memQuota : ∀ x, (c'.slots x).memQuota = (c.slots x).memQuota
  groupId : ∀ i, (c'.groups i).groupId = (c.groups i).groupId
  memQuotaUsed : ∀ i, (c'.groups i).memQuotaUsed = (c.groups i).memQuotaUsed
  nRunning : ∀ i, (c'.groups i).nRunning = (c.groups i).nRunning
  lockedForDrop : ∀ i, (c'.groups i).lockedForDrop = (c.groups i).lockedForDrop

theorem slotsIn_congr (h : ∀ x, (c'.slots x).group = (c.slots x).group) (i : Fin g) :
    slotsIn c' i = slotsIn c i := by
  ext x
  rw [mem_slotsIn, mem_slotsIn, h]

theorem SlotsCounted.same (h : SlotsCounted role c) (hs : SameCounts c c')
    (hwithin : ∀ i, (c.groups i).groupId ≠ none →
      (c.groups i).memQuotaUsed ≤ (c'.groups i).memQuotaGranted) : SlotsCounted role c' where
  ids := h.ids.congr hs.groupId
  nodup := hs.freeSlot ▸ h.nodup
  free x := by rw [hs.freeSlot, hs.slotGroup]; exact h.free x
  live x i := by rw [hs.slotGroup, hs.slotGroupId, hs.groupId]; exact h.live x i
  quota x := by rw [hs.slotGroup, hs.memQuota]; exact h.quota x
  nRunning i := by rw [hs.groupId, hs.nRunning, slotsIn_congr hs.slotGroup]; exact h.nRunning i
  used i := by
    rw [hs.groupId, hs.memQuotaUsed, slotsIn_congr hs.slotGroup]
    intro hid
    rw [h.used i hid]
    exact Finset.sum_congr rfl fun x _ => (hs.memQuota x).symm
  within i := by rw [hs.groupId, hs.memQuotaUsed]; exact hwithin i
  locked i := by rw [hs.lockedForDrop, hs.nRunning]; exact h.locked i
  unlocked hrole i := by rw [hs.lockedForDrop]; exact h.unlocked hrole i

/-- The queues do not matter for what the groups count. -/
theorem SlotsCounted.queue (h : SlotsCounted role c) (hslots : c'.slots = c.slots)
    (hfree : c'.freeSlot = c.freeSlot)
    (hgroup : ∀ j, c'.groups j = { c.groups j with waitProcs := (c'.groups j).waitProcs }) :
    SlotsCounted role c' := by
  refine h.same ⟨hfree, fun x => by rw [hslots], fun x => by rw [hslots],
    fun x => by rw [hslots], fun j => ?_, fun j => ?_, fun j => ?_, fun j => ?_⟩ fun j hj => ?_
  all_goals rw [hgroup j]
  exact h.within j hj

/-- The two controls agree on what concerns the holders. -/
structure SameHolders (c c' : ResGroupControl g s p) : Prop where
  resSlot : c'.resSlot = c.resSlot
  procIsWaiting : c'.procIsWaiting = c.procIsWaiting
  resGroupSlot : c'.resGroupSlot = c.resGroupSlot
  slotGroup : ∀ x, (c'.slots x).group = (c.slots x).group
  nProcs : ∀ x, (c'.slots x).nProcs = (c.slots x).nProcs
  waitProcs : ∀ i, (c'.groups i).waitProcs = (c.groups i).waitProcs

theorem held_congr (h : c'.resSlot = c.resSlot) (q : Fin p) : held c' st q = held c st q := by
  rw [held, held, h]

theorem SlotsHeld.same (h : SlotsHeld session orphan c st) (hs : SameHolders c c') :
    SlotsHeld session orphan c' st where
  granted q x := by rw [hs.resSlot, hs.procIsWaiting, hs.slotGroup]; exact h.granted q x
  acquired q i x := by rw [hs.slotGroup]; exact h.acquired q i x
  assigned q i x := by rw [hs.slotGroup]; exact h.assigned q i x
  exclusive q q' x := by
    rw [held_congr hs.resSlot, held_congr hs.resSlot]
    exact h.exclusive q q' x
  kept x := by simp only [hs.slotGroup, held_congr hs.resSlot]; exact h.kept x
  unheld x := by simp only [held_congr hs.resSlot]; exact h.unheld x
  nProcs x := by rw [hs.nProcs]; exact h.nProcs x
  waiting i q := by rw [hs.waitProcs, hs.procIsWaiting]; exact h.waiting i q
  waitNodup i := by rw [hs.waitProcs]; exact h.waitNodup i
  session se x := by rw [hs.resGroupSlot]; exact h.session se x

theorem SlotsHeld.held_group (h : SlotsHeld session orphan c st) (hq : held c st q = some x) :
    (c.slots x).group ≠ none := by
  rw [held] at hq
  split at hq
  case _ i y hst =>
    cases hq
    rw [h.acquired q i x hst]
    exact Option.some_ne_none i
  case _ i y hst =>
    cases hq
    rw [h.assigned q i x hst]
    exact Option.some_ne_none i
  case _ i hst =>
    obtain ⟨j, -, -, hj⟩ := h.granted q x hq
    rw [hj]
    exact Option.some_ne_none j
  all_goals cases hq

/-! ## A slot leaves the free list -/

theorem grantSlot_slot_self (c : ResGroupControl g s p) (i : Fin g) (x : Fin s)
    (next : List (Fin s)) (slotMemQuota : ℤ) :
    (grantSlot c i x next slotMemQuota).slots x =
      { c.slots x with
        group := some i, groupId := (c.groups i).groupId, memQuota := slotMemQuota,
        memUsage := 0 } := Function.update_self ..

theorem grantSlot_slot_of_ne (c : ResGroupControl g s p) (i : Fin g) (next : List (Fin s))
    (slotMemQuota : ℤ) (hy : y ≠ x) :
    (grantSlot c i x next slotMemQuota).slots y = c.slots y := Function.update_of_ne hy ..

theorem grantSlot_slotsIn_self (c : ResGroupControl g s p) (i : Fin g) (x : Fin s)
    (next : List (Fin s)) (slotMemQuota : ℤ) :
    slotsIn (grantSlot c i x next slotMemQuota) i = insert x (slotsIn c i) := by
  ext y
  rw [mem_slotsIn, Finset.mem_insert, mem_slotsIn]
  by_cases hy : y = x
  · rw [hy, grantSlot_slot_self]
    simp
  · rw [grantSlot_slot_of_ne _ _ _ _ hy]
    simp [hy]

theorem grantSlot_slotsIn_of_ne (c : ResGroupControl g s p) (next : List (Fin s))
    (slotMemQuota : ℤ) (hfree : (c.slots x).group = none) (hj : j ≠ i) :
    slotsIn (grantSlot c i x next slotMemQuota) j = slotsIn c j := by
  ext y
  rw [mem_slotsIn, mem_slotsIn]
  by_cases hy : y = x
  · rw [hy, grantSlot_slot_self, hfree]
    simp [hj.symm]
  · rw [grantSlot_slot_of_ne _ _ _ _ hy]

/-- **A slot is taken from the free list**: what the groups count. -/
theorem SlotsCounted.take {next : List (Fin s)} {slotMemQuota : ℤ} (h : SlotsCounted role c)
    (hfree : c.freeSlot = x :: next) (hid : (c.groups i).groupId ≠ none)
    (hlock : (c.groups i).lockedForDrop = false) (hquota : 0 ≤ slotMemQuota)
    (hfits : (c.groups i).memQuotaUsed + slotMemQuota ≤ (c.groups i).memQuotaGranted) :
    SlotsCounted role (grantSlot c i x next slotMemQuota) := by
  have hxfree : (c.slots x).group = none := by
    rw [← h.free, hfree]
    exact List.mem_cons_self
  have hnotin {j : Fin g} : x ∉ slotsIn c j := by
    rw [mem_slotsIn, hxfree]
    exact nofun
  have hnext : x ∉ next ∧ next.Nodup := by
    have hnd := h.nodup
    rw [hfree] at hnd
    exact List.nodup_cons.mp hnd
  have hstep := grantSlot_step c i x next slotMemQuota
  constructor
  case ids => exact h.ids.congr hstep.groupId_all
  case nodup => exact hnext.2
  case free =>
    intro y
    change y ∈ next ↔ _
    by_cases hy : y = x
    · rw [hy, grantSlot_slot_self]
      simp [hnext.1]
    · rw [grantSlot_slot_of_ne _ _ _ _ hy, ← h.free, hfree]
      simp [hy]
  case live =>
    intro y k hk
    rw [hstep.groupId_all]
    by_cases hy : y = x
    · rw [hy, grantSlot_slot_self] at hk ⊢
      cases hk
      exact ⟨rfl, hid⟩
    · rw [grantSlot_slot_of_ne _ _ _ _ hy] at hk ⊢
      exact h.live y k hk
  case quota =>
    intro y hk
    by_cases hy : y = x
    · rw [hy, grantSlot_slot_self]
      exact hquota
    · rw [grantSlot_slot_of_ne _ _ _ _ hy] at hk ⊢
      exact h.quota y hk
  case nRunning =>
    intro k hk
    rw [hstep.groupId_all] at hk
    by_cases hki : k = i
    · subst hki
      rw [grantSlot_group, grantSlot_slotsIn_self, Finset.card_insert_of_notMem hnotin]
      dsimp only
      rw [h.nRunning k hk]
      exact (Int.natCast_succ _).symm
    · rw [hstep.other k hki, grantSlot_slotsIn_of_ne c next slotMemQuota hxfree hki]
      exact h.nRunning k hk
  case used =>
    intro k hk
    rw [hstep.groupId_all] at hk
    have hsum : ∑ y ∈ slotsIn c k, ((grantSlot c i x next slotMemQuota).slots y).memQuota =
        ∑ y ∈ slotsIn c k, (c.slots y).memQuota := by
      refine Finset.sum_congr rfl fun y hy => ?_
      rw [grantSlot_slot_of_ne _ _ _ _ fun heq => hnotin (heq ▸ hy)]
    by_cases hki : k = i
    · subst hki
      rw [grantSlot_group, grantSlot_slotsIn_self, Finset.sum_insert hnotin, hsum,
        grantSlot_slot_self, ← h.used k hk]
      exact add_comm ..
    · rw [hstep.other k hki, grantSlot_slotsIn_of_ne c next slotMemQuota hxfree hki, hsum]
      exact h.used k hk
  case within =>
    intro k hk
    rw [hstep.groupId_all] at hk
    by_cases hki : k = i
    · rw [hki, grantSlot_group]
      exact hfits
    · rw [hstep.other k hki]
      exact h.within k hk
  case locked =>
    intro k hk
    by_cases hki : k = i
    · rw [hki, hstep.lockedForDrop, hlock] at hk
      cases hk
    · rw [hstep.other k hki] at hk ⊢
      exact h.locked k hk
  case unlocked =>
    intro hrole k
    by_cases hki : k = i
    · rw [hki, hstep.lockedForDrop]
      exact hlock
    · rw [hstep.other k hki]
      exact h.unlocked hrole k

/-- The same for the holders: nobody has the slot yet. -/
theorem SlotsHeld.take {next : List (Fin s)} {slotMemQuota : ℤ} (h : SlotsHeld session none c st)
    (hxfree : (c.slots x).group = none) :
    SlotsHeld session (some x) (grantSlot c i x next slotMemQuota) st := by
  have hslot {y : Fin s} {k : Fin g} (hy : (c.slots y).group = some k) :
      ((grantSlot c i x next slotMemQuota).slots y).group = some k := by
    rw [grantSlot_slot_of_ne]
    · exact hy
    · intro heq
      rw [heq, hxfree] at hy
      cases hy
  have hwait (k : Fin g) : ((grantSlot c i x next slotMemQuota).groups k).waitProcs =
      (c.groups k).waitProcs := by
    by_cases hki : k = i
    · rw [hki, grantSlot_group]
    · rw [(grantSlot_step c i x next slotMemQuota).other k hki]
  constructor
  case granted =>
    intro q y hq
    obtain ⟨k, hst, hw, hk⟩ := h.granted q y hq
    exact ⟨k, hst, hw, hslot hk⟩
  case acquired => exact fun q k y hq => hslot (h.acquired q k y hq)
  case assigned => exact fun q k y hq => hslot (h.assigned q k y hq)
  case exclusive => exact h.exclusive
  case kept =>
    intro y hy hne
    have hyx : y ≠ x := fun heq => hne (congrArg some heq.symm)
    rw [grantSlot_slot_of_ne _ _ _ _ hyx] at hy
    exact h.kept y hy (Option.some_ne_none y).symm
  case unheld =>
    intro y hy q hq
    cases hy
    exact h.held_group hq hxfree
  case nProcs =>
    intro y
    by_cases hy : y = x
    · rw [hy, grantSlot_slot_self]
      exact h.nProcs x
    · rw [grantSlot_slot_of_ne _ _ _ _ hy]
      exact h.nProcs y
  case waiting => exact fun k q hq => h.waiting k q (hwait k ▸ hq)
  case waitNodup => exact fun k => (hwait k).symm ▸ h.waitNodup k
  case session => exact h.session

/-! ## A slot goes back to the free list -/

theorem slotReturned_slot_self (se : Fin p) (c : ResGroupControl g s p) (i : Fin g) (x : Fin s) :
    (slotReturned se c i x).slots x =
      { c.slots x with groupId := none, group := none, memQuota := -1, memUsage := 0 } :=
  Function.update_self ..

theorem slotReturned_slot_of_ne (se : Fin p) (c : ResGroupControl g s p) (i : Fin g)
    (hy : y ≠ x) : (slotReturned se c i x).slots y = c.slots y := Function.update_of_ne hy ..

theorem slotReturned_other (se : Fin p) (c : ResGroupControl g s p) (x : Fin s) (hj : j ≠ i) :
    (slotReturned se c i x).groups j = c.groups j := Function.update_of_ne hj ..

theorem slotReturned_groupId (se : Fin p) (c : ResGroupControl g s p) (i : Fin g) (x : Fin s)
    (j : Fin g) : ((slotReturned se c i x).groups j).groupId = (c.groups j).groupId := by
  by_cases hj : j = i
  · rw [hj, slotReturned_group]
  · rw [slotReturned_other se c x hj]

theorem slotReturned_bypassed (se : Fin p) (c : ResGroupControl g s p) (i : Fin g) (x : Fin s)
    (j : Fin g) :
    ((slotReturned se c i x).groups j).nRunningBypassed = (c.groups j).nRunningBypassed := by
  by_cases hj : j = i
  · rw [hj, slotReturned_group]
  · rw [slotReturned_other se c x hj]

theorem slotReturned_slotsIn (se : Fin p) (c : ResGroupControl g s p) (i : Fin g) (x : Fin s)
    (j : Fin g) : slotsIn (slotReturned se c i x) j = (slotsIn c j).erase x := by
  ext y
  rw [mem_slotsIn, Finset.mem_erase, mem_slotsIn]
  by_cases hy : y = x
  · rw [hy, slotReturned_slot_self]
    simp
  · rw [slotReturned_slot_of_ne _ _ _ hy]
    simp [hy]

/-- **A slot goes back to the free list**: what the groups count. -/
theorem SlotsCounted.putBack (h : SlotsCounted role c) (hx : (c.slots x).group = some i)
    (se : Fin p) : SlotsCounted role (slotReturned se c i x) := by
  have hid : (c.groups i).groupId ≠ none := (h.live x i hx).2
  have hmem : x ∈ slotsIn c i := mem_slotsIn.mpr hx
  have hnotin {j : Fin g} (hj : j ≠ i) : x ∉ slotsIn c j := by
    rw [mem_slotsIn, hx]
    exact fun heq => hj (Option.some.inj heq).symm
  have hquota : 0 ≤ (c.slots x).memQuota := h.quota x (by rw [hx]; exact Option.some_ne_none i)
  constructor
  case ids => exact h.ids.congr (slotReturned_groupId se c i x)
  case nodup =>
    refine List.nodup_cons.mpr ⟨fun hfree => ?_, h.nodup⟩
    rw [h.free, hx] at hfree
    cases hfree
  case free =>
    intro y
    change y ∈ x :: c.freeSlot ↔ _
    by_cases hy : y = x
    · rw [hy, slotReturned_slot_self]
      simp
    · rw [slotReturned_slot_of_ne _ _ _ hy, ← h.free]
      simp [hy]
  case live =>
    intro y k hk
    rw [slotReturned_groupId]
    by_cases hy : y = x
    · rw [hy, slotReturned_slot_self] at hk
      cases hk
    · rw [slotReturned_slot_of_ne _ _ _ hy] at hk ⊢
      exact h.live y k hk
  case quota =>
    intro y hk
    by_cases hy : y = x
    · rw [hy, slotReturned_slot_self] at hk
      exact absurd rfl hk
    · rw [slotReturned_slot_of_ne _ _ _ hy] at hk ⊢
      exact h.quota y hk
  case nRunning =>
    intro k hk
    rw [slotReturned_groupId] at hk
    rw [slotReturned_slotsIn]
    by_cases hki : k = i
    · subst hki
      have hpos : 0 < (slotsIn c k).card := Finset.card_pos.mpr ⟨x, hmem⟩
      rw [slotReturned_group, Finset.card_erase_of_mem hmem]
      dsimp only
      rw [h.nRunning k hk]
      omega
    · rw [slotReturned_other se c x hki, Finset.erase_eq_of_notMem (hnotin hki)]
      exact h.nRunning k hk
  case used =>
    intro k hk
    rw [slotReturned_groupId] at hk
    rw [slotReturned_slotsIn]
    have hsum : ∑ y ∈ (slotsIn c k).erase x, ((slotReturned se c i x).slots y).memQuota =
        ∑ y ∈ (slotsIn c k).erase x, (c.slots y).memQuota := by
      refine Finset.sum_congr rfl fun y hy => ?_
      rw [slotReturned_slot_of_ne _ _ _ (Finset.ne_of_mem_erase hy)]
    rw [hsum]
    by_cases hki : k = i
    · subst hki
      rw [slotReturned_group]
      dsimp only
      rw [h.used k hk, ← Finset.add_sum_erase _ _ hmem, add_sub_cancel_left]
    · rw [slotReturned_other se c x hki, Finset.erase_eq_of_notMem (hnotin hki)]
      exact h.used k hk
  case within =>
    intro k hk
    rw [slotReturned_groupId] at hk
    by_cases hki : k = i
    · rw [hki, slotReturned_group]
      exact (sub_le_self _ hquota).trans (h.within i hid)
    · rw [slotReturned_other se c x hki]
      exact h.within k hk
  case locked =>
    intro k hk
    by_cases hki : k = i
    · subst hki
      rw [slotReturned_group] at hk
      have hzero := (h.nRunning k hid).symm.trans (h.locked k hk)
      have hpos : 0 < (slotsIn c k).card := Finset.card_pos.mpr ⟨x, hmem⟩
      omega
    · rw [slotReturned_other se c x hki] at hk ⊢
      exact h.locked k hk
  case unlocked =>
    intro hrole k
    by_cases hki : k = i
    · rw [hki, slotReturned_group]
      exact h.unlocked hrole i
    · rw [slotReturned_other se c x hki]
      exact h.unlocked hrole k

/-- The same for the holders. -/
theorem SlotsHeld.putBack (h : SlotsHeld session (some x) c st) {se : Fin p}
    (hse : c.resGroupSlot se = none) :
    SlotsHeld session none (slotReturned se c i x) st := by
  have hslot {q : Fin p} {y : Fin s} (hy : held c st q = some y) :
      (slotReturned se c i x).slots y = c.slots y := by
    refine slotReturned_slot_of_ne _ _ _ fun heq => ?_
    exact h.unheld x rfl q (heq ▸ hy)
  have hwait (k : Fin g) : ((slotReturned se c i x).groups k).waitProcs =
      (c.groups k).waitProcs := by
    by_cases hki : k = i
    · rw [hki, slotReturned_group]
    · rw [slotReturned_other se c x hki]
  have hses : (slotReturned se c i x).resGroupSlot = c.resGroupSlot := by
    refine funext fun se' => ?_
    by_cases hse' : se' = se
    · rw [hse', hse]
      exact Function.update_self ..
    · exact Function.update_of_ne hse' ..
  constructor
  case granted =>
    intro q y hq
    obtain ⟨k, hst, hw, hk⟩ := h.granted q y hq
    refine ⟨k, hst, hw, ?_⟩
    rw [hslot (q := q) (by rw [held, hst]; exact hq)]
    exact hk
  case acquired =>
    intro q k y hq
    rw [hslot (q := q) (by rw [held, hq])]
    exact h.acquired q k y hq
  case assigned =>
    intro q k y hq
    rw [hslot (q := q) (by rw [held, hq])]
    exact h.assigned q k y hq
  case exclusive => exact h.exclusive
  case kept =>
    intro y hy _
    by_cases hyx : y = x
    · rw [hyx, slotReturned_slot_self] at hy
      exact absurd rfl hy
    · rw [slotReturned_slot_of_ne _ _ _ hyx] at hy
      exact h.kept y hy fun heq => hyx (Option.some.inj heq).symm
  case unheld => exact fun y hy => nomatch hy
  case nProcs =>
    intro y
    by_cases hyx : y = x
    · rw [hyx, slotReturned_slot_self]
      exact h.nProcs x
    · rw [slotReturned_slot_of_ne _ _ _ hyx]
      exact h.nProcs y
  case waiting => exact fun k q hq => h.waiting k q (hwait k ▸ hq)
  case waitNodup => exact fun k => (hwait k).symm ▸ h.waitNodup k
  case session => exact fun se' y hy => h.session se' y (hses ▸ hy)

/-! ## The steps of one process -/

/-- Only the process `q` moves, and no slot changes its group. -/
structure ProcMove (q : Fin p) (c c' : ResGroupControl g s p) (st st' : Fin p → SelfState g s) :
    Prop where
  state : ∀ q', q' ≠ q → st' q' = st q'
  resSlot : ∀ q', q' ≠ q → c'.resSlot q' = c.resSlot q'
  procIsWaiting : ∀ q', q' ≠ q → c'.procIsWaiting q' = c.procIsWaiting q'
  slotGroup : ∀ x, (c'.slots x).group = (c.slots x).group

theorem ProcMove.held (hm : ProcMove q c c' st st') {q' : Fin p} (hq' : q' ≠ q) :
    held c' st' q' = held c st q' := by
  rw [ResGroup.held, ResGroup.held, hm.state q' hq', hm.resSlot q' hq']

theorem SlotsHeld.move {orphan' : Option (Fin s)} (h : SlotsHeld session orphan c st)
    (hm : ProcMove q c c' st st')
    (hgranted : ∀ x, c'.resSlot q = some x →
      ∃ i, st' q = .awaiting i ∧ c'.procIsWaiting q = false ∧ (c.slots x).group = some i)
    (hmine : ∀ i x, st' q = .acquired i x ∨ st' q = .assigned i x → (c.slots x).group = some i)
    (hexcl : ∀ x q', q' ≠ q → held c' st' q = some x → held c st q' = some x →
      (st' q).isAssignedTo x = true ∧ (st q').isAssignedTo x = true ∧ session q = session q')
    (hkept : ∀ x, (c.slots x).group ≠ none → orphan' ≠ some x →
      held c' st' q = some x ∨ ∃ q', q' ≠ q ∧ held c st q' = some x)
    (hunheld : ∀ x, orphan' = some x →
      held c' st' q ≠ some x ∧ ∀ q', q' ≠ q → held c st q' ≠ some x)
    (hnProcs : ∀ x, (c'.slots x).nProcs = (attachedTo st' x).card)
    (hwaiting : ∀ i q', q' ∈ (c'.groups i).waitProcs →
      (q' ≠ q ∧ q' ∈ (c.groups i).waitProcs) ∨
        (q' = q ∧ st' q = .awaiting i ∧ c'.procIsWaiting q = true))
    (hnodup : ∀ i, (c'.groups i).waitProcs.Nodup)
    (hsession : ∀ se x, c'.resGroupSlot se = some x →
      ∃ q, session q = se ∧ (st' q).isAssignedTo x = true) :
    SlotsHeld session orphan' c' st' := by
  constructor
  case granted =>
    intro q' x hx
    rw [hm.slotGroup]
    by_cases hq' : q' = q
    · rw [hq'] at hx ⊢
      exact hgranted x hx
    · rw [hm.resSlot q' hq'] at hx
      rw [hm.state q' hq', hm.procIsWaiting q' hq']
      exact h.granted q' x hx
  case acquired =>
    intro q' i x hx
    rw [hm.slotGroup]
    by_cases hq' : q' = q
    · rw [hq'] at hx
      exact hmine i x (.inl hx)
    · rw [hm.state q' hq'] at hx
      exact h.acquired q' i x hx
  case assigned =>
    intro q' i x hx
    rw [hm.slotGroup]
    by_cases hq' : q' = q
    · rw [hq'] at hx
      exact hmine i x (.inr hx)
    · rw [hm.state q' hq'] at hx
      exact h.assigned q' i x hx
  case exclusive =>
    intro q1 q2 x h1 h2
    by_cases hq1 : q1 = q <;> by_cases hq2 : q2 = q
    · exact .inl (hq1.trans hq2.symm)
    · rw [hm.held hq2] at h2
      rw [hq1] at h1 ⊢
      rw [hm.state q2 hq2]
      exact .inr (hexcl x q2 hq2 h1 h2)
    · rw [hm.held hq1] at h1
      rw [hq2] at h2 ⊢
      rw [hm.state q1 hq1]
      obtain ⟨ha, hb, hs⟩ := hexcl x q1 hq1 h2 h1
      exact .inr ⟨hb, ha, hs.symm⟩
    · rw [hm.held hq1] at h1
      rw [hm.held hq2] at h2
      rw [hm.state q1 hq1, hm.state q2 hq2]
      exact h.exclusive q1 q2 x h1 h2
  case kept =>
    intro x hx ho
    rw [hm.slotGroup] at hx
    obtain hmine | ⟨q', hq', hother⟩ := hkept x hx ho
    · exact ⟨q, hmine⟩
    · exact ⟨q', by rw [hm.held hq']; exact hother⟩
  case unheld =>
    intro x ho q' hq'
    by_cases hqq : q' = q
    · rw [hqq] at hq'
      exact (hunheld x ho).1 hq'
    · rw [hm.held hqq] at hq'
      exact (hunheld x ho).2 q' hqq hq'
  case nProcs => exact hnProcs
  case waiting =>
    intro i q' hq'
    obtain ⟨hne, hmem⟩ | ⟨heq, hst, hw⟩ := hwaiting i q' hq'
    · rw [hm.state q' hne, hm.procIsWaiting q' hne]
      exact h.waiting i q' hmem
    · rw [heq]
      exact ⟨hst, hw⟩
  case waitNodup => exact hnodup
  case session => exact hsession

/-- A process that is in no group: it has no slot and waits for none. -/
def SelfState.isOutside : SelfState g s → Bool
  | .idle | .bypassed _ _ => true
  | _ => false

theorem held_of_outside (c : ResGroupControl g s p) (h : (st q).isOutside = true) :
    held c st q = none := by
  rw [held]
  split
  all_goals simp_all [SelfState.isOutside]

theorem isAssignedTo_of_outside {state : SelfState g s} (h : state.isOutside = true) (x : Fin s) :
    state.isAssignedTo x = false := by
  cases state with
  | idle | bypassed => rfl
  | awaiting | acquired | assigned => cases h

theorem SlotsHeld.resSlot_of_not_awaiting (h : SlotsHeld session orphan c st)
    (hq : ∀ i, st q ≠ .awaiting i) : c.resSlot q = none := by
  cases hres : c.resSlot q with
  | none => rfl
  | some x =>
    obtain ⟨i, hst, -⟩ := h.granted q x hres
    exact absurd hst (hq i)

theorem ne_awaiting_of_outside (h : (st q).isOutside = true) (i : Fin g) : st q ≠ .awaiting i := by
  intro heq
  rw [heq] at h
  cases h

theorem SlotsHeld.resSlot_of_waiting (h : SlotsHeld session orphan c st)
    (hq : c.procIsWaiting q = true) : c.resSlot q = none := by
  cases hres : c.resSlot q with
  | none => rfl
  | some x =>
    obtain ⟨i, -, hw, -⟩ := h.granted q x hres
    rw [hq] at hw
    cases hw

theorem SlotsHeld.not_mem_of_not_awaiting (h : SlotsHeld session orphan c st)
    (hq : ∀ i, st q ≠ .awaiting i) (i : Fin g) : q ∉ (c.groups i).waitProcs :=
  fun hmem => hq i (h.waiting i q hmem).1

theorem attachedTo_update (st : Fin p → SelfState g s) (q : Fin p) (new : SelfState g s)
    (x : Fin s) (h : (st q).isAssignedTo x = new.isAssignedTo x) :
    attachedTo (Function.update st q new) x = attachedTo st x := by
  ext q'
  rw [mem_attachedTo, mem_attachedTo]
  by_cases hq' : q' = q
  · rw [hq', Function.update_self, h]
  · rw [Function.update_of_ne hq']

/-- Which session a slot belongs to does not change with a process that is not attached before or
after. -/
theorem SlotsHeld.session_update (h : SlotsHeld session orphan c st) {new : SelfState g s}
    (hq : ∀ x, (st q).isAssignedTo x = false) (se : Fin p) (x : Fin s)
    (hse : c.resGroupSlot se = some x) :
    ∃ q', session q' = se ∧ (Function.update st q new q').isAssignedTo x = true := by
  obtain ⟨q', hs, ha⟩ := h.session se x hse
  refine ⟨q', hs, ?_⟩
  rw [Function.update_of_ne]
  · exact ha
  · rintro rfl
    rw [hq x] at ha
    cases ha

/-- A process wakes up with what it is granted: the slot that has been taken for it, or none. -/
theorem SlotsHeld.wakeup {qs : List (Fin p)} (h : SlotsHeld session orphan c st)
    (hqueue : (c.groups i).waitProcs = q :: qs)
    (hgroup : ∀ x, orphan = some x → (c.slots x).group = some i) :
    SlotsHeld session none (wakeup c i q qs orphan) st := by
  have hqi : q ∈ (c.groups i).waitProcs := hqueue ▸ List.mem_cons_self
  obtain ⟨hst, hw⟩ := h.waiting i q hqi
  have hres : (ResGroup.wakeup c i q qs orphan).resSlot q = orphan := Function.update_self ..
  have hheld : held (ResGroup.wakeup c i q qs orphan) st q = orphan := by
    rw [held, hst]
    exact hres
  have hbefore : held c st q = none := by
    rw [held, hst]
    exact h.resSlot_of_waiting hw
  have hnd := h.waitNodup i
  rw [hqueue, List.nodup_cons] at hnd
  refine h.move (q := q) ⟨fun _ _ => rfl, fun q' hq' => Function.update_of_ne hq' ..,
    fun q' hq' => Function.update_of_ne hq' .., fun _ => rfl⟩ ?_ ?_ ?_ ?_ ?_ h.nProcs ?_ ?_
    h.session
  · intro x hx
    rw [hres] at hx
    exact ⟨i, hst, Function.update_self .., hgroup x hx⟩
  · intro k x hx
    rw [hst] at hx
    exact hx.elim (fun h => nomatch h) fun h => nomatch h
  · intro x q' _ hx hx'
    rw [hheld] at hx
    exact absurd hx' (h.unheld x hx q')
  · intro x hx _
    by_cases ho : orphan = some x
    · exact .inl (hheld.trans ho)
    · obtain ⟨q', hq'⟩ := h.kept x hx ho
      refine .inr ⟨q', fun heq => ?_, hq'⟩
      rw [heq, hbefore] at hq'
      cases hq'
  · exact fun x hx => nomatch hx
  · intro k q' hq'
    by_cases hki : k = i
    · rw [hki, wakeup_waitProcs] at hq'
      refine .inl ⟨fun heq => hnd.1 (heq ▸ hq'), ?_⟩
      rw [hki, hqueue]
      exact List.mem_cons_of_mem q hq'
    · rw [(wakeup_step c i q qs orphan).other k hki] at hq'
      refine .inl ⟨fun heq => ?_, hq'⟩
      have hother := (h.waiting k q' hq').1
      rw [heq, hst] at hother
      cases hother
      exact hki rfl
  · intro k
    by_cases hki : k = i
    · rw [hki, wakeup_waitProcs]
      exact hnd.2
    · rw [(wakeup_step c i q qs orphan).other k hki]
      exact h.waitNodup k

end Hdb.ResGroup
