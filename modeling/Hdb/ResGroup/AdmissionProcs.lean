import Hdb.ResGroup.AdmissionMoves

/-!
# Resource groups: admission and the steps of the processes

Each step of a process keeps `Admitted`: it attaches to a slot or leaves it, acquires, waits, wakes
up or gives up, runs in bypass mode, or takes its slot on a segment.
-/

namespace Hdb.ResGroup

open ResGroupControl

variable {g s p : ℕ} {c c' : ResGroupControl g s p} {i j : Fin g} {x y : Fin s} {q : Fin p}
  {cfg : NodeConfig p} {st : Fin p → SelfState g s} {n n' : Node g s p} {new : SelfState g s}

/-- Where the processes of the node stand. -/
def Node.states (n : Node g s p) (q : Fin p) : SelfState g s := (n.procs q).state

theorem states_update (n : Node g s p) (q : Fin p) (d : ResGroupProcData g s) :
    ({ n with procs := Function.update n.procs q d } : Node g s p).states =
      Function.update n.states q d.state := by
  funext q'
  change (Function.update n.procs q d q').state = _
  by_cases hq' : q' = q
  · rw [hq', Function.update_self, Function.update_self]
  · rw [Function.update_of_ne hq', Function.update_of_ne hq']
    rfl

theorem states_setState (n : Node g s p) (q : Fin p) (state : SelfState g s) :
    (n.setState q state).states = Function.update n.states q state :=
  states_update n q _

theorem states_setMemUsage (n : Node g s p) (q : Fin p) (memUsage : ℤ) :
    (n.setMemUsage q memUsage).states = n.states :=
  (states_update n q _).trans (Function.update_eq_self q n.states)

/-! ## Memory does not matter for admission -/

theorem slotUsage_slot (c : ResGroupControl g s p) (x : Fin s) (memUsage : ℤ) (y : Fin s) :
    (c.setSlot x { c.slots x with memUsage := memUsage }).slots y =
      { c.slots y with
        memUsage := ((c.setSlot x { c.slots x with memUsage := memUsage }).slots y).memUsage } := by
  by_cases hy : y = x
  · rw [hy, setSlot_slots_self]
  · rw [setSlot_slots_of_ne _ _ hy]

theorem slotUsage_counts (c : ResGroupControl g s p) (x : Fin s) (memUsage : ℤ) :
    SameCounts c (c.setSlot x { c.slots x with memUsage := memUsage }) := by
  refine ⟨rfl, fun y => ?_, fun y => ?_, fun y => ?_, fun _ => rfl, fun _ => rfl, fun _ => rfl,
    fun _ => rfl⟩
  all_goals rw [slotUsage_slot]

theorem slotUsage_holders (c : ResGroupControl g s p) (x : Fin s) (memUsage : ℤ) :
    SameHolders c (c.setSlot x { c.slots x with memUsage := memUsage }) := by
  refine ⟨rfl, rfl, rfl, fun y => ?_, fun y => ?_, fun _ => rfl⟩
  all_goals rw [slotUsage_slot]

theorem SlotsCounted.slotUsage {role : GpRole} (h : SlotsCounted role c) (x : Fin s)
    (memUsage : ℤ) : SlotsCounted role (c.setSlot x { c.slots x with memUsage := memUsage }) :=
  h.same (slotUsage_counts c x memUsage) h.within

theorem Admitted.slotUsage (h : Admitted cfg c st) (x : Fin s) (memUsage : ℤ) :
    Admitted cfg (c.setSlot x { c.slots x with memUsage := memUsage }) st :=
  ⟨h.counted.slotUsage x memUsage, h.heldBy.same (slotUsage_holders c x memUsage),
    fun hrole => (h.bypass hrole).congr (fun _ => rfl) fun _ => rfl⟩

/-- The control after the group has been charged or discharged. -/
def groupUsage (c : ResGroupControl g s p) (i : Fin g) (memUsage memSharedUsage f : ℤ) :
    ResGroupControl g s p :=
  poolUpdate c i { c.groups i with memUsage := memUsage, memSharedUsage := memSharedUsage } f

theorem groupUsage_group (c : ResGroupControl g s p) (i : Fin g) (memUsage memSharedUsage f : ℤ)
    (j : Fin g) :
    (groupUsage c i memUsage memSharedUsage f).groups j =
      { c.groups j with
        memUsage := ((groupUsage c i memUsage memSharedUsage f).groups j).memUsage
        memSharedUsage :=
          ((groupUsage c i memUsage memSharedUsage f).groups j).memSharedUsage } := by
  rw [groupUsage]
  by_cases hj : j = i
  · rw [hj, poolUpdate_group]
  · rw [poolUpdate_other _ _ _ hj]

theorem SlotsCounted.groupUsage {role : GpRole} (h : SlotsCounted role c) (i : Fin g)
    (memUsage memSharedUsage f : ℤ) :
    SlotsCounted role (groupUsage c i memUsage memSharedUsage f) := by
  refine h.same ⟨rfl, fun _ => rfl, fun _ => rfl, fun _ => rfl, fun j => ?_, fun j => ?_,
    fun j => ?_, fun j => ?_⟩ fun j hj => ?_
  all_goals rw [groupUsage_group]
  exact h.within j hj

theorem SlotsHeld.groupUsage {orphan : Option (Fin s)} (h : SlotsHeld cfg.session orphan c st)
    (i : Fin g) (memUsage memSharedUsage f : ℤ) :
    SlotsHeld cfg.session orphan (groupUsage c i memUsage memSharedUsage f) st :=
  h.same ⟨rfl, rfl, rfl, fun _ => rfl, fun _ => rfl, fun j => by rw [groupUsage_group]⟩

theorem BypassCounted.groupUsage (h : BypassCounted cfg.gpRole c st) (i : Fin g)
    (memUsage memSharedUsage f : ℤ) :
    BypassCounted cfg.gpRole (groupUsage c i memUsage memSharedUsage f) st :=
  h.congr (fun j => by rw [groupUsage_group]) fun j => by rw [groupUsage_group]

theorem Admitted.groupUsage (h : Admitted cfg c st) (i : Fin g) (memUsage memSharedUsage f : ℤ) :
    Admitted cfg (groupUsage c i memUsage memSharedUsage f) st :=
  ⟨h.counted.groupUsage i _ _ _, h.heldBy.groupUsage i _ _ _,
    fun hrole => (h.bypass hrole).groupUsage i _ _ _⟩

theorem SlotsCounted.incSlot {role : GpRole} (h : SlotsCounted role c) (i : Fin g) (x : Fin s)
    (chunks : ℤ) : SlotsCounted role (incSlot c i x chunks) :=
  (h.groupUsage i _ _ _).slotUsage x _

theorem SlotsHeld.incSlot {orphan : Option (Fin s)} (h : SlotsHeld cfg.session orphan c st)
    (i : Fin g) (x : Fin s) (chunks : ℤ) :
    SlotsHeld cfg.session orphan (incSlot c i x chunks) st :=
  (h.groupUsage i _ _ _).same (slotUsage_holders _ x _)

theorem BypassCounted.incSlot (h : BypassCounted cfg.gpRole c st) (i : Fin g) (x : Fin s)
    (chunks : ℤ) : BypassCounted cfg.gpRole (incSlot c i x chunks) st :=
  (h.groupUsage i ((c.groups i).memUsage + chunks)
    ((c.groups i).memSharedUsage + deltaSharedInc (c.slots x) chunks) 0).congr (fun _ => rfl)
    fun _ => rfl

theorem Admitted.incSlot (h : Admitted cfg c st) (i : Fin g) (x : Fin s) (chunks : ℤ) :
    Admitted cfg (incSlot c i x chunks) st :=
  ⟨h.counted.incSlot i x chunks, h.heldBy.incSlot i x chunks,
    fun hrole => (h.bypass hrole).incSlot i x chunks⟩

theorem Admitted.decSlot (h : Admitted cfg c st) (i : Fin g) (x : Fin s) (chunks : ℤ) :
    Admitted cfg (decSlot c i x chunks) st :=
  (h.groupUsage i _ _ _).slotUsage x _

/-! ## Attaching and leaving -/

theorem SlotsCounted.withProcs {role : GpRole} (h : SlotsCounted role c) (x : Fin s) (m : ℤ)
    (se : Fin p) (r : Option (Fin s)) : SlotsCounted role (withProcs c x m se r) := by
  have hslot (y : Fin s) : (ResGroup.withProcs c x m se r).slots y =
      { c.slots y with nProcs := ((ResGroup.withProcs c x m se r).slots y).nProcs } := by
    by_cases hy : y = x
    · rw [hy, withProcs_slot_self]
    · rw [withProcs_slot_of_ne _ _ _ _ hy]
  refine h.same ⟨rfl, fun y => ?_, fun y => ?_, fun y => ?_, fun _ => rfl, fun _ => rfl,
    fun _ => rfl, fun _ => rfl⟩ h.within
  all_goals rw [hslot y]

theorem bypassedIn_update (st : Fin p → SelfState g s) (q : Fin p) (new : SelfState g s)
    (h : cfg.gpRole q = .dispatch → (st q).isBypassedIn i = new.isBypassedIn i) :
    bypassedIn cfg.gpRole (Function.update st q new) i = bypassedIn cfg.gpRole st i := by
  refine Finset.filter_congr fun q' _ => and_congr_right fun hqd => ?_
  by_cases hq' : q' = q
  · rw [hq'] at hqd ⊢
    rw [Function.update_self, h hqd]
  · rw [Function.update_of_ne hq']

/-- What an executor does changes nothing here. -/
theorem BypassCounted.update (h : BypassCounted cfg.gpRole c st)
    (hnew : cfg.gpRole q = .dispatch → ∀ i, (st q).isBypassedIn i = new.isBypassedIn i) :
    BypassCounted cfg.gpRole c (Function.update st q new) where
  count i hid := by
    rw [bypassedIn_update st q new fun hqd => hnew hqd i]
    exact h.count i hid
  live q' i hqd hq' := by
    by_cases hqq : q' = q
    · rw [hqq] at hqd
      rw [hqq, Function.update_self, ← hnew hqd] at hq'
      exact h.live q i hqd hq'
    · rw [Function.update_of_ne hqq] at hq'
      exact h.live q' i hqd hq'

theorem attachSlot_admitted (hcounted : SlotsCounted cfg.role n.ctl)
    (hheld : SlotsHeld cfg.session none (withProcs (incSlot n.ctl i x (n.procs q).memUsage) x
      (((incSlot n.ctl i x (n.procs q).memUsage).slots x).nProcs + 1) (cfg.session q) (some x))
      (Function.update n.states q (.assigned i x)))
    (hbypass : cfg.role = .dispatch → BypassCounted cfg.gpRole n.ctl n.states)
    (hnot : ∀ k, (n.states q).isBypassedIn k = false) :
    Admitted cfg (attachSlot cfg n q i x).ctl (attachSlot cfg n q i x).states := by
  rw [attachSlot, states_setState]
  refine ⟨(hcounted.incSlot i x (n.procs q).memUsage).withProcs x _ _ _, hheld, fun hrole => ?_⟩
  refine BypassCounted.update (((hbypass hrole).incSlot i x (n.procs q).memUsage).congr
    (fun _ => rfl) fun _ => rfl) fun _ k => ?_
  exact hnot k

theorem attach_admitted (h : Admitted cfg n.ctl n.states) (hst : n.states q = .acquired i x) :
    Admitted cfg (attachSlot cfg n q i x).ctl (attachSlot cfg n q i x).states := by
  have hinc := h.incSlot i x (n.procs q).memUsage
  have hq : held (incSlot n.ctl i x (n.procs q).memUsage) n.states q = some x := by rw [held, hst]
  refine attachSlot_admitted h.counted
    (hinc.heldBy.attach (hinc.heldBy.acquired q i x hst) (.inl rfl)
    (fun y => ?_) (fun k => ?_) (fun y hy => ?_) fun q' hq' hx => ?_) h.bypass fun k => ?_
  · rw [hst]
    rfl
  · rw [hst]
    simp
  · rw [hq] at hy
    exact (Option.some.inj hy).symm
  · obtain heq | ⟨ha, -⟩ := hinc.heldBy.exclusive q q' x hq hx
    · exact absurd heq.symm hq'
    · rw [hst] at ha
      cases ha
  · rw [hst]
    rfl

/-- The control with another number of bypassed queries in the group. -/
def withBypassed (c : ResGroupControl g s p) (i : Fin g) (m : ℤ) : ResGroupControl g s p :=
  c.setGroup i { c.groups i with nRunningBypassed := m }

theorem withBypassed_group (c : ResGroupControl g s p) (i : Fin g) (m : ℤ) (j : Fin g) :
    (withBypassed c i m).groups j =
      { c.groups j with nRunningBypassed := ((withBypassed c i m).groups j).nRunningBypassed } := by
  rw [withBypassed]
  by_cases hj : j = i
  · rw [hj, setGroup_groups_self]
  · rw [setGroup_groups_of_ne _ _ hj]

theorem SlotsCounted.withBypassed {role : GpRole} (h : SlotsCounted role c) (i : Fin g) (m : ℤ) :
    SlotsCounted role (withBypassed c i m) := by
  refine h.same ⟨rfl, fun _ => rfl, fun _ => rfl, fun _ => rfl, fun j => ?_, fun j => ?_,
    fun j => ?_, fun j => ?_⟩ fun j hj => ?_
  all_goals rw [withBypassed_group c i m j]
  exact h.within j hj

theorem SlotsHeld.withBypassed {session : Fin p → Fin p} {orphan : Option (Fin s)}
    (h : SlotsHeld session orphan c st) (i : Fin g) (m : ℤ) :
    SlotsHeld session orphan (withBypassed c i m) st :=
  h.same ⟨rfl, rfl, rfl, fun _ => rfl, fun _ => rfl, fun j => by
    rw [withBypassed_group c i m j]⟩

theorem slotReturned_resGroupSlot (se : Fin p) (c : ResGroupControl g s p) (i : Fin g) (x : Fin s) :
    slotReturned se { c with resGroupSlot := Function.update c.resGroupSlot se none } i x =
      slotReturned se c i x := by
  simp only [slotReturned, Function.update_idem]

theorem bypassedIn_leave (st : Fin p → SelfState g s) (q : Fin p) (i : Fin g) :
    bypassedIn cfg.gpRole (Function.update st q .idle) i =
      (bypassedIn cfg.gpRole st i).erase q := by
  ext q'
  rw [Finset.mem_erase, bypassedIn, bypassedIn, Finset.mem_filter, Finset.mem_filter]
  by_cases hq' : q' = q
  · rw [hq', Function.update_self]
    simp [SelfState.isBypassedIn]
  · rw [Function.update_of_ne hq']
    simp [hq']

/-- A bypassed query leaves its group; a query dispatcher takes itself off the count. -/
theorem leaveBypassed_admitted {slot : ResGroupSlotData g} (h : Admitted cfg n.ctl n.states)
    (hst : (n.procs q).state = .bypassed i slot) :
    Admitted cfg
      (groupDecMemUsage
        (if cfg.gpRole q = .dispatch then
          n.ctl.setGroup i
            { n.ctl.groups i with nRunningBypassed := (n.ctl.groups i).nRunningBypassed - 1 }
        else n.ctl) i slot (n.procs q).memUsage).2
      (Function.update n.states q .idle) := by
  have hst' : n.states q = .bypassed i slot := hst
  have hout : (n.states q).isOutside = true := by rw [hst']; rfl
  refine Admitted.groupUsage (c := if cfg.gpRole q = .dispatch then
    withBypassed n.ctl i ((n.ctl.groups i).nRunningBypassed - 1) else n.ctl) ?_ i _ _ _
  split_ifs with hqd
  · refine ⟨h.counted.withBypassed i _, (h.heldBy.withBypassed i _).outside hout rfl,
      fun hrole => ?_⟩
    have hb := h.bypass hrole
    have hmem : q ∈ bypassedIn cfg.gpRole n.states i := by
      rw [bypassedIn, Finset.mem_filter, hst']
      exact ⟨Finset.mem_univ q, hqd, decide_eq_true rfl⟩
    refine ⟨fun k hk => ?_, fun q' k hqd' hq' => ?_⟩
    · rw [withBypassed_group] at hk
      by_cases hki : k = i
      · subst hki
        have hpos : 0 < (bypassedIn cfg.gpRole n.states k).card := Finset.card_pos.mpr ⟨q, hmem⟩
        rw [withBypassed, setGroup_groups_self, bypassedIn_leave,
          Finset.card_erase_of_mem hmem]
        dsimp only
        rw [hb.count k hk]
        omega
      · rw [withBypassed, setGroup_groups_of_ne _ _ hki, bypassedIn_update]
        · exact hb.count k hk
        · rw [hst']
          exact fun _ => decide_eq_false fun heq => hki heq.symm
    · rw [withBypassed_group]
      by_cases hqq : q' = q
      · rw [hqq, Function.update_self] at hq'
        cases hq'
      · rw [Function.update_of_ne hqq] at hq'
        exact hb.live q' k hqd' hq'
  · exact ⟨h.counted, h.heldBy.outside hout rfl, fun hrole =>
      (h.bypass hrole).update fun hd => absurd hd hqd⟩

theorem detachSlot_counted (h : Admitted cfg n.ctl n.states) :
    SlotsCounted cfg.role (detachSlot n q i x) := by
  have hdec := h.decSlot i x (n.procs q).memUsage
  have hprocs := hdec.counted.withProcs x
    (((ResGroup.decSlot n.ctl i x (n.procs q).memUsage).slots x).nProcs - 1) (cfg.session q)
    ((ResGroup.decSlot n.ctl i x (n.procs q).memUsage).resGroupSlot (cfg.session q))
  rw [withProcs, Function.update_eq_self] at hprocs
  exact hprocs

theorem unassign_admitted (h : Admitted cfg n.ctl n.states) (hun : unassign cfg n q = some n') :
    Admitted cfg n'.ctl n'.states := by
  rw [unassign] at hun
  split at hun
  case _ i slot hst =>
    obtain rfl := Option.some.inj hun
    rw [states_setState]
    exact leaveBypassed_admitted h hst
  case _ i x hst =>
    have hst' : n.states q = .assigned i x := hst
    have hdec := h.decSlot i x (n.procs q).memUsage
    have hx := hdec.heldBy.assigned q i x hst'
    have hmem : q ∈ attachedTo n.states x := by
      rw [mem_attachedTo, hst']
      exact decide_eq_true rfl
    have hnProcs := hdec.heldBy.nProcs x
    have hbypass (hrole : cfg.role = .dispatch) :
        BypassCounted cfg.gpRole (detachSlot n q i x) (Function.update n.states q .idle) := by
      refine BypassCounted.update ((hdec.bypass hrole).congr (fun _ => rfl) fun _ => rfl)
        fun _ k => ?_
      rw [hst']
      rfl
    have hcounted := detachSlot_counted h (q := q) (i := i) (x := x)
    dsimp only at hun
    split_ifs at hun with hzero
    · -- the last process leaves: the slot goes back
      obtain ⟨c', hrel, rfl⟩ := Option.map_eq_some_iff.mp hun
      rw [states_setState]
      have hzero' : ((ResGroup.decSlot n.ctl i x (n.procs q).memUsage).slots x).nProcs - 1 = 0 := by
        rw [← hzero, detachSlot, setSlot_slots_self]
      have hone : (attachedTo n.states x).card = 1 := by omega
      have hlast (q' : Fin p) (hq' : q' ≠ q) : (n.states q').isAssignedTo x = false := by
        refine Bool.eq_false_iff.mpr fun ha => hq' ?_
        exact (Finset.card_le_one.mp hone.le) q' (mem_attachedTo.mpr ha) q hmem
      have hleave := hdec.heldBy.leaveLast hst' hlast
      have hback : SlotsHeld cfg.session none (slotReturned (cfg.session q) _ i x) _ :=
        hleave.putBack (Function.update_self ..)
      have heq : slotReturned (cfg.session q)
          (withProcs (ResGroup.decSlot n.ctl i x (n.procs q).memUsage) x 0 (cfg.session q) none)
          i x = slotReturned (cfg.session q) (detachSlot n q i x) i x := by
        rw [withProcs, detachSlot, hzero']
        exact slotReturned_resGroupSlot ..
      rw [heq] at hback
      refine groupReleaseSlot_admitted hcounted hback hbypass ?_ hrel
      rw [detachSlot, setSlot_slots_self]
      exact hx
    · obtain rfl := Option.some.inj hun
      rw [states_setState]
      have hmany : 1 < (attachedTo n.states x).card := by
        have hpos : 0 < (attachedTo n.states x).card := Finset.card_pos.mpr ⟨q, hmem⟩
        rw [detachSlot, setSlot_slots_self] at hzero
        dsimp only at hzero
        omega
      obtain ⟨q', hq', hne⟩ := Finset.exists_mem_ne hmany q
      exact ⟨hcounted, hdec.heldBy.leaveShared hst' hne (mem_attachedTo.mp hq'), hbypass⟩
  case _ hst =>
    obtain rfl := Option.some.inj hun
    exact h
  all_goals cases hun

theorem isBypassedIn_of_idle (h : n.states q = .idle) (k : Fin g) :
    (n.states q).isBypassedIn k = false := by
  rw [h]
  rfl

theorem acquireSlot_admitted {groupId : ℕ} (h : Admitted cfg n.ctl n.states)
    (hst : n.states q = .idle) (hacq : acquireSlot n q i groupId = some n') :
    Admitted cfg n'.ctl n'.states := by
  have hout : (n.states q).isOutside = true := by rw [hst]; rfl
  have hpush {c : ResGroupControl g s p} (hc : Admitted cfg c n.states) :
      Admitted cfg (groupWaitQueuePush c i q) (Function.update n.states q (.awaiting i)) := by
    refine ⟨hc.counted.queue rfl rfl fun j => ?_, hc.heldBy.enqueue hout i,
      fun hrole => ((hc.bypass hrole).step (groupWaitQueuePush_step c i q)).update fun _ k =>
        isBypassedIn_of_idle hst k⟩
    by_cases hj : j = i
    · rw [hj, groupWaitQueuePush_group]
    · rw [(groupWaitQueuePush_step c i q).other j hj]
  rw [acquireSlot] at hacq
  split_ifs at hacq with hid hlock
  · obtain rfl := Option.some.inj hacq
    exact h
  · obtain rfl := Option.some.inj hacq
    rw [states_setState]
    exact hpush h
  · obtain ⟨⟨r, c1⟩, hget, hacq⟩ := Option.map_eq_some_iff.mp hacq
    obtain rfl := hacq
    cases r with
    | some x =>
      rw [ne_eq, not_not] at hid
      obtain ⟨hcounted, hheld, hx⟩ := h.granted (by rw [hid]; exact Option.some_ne_none groupId)
        (Bool.eq_false_iff.mpr hlock) hget
      change Admitted cfg c1 (Node.setState _ q _).states
      rw [states_setState]
      exact ⟨hcounted, hheld.acquire hout hx, fun hrole =>
        ((h.bypass hrole).step (groupGetSlot_step hget)).update fun _ k =>
          isBypassedIn_of_idle hst k⟩
    | none =>
      change Admitted cfg (groupWaitQueuePush c1 i q) (Node.setState _ q _).states
      rw [states_setState]
      exact hpush (h.refused hget)

theorem isBypassedIn_of_awaiting (h : n.states q = .awaiting i) (k : Fin g) :
    (n.states q).isBypassedIn k = false := by
  rw [h]
  rfl

theorem awake_admitted (h : Admitted cfg n.ctl n.states) (hst : n.states q = .awaiting i)
    (hw : n.ctl.procIsWaiting q = false) :
    Admitted cfg (awake n q i).ctl (awake n q i).states := by
  have hmove := h.heldBy.awake hst hw
  have hbypass (new : SelfState g s) (hnew : ∀ k, new.isBypassedIn k = false)
      (hrole : cfg.role = .dispatch) :
      BypassCounted cfg.gpRole n.ctl (Function.update n.states q new) :=
    (h.bypass hrole).update fun _ k => by rw [isBypassedIn_of_awaiting hst, hnew]
  have hcounted : SlotsCounted cfg.role
      { n.ctl with resSlot := Function.update n.ctl.resSlot q none } :=
    h.counted.same ⟨rfl, fun _ => rfl, fun _ => rfl, fun _ => rfl, fun _ => rfl, fun _ => rfl,
      fun _ => rfl, fun _ => rfl⟩ h.counted.within
  rw [awake]
  cases hres : n.ctl.resSlot q with
  | some x =>
    simp only [hres] at hmove
    dsimp only
    rw [states_setState]
    exact ⟨hcounted, hmove, fun hrole => (hbypass _ (fun _ => rfl) hrole).congr (fun _ => rfl)
      fun _ => rfl⟩
  | none =>
    simp only [hres] at hmove
    dsimp only
    rw [states_setState]
    have hsame : Function.update n.ctl.resSlot q none = n.ctl.resSlot := by
      rw [← hres, Function.update_eq_self]
    rw [hsame] at hmove
    exact ⟨h.counted, hmove, hbypass _ fun _ => rfl⟩

theorem groupWaitCancel_admitted (h : Admitted cfg n.ctl n.states) (hst : n.states q = .awaiting i)
    (hcancel : groupWaitCancel cfg n q i = some n') : Admitted cfg n'.ctl n'.states := by
  rw [groupWaitCancel] at hcancel
  split_ifs at hcancel with hw
  · obtain rfl := Option.some.inj hcancel
    rw [states_setState]
    have hcounted : SlotsCounted cfg.role (groupWaitQueueErase n.ctl i q) := by
      refine h.counted.queue rfl rfl fun j => ?_
      by_cases hj : j = i
      · rw [hj, groupWaitQueueErase_group]
      · rw [(groupWaitQueueErase_step n.ctl i q).other j hj]
    exact ⟨hcounted, h.heldBy.dequeue hst hw, fun hrole =>
      ((h.bypass hrole).step (groupWaitQueueErase_step n.ctl i q)).update fun _ k =>
        isBypassedIn_of_awaiting hst k⟩
  · split at hcancel
    case _ x hres =>
      obtain ⟨c', hrel, rfl⟩ := Option.map_eq_some_iff.mp hcancel
      rw [states_setState]
      obtain ⟨k, hk, -, hx⟩ := h.heldBy.granted q x hres
      rw [hst] at hk
      cases hk
      have hback : SlotsHeld cfg.session none (slotReturned (cfg.session q) _ i x) _ :=
        (h.heldBy.giveUp hst hres).putBack (Function.update_self ..)
      rw [slotReturned_resGroupSlot (cfg.session q)
        { n.ctl with resSlot := Function.update n.ctl.resSlot q none }] at hback
      have hcounted : SlotsCounted cfg.role
          { n.ctl with resSlot := Function.update n.ctl.resSlot q none } :=
        h.counted.queue rfl rfl fun _ => rfl
      exact groupReleaseSlot_admitted hcounted hback (fun hrole => BypassCounted.update
        ((h.bypass hrole).congr (fun _ => rfl) fun _ => rfl) fun _ k =>
          isBypassedIn_of_awaiting hst k) hx hrel
    case _ hres =>
      obtain rfl := Option.some.inj hcancel
      have hawake := awake_admitted h hst (Bool.eq_false_iff.mpr hw)
      rw [awake, hres] at hawake
      exact hawake

/-! ## Bypassed queries, segments and memory -/

theorem attachBypassed_states (cfg : NodeConfig p) (n : Node g s p) (q : Fin p) (i : Fin g)
    (groupId : ℕ) :
    (attachBypassed cfg n q i groupId).states = Function.update n.states q (.bypassed i
      (groupIncMemUsage n.ctl i (bypassedSlot i groupId) (n.procs q).memUsage).2.1) :=
  states_update { n with
    ctl := (groupIncMemUsage n.ctl i (bypassedSlot i groupId) (n.procs q).memUsage).2.2 } q _

theorem attachBypassed_admitted {groupId : ℕ}
    (h : Admitted cfg n.ctl (Function.update n.states q (.bypassed i
      (groupIncMemUsage n.ctl i (bypassedSlot i groupId) (n.procs q).memUsage).2.1))) :
    Admitted cfg (attachBypassed cfg n q i groupId).ctl
      (attachBypassed cfg n q i groupId).states := by
  rw [attachBypassed_states]
  exact h.groupUsage i _ _ _

theorem bypassedIn_enter {slot : ResGroupSlotData g} (hqd : cfg.gpRole q = .dispatch) :
    bypassedIn cfg.gpRole (Function.update st q (.bypassed i slot)) i =
      insert q (bypassedIn cfg.gpRole st i) := by
  ext q'
  rw [Finset.mem_insert, bypassedIn, bypassedIn, Finset.mem_filter, Finset.mem_filter]
  by_cases hq' : q' = q
  · rw [hq', Function.update_self]
    simp [SelfState.isBypassedIn, hqd]
  · rw [Function.update_of_ne hq']
    simp [hq']

theorem assignBypassed_admitted {groupId : ℕ} (h : Admitted cfg n.ctl n.states)
    (hqd : cfg.gpRole q = .dispatch) (hst : n.states q = .idle) :
    Admitted cfg (assignBypassed cfg n q i groupId).ctl
      (assignBypassed cfg n q i groupId).states := by
  have hout : (n.states q).isOutside = true := by rw [hst]; rfl
  rw [assignBypassed]
  split_ifs with hskip
  · exact h
  · rw [not_or, not_not] at hskip
    refine attachBypassed_admitted ?_
    change Admitted cfg (withBypassed n.ctl i ((n.ctl.groups i).nRunningBypassed + 1))
      (Function.update n.states q _)
    refine ⟨h.counted.withBypassed i _, (h.heldBy.withBypassed i _).outside hout rfl,
      fun hrole => ?_⟩
    have hb := h.bypass hrole
    have hid : (n.ctl.groups i).groupId ≠ none := by
      rw [hskip.1]
      exact Option.some_ne_none groupId
    generalize (groupIncMemUsage _ i (bypassedSlot i groupId) _).2.1 = slot
    have hnotin : q ∉ bypassedIn cfg.gpRole n.states i := by
      rw [bypassedIn, Finset.mem_filter, isBypassedIn_of_idle hst]
      simp
    refine ⟨fun k hk => ?_, fun q' k hqd' hq' => ?_⟩
    · rw [withBypassed_group] at hk
      by_cases hki : k = i
      · subst hki
        rw [withBypassed, setGroup_groups_self, bypassedIn_enter hqd,
          Finset.card_insert_of_notMem hnotin]
        dsimp only
        rw [hb.count k hk]
        exact (Int.natCast_succ _).symm
      · rw [withBypassed, setGroup_groups_of_ne _ _ hki, bypassedIn_update]
        · exact hb.count k hk
        · rw [isBypassedIn_of_idle hst]
          exact fun _ => (decide_eq_false fun heq => hki heq.symm).symm
    · rw [withBypassed_group]
      by_cases hqq : q' = q
      · rw [hqq, Function.update_self] at hq'
        have hki : i = k := of_decide_eq_true hq'
        rw [← hki]
        exact hid
      · rw [Function.update_of_ne hqq] at hq'
        exact hb.live q' k hqd' hq'

theorem incSlot_slotGroup (c : ResGroupControl g s p) (i : Fin g) (x : Fin s) (chunks : ℤ)
    (y : Fin s) : ((incSlot c i x chunks).slots y).group = (c.slots y).group :=
  (slotUsage_holders (groupUsage c i _ _ _) x _).slotGroup y

/-- An executor takes the slot of its session, or one of its own in a group that is not locked. -/
theorem switchOnSegment_admitted {groupId : ℕ} {caps : ResGroupCaps}
    (h : Admitted cfg n.ctl n.states) (hst : n.states q = .idle)
    (hid : (n.ctl.groups i).groupId = some groupId)
    (hlock : n.ctl.resGroupSlot (cfg.session q) = none → (n.ctl.groups i).lockedForDrop = false)
    (hswitch : switchOnSegment cfg n q i groupId caps = some n') :
    Admitted cfg n'.ctl n'.states := by
  have hout : (n.states q).isOutside = true := by rw [hst]; rfl
  rw [switchOnSegment] at hswitch
  split_ifs at hswitch with hconc
  obtain ⟨⟨x, c⟩, hslot, rfl⟩ := Option.map_eq_some_iff.mp hswitch
  dsimp only
  obtain ⟨hres, hxid, rfl⟩ | ⟨next, hres, hfree, rfl⟩ := segmentSlot_cases hslot
  · -- the session has its slot
    obtain ⟨q0, hq0, ha⟩ := h.heldBy.session _ x hres
    obtain ⟨k, hk⟩ := isAssignedTo_iff.mp ha
    have hx : (n.ctl.slots x).group = some i := by
      have hgroup := h.heldBy.assigned q0 k x hk
      have hlive := (h.counted.live x k hgroup).1
      rw [h.counted.ids i k groupId hid (hlive.symm.trans hxid)]
      exact hgroup
    have hq0held : held n.ctl n.states q0 = some x := by rw [held, hk]
    have hinc := h.heldBy.incSlot i x (n.procs q).memUsage
    refine attachSlot_admitted h.counted (hinc.attach ((incSlot_slotGroup ..).trans hx) (.inl rfl)
      (isAssignedTo_of_outside hout) (ne_awaiting_of_outside hout) (fun y hy => ?_)
      fun q' hq' hx' => ?_) h.bypass (isBypassedIn_of_idle hst)
    · rw [held_of_outside _ hout] at hy
      cases hy
    · obtain heq | ⟨ha', -, hs⟩ := h.heldBy.exclusive q' q0 x hx' hq0held
      · rw [heq]
        exact ⟨ha, hq0.symm⟩
      · exact ⟨ha', hq0.symm.trans hs.symm⟩
  · -- a new slot
    have hr := h.autoReserve i caps
    have hsame := mempoolAutoReserve_same n.ctl i caps
    have hidr : ((mempoolAutoReserve n.ctl i caps).groups i).groupId ≠ none := by
      rw [hsame.groupId, hid]
      exact Option.some_ne_none groupId
    have hfits := slotGetMemQuotaOnQE_fits (T := n.ctl.totalChunks) hconc
      (hr.counted.within i hidr)
    have hfree' : (mempoolAutoReserve n.ctl i caps).freeSlot = x :: next := by
      rw [mempoolAutoReserve_freeSlot, hfree]
    have hcounted := hr.counted.take hfree' hidr (hsame.lockedForDrop.trans (hlock hres)) hfits.1
      hfits.2
    have hxfree : ((mempoolAutoReserve n.ctl i caps).slots x).group = none := by
      rw [← hr.counted.free, hfree']
      exact List.mem_cons_self
    generalize slotGetMemQuotaOnQE n.ctl.totalChunks caps _ = quota at hcounted ⊢
    have hheld : SlotsHeld cfg.session (some x)
        (grantSlot (mempoolAutoReserve n.ctl i caps) i x next quota) n.states :=
      hr.heldBy.take hxfree
    have hx : ((grantSlot (mempoolAutoReserve n.ctl i caps) i x next quota).slots x).group =
        some i := by
      rw [grantSlot_slot_self]
    have hinc := hheld.incSlot i x (n.procs q).memUsage
    refine attachSlot_admitted (n := { n with ctl := grantSlot _ i x next quota }) hcounted
      (hinc.attach ((incSlot_slotGroup ..).trans hx) (.inr rfl) (isAssignedTo_of_outside hout)
        (ne_awaiting_of_outside hout) (fun y hy => ?_) fun q' hq' hx' => ?_)
      (fun hrole => (hr.bypass hrole).step (grantSlot_step ..)) (isBypassedIn_of_idle hst)
    · rw [held_of_outside _ hout] at hy
      cases hy
    · exact absurd hx' (hinc.unheld x rfl q')

theorem switchBypassed_admitted {groupId : ℕ} (hqe : cfg.gpRole q = .execute)
    (h : Admitted cfg n.ctl n.states) (hst : n.states q = .idle) :
    Admitted cfg (attachBypassed cfg n q i groupId).ctl
      (attachBypassed cfg n q i groupId).states := by
  have hout : (n.states q).isOutside = true := by rw [hst]; rfl
  refine attachBypassed_admitted ⟨h.counted, h.heldBy.outside hout rfl, fun hrole =>
    (h.bypass hrole).update fun hqd => ?_⟩
  rw [hqe] at hqd
  cases hqd

/-- A bypassed query that has charged or released memory is still one. -/
theorem Admitted.bypassedSlot {slot : ResGroupSlotData g} (h : Admitted cfg c st)
    (hst : st q = .bypassed i slot) (slot' : ResGroupSlotData g) :
    Admitted cfg c (Function.update st q (.bypassed i slot')) := by
  have hout : (st q).isOutside = true := by rw [hst]; rfl
  refine ⟨h.counted, h.heldBy.outside hout rfl, fun hrole => (h.bypass hrole).update fun _ k => ?_⟩
  rw [hst]
  rfl

theorem reserveMemory_admitted (h : Admitted cfg n.ctl n.states) (q : Fin p)
    (memoryChunks overuseChunks : ℕ) (critSection : Bool) :
    Admitted cfg (reserveMemory n q memoryChunks overuseChunks critSection).ctl
      (reserveMemory n q memoryChunks overuseChunks critSection).states := by
  rw [reserveMemory]
  dsimp only
  split
  case _ i slot hst =>
    split_ifs
    · exact h
    · rw [states_setState]
      exact ((h.groupUsage i _ _ _).groupUsage i _ _ _).bypassedSlot hst _
    · rw [states_setMemUsage, states_setState]
      exact (h.groupUsage i _ _ _).bypassedSlot hst _
  case _ i x hst =>
    split_ifs
    · exact (h.incSlot i x memoryChunks).decSlot i x memoryChunks
    · rw [states_setMemUsage]
      exact h.incSlot i x memoryChunks
  all_goals
    rw [states_setMemUsage]
    exact h

theorem releaseMemory_admitted (h : Admitted cfg n.ctl n.states) (q : Fin p) (memoryChunks : ℕ) :
    Admitted cfg (releaseMemory n q memoryChunks).ctl (releaseMemory n q memoryChunks).states := by
  have hstates := states_setMemUsage n q ((n.procs q).memUsage - memoryChunks)
  rw [releaseMemory]
  dsimp only
  split
  case _ i slot hst =>
    rw [states_setState]
    have hst' : (n.setMemUsage q ((n.procs q).memUsage - memoryChunks)).states q =
        .bypassed i slot := (congrFun hstates q).trans hst
    refine Admitted.bypassedSlot ?_ hst' _
    exact hstates ▸ h.groupUsage i _ _ _
  case _ i x hst =>
    exact hstates ▸ h.decSlot i x memoryChunks
  all_goals
    rw [hstates]
    exact h

end Hdb.ResGroup
