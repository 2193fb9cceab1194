import Hdb.ResGroup.AdmissionProcs
import Hdb.ResGroup.Concurrency
import Hdb.ResGroup.WaitersServed

/-!
# Resource groups: admission along every run

Three steps can break the invariant. `ResGroupAlterOnCommit` wakes up the queue of its group without
a look at `lockedForDrop`, so a waiter of a group that is being dropped can be granted a slot
(`grantsWhenLocked`). A committed drop, or a creation that aborts, removes the group whatever runs
in it (`isVacant`): the check was made when the group was locked, on the dispatcher only, and the
lock may have been taken off by another DROP that aborted. And an executor of the dispatcher whose
session has no slot takes one of its own; `SwitchResGroupOnSegment` looks neither at `lockedForDrop`
nor at the concurrency.

Main result: `admission`, for the runs without such a step. `granted_when_locked` is a run in which
an ALTER grants a slot in a group that is then dropped with the slot in use.
-/

namespace Hdb.ResGroup

open ResGroupControl

variable {g s p : ℕ} {c c' c1 : ResGroupControl g s p} {i j : Fin g} {x y : Fin s} {q : Fin p}
  {cfg : NodeConfig p} {st : Fin p → SelfState g s} {n n' : Node g s p}

/-- The step grants nothing in a group that is locked for drop, removes no group in use, and gives
no executor of the dispatcher a slot of its own beyond the concurrency. -/
def respectsLocks (cfg : NodeConfig p) (n : Node g s p) : Action g p → Bool
  | .alter groupId limit =>
    match groupHashFind n.ctl groupId with
    | none => true
    | some i =>
      match (n.ctl.groups i).caps.alter limit with
      | none => true
      | some caps => !grantsWhenLocked n.ctl i limit caps
  | .createFinish groupId isCommit =>
    isCommit || (groupHashFind n.ctl groupId).all fun i => isVacant cfg.role n.ctl i
  | .dropFinish groupId isCommit =>
    !isCommit || (groupHashFind n.ctl groupId).all fun i => isVacant cfg.role n.ctl i
  | .switchOnSegment q groupId _ =>
    decide (cfg.role = .execute) || (n.ctl.resGroupSlot (cfg.session q)).isSome ||
      (groupHashFind n.ctl groupId).all fun i =>
        !(n.ctl.groups i).lockedForDrop &&
          decide ((n.ctl.groups i).nRunning < (n.ctl.groups i).caps.concurrency)
  | _ => true

/-- A slot of its own is for an executor on a segment, or in an open group that has one left. -/
theorem respectsLocks_switch {groupId : ℕ} {caps : ResGroupCaps}
    (hok : respectsLocks cfg n (.switchOnSegment q groupId caps) = true)
    (hfind : groupHashFind n.ctl groupId = some i)
    (hres : n.ctl.resGroupSlot (cfg.session q) = none) :
    cfg.role = .execute ∨ (n.ctl.groups i).lockedForDrop = false ∧
      (n.ctl.groups i).nRunning < (n.ctl.groups i).caps.concurrency := by
  simp only [respectsLocks, hres, hfind, Option.isSome_none, Bool.or_false, Option.all_some,
    Bool.or_eq_true, Bool.and_eq_true, decide_eq_true_eq, Bool.not_eq_true'] at hok
  exact hok

theorem groupHashFind_groupId {groupId : ℕ} (h : groupHashFind c groupId = some i) :
    (c.groups i).groupId = some groupId := by
  have hfound := List.find?_some h
  exact of_decide_eq_true hfound

theorem ne_none_of_find {groupId : ℕ} (h : groupHashFind c groupId = some i) :
    (c.groups i).groupId ≠ none := by
  rw [groupHashFind_groupId h]
  exact Option.some_ne_none groupId

theorem nodeStep_admitted {a : Action g p} (h : Admitted cfg n.ctl n.states)
    (hok : respectsLocks cfg n a = true) (hstep : nodeStep cfg n a = some n') :
    Admitted cfg n'.ctl n'.states := by
  cases a with
  | createGroup groupId caps =>
    obtain ⟨c', hcreate, rfl⟩ := Option.map_eq_some_iff.mp hstep
    exact createGroup_admitted h hcreate
  | createFinish groupId isCommit =>
    simp only [nodeStep] at hstep
    split_ifs at hstep with hmem hcommit
    · obtain rfl := Option.some.inj hstep
      exact h
    · obtain ⟨i, hi, hstep⟩ := Option.bind_eq_some_iff.mp hstep
      obtain ⟨c', hremove, rfl⟩ := Option.map_eq_some_iff.mp hstep
      simp only [respectsLocks, hcommit, hi, Option.all_some, Bool.false_or] at hok
      exact removeGroup_admitted h (ne_none_of_find hi) hok hremove
  | alter groupId limit =>
    obtain ⟨i, hi, hstep⟩ := Option.bind_eq_some_iff.mp hstep
    obtain ⟨caps, hcaps, hstep⟩ := Option.bind_eq_some_iff.mp hstep
    obtain ⟨c', halter, rfl⟩ := Option.map_eq_some_iff.mp hstep
    simp only [respectsLocks, hi, hcaps, Bool.not_eq_true'] at hok
    exact ResGroupAlterOnCommit_admitted h (ne_none_of_find hi) hok halter
  | checkForDrop groupId =>
    obtain ⟨i, hi, hstep⟩ := Option.bind_eq_some_iff.mp hstep
    obtain ⟨c', hcheck, rfl⟩ := Option.map_eq_some_iff.mp hstep
    exact ResGroupCheckForDrop_admitted h (ne_none_of_find hi) hcheck
  | dropFinish groupId isCommit =>
    simp only [nodeStep] at hstep
    split_ifs at hstep
    split at hstep
    · obtain rfl := Option.some.inj hstep
      exact h
    case _ i hi =>
      obtain ⟨c', hdrop, rfl⟩ := Option.map_eq_some_iff.mp hstep
      refine ResGroupDropFinish_admitted h (ne_none_of_find hi) (fun hcommit => ?_) hdrop
      simp only [respectsLocks, hcommit, hi, Option.all_some, Bool.not_true, Bool.false_or] at hok
      exact hok
  | acquireSlot q i groupId =>
    simp only [nodeStep] at hstep
    split_ifs at hstep with hidle
    exact acquireSlot_admitted h hidle.2 hstep
  | awake q =>
    simp only [nodeStep] at hstep
    split at hstep
    case _ i hst =>
      split_ifs at hstep with hw
      obtain rfl := Option.some.inj hstep
      exact awake_admitted h hst (Bool.eq_false_iff.mpr hw)
    · cases hstep
  | attach q =>
    simp only [nodeStep] at hstep
    split at hstep
    case _ i x hst =>
      obtain rfl := Option.some.inj hstep
      exact attach_admitted h hst
    · cases hstep
  | waitCancel q =>
    simp only [nodeStep] at hstep
    split at hstep
    case _ i hst => exact groupWaitCancel_admitted h hst hstep
    · cases hstep
  | unassign q => exact unassign_admitted h hstep
  | assignBypassed q i groupId =>
    simp only [nodeStep] at hstep
    split_ifs at hstep with hidle
    obtain rfl := Option.some.inj hstep
    exact assignBypassed_admitted h hidle.1 hidle.2
  | switchOnSegment q groupId caps =>
    simp only [nodeStep] at hstep
    split_ifs at hstep with hidle
    obtain ⟨i, hi, hstep⟩ := Option.bind_eq_some_iff.mp hstep
    refine switchOnSegment_admitted h hidle.2 (groupHashFind_groupId hi) (fun hres => ?_) hstep
    obtain hexec | ⟨hlock, -⟩ := respectsLocks_switch hok hi hres
    · exact h.counted.unlocked hexec i
    · exact hlock
  | switchBypassed q groupId =>
    simp only [nodeStep] at hstep
    split_ifs at hstep with hidle
    obtain ⟨i, -, rfl⟩ := Option.map_eq_some_iff.mp hstep
    exact switchBypassed_admitted hidle.1 h hidle.2
  | reserveMemory q memoryChunks overuseChunks critSection =>
    obtain rfl := Option.some.inj hstep
    exact reserveMemory_admitted h q memoryChunks overuseChunks critSection
  | releaseMemory q memoryChunks =>
    simp only [nodeStep] at hstep
    split_ifs at hstep
    obtain rfl := Option.some.inj hstep
    exact releaseMemory_admitted h q memoryChunks

theorem initialNode_admitted (cfg : NodeConfig p) (totalChunks : ℕ) :
    Admitted cfg (initialNode g s p totalChunks).ctl (initialNode g s p totalChunks).states := by
  have hnoid (i : Fin g) : ((initialNode g s p totalChunks).ctl.groups i).groupId = none := rfl
  constructor
  · constructor
    case ids => exact fun i j m hi => nomatch hi
    case nodup => exact List.nodup_finRange s
    case free => exact fun x => ⟨fun _ => rfl, fun _ => List.mem_finRange x⟩
    case live => exact fun x i hx => nomatch hx
    case quota => exact fun x hx => absurd rfl hx
    case nRunning => exact fun i hi => absurd (hnoid i) hi
    case used => exact fun i hi => absurd (hnoid i) hi
    case within => exact fun i hi => absurd (hnoid i) hi
    case locked => exact fun i hi => nomatch hi
    case unlocked => exact fun _ _ => rfl
  · have hnobody (x : Fin s) : attachedTo (initialNode g s p totalChunks).states x = ∅ :=
      Finset.filter_eq_empty_iff.mpr fun q _ hq => nomatch hq
    constructor
    case granted => exact fun q x hq => nomatch hq
    case acquired => exact fun q i x hq => nomatch hq
    case assigned => exact fun q i x hq => nomatch hq
    case exclusive => exact fun q q' x hq => nomatch hq
    case kept => exact fun x hx => absurd rfl hx
    case unheld => exact fun x hx => nomatch hx
    case nProcs =>
      intro x
      rw [hnobody x]
      rfl
    case waiting => exact fun i q hq => nomatch hq
    case waitNodup => exact fun _ => List.nodup_nil
    case session => exact fun se x hx => nomatch hx
  · exact fun _ => ⟨fun i hi => absurd (hnoid i) hi, fun q i _ hq => nomatch hq⟩

/-! ## Grants on the dispatcher -/

/-- What a function under the lock gives to the process `q`, which does not move itself. -/
theorem Grants.within_of_new (hg : Grants c1 c') (h' : SlotsHeld cfg.session none c' st)
    (hres : c1.resSlot q = some x → c.resSlot q = some x)
    (hwait : ∀ k, q ∈ (c1.groups k).waitProcs → st q = .awaiting k ∧ c.resSlot q = none)
    (hq : held c' st q = some x) (hn : held c st q ≠ some x) (hx : (c'.slots x).group = some i) :
    WithinConcurrency (c'.groups i) ∧ held c st q = none := by
  cases hst : st q with
  | awaiting k =>
    simp only [held, hst] at hq hn ⊢
    obtain ⟨l, hl, hb, -⟩ := hg.new q x hq fun hc => hn (hres hc)
    obtain ⟨m, hm, -, hxm⟩ := h'.granted q x hq
    have hlm : l = m := by
      have heq := (hwait l hl).1.symm.trans hm
      cases heq
      rfl
    rw [hlm, Option.some.inj (hxm.symm.trans hx)] at hb
    exact ⟨hb, (hwait l hl).2⟩
  | idle | acquired | assigned | bypassed =>
    simp only [held, hst] at hq hn
    exact absurd hq hn

theorem groupApplyMemCaps_grants (c : ResGroupControl g s p) (i : Fin g) :
    Grants c (groupApplyMemCaps c i).2 := by
  have hexpected (e : ℤ) : Grants c (c.setGroup i { c.groups i with memExpected := e }) :=
    Grants.poolUpdate (f := c.freeChunks) (le_refl _) rfl rfl rfl
  have hrelease (c : ResGroupControl g s p) : Grants c (mempoolAutoRelease c i) :=
    Grants.poolUpdate (le_refl _) rfl rfl rfl
  rw [groupApplyMemCaps]
  exact (hexpected _).trans ((hrelease _).trans (mempoolAutoReserve_grants _ i _))

theorem ResGroupAlterOnCommit_grants {role : GpRole} {limit : ResGroupLimit} {caps : ResGroupCaps}
    (hok : grantsWhenLocked c i limit caps = false)
    (halter : ResGroupAlterOnCommit role c i limit caps = some c') :
    Grants (alterGroup c i limit caps) c' := by
  have hgroup : (alterGroup c i limit caps).groups i = { c.groups i with
      caps := caps
      memGap := (c.groups i).memGap +
        memLimitGap c.totalChunks (c.groups i).caps caps limit } := setGroup_groups_self ..
  rw [ResGroupAlterOnCommit] at halter
  split_ifs at halter with hmem
  · rw [groupMemOnAlter] at halter
    split at halter
    case _ haud =>
      rw [hgroup] at haud
      change caps.memAuditor = .vmtracker at haud
      obtain ⟨c2, hwake, halter⟩ := Option.bind_eq_some_iff.mp halter
      have h2 : Grants (alterGroup c i limit caps) c2 := by
        refine (groupApplyMemCaps_grants _ i).trans (wakeupSlots_grants ?_ hwake)
        rw [groupApplyMemCaps_lockedForDrop, groupApplyMemCaps_waitProcs, hgroup]
        simp only [grantsWhenLocked, hmem, haud, decide_true, Bool.true_and, Bool.and_eq_false_iff,
          Bool.not_eq_false', List.isEmpty_iff] at hok
        exact or_assoc.mp hok
      split_ifs at halter
      · exact h2.trans (notifyLoop_grants halter)
      · cases halter
        exact h2
    · rw [groupMemOnAlterForCgroup] at halter
      split_ifs at halter
      · cases halter
        exact Grants.refl _
      · obtain ⟨c2, hnotify, rfl⟩ := Option.map_eq_some_iff.mp halter
        have hfree (f : ℤ) : Grants (alterGroup c i limit caps)
            { alterGroup c i limit caps with freeChunks := f } :=
          Grants.quiet rfl (fun _ => le_refl _) (fun _ => rfl) (fun _ => rfl) fun _ => rfl
        exact ((hfree _).trans (notifyLoop_grants hnotify)).trans
          (Grants.poolUpdate (f := c2.freeChunks) (le_refl _) rfl rfl rfl)
      · cases halter
        exact groupApplyCgroupMemInc_grants _ i
  · cases halter
    exact Grants.refl _

theorem removeGroup_grants {role : GpRole} (hremove : removeGroup role c i = some c') :
    Grants c c' := by
  have hdrop : Grants c (groupMemOnDrop c i) := by
    rw [groupMemOnDrop]
    split
    · exact Grants.poolUpdate (le_refl _) rfl rfl rfl
    · exact Grants.quiet rfl (fun _ => le_refl _) (fun _ => rfl) (fun _ => rfl) fun _ => rfl
  have hremoved (c : ResGroupControl g s p) :
      Grants c (c.setGroup i { c.groups i with groupId := none }) :=
    Grants.poolUpdate (f := c.freeChunks) (le_refl _) rfl rfl rfl
  rw [removeGroup] at hremove
  exact (hdrop.trans (hremoved _)).trans (notifyLoop_grants hremove)

theorem wakeupSlotsLoop_all_resSlot {qs : List (Fin p)}
    (hloop : wakeupSlotsLoop false i qs c = some c') (hq : c'.resSlot q = some x) :
    c.resSlot q = some x := by
  induction qs generalizing c with
  | nil =>
    cases hloop
    exact hq
  | cons q' qs ih =>
    rw [wakeupSlotsLoop, if_neg Bool.false_ne_true] at hloop
    have hmid : (wakeup c i q' qs none).resSlot q = some x := ih hloop
    by_cases hqq : q = q'
    · rw [hqq] at hmid
      have hnone : (wakeup c i q' qs none).resSlot q' = none := Function.update_self ..
      rw [hnone] at hmid
      cases hmid
    · rw [← hmid]
      exact (Function.update_of_ne hqq ..).symm

theorem wakeupSlotsLoop_all_waiting {qs : List (Fin p)}
    (hloop : wakeupSlotsLoop false i qs c = some c') (hq : c'.procIsWaiting q = true) :
    c.procIsWaiting q = true := by
  induction qs generalizing c with
  | nil =>
    cases hloop
    exact hq
  | cons q' qs ih =>
    rw [wakeupSlotsLoop, if_neg Bool.false_ne_true] at hloop
    have hmid : (wakeup c i q' qs none).procIsWaiting q = true := ih hloop
    by_cases hqq : q = q'
    · rw [hqq] at hmid
      have hfalse : (wakeup c i q' qs none).procIsWaiting q' = false := Function.update_self ..
      rw [hfalse] at hmid
      cases hmid
    · rw [← hmid]
      exact (Function.update_of_ne hqq ..).symm

/-- A process in a queue has been granted nothing. -/
theorem SlotsHeld.queued {session : Fin p → Fin p} {orphan : Option (Fin s)}
    (h : SlotsHeld session orphan c st) (hq : q ∈ (c.groups i).waitProcs) :
    st q = .awaiting i ∧ c.resSlot q = none :=
  have hwait := h.waiting i q hq
  ⟨hwait.1, h.resSlot_of_waiting hwait.2⟩

/-- A group with a slot in use is not locked for drop. -/
theorem SlotsCounted.unlocked_of_slot {role : GpRole} (h : SlotsCounted role c)
    (hx : (c.slots x).group = some i) : (c.groups i).lockedForDrop = false := by
  refine Bool.eq_false_iff.mpr fun hlock => ?_
  have hcount := h.nRunning i (h.live x i hx).2
  have hpos : 0 < (slotsIn c i).card := Finset.card_pos.mpr ⟨x, mem_slotsIn.mpr hx⟩
  have hzero := h.locked i hlock
  omega

/-- The process `q0` leaves, and its slot goes back: what the others are given. -/
theorem groupReleaseSlot_within {q0 : Fin p} {x0 : Fin s} {k : Fin g} {node role : GpRole}
    {se : Fin p} (hc : SlotsCounted cfg.role c1) (hx0 : (c1.slots x0).group = some k)
    (hwait : ∀ l, q ∈ (c1.groups l).waitProcs → st q = .awaiting l ∧ c.resSlot q = none)
    (hres : q ≠ q0 → c1.resSlot q = c.resSlot q)
    (hrel : groupReleaseSlot node role se c1 k x0 = some c')
    (h' : SlotsHeld cfg.session none c' (Function.update st q0 .idle))
    (hq : held c' (Function.update st q0 .idle) q = some x) (hn : held c st q ≠ some x)
    (hx : (c'.slots x).group = some i) :
    WithinConcurrency (c'.groups i) ∧ held c st q = none := by
  have hq0 : q ≠ q0 := by
    rintro rfl
    rw [held, Function.update_self] at hq
    cases hq
  have hg := groupReleaseSlot_grants (hc.unlocked_of_slot hx0) hrel
  have hsame : held c (Function.update st q0 .idle) q = held c st q := by
    rw [held, held, Function.update_of_ne hq0]
  rw [← hsame] at hn ⊢
  refine hg.within_of_new h' (fun hmid => (hres hq0).symm.trans hmid) (fun l hl => ?_) hq hn hx
  rw [Function.update_of_ne hq0]
  exact hwait l hl

/-- A process that leaves gives nobody a slot by that. -/
theorem held_of_idle {q0 : Fin p} (hres : c'.resSlot = c.resSlot)
    (hq : held c' (Function.update st q0 .idle) q = some x) : held c st q = some x := by
  by_cases hq0 : q = q0
  · rw [held, hq0, Function.update_self] at hq
    cases hq
  · rw [held, Function.update_of_ne hq0, hres] at hq
    exact hq

theorem unassign_within {q0 : Fin p} (h : Admitted cfg n.ctl n.states)
    (hun : unassign cfg n q0 = some n') (hq : held n'.ctl n'.states q = some x)
    (hn : held n.ctl n.states q ≠ some x) (hx : (n'.ctl.slots x).group = some i) :
    WithinConcurrency (n'.ctl.groups i) ∧ held n.ctl n.states q = none := by
  have h' := unassign_admitted h hun
  rw [unassign] at hun
  split at hun
  case _ k slot hst =>
    obtain rfl := Option.some.inj hun
    rw [states_setState] at hq
    refine absurd (held_of_idle ?_ hq) hn
    split_ifs <;> rfl
  case _ k x0 hst =>
    have hst' : n.states q0 = .assigned k x0 := hst
    have hdec := h.decSlot k x0 (n.procs q0).memUsage
    have hcounted := detachSlot_counted h (q := q0) (i := k) (x := x0)
    dsimp only at hun
    split_ifs at hun with hzero
    · obtain ⟨c', hrel, rfl⟩ := Option.map_eq_some_iff.mp hun
      rw [states_setState] at h' hq
      refine groupReleaseSlot_within hcounted ?_ (fun l hl => ?_) (fun _ => rfl) hrel h'.heldBy hq
        hn hx
      · rw [detachSlot, setSlot_slots_self]
        exact hdec.heldBy.assigned q0 k x0 hst'
      · exact hdec.heldBy.queued hl
    · obtain rfl := Option.some.inj hun
      rw [states_setState] at hq
      exact absurd (held_of_idle rfl hq) hn
  case _ hst =>
    obtain rfl := Option.some.inj hun
    exact absurd hq hn
  all_goals cases hun

theorem groupWaitCancel_within {q0 : Fin p} {k : Fin g} (h : Admitted cfg n.ctl n.states)
    (hst : n.states q0 = .awaiting k) (hcancel : groupWaitCancel cfg n q0 k = some n')
    (hq : held n'.ctl n'.states q = some x) (hn : held n.ctl n.states q ≠ some x)
    (hx : (n'.ctl.slots x).group = some i) :
    WithinConcurrency (n'.ctl.groups i) ∧ held n.ctl n.states q = none := by
  have h' := groupWaitCancel_admitted h hst hcancel
  rw [groupWaitCancel] at hcancel
  split_ifs at hcancel with hw
  · obtain rfl := Option.some.inj hcancel
    rw [states_setState] at hq
    exact absurd (held_of_idle rfl hq) hn
  · split at hcancel
    case _ x0 hres =>
      obtain ⟨c', hrel, rfl⟩ := Option.map_eq_some_iff.mp hcancel
      rw [states_setState] at h' hq
      obtain ⟨l, hl, -, hx0⟩ := h.heldBy.granted q0 x0 hres
      rw [hst] at hl
      cases hl
      have hcounted : SlotsCounted cfg.role
          { n.ctl with resSlot := Function.update n.ctl.resSlot q0 none } :=
        h.counted.queue rfl rfl fun _ => rfl
      refine groupReleaseSlot_within hcounted hx0 (fun l hl => ?_) (fun hq0 => ?_) hrel h'.heldBy
        hq hn hx
      · exact h.heldBy.queued hl
      · exact Function.update_of_ne hq0 ..
    case _ hres =>
      obtain rfl := Option.some.inj hcancel
      rw [states_setState] at hq
      exact absurd (held_of_idle rfl hq) hn

theorem acquireSlot_within {q0 : Fin p} {k : Fin g} {groupId : ℕ}
    (h : Admitted cfg n.ctl n.states) (hst : n.states q0 = .idle)
    (hacq : acquireSlot n q0 k groupId = some n') (hq : held n'.ctl n'.states q = some x)
    (hn : held n.ctl n.states q ≠ some x) (hx : (n'.ctl.slots x).group = some i) :
    WithinConcurrency (n'.ctl.groups i) ∧ held n.ctl n.states q = none := by
  have h' := acquireSlot_admitted h hst hacq
  have hres0 : n.ctl.resSlot q0 = none :=
    h.heldBy.resSlot_of_not_awaiting fun l hl => by
      rw [hst] at hl
      cases hl
  have hquiet {c : ResGroupControl g s p} (hres : c.resSlot = n.ctl.resSlot)
      (hheld : held c (Function.update n.states q0 (.awaiting k)) q = some x) : False := by
    refine hn ?_
    by_cases hq0 : q = q0
    · rw [held, hq0, Function.update_self] at hheld
      dsimp only at hheld
      rw [hres, hres0] at hheld
      cases hheld
    · rw [held, Function.update_of_ne hq0, hres] at hheld
      exact hheld
  rw [acquireSlot] at hacq
  split_ifs at hacq with hid hlock
  · obtain rfl := Option.some.inj hacq
    exact absurd hq hn
  · obtain rfl := Option.some.inj hacq
    rw [states_setState] at hq
    exact (hquiet rfl hq).elim
  · obtain ⟨⟨r, c1⟩, hget, rfl⟩ := Option.map_eq_some_iff.mp hacq
    have hres := groupGetSlot_resSlot hget
    cases r with
    | some x0 =>
      dsimp only at hq hx h' ⊢
      rw [states_setState] at hq h'
      by_cases hq0 : q = q0
      · rw [held, hq0, Function.update_self] at hq
        cases hq
        have hx0 := h'.heldBy.acquired q0 k x (Function.update_self ..)
        rw [← Option.some.inj (hx0.symm.trans hx), hq0]
        exact ⟨groupGetSlot_withinConcurrency hget, held_of_outside _ (by rw [hst]; rfl)⟩
      · rw [held, Function.update_of_ne hq0] at hq
        refine absurd ?_ hn
        rw [held, ← hres]
        exact hq
    | none =>
      dsimp only at hq
      rw [states_setState] at hq
      exact (hquiet hres hq).elim

theorem held_at {st' : Fin p → SelfState g s} (hst : st' q = st q)
    (hres : c'.resSlot q = c.resSlot q) : held c' st' q = held c st q := by
  rw [held, held, hst, hres]

theorem held_of_same (hstates : n'.states = n.states) (hres : n'.ctl.resSlot = n.ctl.resSlot)
    (q : Fin p) : held n'.ctl n'.states q = held n.ctl n.states q := by
  rw [hstates, held_congr hres]

theorem held_update_outside {q0 : Fin p} {new : SelfState g s} (h : (st q0).isOutside = true)
    (hnew : new.isOutside = true) (q : Fin p) :
    held c (Function.update st q0 new) q = held c st q := by
  by_cases hq0 : q = q0
  · rw [hq0, held_of_outside c h, held_of_outside c (by rw [Function.update_self]; exact hnew)]
  · exact held_at (Function.update_of_ne hq0 ..) rfl

theorem awake_held {q0 : Fin p} {k : Fin g} (hst : n.states q0 = .awaiting k) (q : Fin p) :
    held (awake n q0 k).ctl (awake n q0 k).states q = held n.ctl n.states q := by
  rw [awake]
  cases hres : n.ctl.resSlot q0 with
  | some x0 =>
    dsimp only
    rw [states_setState]
    by_cases hq0 : q = q0
    · rw [hq0, held, held, Function.update_self, hst]
      exact hres.symm
    · exact held_at (Function.update_of_ne hq0 ..) (Function.update_of_ne hq0 ..)
  | none =>
    dsimp only
    rw [states_setState]
    by_cases hq0 : q = q0
    · rw [hq0, held, held, Function.update_self, hst]
      exact hres.symm
    · exact held_at (Function.update_of_ne hq0 ..) rfl

theorem attachSlot_held {q0 : Fin p} {k : Fin g} {x0 : Fin s} (hst : n.states q0 = .acquired k x0)
    (q : Fin p) :
    held (attachSlot cfg n q0 k x0).ctl (attachSlot cfg n q0 k x0).states q =
      held n.ctl n.states q := by
  rw [attachSlot, states_setState]
  by_cases hq0 : q = q0
  · rw [hq0, held, held, Function.update_self, hst]
  · exact held_at (Function.update_of_ne hq0 ..) rfl

theorem reserveMemory_held (n : Node g s p) (q0 : Fin p) (memoryChunks overuseChunks : ℕ)
    (critSection : Bool) (q : Fin p) :
    held (reserveMemory n q0 memoryChunks overuseChunks critSection).ctl
      (reserveMemory n q0 memoryChunks overuseChunks critSection).states q =
      held n.ctl n.states q := by
  rw [reserveMemory]
  dsimp only
  split
  case _ k slot hst =>
    have hout : (n.states q0).isOutside = true := by rw [Node.states, hst]; rfl
    split_ifs
    · rfl
    · rw [states_setState]
      exact held_update_outside hout rfl q
    · rw [states_setMemUsage, states_setState]
      exact held_update_outside hout rfl q
  case _ k x0 hst =>
    split_ifs
    · rfl
    · rw [states_setMemUsage]
      rfl
  all_goals
    rw [states_setMemUsage]
    rfl

theorem releaseMemory_held (n : Node g s p) (q0 : Fin p) (memoryChunks : ℕ) (q : Fin p) :
    held (releaseMemory n q0 memoryChunks).ctl (releaseMemory n q0 memoryChunks).states q =
      held n.ctl n.states q := by
  have hstates := states_setMemUsage n q0 ((n.procs q0).memUsage - memoryChunks)
  rw [releaseMemory]
  dsimp only
  split
  case _ k slot hst =>
    have hout : (n.states q0).isOutside = true := by rw [Node.states, hst]; rfl
    rw [states_setState]
    refine (held_update_outside ?_ rfl q).trans ?_
    · exact (congrArg _ (congrFun hstates q0)).trans hout
    · exact held_of_same (n := n) hstates rfl q
  case _ k x0 hst => exact held_of_same (n := n) hstates rfl q
  all_goals exact held_of_same (n := n) hstates rfl q

/-- The process joins a slot that its session has. -/
def Joins (cfg : NodeConfig p) (n n' : Node g s p) (q : Fin p) (x : Fin s) : Prop :=
  ∃ q', cfg.session q' = cfg.session q ∧ held n.ctl n.states q' = some x ∧
    held n'.ctl n'.states q' = some x

/-- An executor gets the slot of its session, or one of its own within the concurrency. -/
theorem switchOnSegment_within {q0 : Fin p} {k : Fin g} {groupId : ℕ} {caps : ResGroupCaps}
    (h : Admitted cfg n.ctl n.states) (hst : n.states q0 = .idle)
    (hconc : n.ctl.resGroupSlot (cfg.session q0) = none →
      (n.ctl.groups k).nRunning < (n.ctl.groups k).caps.concurrency)
    (h' : Admitted cfg n'.ctl n'.states)
    (hswitch : switchOnSegment cfg n q0 k groupId caps = some n')
    (hq : held n'.ctl n'.states q = some x) (hn : held n.ctl n.states q ≠ some x)
    (hx : (n'.ctl.slots x).group = some i) :
    held n.ctl n.states q = none ∧
      (Joins cfg n n' q x ∨ WithinConcurrency (n'.ctl.groups i)) := by
  rw [switchOnSegment] at hswitch
  split_ifs at hswitch
  obtain ⟨⟨x0, c⟩, hslot, rfl⟩ := Option.map_eq_some_iff.mp hswitch
  have hres : c.resSlot = n.ctl.resSlot := by
    obtain ⟨-, -, rfl⟩ | ⟨next, -, -, rfl⟩ := segmentSlot_cases hslot
    · rfl
    · exact mempoolAutoReserve_resSlot n.ctl k caps
  have hstates : (attachSlot cfg { n with ctl := c } q0 k x0).states =
      Function.update n.states q0 (.assigned k x0) := by
    rw [attachSlot, states_setState]
    rfl
  have hsame {q' : Fin p} (hq' : q' ≠ q0) :
      held (attachSlot cfg { n with ctl := c } q0 k x0).ctl
        (attachSlot cfg { n with ctl := c } q0 k x0).states q' = held n.ctl n.states q' := by
    rw [hstates]
    exact held_at (Function.update_of_ne hq' ..) (congrFun hres q')
  by_cases hq0 : q = q0
  · subst hq0
    rw [hstates, held, Function.update_self] at hq
    cases hq
    have hxk := h'.heldBy.assigned q k x (by rw [hstates, Function.update_self])
    obtain rfl := Option.some.inj (hxk.symm.trans hx)
    refine ⟨held_of_outside _ (by rw [hst]; rfl), ?_⟩
    obtain ⟨hses, -, rfl⟩ | ⟨next, hnone, -, rfl⟩ := segmentSlot_cases hslot
    · obtain ⟨q', hse, hassigned⟩ := h.heldBy.session _ x hses
      obtain ⟨l, hl⟩ := isAssignedTo_iff.mp hassigned
      have hne : q' ≠ q := by
        rintro rfl
        rw [hst] at hl
        cases hl
      have hheld : held n.ctl n.states q' = some x := by rw [held, hl]
      exact .inl ⟨q', hse, hheld, (hsame hne).trans hheld⟩
    · refine .inr ?_
      have hreserve := mempoolAutoReserve_same n.ctl k caps
      have husage := incSlot_same (grantSlot (mempoolAutoReserve n.ctl k caps) k x next
        (slotGetMemQuotaOnQE n.ctl.totalChunks caps ((mempoolAutoReserve n.ctl k caps).groups k)))
        k x (n.procs q).memUsage k
      change WithinConcurrency ((incSlot _ k x (n.procs q).memUsage).groups k)
      rw [WithinConcurrency, husage, grantSlot_group]
      dsimp only
      rw [hreserve.nRunning, hreserve.caps]
      exact hconc hnone
  · exact absurd ((hsame hq0).symm.trans hq) hn

/-- **A slot is granted within the concurrency of its group.** -/
theorem nodeStep_within {a : Action g p} (hrole : cfg.role = .dispatch)
    (h : Admitted cfg n.ctl n.states) (hok : respectsLocks cfg n a = true)
    (hstep : nodeStep cfg n a = some n') (hq : held n'.ctl n'.states q = some x)
    (hn : held n.ctl n.states q ≠ some x) (hx : (n'.ctl.slots x).group = some i) :
    held n.ctl n.states q = none ∧
      (Joins cfg n n' q x ∨ WithinConcurrency (n'.ctl.groups i)) := by
  have h' := nodeStep_admitted h hok hstep
  have granted (hg : WithinConcurrency (n'.ctl.groups i) ∧ held n.ctl n.states q = none) :
      held n.ctl n.states q = none ∧
        (Joins cfg n n' q x ∨ WithinConcurrency (n'.ctl.groups i)) := ⟨hg.2, .inr hg.1⟩
  cases a with
  | createGroup groupId caps =>
    obtain ⟨c', hcreate, rfl⟩ := Option.map_eq_some_iff.mp hstep
    rw [createGroup] at hcreate
    split_ifs at hcreate
    obtain ⟨k, -, rfl⟩ := Option.map_eq_some_iff.mp hcreate
    exact absurd hq hn
  | createFinish groupId isCommit =>
    simp only [nodeStep] at hstep
    split_ifs at hstep with hmem hcommit
    · obtain rfl := Option.some.inj hstep
      exact absurd hq hn
    · obtain ⟨k, hk, hstep⟩ := Option.bind_eq_some_iff.mp hstep
      obtain ⟨c', hremove, rfl⟩ := Option.map_eq_some_iff.mp hstep
      exact granted ((removeGroup_grants hremove).within_of_new h'.heldBy (fun hres => hres)
        (fun l hl => h.heldBy.queued hl) hq hn hx)
  | alter groupId limit =>
    obtain ⟨k, hk, hstep⟩ := Option.bind_eq_some_iff.mp hstep
    obtain ⟨caps, hcaps, hstep⟩ := Option.bind_eq_some_iff.mp hstep
    obtain ⟨c', halter, rfl⟩ := Option.map_eq_some_iff.mp hstep
    simp only [respectsLocks, hk, hcaps, Bool.not_eq_true'] at hok
    exact granted ((ResGroupAlterOnCommit_grants hok halter).within_of_new h'.heldBy
      (fun hres => hres) (fun l hl => (h.alterGroup k limit caps).heldBy.queued hl) hq hn hx)
  | checkForDrop groupId =>
    obtain ⟨k, hk, hstep⟩ := Option.bind_eq_some_iff.mp hstep
    obtain ⟨c', hcheck, rfl⟩ := Option.map_eq_some_iff.mp hstep
    rw [ResGroupCheckForDrop] at hcheck
    split_ifs at hcheck
    all_goals
      cases hcheck
      exact absurd hq hn
  | dropFinish groupId isCommit =>
    simp only [nodeStep] at hstep
    split_ifs at hstep
    split at hstep
    · obtain rfl := Option.some.inj hstep
      exact absurd hq hn
    case _ k hk =>
      obtain ⟨c', hdrop, rfl⟩ := Option.map_eq_some_iff.mp hstep
      obtain ⟨c2, hwoken, hdrop⟩ := Option.bind_eq_some_iff.mp hdrop
      rw [if_pos hrole] at hwoken
      obtain ⟨c1, hwake, rfl⟩ := Option.map_eq_some_iff.mp hwoken
      have h2 := (wakeupSlotsLoop_all_admitted h rfl hwake).unlock k
      have hg : Grants (c1.setGroup k { c1.groups k with lockedForDrop := false }) c' := by
        split_ifs at hdrop
        · exact removeGroup_grants hdrop
        · cases hdrop
          exact Grants.refl _
      refine granted (hg.within_of_new h'.heldBy
        (fun hres => wakeupSlotsLoop_all_resSlot hwake hres) (fun l hl => ?_) hq hn hx)
      obtain ⟨hst, hw⟩ := h2.heldBy.waiting l q hl
      exact ⟨hst, h.heldBy.resSlot_of_waiting (wakeupSlotsLoop_all_waiting hwake hw)⟩
  | acquireSlot q0 k groupId =>
    simp only [nodeStep] at hstep
    split_ifs at hstep with hidle
    exact granted (acquireSlot_within h hidle.2 hstep hq hn hx)
  | awake q0 =>
    simp only [nodeStep] at hstep
    split at hstep
    case _ k hst =>
      split_ifs at hstep with hw
      obtain rfl := Option.some.inj hstep
      exact absurd ((awake_held hst q).symm.trans hq) hn
    · cases hstep
  | attach q0 =>
    simp only [nodeStep] at hstep
    split at hstep
    case _ k x0 hst =>
      obtain rfl := Option.some.inj hstep
      exact absurd ((attachSlot_held hst q).symm.trans hq) hn
    · cases hstep
  | waitCancel q0 =>
    simp only [nodeStep] at hstep
    split at hstep
    case _ k hst => exact granted (groupWaitCancel_within h hst hstep hq hn hx)
    · cases hstep
  | unassign q0 => exact granted (unassign_within h hstep hq hn hx)
  | assignBypassed q0 k groupId =>
    simp only [nodeStep] at hstep
    split_ifs at hstep with hidle
    obtain rfl := Option.some.inj hstep
    have hout : (n.states q0).isOutside = true := by rw [Node.states, hidle.2]; rfl
    rw [assignBypassed] at hq
    split_ifs at hq
    · exact absurd hq hn
    · rw [attachBypassed_states] at hq
      exact absurd ((held_update_outside hout rfl q).symm.trans hq) hn
  | switchOnSegment q0 groupId caps =>
    simp only [nodeStep] at hstep
    split_ifs at hstep with hidle
    obtain ⟨k, hk, hstep⟩ := Option.bind_eq_some_iff.mp hstep
    refine switchOnSegment_within h hidle.2 (fun hres => ?_) h' hstep hq hn hx
    refine ((respectsLocks_switch hok hk hres).resolve_left fun hexec => ?_).2
    rw [hrole] at hexec
    cases hexec
  | switchBypassed q0 groupId =>
    simp only [nodeStep] at hstep
    split_ifs at hstep with hidle
    obtain ⟨k, -, rfl⟩ := Option.map_eq_some_iff.mp hstep
    have hout : (n.states q0).isOutside = true := by rw [Node.states, hidle.2]; rfl
    rw [attachBypassed_states] at hq
    exact absurd ((held_update_outside hout rfl q).symm.trans hq) hn
  | reserveMemory q0 memoryChunks overuseChunks critSection =>
    obtain rfl := Option.some.inj hstep
    exact absurd ((reserveMemory_held n q0 memoryChunks overuseChunks critSection q).symm.trans hq)
      hn
  | releaseMemory q0 memoryChunks =>
    simp only [nodeStep] at hstep
    split_ifs at hstep
    obtain rfl := Option.some.inj hstep
    exact absurd ((releaseMemory_held n q0 memoryChunks q).symm.trans hq) hn

/-! ## Runs -/

/-- The slot is in the hands of the session: a process of it has acquired it or is attached to
it. -/
def inHands (cfg : NodeConfig p) (n : Node g s p) (se : Fin p) (x : Fin s) : Prop :=
  ∃ q i, cfg.session q = se ∧ (n.states q = .acquired i x ∨ n.states q = .assigned i x)

/-- What holds of the slots and groups of the node. -/
structure SlotsInPlace (cfg : NodeConfig p) (n : Node g s p) : Prop where
  freeNodup : n.ctl.freeSlot.Nodup
  /-- A slot is free, in the hands of one session, or granted to one woken process. -/
  place : ∀ x,
    (x ∈ n.ctl.freeSlot ∧ (∀ se, ¬ inHands cfg n se x) ∧ ∀ q, n.ctl.resSlot q ≠ some x) ∨
    (x ∉ n.ctl.freeSlot ∧ (∃! se, inHands cfg n se x) ∧ ∀ q, n.ctl.resSlot q ≠ some x) ∨
    (x ∉ n.ctl.freeSlot ∧ (∀ se, ¬ inHands cfg n se x) ∧ ∃! q, n.ctl.resSlot q = some x)
  inUse : ∀ x, x ∉ n.ctl.freeSlot ↔ ∃ i, x ∈ slotsIn n.ctl i
  nRunning : ∀ i, (n.ctl.groups i).groupId ≠ none →
    (n.ctl.groups i).nRunning = (slotsIn n.ctl i).card
  memQuota : ∀ i, (n.ctl.groups i).groupId ≠ none →
    0 ≤ (n.ctl.groups i).memQuotaUsed ∧
    (n.ctl.groups i).memQuotaUsed = ∑ x ∈ slotsIn n.ctl i, (n.ctl.slots x).memQuota ∧
    (n.ctl.groups i).memQuotaUsed ≤ (n.ctl.groups i).memQuotaGranted
  woken : ∀ q x, n.ctl.resSlot q = some x →
    n.ctl.procIsWaiting q = false ∧ ∃ i, n.states q = .awaiting i ∧ x ∈ slotsIn n.ctl i
  queued : ∀ i q, q ∈ (n.ctl.groups i).waitProcs →
    n.ctl.resSlot q = none ∧ n.states q = .awaiting i ∧ (n.ctl.groups i).waitProcs.count q = 1
  locked : ∀ i, (n.ctl.groups i).lockedForDrop = true → slotsIn n.ctl i = ∅
  dropped : ∀ i, (n.ctl.groups i).groupId = none → slotsIn n.ctl i = ∅

theorem inHands_iff {se : Fin p} :
    inHands cfg n se x ↔
      ∃ q, cfg.session q = se ∧ held n.ctl n.states q = some x ∧ ∀ i, n.states q ≠ .awaiting i := by
  constructor
  · rintro ⟨q, i, hse, hst | hst⟩
    all_goals
      refine ⟨q, hse, by rw [held, hst], fun k hk => ?_⟩
      rw [hst] at hk
      cases hk
  · rintro ⟨q, hse, hq, hawait⟩
    cases hst : n.states q with
    | awaiting k => exact absurd hst (hawait k)
    | idle | bypassed =>
      simp only [held, hst] at hq
      cases hq
    | acquired i y =>
      simp only [held, hst] at hq
      cases hq
      exact ⟨q, i, hse, .inl hst⟩
    | assigned i y =>
      simp only [held, hst] at hq
      cases hq
      exact ⟨q, i, hse, .inr hst⟩

/-- A process that is granted a slot keeps every other process from it. -/
theorem Admitted.resSlot_alone (h : Admitted cfg n.ctl n.states) (hq : n.ctl.resSlot q = some x)
    {q' : Fin p} (hq' : held n.ctl n.states q' = some x) : q' = q := by
  obtain ⟨k, hst, -, -⟩ := h.heldBy.granted q x hq
  have hheld : held n.ctl n.states q = some x := by
    rw [held, hst]
    exact hq
  obtain heq | ⟨-, ha, -⟩ := h.heldBy.exclusive q' q x hq' hheld
  · exact heq
  · rw [hst] at ha
    cases ha

theorem Admitted.place (h : Admitted cfg n.ctl n.states) (x : Fin s) :
    (x ∈ n.ctl.freeSlot ∧ (∀ se, ¬ inHands cfg n se x) ∧ ∀ q, n.ctl.resSlot q ≠ some x) ∨
    (x ∉ n.ctl.freeSlot ∧ (∃! se, inHands cfg n se x) ∧ ∀ q, n.ctl.resSlot q ≠ some x) ∨
    (x ∉ n.ctl.freeSlot ∧ (∀ se, ¬ inHands cfg n se x) ∧ ∃! q, n.ctl.resSlot q = some x) := by
  by_cases hfree : x ∈ n.ctl.freeSlot
  · have hgroup := (h.counted.free x).mp hfree
    refine .inl ⟨hfree, fun se hse => ?_, fun q hq => ?_⟩
    · obtain ⟨q, -, hq, -⟩ := inHands_iff.mp hse
      exact h.heldBy.held_group hq hgroup
    · obtain ⟨i, -, -, hx⟩ := h.heldBy.granted q x hq
      rw [hgroup] at hx
      cases hx
  · have hgroup := fun hnone => hfree ((h.counted.free x).mpr hnone)
    obtain ⟨q, hq⟩ := h.heldBy.kept x hgroup nofun
    by_cases hres : n.ctl.resSlot q = some x
    · refine .inr (.inr ⟨hfree, fun se hse => ?_, q, hres, fun q' hq' => ?_⟩)
      · obtain ⟨q', -, hq', hawait⟩ := inHands_iff.mp hse
        obtain ⟨k, hst, -⟩ := h.heldBy.granted q x hres
        rw [h.resSlot_alone hres hq'] at hawait
        exact hawait k hst
      · exact (h.resSlot_alone hq' hq).symm
    · have hawait (k : Fin g) (hst : n.states q = .awaiting k) : False := by
        rw [held, hst] at hq
        exact hres hq
      refine .inr (.inl ⟨hfree, ⟨cfg.session q, inHands_iff.mpr ⟨q, rfl, hq, hawait⟩,
        fun se hse => ?_⟩, fun q' hq' => ?_⟩)
      · obtain ⟨q', rfl, hq', -⟩ := inHands_iff.mp hse
        obtain heq | ⟨-, -, hs⟩ := h.heldBy.exclusive q' q x hq' hq
        · rw [heq]
        · exact hs
      · rw [h.resSlot_alone hq' hq] at hres
        exact hres hq'

theorem Admitted.slotsInPlace (h : Admitted cfg n.ctl n.states) : SlotsInPlace cfg n where
  freeNodup := h.counted.nodup
  place := h.place
  inUse x := by
    rw [h.counted.free, ← ne_eq, Option.ne_none_iff_exists']
    simp only [mem_slotsIn]
  nRunning := h.counted.nRunning
  memQuota i hid := by
    have hused := h.counted.used i hid
    refine ⟨?_, hused, h.counted.within i hid⟩
    rw [hused]
    refine Finset.sum_nonneg fun x hx => h.counted.quota x ?_
    rw [mem_slotsIn.mp hx]
    exact Option.some_ne_none i
  woken q x hq := by
    obtain ⟨i, hst, hw, hx⟩ := h.heldBy.granted q x hq
    exact ⟨hw, i, hst, mem_slotsIn.mpr hx⟩
  queued i q hq := by
    obtain ⟨hst, hres⟩ := h.heldBy.queued hq
    exact ⟨hres, hst, List.count_eq_one_of_mem (h.heldBy.waitNodup i) hq⟩
  locked i hlock := by
    refine Finset.eq_empty_of_forall_notMem fun x hx => ?_
    rw [h.counted.unlocked_of_slot (mem_slotsIn.mp hx)] at hlock
    cases hlock
  dropped i hid := by
    refine Finset.eq_empty_of_forall_notMem fun x hx => ?_
    exact (h.counted.live x i (mem_slotsIn.mp hx)).2 hid

/-- **Admission.** Along a run whose steps respect the locks, every slot is in one place and the
groups count the slots in use. A slot that the next step gives to a process is of a group that is
not locked for drop; on the dispatcher the process had no slot before, and the group is within its
concurrency, unless an executor joins the slot of its session. -/
theorem admission (cfg : NodeConfig p) {totalChunks : ℕ} {as : List (Action g p)} {n : Node g s p}
    (hok : Along (nodeStep cfg) (fun n a => respectsLocks cfg n a = true)
      (initialNode g s p totalChunks) as)
    (hrun : run (nodeStep cfg) (initialNode g s p totalChunks) as = some n) :
    SlotsInPlace cfg n ∧
      ∀ a n', respectsLocks cfg n a = true → nodeStep cfg n a = some n' →
        ∀ q x, held n'.ctl n'.states q = some x → held n.ctl n.states q ≠ some x →
          ∃ i, x ∈ slotsIn n'.ctl i ∧ (n'.ctl.groups i).lockedForDrop = false ∧
            (cfg.role = .dispatch → held n.ctl n.states q = none ∧
              (Joins cfg n n' q x ∨
                (n'.ctl.groups i).nRunning ≤ (n'.ctl.groups i).caps.concurrency)) := by
  have h : Admitted cfg n.ctl n.states :=
    run_invariant_along (I := fun n : Node g s p => Admitted cfg n.ctl n.states)
      (fun _ _ _ h hok hstep => nodeStep_admitted h hok hstep) hok
      (initialNode_admitted cfg totalChunks) hrun
  refine ⟨h.slotsInPlace, fun a n' hlocks hstep q x hq hn => ?_⟩
  have h' := nodeStep_admitted h hlocks hstep
  obtain ⟨i, hi⟩ := Option.ne_none_iff_exists'.mp (h'.heldBy.held_group hq)
  refine ⟨i, mem_slotsIn.mpr hi, h'.counted.unlocked_of_slot hi, fun hrole => ?_⟩
  exact nodeStep_within hrole h hlocks hstep hq hn hi

/-- Three sessions and one slot, up to the moment at which the first is about to leave. -/
def twoWaitForOneSlot : List (Action 1 3) :=
  [.createGroup 1 (quotaCaps 1 50 fifty_le_hundred), .createFinish 1 true, .acquireSlot 0 0 1,
    .attach 0, .acquireSlot 1 0 1, .acquireSlot 2 0 1]

theorem admission_twoWaitForOneSlot :
    ∃ n n' : Node 1 3 3,
      run (nodeStep (dispatcher 3)) (initialNode 1 3 3 100) twoWaitForOneSlot = some n ∧
      nodeStep (dispatcher 3) n (.unassign 0) = some n' ∧ SlotsInPlace (dispatcher 3) n ∧
      n'.ctl.resSlot 1 = some 0 ∧ held n.ctl n.states 1 = none ∧
      ∃ i, (0 : Fin 3) ∈ slotsIn n'.ctl i ∧ (n'.ctl.groups i).lockedForDrop = false ∧
        (n'.ctl.groups i).nRunning ≤ (n'.ctl.groups i).caps.concurrency := by
  obtain ⟨n, hrun⟩ := Option.isSome_iff_exists.mp
    (show (run (nodeStep (dispatcher 3)) (initialNode 1 3 3 100) twoWaitForOneSlot).isSome from by
      decide +kernel)
  have hbefore : (run (nodeStep (dispatcher 3)) (initialNode 1 3 3 100) twoWaitForOneSlot).map
      (fun n => ((nodeStep (dispatcher 3) n (.unassign 0)).isSome, held n.ctl n.states 1)) =
      some (true, none) := by
    decide +kernel
  rw [hrun, Option.map_some, Option.some.injEq, Prod.mk.injEq] at hbefore
  obtain ⟨n', hstep⟩ := Option.isSome_iff_exists.mp hbefore.1
  have hafter : (run (nodeStep (dispatcher 3)) (initialNode 1 3 3 100) twoWaitForOneSlot).map
      (fun n => (nodeStep (dispatcher 3) n (.unassign 0)).map fun n' =>
        (n'.ctl.resSlot 1, held n'.ctl n'.states 1)) = some (some (some 0, some 0)) := by
    decide +kernel
  rw [hrun, Option.map_some, hstep, Option.map_some, Option.some.injEq, Option.some.injEq,
    Prod.mk.injEq] at hafter
  obtain ⟨hplace, hgrant⟩ := admission (dispatcher 3) (by decide +kernel) hrun
  obtain ⟨i, hi, hlock, hwithin⟩ := hgrant (.unassign 0) n' rfl hstep 1 0 hafter.2
    (by rw [hbefore.2]; exact nofun)
  refine ⟨n, n', hrun, hstep, hplace, hafter.1, hbefore.2, i, hi, hlock,
    (hwithin rfl).2.resolve_left fun hjoins => ?_⟩
  obtain ⟨q', hse, hq', -⟩ := hjoins
  rw [show q' = 1 from hse, hbefore.2] at hq'
  cases hq'

/-- A DROP has locked the group, a session waits for it, and an ALTER commits. -/
def alterWhenLocked : List (Action 1 1) :=
  [.createGroup 1 (quotaCaps 1 50 fifty_le_hundred), .createFinish 1 true, .checkForDrop 1,
    .acquireSlot 0 0 1, .alter 1 (.concurrency 2)]

/-- The waiter is granted a slot in the locked group, and the DROP removes the group with the slot
in use. -/
theorem granted_when_locked :
    ∃ n n' : Node 1 1 1,
      run (nodeStep (dispatcher 1)) (initialNode 1 1 1 100) alterWhenLocked = some n ∧
      n.ctl.resSlot 0 = some 0 ∧ (0 : Fin 1) ∈ slotsIn n.ctl 0 ∧
      (n.ctl.groups 0).lockedForDrop = true ∧ ¬ SlotsInPlace (dispatcher 1) n ∧
      nodeStep (dispatcher 1) n (.dropFinish 1 true) = some n' ∧
      (n'.ctl.groups 0).groupId = none ∧ (0 : Fin 1) ∈ slotsIn n'.ctl 0 ∧
      ¬ SlotsInPlace (dispatcher 1) n' := by
  obtain ⟨n, hrun⟩ := Option.isSome_iff_exists.mp
    (show (run (nodeStep (dispatcher 1)) (initialNode 1 1 1 100) alterWhenLocked).isSome from by
      decide +kernel)
  have hbefore : (run (nodeStep (dispatcher 1)) (initialNode 1 1 1 100) alterWhenLocked).map
      (fun n => ((nodeStep (dispatcher 1) n (.dropFinish 1 true)).isSome, n.ctl.resSlot 0,
        (n.ctl.slots 0).group, (n.ctl.groups 0).lockedForDrop)) =
      some (true, some 0, some 0, true) := by
    decide +kernel
  rw [hrun, Option.map_some, Option.some.injEq, Prod.mk.injEq, Prod.mk.injEq, Prod.mk.injEq]
    at hbefore
  obtain ⟨hsome, hres, hslot, hlock⟩ := hbefore
  obtain ⟨n', hstep⟩ := Option.isSome_iff_exists.mp hsome
  have hafter : (run (nodeStep (dispatcher 1)) (initialNode 1 1 1 100) alterWhenLocked).map
      (fun n => (nodeStep (dispatcher 1) n (.dropFinish 1 true)).map fun n' =>
        ((n'.ctl.groups 0).groupId, (n'.ctl.slots 0).group)) = some (some (none, some 0)) := by
    decide +kernel
  rw [hrun, Option.map_some, hstep, Option.map_some, Option.some.injEq, Option.some.injEq,
    Prod.mk.injEq] at hafter
  refine ⟨n, n', hrun, hres, mem_slotsIn.mpr hslot, hlock, fun h => ?_, hstep, hafter.1,
    mem_slotsIn.mpr hafter.2, fun h => ?_⟩
  · have hempty := h.locked 0 hlock
    exact Finset.notMem_empty 0 (hempty ▸ mem_slotsIn.mpr hslot)
  · have hempty := h.dropped 0 hafter.1
    exact Finset.notMem_empty 0 (hempty ▸ mem_slotsIn.mpr hafter.2)

end Hdb.ResGroup
