import Hdb.ResGroup.AdmissionSteps
import Hdb.ResGroup.WaitersServed

/-!
# Resource groups: admission, one process at a time

The parts of the calls that concern the process itself: it joins and leaves a queue, takes a slot
that was granted to it, attaches to it and leaves it. Each is an instance of `SlotsHeld.move`.
-/

namespace Hdb.ResGroup

open ResGroupControl

variable {g s p : ℕ} {c c' : ResGroupControl g s p} {i j : Fin g} {x y : Fin s} {q : Fin p}
  {cfg : NodeConfig p} {st : Fin p → SelfState g s} {session : Fin p → Fin p}
  {orphan : Option (Fin s)} {new : SelfState g s}

theorem held_update_self (c : ResGroupControl g s p) (st : Fin p → SelfState g s) (q : Fin p)
    (new : SelfState g s) :
    held c (Function.update st q new) q =
      match new with
      | .acquired _ x => some x
      | .assigned _ x => some x
      | .awaiting _ => c.resSlot q
      | .idle => none
      | .bypassed _ _ => none := by
  cases new <;> simp only [held, Function.update_self]

theorem nProcs_update (h : SlotsHeld session orphan c st)
    (hnew : ∀ x, (st q).isAssignedTo x = new.isAssignedTo x) (x : Fin s) :
    (c.slots x).nProcs = (attachedTo (Function.update st q new) x).card := by
  rw [attachedTo_update st q new x (hnew x)]
  exact h.nProcs x

/-- A process that is in no group stays outside, in bypass mode or not. -/
theorem SlotsHeld.outside (h : SlotsHeld session orphan c st) (hq : (st q).isOutside = true)
    (hnew : new.isOutside = true) : SlotsHeld session orphan c (Function.update st q new) := by
  have hbefore := held_of_outside c hq
  have hafter : held c (Function.update st q new) q = none :=
    held_of_outside c (by rw [Function.update_self]; exact hnew)
  have hassigned (x : Fin s) : (st q).isAssignedTo x = new.isAssignedTo x := by
    rw [isAssignedTo_of_outside hq, isAssignedTo_of_outside hnew]
  refine h.move (q := q) ⟨fun q' hq' => Function.update_of_ne hq' .., fun _ _ => rfl,
    fun _ _ => rfl, fun _ => rfl⟩ ?_ ?_ ?_ ?_ ?_ (nProcs_update h hassigned) ?_ h.waitNodup
    (h.session_update fun x => isAssignedTo_of_outside hq x)
  · intro x hx
    rw [h.resSlot_of_not_awaiting (ne_awaiting_of_outside hq)] at hx
    cases hx
  · intro k x hx
    rw [Function.update_self] at hx
    obtain rfl | rfl := hx
    all_goals cases hnew
  · intro x q' _ hx
    rw [hafter] at hx
    cases hx
  · intro x hx ho
    obtain ⟨q', hq'⟩ := h.kept x hx ho
    refine .inr ⟨q', fun heq => ?_, hq'⟩
    rw [heq, hbefore] at hq'
    cases hq'
  · intro x hx
    rw [hafter]
    exact ⟨nofun, fun q' _ => h.unheld x hx q'⟩
  · intro k q' hq'
    refine .inl ⟨fun heq => ?_, hq'⟩
    exact h.not_mem_of_not_awaiting (ne_awaiting_of_outside hq) k (heq ▸ hq')

/-- The slot that has been taken goes to a process that asked for it. -/
theorem SlotsHeld.acquire (h : SlotsHeld session (some x) c st) (hq : (st q).isOutside = true)
    (hx : (c.slots x).group = some i) :
    SlotsHeld session none c (Function.update st q (.acquired i x)) := by
  have hbefore := held_of_outside c hq
  have hafter : held c (Function.update st q (.acquired i x)) q = some x := held_update_self ..
  refine h.move (q := q) ⟨fun q' hq' => Function.update_of_ne hq' .., fun _ _ => rfl,
    fun _ _ => rfl, fun _ => rfl⟩ ?_ ?_ ?_ ?_ (fun y hy => nomatch hy)
    (nProcs_update h fun y => isAssignedTo_of_outside hq y) ?_ h.waitNodup
    (h.session_update fun y => isAssignedTo_of_outside hq y)
  · intro y hy
    rw [h.resSlot_of_not_awaiting (ne_awaiting_of_outside hq)] at hy
    cases hy
  · intro k y hy
    rw [Function.update_self] at hy
    obtain hy | hy := hy
    · cases hy
      exact hx
    · cases hy
  · intro y q' _ hy hy'
    rw [hafter] at hy
    cases hy
    exact absurd hy' (h.unheld x rfl q')
  · intro y hy _
    by_cases hyx : y = x
    · rw [hyx]
      exact .inl hafter
    · obtain ⟨q', hq'⟩ := h.kept y hy fun heq => hyx (Option.some.inj heq).symm
      refine .inr ⟨q', fun heq => ?_, hq'⟩
      rw [heq, hbefore] at hq'
      cases hq'
  · intro k q' hq'
    refine .inl ⟨fun heq => ?_, hq'⟩
    exact h.not_mem_of_not_awaiting (ne_awaiting_of_outside hq) k (heq ▸ hq')

/-- The process joins the queue of the group. -/
theorem SlotsHeld.enqueue (h : SlotsHeld session orphan c st) (hq : (st q).isOutside = true)
    (i : Fin g) :
    SlotsHeld session orphan (groupWaitQueuePush c i q) (Function.update st q (.awaiting i)) := by
  have hbefore := held_of_outside c hq
  have hres := h.resSlot_of_not_awaiting (ne_awaiting_of_outside hq)
  have hafter : held (groupWaitQueuePush c i q) (Function.update st q (.awaiting i)) q = none := by
    rw [held_update_self]
    exact hres
  have hnotin := h.not_mem_of_not_awaiting (ne_awaiting_of_outside hq)
  refine h.move (q := q) ⟨fun q' hq' => Function.update_of_ne hq' .., fun _ _ => rfl,
    fun q' hq' => Function.update_of_ne hq' .., fun _ => rfl⟩ ?_ ?_ ?_ ?_ ?_
    (fun y => nProcs_update h (fun z => isAssignedTo_of_outside hq z) y) ?_ ?_
    (h.session_update fun y => isAssignedTo_of_outside hq y)
  · intro y hy
    exact absurd (hres.symm.trans hy) nofun
  · intro k y hy
    rw [Function.update_self] at hy
    exact hy.elim (fun h => nomatch h) fun h => nomatch h
  · intro y q' _ hy
    rw [hafter] at hy
    cases hy
  · intro y hy ho
    obtain ⟨q', hq'⟩ := h.kept y hy ho
    refine .inr ⟨q', fun heq => ?_, hq'⟩
    rw [heq, hbefore] at hq'
    cases hq'
  · intro y hy
    rw [hafter]
    exact ⟨nofun, fun q' _ => h.unheld y hy q'⟩
  · intro k q' hq'
    by_cases hki : k = i
    · rw [hki, groupWaitQueuePush_group, List.mem_append, List.mem_singleton] at hq'
      obtain hmem | heq := hq'
      · exact .inl ⟨fun heq => hnotin i (heq ▸ hmem), hki ▸ hmem⟩
      · refine .inr ⟨heq, ?_, Function.update_self ..⟩
        rw [Function.update_self, hki]
    · rw [(groupWaitQueuePush_step c i q).other k hki] at hq'
      exact .inl ⟨fun heq => hnotin k (heq ▸ hq'), hq'⟩
  · intro k
    by_cases hki : k = i
    · rw [hki, groupWaitQueuePush_group]
      exact List.nodup_append.mpr ⟨h.waitNodup i, List.nodup_singleton q, fun a ha b hb => by
        rw [List.mem_singleton] at hb
        rintro rfl
        exact hnotin i (hb ▸ ha)⟩
    · rw [(groupWaitQueuePush_step c i q).other k hki]
      exact h.waitNodup k

/-- A waiter that has been woken up has left its queue. -/
theorem SlotsHeld.not_mem_of_woken (h : SlotsHeld session orphan c st)
    (hq : c.procIsWaiting q = false) (i : Fin g) : q ∉ (c.groups i).waitProcs := by
  intro hmem
  exact absurd ((h.waiting i q hmem).2.symm.trans hq) nofun

theorem isAssignedTo_of_awaiting (h : st q = .awaiting i) (x : Fin s) :
    (st q).isAssignedTo x = false := by
  rw [h]
  rfl

/-- The waiter takes what it has been granted: the slot, or nothing. -/
theorem SlotsHeld.awake (h : SlotsHeld session orphan c st) (hst : st q = .awaiting i)
    (hw : c.procIsWaiting q = false) :
    SlotsHeld session orphan { c with resSlot := Function.update c.resSlot q none }
      (Function.update st q
        (match c.resSlot q with
        | some x => .acquired i x
        | none => .idle)) := by
  have hbefore : held c st q = c.resSlot q := by rw [held, hst]
  have hafter : held { c with resSlot := Function.update c.resSlot q none }
      (Function.update st q
        (match c.resSlot q with
        | some x => .acquired i x
        | none => .idle)) q = c.resSlot q := by
    rw [held_update_self]
    cases c.resSlot q <;> rfl
  have hassigned (x : Fin s) : (st q).isAssignedTo x =
      (match c.resSlot q with
        | some x => SelfState.acquired (s := s) i x
        | none => .idle).isAssignedTo x := by
    rw [isAssignedTo_of_awaiting hst]
    cases c.resSlot q <;> rfl
  refine h.move (q := q) ⟨fun q' hq' => Function.update_of_ne hq' ..,
    fun q' hq' => Function.update_of_ne hq' .., fun _ _ => rfl, fun _ => rfl⟩ ?_ ?_ ?_ ?_ ?_
    (fun y => nProcs_update h hassigned y) ?_ h.waitNodup
    (h.session_update fun y => isAssignedTo_of_awaiting hst y)
  · intro x hx
    change Function.update c.resSlot q none q = some x at hx
    rw [Function.update_self] at hx
    cases hx
  · intro k x hx
    rw [Function.update_self] at hx
    cases hres : c.resSlot q with
    | none =>
      rw [hres] at hx
      obtain hx | hx := hx <;> cases hx
    | some y =>
      rw [hres] at hx
      obtain hx | hx := hx
      · cases hx
        obtain ⟨l, hl, -, hgroup⟩ := h.granted q x hres
        rw [hst] at hl
        cases hl
        exact hgroup
      · cases hx
  · intro x q' hq' hx hx'
    rw [hafter, ← hbefore] at hx
    obtain heq | ⟨ha, -⟩ := h.exclusive q q' x hx hx'
    · exact absurd heq.symm hq'
    · rw [isAssignedTo_of_awaiting hst] at ha
      cases ha
  · intro x hx ho
    obtain ⟨q', hq'⟩ := h.kept x hx ho
    by_cases hqq : q' = q
    · rw [hqq, hbefore] at hq'
      exact .inl (hafter.trans hq')
    · exact .inr ⟨q', hqq, hq'⟩
  · intro x hx
    refine ⟨fun hq => h.unheld x hx q ?_, fun q' _ => h.unheld x hx q'⟩
    rw [hbefore, ← hafter]
    exact hq
  · intro k q' hq'
    exact .inl ⟨fun heq => h.not_mem_of_woken hw k (heq ▸ hq'), hq'⟩

/-- The process leaves the queue without a slot. -/
theorem SlotsHeld.dequeue (h : SlotsHeld session orphan c st) (hst : st q = .awaiting i)
    (hw : c.procIsWaiting q = true) :
    SlotsHeld session orphan (groupWaitQueueErase c i q) (Function.update st q .idle) := by
  have hres := h.resSlot_of_waiting hw
  have hbefore : held c st q = none := by
    rw [held, hst]
    exact hres
  refine h.move (q := q) ⟨fun q' hq' => Function.update_of_ne hq' .., fun _ _ => rfl,
    fun q' hq' => Function.update_of_ne hq' .., fun _ => rfl⟩ ?_ ?_ ?_ ?_ ?_
    (fun y => nProcs_update h (fun z => isAssignedTo_of_awaiting hst z) y) ?_ ?_
    (h.session_update fun y => isAssignedTo_of_awaiting hst y)
  · intro x hx
    cases hres.symm.trans hx
  · intro k x hx
    rw [Function.update_self] at hx
    obtain hx | hx := hx <;> cases hx
  · intro x q' _ hx
    rw [held_update_self] at hx
    cases hx
  · intro x hx ho
    obtain ⟨q', hq'⟩ := h.kept x hx ho
    refine .inr ⟨q', fun heq => ?_, hq'⟩
    rw [heq, hbefore] at hq'
    cases hq'
  · intro x hx
    rw [held_update_self]
    exact ⟨by simp, fun q' _ => h.unheld x hx q'⟩
  · intro k q' hq'
    by_cases hki : k = i
    · rw [hki, groupWaitQueueErase_group, List.Nodup.mem_erase_iff (h.waitNodup i)] at hq'
      exact .inl ⟨hq'.1, hki ▸ hq'.2⟩
    · rw [(groupWaitQueueErase_step c i q).other k hki] at hq'
      refine .inl ⟨fun heq => ?_, hq'⟩
      have hother := (h.waiting k q' hq').1
      rw [heq, hst] at hother
      cases hother
      exact hki rfl
  · intro k
    by_cases hki : k = i
    · rw [hki, groupWaitQueueErase_group]
      exact (h.waitNodup i).erase q
    · rw [(groupWaitQueueErase_step c i q).other k hki]
      exact h.waitNodup k

theorem attachedTo_insert (st : Fin p → SelfState g s) (q : Fin p) (i : Fin g) (x : Fin s) :
    attachedTo (Function.update st q (.assigned i x)) x = insert q (attachedTo st x) := by
  ext q'
  rw [mem_attachedTo, Finset.mem_insert, mem_attachedTo]
  by_cases hq' : q' = q
  · rw [hq', Function.update_self]
    simp [SelfState.isAssignedTo]
  · rw [Function.update_of_ne hq']
    simp [hq']

theorem attachedTo_erase (st : Fin p → SelfState g s) (q : Fin p) (x : Fin s) :
    attachedTo (Function.update st q .idle) x = (attachedTo st x).erase q := by
  ext q'
  rw [mem_attachedTo, Finset.mem_erase, mem_attachedTo]
  by_cases hq' : q' = q
  · rw [hq', Function.update_self]
    simp [SelfState.isAssignedTo]
  · rw [Function.update_of_ne hq']
    simp [hq']

/-- The control after `nProcs` of the slot has changed and the session has it. -/
def withProcs (c : ResGroupControl g s p) (x : Fin s) (n : ℤ) (se : Fin p) (r : Option (Fin s)) :
    ResGroupControl g s p :=
  { c.setSlot x { c.slots x with nProcs := n } with
    resGroupSlot := Function.update c.resGroupSlot se r }

theorem withProcs_slot_self (c : ResGroupControl g s p) (x : Fin s) (n : ℤ) (se : Fin p)
    (r : Option (Fin s)) : (withProcs c x n se r).slots x = { c.slots x with nProcs := n } :=
  Function.update_self ..

theorem withProcs_slot_of_ne (c : ResGroupControl g s p) (n : ℤ) (se : Fin p)
    (r : Option (Fin s)) (hy : y ≠ x) : (withProcs c x n se r).slots y = c.slots y :=
  Function.update_of_ne hy ..

theorem withProcs_group (c : ResGroupControl g s p) (x : Fin s) (n : ℤ) (se : Fin p)
    (r : Option (Fin s)) (y : Fin s) :
    ((withProcs c x n se r).slots y).group = (c.slots y).group := by
  by_cases hy : y = x
  · rw [hy, withProcs_slot_self]
  · rw [withProcs_slot_of_ne _ _ _ _ hy]

/-- **The process attaches to a slot**: the one it acquired, the one of its session, or one that has
just been taken. -/
theorem SlotsHeld.attach (h : SlotsHeld session orphan c st) (hx : (c.slots x).group = some i)
    (ho : orphan = none ∨ orphan = some x) (hnot : ∀ y, (st q).isAssignedTo y = false)
    (hawait : ∀ k, st q ≠ .awaiting k) (hmine : ∀ y, held c st q = some y → y = x)
    (hothers : ∀ q', q' ≠ q → held c st q' = some x →
      (st q').isAssignedTo x = true ∧ session q = session q') :
    SlotsHeld session none
      (withProcs c x ((c.slots x).nProcs + 1) (session q) (some x))
      (Function.update st q (.assigned i x)) := by
  have hafter : held (withProcs c x ((c.slots x).nProcs + 1) (session q) (some x))
      (Function.update st q (.assigned i x)) q = some x := held_update_self ..
  have hnotin : q ∉ attachedTo st x := by
    rw [mem_attachedTo, hnot]
    exact nofun
  refine h.move (q := q) ⟨fun q' hq' => Function.update_of_ne hq' .., fun _ _ => rfl,
    fun _ _ => rfl, withProcs_group c x _ _ _⟩ ?_ ?_ ?_ ?_ (fun y hy => nomatch hy) ?_ ?_
    h.waitNodup ?_
  · intro y hy
    exact absurd ((h.resSlot_of_not_awaiting hawait).symm.trans hy) nofun
  · intro k y hy
    rw [Function.update_self] at hy
    obtain hy | hy := hy
    · cases hy
    · cases hy
      exact hx
  · intro y q' hq' hy hy'
    rw [hafter] at hy
    cases hy
    refine ⟨?_, hothers q' hq' hy'⟩
    rw [Function.update_self]
    exact decide_eq_true rfl
  · intro y hy _
    by_cases hyx : y = x
    · rw [hyx]
      exact .inl hafter
    · obtain ⟨q', hq'⟩ := h.kept y hy fun heq => by
        obtain ho | ho := ho
        · rw [ho] at heq
          cases heq
        · rw [ho] at heq
          exact hyx (Option.some.inj heq).symm
      exact .inr ⟨q', fun heq => hyx (hmine y (heq ▸ hq')), hq'⟩
  · intro y
    by_cases hyx : y = x
    · rw [hyx, withProcs_slot_self, attachedTo_insert, Finset.card_insert_of_notMem hnotin]
      dsimp only
      rw [h.nProcs x]
      exact (Int.natCast_succ _).symm
    · rw [withProcs_slot_of_ne _ _ _ _ hyx, attachedTo_update]
      · exact h.nProcs y
      · rw [hnot]
        exact (decide_eq_false fun heq => hyx heq.symm).symm
  · intro k q' hq'
    exact .inl ⟨fun heq => h.not_mem_of_not_awaiting hawait k (heq ▸ hq'), hq'⟩
  · intro se y hse
    by_cases hq : se = session q
    · rw [hq] at hse ⊢
      change Function.update c.resGroupSlot (session q) (some x) (session q) = some y at hse
      rw [Function.update_self] at hse
      cases hse
      refine ⟨q, rfl, ?_⟩
      rw [Function.update_self]
      exact decide_eq_true rfl
    · change Function.update c.resGroupSlot (session q) (some x) se = some y at hse
      rw [Function.update_of_ne hq] at hse
      exact h.session_update hnot se y hse

/-- A process leaves a slot that others of its session are attached to. -/
theorem SlotsHeld.leaveShared {q' : Fin p} (h : SlotsHeld session none c st)
    (hst : st q = .assigned i x) (hq' : q' ≠ q) (hother : (st q').isAssignedTo x = true) :
    SlotsHeld session none
      (c.setSlot x { c.slots x with nProcs := (c.slots x).nProcs - 1 })
      (Function.update st q .idle) := by
  have hbefore : held c st q = some x := by rw [held, hst]
  have hq'held : held c st q' = some x := by
    obtain ⟨k, hk⟩ := isAssignedTo_iff.mp hother
    rw [held, hk]
  have hsession : session q = session q' := by
    obtain heq | ⟨-, -, hs⟩ := h.exclusive q q' x hbefore hq'held
    · exact absurd heq.symm hq'
    · exact hs
  have hawait (k : Fin g) : st q ≠ .awaiting k := by
    rw [hst]
    simp
  have hgroup (y : Fin s) : ((c.setSlot x { c.slots x with
      nProcs := (c.slots x).nProcs - 1 }).slots y).group = (c.slots y).group := by
    by_cases hy : y = x
    · rw [hy, setSlot_slots_self]
    · rw [setSlot_slots_of_ne _ _ hy]
  have hmem : q ∈ attachedTo st x := by
    rw [mem_attachedTo, hst]
    exact decide_eq_true rfl
  refine h.move (q := q) ⟨fun q' hq' => Function.update_of_ne hq' .., fun _ _ => rfl,
    fun _ _ => rfl, hgroup⟩ ?_ ?_ ?_ ?_ (by simp) ?_ ?_ h.waitNodup ?_
  · intro y hy
    cases (h.resSlot_of_not_awaiting hawait).symm.trans hy
  · intro k y hy
    rw [Function.update_self] at hy
    obtain hy | hy := hy <;> cases hy
  · intro y q1 _ hy
    rw [held_update_self] at hy
    cases hy
  · intro y hy ho
    obtain ⟨q1, hq1⟩ := h.kept y hy ho
    by_cases hqq : q1 = q
    · rw [hqq, hbefore] at hq1
      cases hq1
      exact .inr ⟨q', hq', hq'held⟩
    · exact .inr ⟨q1, hqq, hq1⟩
  · intro y
    rw [attachedTo_erase]
    by_cases hyx : y = x
    · have hpos : 0 < (attachedTo st x).card := Finset.card_pos.mpr ⟨q, hmem⟩
      rw [hyx, setSlot_slots_self, Finset.card_erase_of_mem hmem]
      dsimp only
      rw [h.nProcs x]
      omega
    · have hnotin : q ∉ attachedTo st y := by
        rw [mem_attachedTo, hst]
        simp only [SelfState.isAssignedTo, decide_eq_true_eq]
        exact fun heq => hyx heq.symm
      rw [setSlot_slots_of_ne _ _ hyx, Finset.erase_eq_of_notMem hnotin]
      exact h.nProcs y
  · intro k q1 hq1
    exact .inl ⟨fun heq => h.not_mem_of_not_awaiting hawait k (heq ▸ hq1), hq1⟩
  · intro se y hse
    obtain ⟨q1, hs, ha⟩ := h.session se y hse
    by_cases hqq : q1 = q
    · rw [hqq, hst] at ha
      have hyx : x = y := of_decide_eq_true ha
      refine ⟨q', ?_, ?_⟩
      · rw [← hsession, ← hqq]
        exact hs
      · rw [Function.update_of_ne hq', ← hyx]
        exact hother
    · exact ⟨q1, hs, by rw [Function.update_of_ne hqq]; exact ha⟩

/-- The last process leaves a slot. -/
theorem SlotsHeld.leaveLast (h : SlotsHeld session none c st) (hst : st q = .assigned i x)
    (hlast : ∀ q', q' ≠ q → (st q').isAssignedTo x = false) :
    SlotsHeld session (some x) (withProcs c x 0 (session q) none)
      (Function.update st q .idle) := by
  have hbefore : held c st q = some x := by rw [held, hst]
  have hawait (k : Fin g) : st q ≠ .awaiting k := by
    rw [hst]
    simp
  have hother {q' : Fin p} (hq' : q' ≠ q) : held c st q' ≠ some x := by
    intro hx
    obtain heq | ⟨-, ha, -⟩ := h.exclusive q q' x hbefore hx
    · exact hq' heq.symm
    · rw [hlast q' hq'] at ha
      cases ha
  refine h.move (q := q) ⟨fun q' hq' => Function.update_of_ne hq' .., fun _ _ => rfl,
    fun _ _ => rfl, withProcs_group c x _ _ _⟩ ?_ ?_ ?_ ?_ ?_ ?_ ?_ h.waitNodup ?_
  · intro y hy
    cases (h.resSlot_of_not_awaiting hawait).symm.trans hy
  · intro k y hy
    rw [Function.update_self] at hy
    obtain hy | hy := hy <;> cases hy
  · intro y q1 _ hy
    rw [held_update_self] at hy
    cases hy
  · intro y hy ho
    obtain ⟨q1, hq1⟩ := h.kept y hy (by simp)
    refine .inr ⟨q1, fun heq => ho ?_, hq1⟩
    rw [heq, hbefore] at hq1
    exact hq1
  · intro y hy
    cases hy
    rw [held_update_self]
    exact ⟨by simp, fun q' hq' => hother hq'⟩
  · intro y
    rw [attachedTo_erase]
    by_cases hyx : y = x
    · have hempty : (attachedTo st x).erase q = ∅ := by
        refine Finset.eq_empty_of_forall_notMem fun q' hq' => ?_
        rw [Finset.mem_erase, mem_attachedTo] at hq'
        cases hq'.2.symm.trans (hlast q' hq'.1)
      rw [hyx, withProcs_slot_self, hempty]
      rfl
    · have hnotin : q ∉ attachedTo st y := by
        rw [mem_attachedTo, hst]
        simp only [SelfState.isAssignedTo, decide_eq_true_eq]
        exact fun heq => hyx heq.symm
      rw [withProcs_slot_of_ne _ _ _ _ hyx, Finset.erase_eq_of_notMem hnotin]
      exact h.nProcs y
  · intro k q1 hq1
    exact .inl ⟨fun heq => h.not_mem_of_not_awaiting hawait k (heq ▸ hq1), hq1⟩
  · intro se y hse
    change Function.update c.resGroupSlot (session q) none se = some y at hse
    by_cases hq : se = session q
    · rw [hq, Function.update_self] at hse
      cases hse
    · rw [Function.update_of_ne hq] at hse
      obtain ⟨q1, hs, ha⟩ := h.session se y hse
      refine ⟨q1, hs, ?_⟩
      rw [Function.update_of_ne]
      · exact ha
      · rintro rfl
        exact hq hs.symm

/-- A waiter that has been granted a slot gives it up. -/
theorem SlotsHeld.giveUp (h : SlotsHeld session none c st) (hst : st q = .awaiting i)
    (hres : c.resSlot q = some x) :
    SlotsHeld session (some x)
      { c with
        resSlot := Function.update c.resSlot q none
        resGroupSlot := Function.update c.resGroupSlot (session q) none }
      (Function.update st q .idle) := by
  have hbefore : held c st q = some x := by
    rw [held, hst]
    exact hres
  obtain ⟨-, -, hw, -⟩ := h.granted q x hres
  refine h.move (q := q) ⟨fun q' hq' => Function.update_of_ne hq' ..,
    fun q' hq' => Function.update_of_ne hq' .., fun _ _ => rfl, fun _ => rfl⟩ ?_ ?_ ?_ ?_ ?_
    (fun y => nProcs_update h (fun z => isAssignedTo_of_awaiting hst z) y) ?_ h.waitNodup ?_
  · intro y hy
    change Function.update c.resSlot q none q = some y at hy
    rw [Function.update_self] at hy
    cases hy
  · intro k y hy
    rw [Function.update_self] at hy
    obtain hy | hy := hy <;> cases hy
  · intro y q1 _ hy
    rw [held_update_self] at hy
    cases hy
  · intro y hy ho
    obtain ⟨q1, hq1⟩ := h.kept y hy (by simp)
    refine .inr ⟨q1, fun heq => ho ?_, hq1⟩
    rw [heq, hbefore] at hq1
    exact hq1
  · intro y hy
    cases hy
    rw [held_update_self]
    refine ⟨by simp, fun q' hq' hx => ?_⟩
    obtain heq | ⟨ha, -⟩ := h.exclusive q q' x hbefore hx
    · exact hq' heq.symm
    · rw [isAssignedTo_of_awaiting hst] at ha
      cases ha
  · intro k q1 hq1
    exact .inl ⟨fun heq => h.not_mem_of_woken hw k (heq ▸ hq1), hq1⟩
  · intro se y hse
    change Function.update c.resGroupSlot (session q) none se = some y at hse
    by_cases hq : se = session q
    · rw [hq, Function.update_self] at hse
      cases hse
    · rw [Function.update_of_ne hq] at hse
      exact h.session_update (fun z => isAssignedTo_of_awaiting hst z) se y hse

end Hdb.ResGroup
