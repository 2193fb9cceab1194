import Hdb.Dtx.CommittedTest

/-!
# The horizon of all snapshots

`xminAllDistributedSnapshots` of a snapshot tells a segment which transactions no snapshot still
in use can see as in progress. It must not exceed the `xmin` of any of them.

Everything rests on two facts about a number `x` that was once the `xmin` of a snapshot. It is
*low*: it never exceeds the latest completed id plus one, nor the id of a running transaction,
and stays so in all later states (`Low`). And as long as no transaction ends it is *tight*: it
is the latest completed id plus one or the id of a running transaction (`Tight`). A scan that
missed a snapshot published meanwhile has overlapped with it, so nothing has ended in between;
its own `xmin` is low, that of the other snapshot is tight, and the first is at most the second.

Main results: `TmInv`, an invariant of every run, and `xminAll_le_live`.
-/

namespace Hdb.Dtx

variable {B : Type} {cfg : TmConfig B} {st st' : TmState B} {b : B}

/-! ## The steps -/

section Steps

variable [DecidableEq B]

theorem currentDtxActivate_eq (h : currentDtxActivate st b = some st') :
    st.scan b = none ∧ (st.gxact b).gxid = 0 ∧ st' = { st with
      shmGIDSeq := st.shmGIDSeq + 1
      gxact := Function.update st.gxact b { st.gxact b with gxid := st.shmGIDSeq + 1 }
      started := (st.shmGIDSeq + 1, b) :: st.started } := by
  unfold currentDtxActivate at h
  split_ifs at h with h₁ h₂
  push Not at h₁
  simp only [Option.isSome_iff_ne_none, ne_eq, not_not] at h₁
  exact ⟨h₁.1, h₁.2, (Option.some.inj h).symm⟩

theorem beginSnapshot_eq (h : beginSnapshot cfg st b = some st') :
    st.scan b = none ∧ st' = { st with
      scan := Function.update st.scan b (some ⟨cfg.procs, st.latestCompletedDxid + 1,
        st.latestCompletedDxid + 1, st.latestCompletedDxid + 1, []⟩) } := by
  unfold beginSnapshot at h
  split_ifs at h with h₁
  exact ⟨by simpa using h₁, (Option.some.inj h).symm⟩

theorem readSlot_eq (h : readSlot cfg st b = some st') :
    ∃ sc p todo, st.scan b = some sc ∧ sc.todo = p :: todo ∧ st' = { st with
      scan := Function.update st.scan b
        (scanSlot cfg.maxCount b p (st.gxact p) { sc with todo := todo }) } := by
  unfold readSlot at h
  cases hs : st.scan b with
  | none => simp [hs] at h
  | some sc =>
    cases ht : sc.todo with
    | nil => simp [hs, ht] at h
    | cons p todo =>
      simp only [hs, ht, Option.some.injEq] at h
      exact ⟨sc, p, todo, rfl, ht, h.symm⟩

theorem endSnapshot_eq (h : endSnapshot cfg st b = some st') :
    ∃ sc, st.scan b = some sc ∧ sc.todo = [] ∧ st' = publishSnapshot cfg st b sc := by
  unfold endSnapshot at h
  cases hs : st.scan b with
  | none => simp [hs] at h
  | some sc =>
    by_cases ht : sc.todo = []
    · simp only [hs, ht, if_true, Option.some.injEq] at h
      exact ⟨sc, rfl, ht, h.symm⟩
    · simp [hs, ht] at h

theorem gxid_publish (cfg : TmConfig B) (st : TmState B) (b : B) (sc : Scan B) (q : B) :
    ((publishSnapshot cfg st b sc).gxact q).gxid = (st.gxact q).gxid := by
  simp only [publishSnapshot]
  split_ifs
  · by_cases hqb : q = b
    · subst hqb; simp
    · simp [Function.update_of_ne hqb]
  · rfl

theorem xmin_publish (cfg : TmConfig B) (st : TmState B) (b : B) (sc : Scan B) (q : B) :
    ((publishSnapshot cfg st b sc).gxact q).xminDistributedSnapshot =
      if q = b ∧ (st.gxact b).xminDistributedSnapshot = 0 then sc.xmin
      else (st.gxact q).xminDistributedSnapshot := by
  simp only [publishSnapshot]
  by_cases hc : (st.gxact b).xminDistributedSnapshot = 0
  · by_cases hqb : q = b
    · subst hqb; simp [hc]
    · simp [hc, hqb]
  · simp [hc]

/-- What `ProcArrayEndGxact` makes of the latest completed id. -/
def latestAfter (st : TmState B) (b : B) : Nat :=
  if (st.gxact b).gxid ≠ 0 ∧ transactionIdPrecedes st.latestCompletedDxid (st.gxact b).gxid = true
  then (st.gxact b).gxid else st.latestCompletedDxid

theorem procArrayEndGxact_eq (h : procArrayEndGxact cfg st b = some st') :
    lockFree cfg st = true ∧
      st' = resetGxact { st with latestCompletedDxid := latestAfter st b } b := by
  unfold procArrayEndGxact at h
  split_ifs at h with h₁
  exact ⟨h₁, (Option.some.inj h).symm⟩

theorem gxact_reset (st : TmState B) (b q : B) :
    (resetGxact st b).gxact q = if q = b then ⟨0, 0⟩ else st.gxact q := by
  simp only [resetGxact, Function.update_apply]

/-- **What reading a slot does to the locals of a scan.** -/
theorem scanSlot_spec {maxCount : Nat} {p : B} {slot : TmGxact} {sc sc' : Scan B}
    (h : scanSlot maxCount b p slot sc = some sc') :
    sc'.todo = sc.todo ∧
    sc'.globalXminDistributedSnapshots =
      (if slot.xminDistributedSnapshot ≠ 0 ∧
          slot.xminDistributedSnapshot < sc.globalXminDistributedSnapshots
        then slot.xminDistributedSnapshot else sc.globalXminDistributedSnapshots) ∧
    sc'.xmin = (if slot.gxid ≠ 0 ∧ slot.gxid < sc.xmin then slot.gxid else sc.xmin) ∧
    sc'.xmax = (if slot.gxid ≠ 0 ∧ sc.xmax < slot.gxid then slot.gxid else sc.xmax) ∧
    sc'.inProgress = (if slot.gxid ≠ 0 ∧ p ≠ b then sc.inProgress ++ [slot.gxid]
      else sc.inProgress) := by
  simp only [scanSlot, invalidDistributedTransactionId] at h
  by_cases hg : slot.gxid = 0
  · rw [if_pos hg, Option.some.injEq] at h
    subst h
    simp [hg]
  · rw [if_neg hg] at h
    by_cases hp : p = b
    · rw [if_pos hp, Option.some.injEq] at h
      subst h
      simp [hg, hp]
    · rw [if_neg hp] at h
      by_cases hc : maxCount ≤ sc.inProgress.length
      · simp [hc] at h
      · rw [if_neg hc, Option.some.injEq] at h
        subst h
        simp [hg, hp]

end Steps

/-! ## The invariant -/

/-- At most the latest completed id plus one, and the id of every running transaction. -/
def Low (st : TmState B) (x : Nat) : Prop :=
  x ≤ st.latestCompletedDxid + 1 ∧ ∀ b, (st.gxact b).gxid ≠ 0 → x ≤ (st.gxact b).gxid

/-- The latest completed id plus one, or the id of a running transaction. -/
def Tight (st : TmState B) (x : Nat) : Prop :=
  x = st.latestCompletedDxid + 1 ∨ ∃ b, (st.gxact b).gxid ≠ 0 ∧ (st.gxact b).gxid = x

theorem Low.le_tight {x y : Nat} (hx : Low st x) (hy : Tight st y) : x ≤ y := by
  obtain rfl | ⟨b, hb, rfl⟩ := hy
  · exact hx.1
  · exact hx.2 b hb

/-- The backend has not reset its slot since it took the snapshot. -/
def Live (st : TmState B) (r : Taken B) : Prop := st.resets r.backend = r.resets

/-- A scan in progress: its `xmin` is tight, and low as far as the slots it has passed go. -/
structure ScanInv (cfg : TmConfig B) (st : TmState B) (sc : Scan B) : Prop where
  xmin_pos : 0 < sc.xmin
  xmin_le : sc.xmin ≤ st.latestCompletedDxid + 1
  tight : Tight st sc.xmin
  passed : ∀ q ∈ cfg.procs, q ∉ sc.todo → (st.gxact q).gxid ≠ 0 → sc.xmin ≤ (st.gxact q).gxid

structure TmInv (cfg : TmConfig B) (st : TmState B) : Prop where
  latest_le : st.latestCompletedDxid ≤ st.shmGIDSeq
  gxid_le : ∀ b, (st.gxact b).gxid ≤ st.shmGIDSeq
  gxid_procs : ∀ b, (st.gxact b).gxid ≠ 0 → b ∈ cfg.procs
  scan_procs : ∀ b, st.scan b ≠ none → b ∈ cfg.procs
  scan : ∀ b sc, st.scan b = some sc → ScanInv cfg st sc
  published : ∀ b, Low st (st.gxact b).xminDistributedSnapshot
  taken : ∀ r ∈ st.snapshots, Low st r.ds.xmin
  live : ∀ r ∈ st.snapshots, Live st r → (st.gxact r.backend).xminDistributedSnapshot ≠ 0 ∧
    (st.gxact r.backend).xminDistributedSnapshot ≤ r.ds.xmin
  /-- A scan will still read the slot of a live snapshot, or has read it, or has overlapped. -/
  overlap : ∀ b sc, st.scan b = some sc → ∀ r ∈ st.snapshots, Live st r →
    r.backend ∈ sc.todo ∨ sc.globalXminDistributedSnapshots ≤ r.ds.xmin ∨ Tight st r.ds.xmin
  taken_procs : ∀ r ∈ st.snapshots, r.backend ∈ cfg.procs
  resets_le : ∀ r ∈ st.snapshots, r.resets ≤ st.resets r.backend
  own : ∀ r ∈ st.snapshots, r.ds.xminAllDistributedSnapshots ≤ r.ds.xmin
  all : ∀ r ∈ st.snapshots, ∀ q ∈ st.snapshots, Live st r →
    q.ds.xminAllDistributedSnapshots ≤ r.ds.xmin

theorem tmInv_init : TmInv cfg (tmInit : TmState B) where
  latest_le := Nat.zero_le _
  gxid_le _ := by simp [tmInit, invalidDistributedTransactionId]
  gxid_procs _ h := absurd rfl h
  scan_procs _ h := absurd rfl h
  scan _ _ h := by cases h
  published _ := ⟨Nat.zero_le _, fun _ h => absurd rfl h⟩
  taken _ h := by cases h
  live _ h := by cases h
  overlap _ _ h := by cases h
  taken_procs _ h := by cases h
  resets_le _ h := by cases h
  own _ h := by cases h
  all _ h := by cases h

/-- The `xmin` of a finished scan is low. -/
theorem ScanInv.low {sc : Scan B} (hs : ScanInv cfg st sc) (h : TmInv cfg st)
    (ht : sc.todo = []) : Low st sc.xmin :=
  ⟨hs.xmin_le, fun q hq => hs.passed q (h.gxid_procs q hq) (by simp [ht]) hq⟩

theorem scan_eq_none_of_lockFree (h : TmInv cfg st) (hfree : lockFree cfg st = true) (q : B) :
    st.scan q = none := by
  by_contra hq
  have := List.all_eq_true.mp hfree q (h.scan_procs q hq)
  exact hq (by simpa using this)

/-- **The horizon of a new snapshot.** It is at most the `xmin` of every live one. -/
theorem TmInv.horizon_le (h : TmInv cfg st) {sc : Scan B} (hsc : st.scan b = some sc)
    (ht : sc.todo = []) {r : Taken B} (hr : r ∈ st.snapshots) (hl : Live st r) :
    (scanResult cfg sc).xminAllDistributedSnapshots ≤ r.ds.xmin := by
  have hs := h.scan b sc hsc
  have hle : (scanResult cfg sc).xminAllDistributedSnapshots ≤ sc.xmin ∧
      (scanResult cfg sc).xminAllDistributedSnapshots ≤ sc.globalXminDistributedSnapshots := by
    simp only [scanResult]; split_ifs <;> omega
  obtain hm | hm | hm := h.overlap b sc hsc r hr hl
  · simp [ht] at hm
  · exact hle.2.trans hm
  · exact hle.1.trans ((hs.low h ht).le_tight hm)

/-! ## Preservation -/

section Preservation

variable [DecidableEq B]

/-- A new id is greater than all there were, so what was low or tight stays so. -/
theorem Low.activate {x : Nat} (h : Low st x) (hinv : TmInv cfg st)
    (hstep : currentDtxActivate st b = some st') : Low st' x := by
  obtain ⟨-, hb, rfl⟩ := currentDtxActivate_eq hstep
  refine ⟨h.1, fun q hq => ?_⟩
  by_cases hqb : q = b
  · subst hqb
    simp only [Function.update_self]
    have := h.1
    have := hinv.latest_le
    omega
  · simp only [Function.update_of_ne hqb] at hq ⊢
    exact h.2 q hq

theorem Tight.activate {x : Nat} (h : Tight st x)
    (hstep : currentDtxActivate st b = some st') : Tight st' x := by
  obtain ⟨-, hb, rfl⟩ := currentDtxActivate_eq hstep
  obtain rfl | ⟨q, hq, rfl⟩ := h
  · exact Or.inl rfl
  · have hqb : q ≠ b := by
      intro hqb
      exact hq (hqb ▸ hb)
    exact Or.inr ⟨q, by simp [Function.update_of_ne hqb, hq], by simp [Function.update_of_ne hqb]⟩

theorem xmin_activate (hstep : currentDtxActivate st b = some st') (q : B) :
    (st'.gxact q).xminDistributedSnapshot = (st.gxact q).xminDistributedSnapshot := by
  obtain ⟨-, hb, rfl⟩ := currentDtxActivate_eq hstep
  by_cases hqb : q = b
  · subst hqb; simp
  · simp [Function.update_of_ne hqb]

theorem TmInv.activate (h : TmInv cfg st) (hb : b ∈ cfg.procs)
    (hstep : currentDtxActivate st b = some st') : TmInv cfg st' := by
  have hlow : ∀ x, Low st x → Low st' x := fun x hx => hx.activate h hstep
  have htight : ∀ x, Tight st x → Tight st' x := fun x hx => hx.activate hstep
  have hxmin := xmin_activate hstep
  obtain ⟨-, hb0, rfl⟩ := currentDtxActivate_eq hstep
  refine ⟨Nat.le_succ_of_le h.latest_le, fun q => ?_, fun q hq => ?_, h.scan_procs,
    fun q sc hsc => ?_, fun q => ?_, fun r hr => hlow _ (h.taken r hr), fun r hr hl => ?_,
    fun q sc hsc r hr hl => ?_, h.taken_procs, h.resets_le,
    h.own, h.all⟩
  · by_cases hqb : q = b
    · subst hqb; simp
    · simp only [Function.update_of_ne hqb]
      exact Nat.le_succ_of_le (h.gxid_le q)
  · by_cases hqb : q = b
    · subst hqb; exact hb
    · simp only [Function.update_of_ne hqb] at hq
      exact h.gxid_procs q hq
  · have hs := h.scan q sc hsc
    refine ⟨hs.xmin_pos, hs.xmin_le, htight _ hs.tight, fun p hp ht hg => ?_⟩
    by_cases hpb : p = b
    · -- The new id is greater than the latest completed one, to which `xmin` was compared.
      subst hpb
      simp only [Function.update_self]
      have := hs.xmin_le
      have := h.latest_le
      omega
    · simp only [Function.update_of_ne hpb] at hg ⊢
      exact hs.passed p hp ht hg
  · rw [hxmin]; exact hlow _ (h.published q)
  · rw [hxmin]; exact h.live r hr hl
  · exact (h.overlap q sc hsc r hr hl).imp_right (Or.imp_right (htight _))

theorem TmInv.begin (h : TmInv cfg st) (hb : b ∈ cfg.procs)
    (hstep : beginSnapshot cfg st b = some st') : TmInv cfg st' := by
  obtain ⟨-, rfl⟩ := beginSnapshot_eq hstep
  refine ⟨h.latest_le, h.gxid_le, h.gxid_procs, fun q hq => ?_, fun q sc hsc => ?_, h.published,
    h.taken, h.live, fun q sc hsc r hr hl => ?_, h.taken_procs, h.resets_le,
    h.own, h.all⟩
  · by_cases hqb : q = b
    · subst hqb; exact hb
    · simp only [Function.update_of_ne hqb] at hq
      exact h.scan_procs q hq
  · by_cases hqb : q = b
    · subst hqb
      simp only [Function.update_self, Option.some.injEq] at hsc
      subst hsc
      exact ⟨Nat.succ_pos _, le_rfl, Or.inl rfl, fun p hp ht => absurd hp ht⟩
    · simp only [Function.update_of_ne hqb] at hsc
      have hs := h.scan q sc hsc
      exact ⟨hs.xmin_pos, hs.xmin_le, hs.tight, hs.passed⟩
  · by_cases hqb : q = b
    · subst hqb
      simp only [Function.update_self, Option.some.injEq] at hsc
      subst hsc
      exact Or.inl (h.taken_procs r hr)
    · simp only [Function.update_of_ne hqb] at hsc
      exact h.overlap q sc hsc r hr hl

theorem TmInv.read (h : TmInv cfg st) (hstep : readSlot cfg st b = some st') : TmInv cfg st' := by
  obtain ⟨sc, p, todo, hsc, htodo, rfl⟩ := readSlot_eq hstep
  have hs := h.scan b sc hsc
  refine ⟨h.latest_le, h.gxid_le, h.gxid_procs, fun q hq => ?_, fun q sc' hsc' => ?_, h.published,
    h.taken, h.live, fun q sc' hsc' r hr hl => ?_, h.taken_procs, h.resets_le,
    h.own, h.all⟩
  · by_cases hqb : q = b
    · subst hqb
      exact h.scan_procs q (by rw [hsc]; simp)
    · simp only [Function.update_of_ne hqb] at hq
      exact h.scan_procs q hq
  · by_cases hqb : q = b
    · subst hqb
      simp only [Function.update_self] at hsc'
      obtain ⟨ht, -, hmin, -, -⟩ := scanSlot_spec hsc'
      refine ⟨?_, ?_, ?_, fun u hu hut hg => ?_⟩
      · rw [hmin]; split_ifs with hc
        · exact Nat.pos_of_ne_zero hc.1
        · exact hs.xmin_pos
      · have := hs.xmin_le
        rw [hmin]; split_ifs with hc <;> simp only at hc ⊢ <;> omega
      · rw [hmin]; split_ifs with hc
        · exact Or.inr ⟨p, hc.1, rfl⟩
        · exact hs.tight
      · rw [hmin]
        rw [ht] at hut
        by_cases hup : u = p
        · -- The slot just read.
          subst hup
          split_ifs with hc
          · exact le_rfl
          · simp only [not_and, not_lt] at hc
            exact hc hg
        · have hu' := hs.passed u hu (by rw [htodo]; simp [hup, hut]) hg
          split_ifs with hc
          · exact hc.2.le.trans hu'
          · exact hu'
    · simp only [Function.update_of_ne hqb] at hsc'
      have hs' := h.scan q sc' hsc'
      exact ⟨hs'.xmin_pos, hs'.xmin_le, hs'.tight, hs'.passed⟩
  · by_cases hqb : q = b
    · subst hqb
      simp only [Function.update_self] at hsc'
      obtain ⟨ht, hglob, -, -, -⟩ := scanSlot_spec hsc'
      rw [ht, hglob]
      obtain hm | hm | hm := h.overlap q sc hsc r hr hl
      · rw [htodo, List.mem_cons] at hm
        obtain hm | hm := hm
        · -- The slot of this very snapshot, in which its `xmin` or a lower one is published.
          obtain ⟨h₀, hle⟩ := h.live r hr hl
          rw [hm] at h₀ hle
          refine Or.inr (Or.inl ?_)
          split_ifs with hc
          · exact hle
          · simp only [not_and, not_lt] at hc
            exact (hc h₀).trans hle
        · exact Or.inl hm
      · refine Or.inr (Or.inl ?_)
        split_ifs with hc
        · exact hc.2.le.trans hm
        · exact hm
      · exact Or.inr (Or.inr hm)
    · simp only [Function.update_of_ne hqb] at hsc'
      exact h.overlap q sc' hsc' r hr hl

theorem Low.publish {x : Nat} (h : Low st x) (sc : Scan B) :
    Low (publishSnapshot cfg st b sc) x :=
  ⟨h.1, fun q hq => by rw [gxid_publish] at hq ⊢; exact h.2 q hq⟩

theorem Tight.publish {x : Nat} (h : Tight st x) (sc : Scan B) :
    Tight (publishSnapshot cfg st b sc) x := by
  obtain rfl | ⟨q, hq, rfl⟩ := h
  · exact Or.inl rfl
  · exact Or.inr ⟨q, by rw [gxid_publish]; exact hq, by rw [gxid_publish]⟩

theorem TmInv.finish (h : TmInv cfg st) (hb : b ∈ cfg.procs)
    (hstep : endSnapshot cfg st b = some st') : TmInv cfg st' := by
  obtain ⟨sc, hsc, ht, rfl⟩ := endSnapshot_eq hstep
  have hs := h.scan b sc hsc
  have hlow := hs.low h ht
  have hown : (scanResult cfg sc).xminAllDistributedSnapshots ≤ sc.xmin := by
    simp only [scanResult]; split_ifs <;> omega
  refine ⟨h.latest_le, fun q => ?_, fun q hq => ?_, fun q hq => ?_, fun q sc' hsc' => ?_,
    fun q => ?_, fun r hr => ?_, fun r hr hl => ?_, fun q sc' hsc' r hr hl => ?_,
    fun r hr => ?_, fun r hr => ?_, fun r hr => ?_, fun r hr q hq hl => ?_⟩
  · rw [gxid_publish]; exact h.gxid_le q
  · rw [gxid_publish] at hq; exact h.gxid_procs q hq
  · by_cases hqb : q = b
    · subst hqb; exact hb
    · simp only [publishSnapshot, Function.update_of_ne hqb] at hq
      exact h.scan_procs q hq
  · by_cases hqb : q = b
    · subst hqb; simp [publishSnapshot] at hsc'
    · simp only [publishSnapshot, Function.update_of_ne hqb] at hsc'
      have hs' := h.scan q sc' hsc'
      exact ⟨hs'.xmin_pos, hs'.xmin_le, hs'.tight.publish sc, fun p hp hpt hg => by
        rw [gxid_publish] at hg ⊢; exact hs'.passed p hp hpt hg⟩
  · rw [xmin_publish]
    split_ifs
    · exact hlow.publish sc
    · exact (h.published q).publish sc
  · obtain rfl | hr := List.mem_cons.mp hr
    · exact hlow.publish sc
    · exact (h.taken r hr).publish sc
  · rw [xmin_publish]
    obtain rfl | hr := List.mem_cons.mp hr
    · -- The backend has published this `xmin`, or an earlier one, which is low.
      simp only [true_and]
      split_ifs with hc
      · exact ⟨hs.xmin_pos.ne', le_rfl⟩
      · exact ⟨hc, (h.published b).le_tight hs.tight⟩
    · have hlr := h.live r hr hl
      split_ifs with hc
      · exact absurd (hc.1 ▸ hc.2) hlr.1
      · exact hlr
  · by_cases hqb : q = b
    · subst hqb; simp [publishSnapshot] at hsc'
    · simp only [publishSnapshot, Function.update_of_ne hqb] at hsc'
      obtain rfl | hr := List.mem_cons.mp hr
      · exact Or.inr (Or.inr (hs.tight.publish sc))
      · exact (h.overlap q sc' hsc' r hr hl).imp_right (Or.imp_right fun ht => ht.publish sc)
  · obtain rfl | hr := List.mem_cons.mp hr
    · exact hb
    · exact h.taken_procs r hr
  · obtain rfl | hr := List.mem_cons.mp hr
    · exact le_rfl
    · exact h.resets_le r hr
  · obtain rfl | hr := List.mem_cons.mp hr
    · exact hown
    · exact h.own r hr
  · obtain rfl | hr := List.mem_cons.mp hr <;> obtain rfl | hq := List.mem_cons.mp hq
    · exact hown
    · -- An earlier horizon: it is at most an earlier `xmin`, which is still low.
      exact (h.own q hq).trans ((h.taken q hq).le_tight hs.tight)
    · exact h.horizon_le hsc ht hr hl
    · exact h.all r hr q hq hl

/-- Ending a transaction keeps what was low: it was at most the id of the ended one. -/
theorem Low.endGxact {x : Nat} (h : Low st x) :
    Low (resetGxact { st with latestCompletedDxid := latestAfter st b } b) x := by
  refine ⟨?_, fun q hq => ?_⟩
  · show x ≤ latestAfter st b + 1
    unfold latestAfter
    split_ifs with hc
    · exact Nat.le_succ_of_le (h.2 b hc.1)
    · exact h.1
  · rw [gxact_reset] at hq ⊢
    split_ifs at hq ⊢
    · exact absurd rfl hq
    · exact h.2 q hq

theorem TmInv.endGxact (h : TmInv cfg st) (hstep : procArrayEndGxact cfg st b = some st') :
    TmInv cfg st' := by
  obtain ⟨hfree, rfl⟩ := procArrayEndGxact_eq hstep
  have hnone : ∀ q, (resetGxact { st with latestCompletedDxid := latestAfter st b } b).scan q =
      none := by
    intro q
    exact scan_eq_none_of_lockFree h hfree q
  -- A snapshot of the backend that resets its slot is live no more.
  have hlive : ∀ r ∈ st.snapshots,
      Live (resetGxact { st with latestCompletedDxid := latestAfter st b } b) r →
      r.backend ≠ b ∧ Live st r := by
    intro r hr hl
    have hle := h.resets_le r hr
    simp only [Live, resetGxact, Function.update_apply] at hl
    split_ifs at hl with hrb
    · rw [hrb] at hle; omega
    · exact ⟨hrb, hl⟩
  refine ⟨?_, fun q => ?_, fun q hq => ?_, fun q hq => absurd (hnone q) hq,
    fun q sc hsc => ?_, fun q => ?_, fun r hr => (h.taken r hr).endGxact, fun r hr hl => ?_,
    fun q sc hsc => ?_, h.taken_procs, fun r hr => ?_, h.own, fun r hr q hq hl => ?_⟩
  · show latestAfter st b ≤ st.shmGIDSeq
    unfold latestAfter
    split_ifs
    · exact h.gxid_le b
    · exact h.latest_le
  · rw [gxact_reset]
    split_ifs
    · exact Nat.zero_le _
    · exact h.gxid_le q
  · rw [gxact_reset] at hq
    split_ifs at hq
    · exact absurd rfl hq
    · exact h.gxid_procs q hq
  · rw [hnone] at hsc; cases hsc
  · rw [gxact_reset]
    split_ifs
    · exact ⟨Nat.zero_le _, fun _ _ => Nat.zero_le _⟩
    · exact (h.published q).endGxact
  · obtain ⟨hrb, hl⟩ := hlive r hr hl
    rw [gxact_reset, if_neg hrb]
    exact h.live r hr hl
  · rw [hnone] at hsc; cases hsc
  · refine (h.resets_le r hr).trans ?_
    simp only [resetGxact, Function.update_apply]
    split_ifs with hrb
    · rw [hrb]; exact Nat.le_succ _
    · exact le_rfl
  · exact h.all r hr q hq (hlive r hr hl).2

/-- **Every step keeps the invariant.** -/
theorem TmInv.step (h : TmInv cfg st) {a : TmAction B} (hstep : tmStep cfg st a = some st') :
    TmInv cfg st' := by
  cases a with
  | currentDtxActivate b =>
    simp only [tmStep] at hstep
    split_ifs at hstep with hb
    exact h.activate hb hstep
  | beginSnapshot b =>
    simp only [tmStep] at hstep
    split_ifs at hstep with hb
    exact h.begin hb hstep
  | readSlot b =>
    simp only [tmStep] at hstep
    split_ifs at hstep with hb
    exact h.read hstep
  | endSnapshot b =>
    simp only [tmStep] at hstep
    split_ifs at hstep with hb
    exact h.finish hb hstep
  | procArrayEndGxact b =>
    simp only [tmStep] at hstep
    split_ifs at hstep with hb
    exact h.endGxact hstep

theorem tmInv_run {as : List (TmAction B)} (hrun : run (tmStep cfg) tmInit as = some st) :
    TmInv cfg st :=
  run_invariant (fun _ _ _ h hstep => h.step hstep) tmInv_init hrun

/-! ## The horizon -/

/-- What a horizon at most `xmin` makes a segment ignore is not in progress. -/
theorem not_inProgress_of_ignore {ds ds' : DistributedSnapshot} {g : Nat}
    (hle : ds.xminAllDistributedSnapshots ≤ ds'.xmin) {isVacuumCheck : Bool}
    (h : distribXidAnswer ds g isVacuumCheck = .ignore) :
    distribXidAnswer ds' g false ≠ .inProgress := by
  have hlt : g < ds.xminAllDistributedSnapshots := by
    by_contra hge
    unfold distribXidAnswer at h
    rw [if_neg hge] at h
    split_ifs at h
  have hlt' : g < ds'.xmin := hlt.trans_le hle
  by_cases hall : g < ds'.xminAllDistributedSnapshots
  · simp [distribXidAnswer, hall]
  · simp [distribXidAnswer, hall, hlt']

/-- **The horizon never overtakes a live snapshot.** In every run the horizon of a snapshot is at
most its own `xmin` and that of every snapshot whose backend has not reset its slot. So no
process, on whatever segment and whatever it has cached, ignores a transaction that a live
snapshot sees as in progress. -/
theorem xminAll_le_live {as : List (TmAction B)} (hrun : run (tmStep cfg) tmInit as = some st)
    {q : Taken B} (hq : q ∈ st.snapshots) :
    q.ds.xminAllDistributedSnapshots ≤ q.ds.xmin ∧
    ∀ r ∈ st.snapshots, Live st r →
      q.ds.xminAllDistributedSnapshots ≤ r.ds.xmin ∧
      ∀ (seg seg' : SegConfig) (s s' : SegState) (i i' localXid localXid' g : Nat)
        (isVacuumCheck : Bool),
        Holds seg s i q.ds → Holds seg' s' i' r.ds →
        MappedTo seg.log localXid seg.distribTimeStamp g →
        MappedTo seg'.log localXid' seg'.distribTimeStamp g →
        (segTest seg s i localXid isVacuumCheck).map Prod.fst = some .ignore →
        (segTest seg' s' i' localXid' false).map Prod.fst ≠ some .inProgress := by
  have h := tmInv_run hrun
  refine ⟨h.own q hq, ?_⟩
  intro r hr hl
  have hle := h.all r hr q hq hl
  refine ⟨hle, ?_⟩
  intro seg seg' s s' i i' localXid localXid' g isVacuumCheck hs hs' hg hg' hignore
  rw [segTest_answer hs hg, Option.some.injEq] at hignore
  rw [segTest_answer hs' hg', ne_eq, Option.some.injEq]
  exact not_inProgress_of_ignore hle hignore

end Preservation

/-- Two backends. -/
def twoBackends : TmConfig (Fin 2) := ⟨[0, 1], by decide, 7, 2⟩

/-- A transaction starts and ends, then both backends take a snapshot, their scans overlapping. -/
def overlappingScans : List (TmAction (Fin 2)) :=
  [.currentDtxActivate 0, .procArrayEndGxact 0, .beginSnapshot 0, .beginSnapshot 1, .readSlot 0,
    .readSlot 0, .readSlot 1, .endSnapshot 0, .readSlot 1, .endSnapshot 1]

/-- The snapshot both get. -/
def overlappingSnapshot : DistributedSnapshot := scanResult twoBackends ⟨[], 3, 3, 3, []⟩

/-- A segment on which the local transaction 5 belongs to that transaction. -/
def ignoringSegment : SegConfig := ⟨4, ⟨3, fun x => if x = 5 then (7, 2) else (0, 0)⟩, 7⟩

theorem xminAll_le_live_overlappingScans :
    ∃ st q r, run (tmStep twoBackends) tmInit overlappingScans = some st ∧
      q ∈ st.snapshots ∧ r ∈ st.snapshots ∧ Live st r ∧
      q.ds.xminAllDistributedSnapshots ≤ r.ds.xmin ∧
      ∃ s, Holds ignoringSegment s 0 q.ds ∧
        (segTest ignoringSegment s 0 5 true).map Prod.fst = some .ignore ∧
        (segTest ignoringSegment s 0 5 false).map Prod.fst ≠ some .inProgress := by
  obtain ⟨st, hst⟩ : ∃ st, run (tmStep twoBackends) tmInit overlappingScans = some st :=
    Option.isSome_iff_exists.mp (by decide)
  have hsn : st.snapshots =
      [⟨1, overlappingSnapshot, [2], 0⟩, ⟨0, overlappingSnapshot, [2], 1⟩] := by
    have hrun : (run (tmStep twoBackends) tmInit overlappingScans).map (·.snapshots) =
        some [⟨1, overlappingSnapshot, [2], 0⟩, ⟨0, overlappingSnapshot, [2], 1⟩] := by rfl
    rw [hst] at hrun
    exact Option.some.inj hrun
  have hres : st.resets 0 = 1 := by
    have hrun : (run (tmStep twoBackends) tmInit overlappingScans).map (·.resets 0) =
        some 1 := by rfl
    rw [hst] at hrun
    exact Option.some.inj hrun
  have hq : ⟨1, overlappingSnapshot, [2], 0⟩ ∈ st.snapshots := by simp [hsn]
  have hr : ⟨0, overlappingSnapshot, [2], 1⟩ ∈ st.snapshots := by simp [hsn]
  have hs : Holds ignoringSegment ⟨[freshMapping overlappingSnapshot 4], []⟩ 0
      overlappingSnapshot := ⟨⟨[.receive overlappingSnapshot 4], rfl⟩, rfl⟩
  have hg : MappedTo ignoringSegment.log 5 ignoringSegment.distribTimeStamp 2 := by decide
  have hignore : (segTest ignoringSegment ⟨[freshMapping overlappingSnapshot 4], []⟩ 0 5
      true).map Prod.fst = some .ignore := by decide
  have hmain := (xminAll_le_live hst hq).2 _ hr hres
  exact ⟨st, _, _, hst, hq, hr, hres, hmain.1, _, hs, hignore,
    hmain.2 _ _ _ _ 0 0 5 5 2 true hs hs hg hg hignore⟩

end Hdb.Dtx
