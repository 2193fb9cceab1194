import Hdb.Dtx.SnapshotHorizon

/-!
# What a snapshot says about the others

A snapshot should answer *in progress* for every transaction of another backend that had not
ended when it was taken, and not for one that had.

A scan does not see a transaction that starts in a slot it has passed. That is harmless as long
as `xmax` stays below the new id. But the scan also raises `xmax` to the ids it reads, and an id
in a slot still to be read may be greater than one assigned meanwhile in a slot already passed:
then the smaller one is below `xmax`, in no array, and taken for ended while it runs
(`passedTransaction_visible`). `ReadsInOrder` says that this does not happen.

The second condition, `EndsInOrder`, is about the latest completed id. Distributed ids never
wrap, yet `ProcArrayEndGxact` compares them with the modular `TransactionIdPrecedes`, which is
the order of the ids only when they are less than half the range apart.

Main result: `snapshot_exact`.
-/

namespace Hdb.Dtx

variable {B : Type} {cfg : TmConfig B} {st st' : TmState B} {b : B}

/-! ## The in-progress array -/

theorem inProgressScan_iff {l : List Nat} (h : l.Pairwise (· ≤ ·)) (g : Nat) :
    inProgressScan g l = true ↔ g ∈ l := by
  induction l with
  | nil => simp [inProgressScan]
  | cons x xs ih =>
    obtain ⟨hx, hxs⟩ := List.pairwise_cons.mp h
    rw [inProgressScan, List.mem_cons]
    by_cases hg : g = x
    · simp [hg]
    · rw [if_neg hg]
      by_cases hlt : g < x
      · -- The loop stops: what follows is not smaller than `x`.
        rw [if_pos hlt]
        simp only [Bool.false_eq_true, hg, false_or, false_iff]
        intro hmem
        have := hx g hmem
        omega
      · rw [if_neg hlt, ih hxs]
        simp [hg]

theorem inProgressScan_scanResult (cfg : TmConfig B) (sc : Scan B) (g : Nat) :
    inProgressScan g (scanResult cfg sc).inProgressXidArray = true ↔ g ∈ sc.inProgress := by
  have hs : (sc.inProgress.mergeSort).Pairwise (· ≤ ·) := by
    have := @List.pairwise_mergeSort Nat (fun a b => decide (a ≤ b))
      (fun a b c hab hbc => by simp only [decide_eq_true_eq] at *; omega)
      (fun a b => by simp only [Bool.or_eq_true, decide_eq_true_eq]; omega) sc.inProgress
    simpa using this
  rw [show (scanResult cfg sc).inProgressXidArray = sc.inProgress.mergeSort from rfl,
    inProgressScan_iff hs, List.mem_mergeSort]

/-! ## The conditions -/

/-- The slot read next holds no id greater than one the scan has missed: one that was assigned
in a slot the scan had passed. -/
def ReadsInOrder (cfg : TmConfig B) (st : TmState B) (b : B) : Prop :=
  ∀ sc ∈ st.scan b, ∀ p ∈ sc.todo.head?, ∀ q ∈ cfg.procs, q ∉ sc.todo → q ≠ b →
    (st.gxact q).gxid ≠ 0 → (st.gxact q).gxid ∉ sc.inProgress →
    (st.gxact p).gxid ≤ (st.gxact q).gxid

/-- `TransactionIdPrecedes` compares the ending id with the latest completed one as numbers. -/
def EndsInOrder (st : TmState B) (b : B) : Prop :=
  (st.gxact b).gxid ≠ 0 →
    (transactionIdPrecedes st.latestCompletedDxid (st.gxact b).gxid = true ↔
      st.latestCompletedDxid < (st.gxact b).gxid)

def InOrder (cfg : TmConfig B) (st : TmState B) : TmAction B → Prop
  | .readSlot b => ReadsInOrder cfg st b
  | .procArrayEndGxact b => EndsInOrder st b
  | _ => True

instance [DecidableEq B] (st : TmState B) : (a : TmAction B) → Decidable (InOrder cfg st a)
  | .readSlot b => inferInstanceAs (Decidable (∀ sc ∈ st.scan b, ∀ p ∈ sc.todo.head?,
      ∀ q ∈ cfg.procs, q ∉ sc.todo → q ≠ b → (st.gxact q).gxid ≠ 0 →
      (st.gxact q).gxid ∉ sc.inProgress → (st.gxact p).gxid ≤ (st.gxact q).gxid))
  | .procArrayEndGxact b => inferInstanceAs (Decidable ((st.gxact b).gxid ≠ 0 →
      (transactionIdPrecedes st.latestCompletedDxid (st.gxact b).gxid = true ↔
        st.latestCompletedDxid < (st.gxact b).gxid)))
  | .currentDtxActivate _ | .beginSnapshot _ | .endSnapshot _ => inferInstanceAs (Decidable True)

/-! ## The invariant -/

/-- The snapshot is right about the transaction. -/
def Exact (r : Taken B) (g : Nat) : Prop :=
  (g ∈ r.ended → distribXidAnswer r.ds g false ≠ .inProgress) ∧
    (g ∉ r.ended → distribXidAnswer r.ds g false = .inProgress)

/-- A scan of `b` in progress: what it has put down is running, and what runs in the slots it has
passed is put down or not below `xmax`. -/
structure ScanExact (cfg : TmConfig B) (st : TmState B) (b : B) (sc : Scan B) : Prop where
  latest_lt : st.latestCompletedDxid < sc.xmax
  xmax_le : sc.xmax ≤ st.shmGIDSeq + 1
  running : ∀ g ∈ sc.inProgress, ∃ q, (st.gxact q).gxid ≠ 0 ∧ (st.gxact q).gxid = g
  passed : ∀ q ∈ cfg.procs, q ∉ sc.todo → q ≠ b → (st.gxact q).gxid ≠ 0 →
    (st.gxact q).gxid ∈ sc.inProgress ∨ sc.xmax ≤ (st.gxact q).gxid

structure ExactInv (cfg : TmConfig B) (st : TmState B) : Prop where
  ended_le : ∀ g ∈ st.ended, g ≤ st.latestCompletedDxid
  running : ∀ q, (st.gxact q).gxid ≠ 0 → (st.gxact q).gxid ∉ st.ended
  unique : ∀ q q', (st.gxact q).gxid ≠ 0 → (st.gxact q).gxid = (st.gxact q').gxid → q = q'
  started : ∀ e ∈ st.started, e.1 ≠ 0 ∧ (e.1 ∈ st.ended ∨ (st.gxact e.2).gxid = e.1)
  scan : ∀ b sc, st.scan b = some sc → ScanExact cfg st b sc
  xmax_le : ∀ r ∈ st.snapshots, r.ds.xmax ≤ st.shmGIDSeq + 1
  xmin_le : ∀ r ∈ st.snapshots, r.ds.xmin ≤ r.ds.xmax
  ended_taken : ∀ r ∈ st.snapshots, ∀ g ∈ r.ended, g ≤ st.shmGIDSeq
  exact : ∀ r ∈ st.snapshots, ∀ e ∈ st.started, e.2 ≠ r.backend → Exact r e.1

theorem exactInv_init : ExactInv cfg (tmInit : TmState B) where
  ended_le _ h := by cases h
  running _ h := absurd rfl h
  unique _ _ h := absurd rfl h
  started _ h := by cases h
  scan _ _ h := by cases h
  xmax_le _ h := by cases h
  xmin_le _ h := by cases h
  ended_taken _ h := by cases h
  exact _ h := by cases h

/-! ## The answers -/

/-- A transaction that starts after a snapshot was taken is in progress in it. -/
theorem exact_new {r : Taken B} {n : Nat} (hall : r.ds.xminAllDistributedSnapshots ≤ r.ds.xmin)
    (hmin : r.ds.xmin ≤ r.ds.xmax) (hmax : r.ds.xmax ≤ n + 1) (hended : ∀ g ∈ r.ended, g ≤ n) :
    Exact r (n + 1) := by
  constructor
  · intro hmem
    have := hended _ hmem
    omega
  · intro _
    have h₁ : ¬ n + 1 < r.ds.xminAllDistributedSnapshots := by omega
    have h₂ : ¬ n + 1 < r.ds.xmin := by omega
    simp [distribXidAnswer, h₁, h₂, hmax]

/-- **A finished scan is right about the others.** -/
theorem exact_scanResult (h : ExactInv cfg st) (hinv : TmInv cfg st) {sc : Scan B}
    (hsc : st.scan b = some sc) (ht : sc.todo = []) {e : Nat × B} (he : e ∈ st.started)
    (heb : e.2 ≠ b) : Exact ⟨b, scanResult cfg sc, st.ended, st.resets b⟩ e.1 := by
  have hs := h.scan b sc hsc
  have hlow := (hinv.scan b sc hsc).low hinv ht
  have hle := hs.latest_lt
  have hall : (scanResult cfg sc).xminAllDistributedSnapshots ≤ sc.xmin := by
    simp only [scanResult]
    split_ifs <;> omega
  obtain ⟨h0, hstart⟩ := h.started e he
  constructor
  · intro hmem
    have hend := h.ended_le _ hmem
    -- What has ended is below `xmax`, and the array holds running ones only.
    have hnot : inProgressScan e.1 (scanResult cfg sc).inProgressXidArray = false := by
      rw [← Bool.not_eq_true, inProgressScan_scanResult]
      intro hin
      obtain ⟨q, hq, hqe⟩ := hs.running _ hin
      exact h.running q hq (hqe ▸ hmem)
    have hmax : ¬ (scanResult cfg sc).xmax ≤ e.1 := by
      show ¬ sc.xmax ≤ e.1
      omega
    simp only [distribXidAnswer, hnot, hmax]
    split_ifs <;> simp_all
  · intro hmem
    have hg : (st.gxact e.2).gxid = e.1 := hstart.resolve_left hmem
    have hg0 : (st.gxact e.2).gxid ≠ 0 := hg ▸ h0
    have hmin : sc.xmin ≤ e.1 := hg ▸ hlow.2 e.2 hg0
    have h₁ : ¬ e.1 < (scanResult cfg sc).xminAllDistributedSnapshots := by omega
    have h₂ : ¬ e.1 < (scanResult cfg sc).xmin := by
      show ¬ e.1 < sc.xmin
      omega
    obtain hin | hmax := hs.passed e.2 (hinv.gxid_procs e.2 hg0) (by simp [ht]) heb hg0
    · rw [hg] at hin
      have hin' := (inProgressScan_scanResult cfg sc e.1).mpr hin
      simp [distribXidAnswer, h₁, h₂, hin']
    · have hmax' : (scanResult cfg sc).xmax ≤ e.1 := hg ▸ hmax
      simp [distribXidAnswer, h₁, h₂, hmax']

/-! ## Preservation -/

section Preservation

variable [DecidableEq B]

theorem ExactInv.activate (h : ExactInv cfg st) (hinv : TmInv cfg st)
    (hstep : currentDtxActivate st b = some st') : ExactInv cfg st' := by
  obtain ⟨-, hb0, rfl⟩ := currentDtxActivate_eq hstep
  have hlat := hinv.latest_le
  have hgx : ∀ q, q ≠ b → (Function.update st.gxact b
      { st.gxact b with gxid := st.shmGIDSeq + 1 } q).gxid = (st.gxact q).gxid := by
    intro q hq
    rw [Function.update_of_ne hq]
  have hgb : (Function.update st.gxact b
      { st.gxact b with gxid := st.shmGIDSeq + 1 } b).gxid = st.shmGIDSeq + 1 := by
    rw [Function.update_self]
  -- A slot that held an id is not the one that gets the new one.
  have hne : ∀ q, (st.gxact q).gxid ≠ 0 → q ≠ b := by
    intro q hq hqb
    exact hq (hqb ▸ hb0)
  refine ⟨h.ended_le, fun q hq => ?_, fun q q' hq hqq' => ?_, fun e he => ?_, fun q sc hsc => ?_,
    fun r hr => ?_, h.xmin_le, fun r hr g hg => ?_, fun r hr e he hbe => ?_⟩
  · by_cases hqb : q = b
    · subst hqb
      intro hmem
      have := h.ended_le _ hmem
      simp only at this hgb
      omega
    · simp only [hgx q hqb] at hq ⊢
      exact h.running q hq
  · have hle := hinv.gxid_le q
    have hle' := hinv.gxid_le q'
    by_cases hqb : q = b <;> by_cases hqb' : q' = b
    · rw [hqb, hqb']
    · subst hqb
      simp only [hgb, hgx q' hqb'] at hqq'
      omega
    · subst hqb'
      simp only [hgb, hgx q hqb] at hqq'
      omega
    · simp only [hgx q hqb, hgx q' hqb'] at hq hqq'
      exact h.unique q q' hq hqq'
  · obtain rfl | he := List.mem_cons.mp he
    · exact ⟨Nat.succ_ne_zero _, Or.inr hgb⟩
    · obtain ⟨h0, hs⟩ := h.started e he
      refine ⟨h0, hs.imp_right fun hg => ?_⟩
      simp only
      rw [hgx e.2 (hne e.2 (hg ▸ h0)), hg]
  · have hs := h.scan q sc hsc
    refine ⟨hs.latest_lt, Nat.le_succ_of_le hs.xmax_le, fun g hg => ?_, fun p hp ht hpq hg => ?_⟩
    · obtain ⟨u, hu, rfl⟩ := hs.running g hg
      refine ⟨u, ?_, ?_⟩
      · simp only [hgx u (hne u hu)]
        exact hu
      · simp only [hgx u (hne u hu)]
    · by_cases hpb : p = b
      · -- The new id is not below `xmax`, whether the scan has passed its slot or not.
        subst hpb
        simp only [hgb]
        exact Or.inr hs.xmax_le
      · simp only [hgx p hpb] at hg ⊢
        exact hs.passed p hp ht hpq hg
  · exact Nat.le_succ_of_le (h.xmax_le r hr)
  · exact Nat.le_succ_of_le (h.ended_taken r hr g hg)
  · obtain rfl | he := List.mem_cons.mp he
    · exact exact_new (hinv.own r hr) (h.xmin_le r hr) (h.xmax_le r hr) (h.ended_taken r hr)
    · exact h.exact r hr e he hbe

theorem ExactInv.begin (h : ExactInv cfg st) (hinv : TmInv cfg st)
    (hstep : beginSnapshot cfg st b = some st') : ExactInv cfg st' := by
  obtain ⟨-, rfl⟩ := beginSnapshot_eq hstep
  refine ⟨h.ended_le, h.running, h.unique, h.started, fun q sc hsc => ?_, h.xmax_le, h.xmin_le,
    h.ended_taken, h.exact⟩
  by_cases hqb : q = b
  · subst hqb
    simp only [Function.update_self, Option.some.injEq] at hsc
    subst hsc
    exact ⟨Nat.lt_succ_self _, Nat.succ_le_succ hinv.latest_le,
      fun g hg => absurd hg List.not_mem_nil, fun p hp ht => absurd hp ht⟩
  · simp only [Function.update_of_ne hqb] at hsc
    have hs := h.scan q sc hsc
    exact ⟨hs.latest_lt, hs.xmax_le, hs.running, hs.passed⟩

theorem ExactInv.read (h : ExactInv cfg st) (hinv : TmInv cfg st) (hok : ReadsInOrder cfg st b)
    (hstep : readSlot cfg st b = some st') : ExactInv cfg st' := by
  obtain ⟨sc, p, todo, hsc, htodo, rfl⟩ := readSlot_eq hstep
  have hs := h.scan b sc hsc
  refine ⟨h.ended_le, h.running, h.unique, h.started, fun q sc' hsc' => ?_, h.xmax_le, h.xmin_le,
    h.ended_taken, h.exact⟩
  by_cases hqb : q = b
  · subst hqb
    simp only [Function.update_self] at hsc'
    obtain ⟨ht, -, -, hmax, hin⟩ := scanSlot_spec hsc'
    simp only at ht hmax hin
    have hsub : ∀ g ∈ sc.inProgress, g ∈ sc'.inProgress := by
      intro g hg
      rw [hin]
      split_ifs
      · exact List.mem_append_left _ hg
      · exact hg
    refine ⟨?_, ?_, fun g hg => ?_, fun u hu hut huq hg => ?_⟩
    · have := hs.latest_lt
      rw [hmax]
      split_ifs with hc <;> simp only <;> omega
    · have := hs.xmax_le
      have := hinv.gxid_le p
      rw [hmax]
      split_ifs with hc <;> simp only <;> omega
    · rw [hin] at hg
      split_ifs at hg with hc
      · rw [List.mem_append, List.mem_singleton] at hg
        obtain hg | rfl := hg
        · exact hs.running g hg
        · exact ⟨p, hc.1, rfl⟩
      · exact hs.running g hg
    · rw [ht] at hut
      by_cases hup : u = p
      · subst hup
        left
        rw [hin, if_pos ⟨hg, huq⟩]
        simp
      · have hut' : u ∉ sc.todo := by
          rw [htodo]
          simp [hup, hut]
        by_cases hmem : (st.gxact u).gxid ∈ sc.inProgress
        · exact Or.inl (hsub _ hmem)
        · -- Missed by the scan: this is where the order of the reads matters.
          right
          have hle := (hs.passed u hu hut' huq hg).resolve_left hmem
          have hord := hok sc hsc p (by rw [htodo]; rfl) u hu hut' huq hg hmem
          rw [hmax]
          split_ifs
          · exact hord
          · exact hle
  · simp only [Function.update_of_ne hqb] at hsc'
    have hs' := h.scan q sc' hsc'
    exact ⟨hs'.latest_lt, hs'.xmax_le, hs'.running, hs'.passed⟩

theorem ExactInv.finish (h : ExactInv cfg st) (hinv : TmInv cfg st)
    (hstep : endSnapshot cfg st b = some st') : ExactInv cfg st' := by
  obtain ⟨sc, hsc, ht, rfl⟩ := endSnapshot_eq hstep
  have hs := h.scan b sc hsc
  refine ⟨h.ended_le, fun q hq => ?_, fun q q' hq hqq' => ?_, fun e he => ?_, fun q sc' hsc' => ?_,
    fun r hr => ?_, fun r hr => ?_, fun r hr g hg => ?_, fun r hr e he hbe => ?_⟩
  · rw [gxid_publish] at hq ⊢
    exact h.running q hq
  · rw [gxid_publish] at hq
    rw [gxid_publish, gxid_publish] at hqq'
    exact h.unique q q' hq hqq'
  · rw [gxid_publish]
    exact h.started e he
  · by_cases hqb : q = b
    · subst hqb
      simp [publishSnapshot] at hsc'
    · simp only [publishSnapshot, Function.update_of_ne hqb] at hsc'
      have hs' := h.scan q sc' hsc'
      refine ⟨hs'.latest_lt, hs'.xmax_le, fun g hg => ?_, fun p hp hpt hpq hg => ?_⟩
      · obtain ⟨u, hu, hug⟩ := hs'.running g hg
        exact ⟨u, by rwa [gxid_publish], by rwa [gxid_publish]⟩
      · rw [gxid_publish] at hg ⊢
        exact hs'.passed p hp hpt hpq hg
  · obtain rfl | hr := List.mem_cons.mp hr
    · exact hs.xmax_le
    · exact h.xmax_le r hr
  · obtain rfl | hr := List.mem_cons.mp hr
    · exact (hinv.scan b sc hsc).xmin_le.trans hs.latest_lt
    · exact h.xmin_le r hr
  · obtain rfl | hr := List.mem_cons.mp hr
    · exact (h.ended_le g hg).trans hinv.latest_le
    · exact h.ended_taken r hr g hg
  · obtain rfl | hr := List.mem_cons.mp hr
    · exact exact_scanResult h hinv hsc ht he hbe
    · exact h.exact r hr e he hbe

theorem ExactInv.endGxact (h : ExactInv cfg st) (hinv : TmInv cfg st) (hok : EndsInOrder st b)
    (hstep : procArrayEndGxact cfg st b = some st') : ExactInv cfg st' := by
  obtain ⟨hfree, rfl⟩ := procArrayEndGxact_eq hstep
  have hnone := scan_eq_none_of_lockFree hinv hfree
  have hended : ∀ g, g ∈ (resetGxact { st with latestCompletedDxid := latestAfter st b } b).ended ↔
      g ∈ st.ended ∨ (g = (st.gxact b).gxid ∧ (st.gxact b).gxid ≠ 0) := by
    intro g
    simp only [resetGxact]
    split_ifs with hc
    · simp [hc]
    · simp [hc, or_comm]
  have hlatest : st.latestCompletedDxid ≤ latestAfter st b ∧
      ((st.gxact b).gxid ≠ 0 → (st.gxact b).gxid ≤ latestAfter st b) := by
    unfold latestAfter
    split_ifs with hc
    · exact ⟨((hok hc.1).mp hc.2).le, fun _ => le_rfl⟩
    · refine ⟨le_rfl, fun h0 => ?_⟩
      by_contra hlt
      exact hc ⟨h0, (hok h0).mpr (not_le.mp hlt)⟩
  refine ⟨fun g hg => ?_, fun q hq => ?_, fun q q' hq hqq' => ?_, fun e he => ?_,
    fun q sc hsc => ?_, h.xmax_le, h.xmin_le, h.ended_taken, h.exact⟩
  · show g ≤ latestAfter st b
    obtain hg | ⟨rfl, h0⟩ := (hended g).mp hg
    · exact (h.ended_le g hg).trans hlatest.1
    · exact hlatest.2 h0
  · rw [gxact_reset] at hq ⊢
    split_ifs at hq ⊢ with hqb
    · exact absurd rfl hq
    · rw [hended]
      intro hmem
      obtain hmem | ⟨heq, -⟩ := hmem
      · exact h.running q hq hmem
      · exact hqb (h.unique q b hq heq)
  · rw [gxact_reset] at hq
    rw [gxact_reset, gxact_reset] at hqq'
    split_ifs at hq hqq' with hqb hqb'
    · exact absurd rfl hq
    · exact absurd rfl hq
    · exact absurd hqq' hq
    · exact h.unique q q' hq hqq'
  · obtain ⟨h0, hs⟩ := h.started e he
    refine ⟨h0, ?_⟩
    rw [hended, gxact_reset]
    obtain hs | hs := hs
    · exact Or.inl (Or.inl hs)
    · by_cases heb : e.2 = b
      · rw [heb] at hs
        exact Or.inl (Or.inr ⟨hs.symm, hs ▸ h0⟩)
      · rw [if_neg heb]
        exact Or.inr hs
  · exact absurd ((hnone q).symm.trans hsc) (by simp)

theorem ExactInv.step (h : ExactInv cfg st) (hinv : TmInv cfg st) {a : TmAction B}
    (hok : InOrder cfg st a) (hstep : tmStep cfg st a = some st') : ExactInv cfg st' := by
  cases a with
  | currentDtxActivate b =>
    simp only [tmStep] at hstep
    split_ifs at hstep
    exact h.activate hinv hstep
  | beginSnapshot b =>
    simp only [tmStep] at hstep
    split_ifs at hstep
    exact h.begin hinv hstep
  | readSlot b =>
    simp only [tmStep] at hstep
    split_ifs at hstep
    exact h.read hinv hok hstep
  | endSnapshot b =>
    simp only [tmStep] at hstep
    split_ifs at hstep
    exact h.finish hinv hstep
  | procArrayEndGxact b =>
    simp only [tmStep] at hstep
    split_ifs at hstep
    exact h.endGxact hinv hok hstep

theorem exactInv_run {as : List (TmAction B)} (hok : Along (tmStep cfg) (InOrder cfg) tmInit as)
    (hrun : run (tmStep cfg) tmInit as = some st) : ExactInv cfg st := by
  have h : TmInv cfg st ∧ ExactInv cfg st :=
    run_invariant_along (I := fun s => TmInv cfg s ∧ ExactInv cfg s)
      (fun _ _ _ h hok hstep => ⟨h.1.step hstep, h.2.step h.1 hok hstep⟩) hok
      ⟨tmInv_init, exactInv_init⟩ hrun
  exact h.2

/-! ## Every run -/

/-- Every process that holds a snapshot of the run gets the right answers from it: for a local id
mapped to the distributed transaction of another backend, *in progress* unless that transaction
had ended when the snapshot was taken. -/
def ExactAnswers (st : TmState B) : Prop :=
  ∀ r ∈ st.snapshots, ∀ e ∈ st.started, e.2 ≠ r.backend →
    ∀ (seg : SegConfig) (s : SegState) (i localXid : Nat), Holds seg s i r.ds →
      MappedTo seg.log localXid seg.distribTimeStamp e.1 →
      (e.1 ∈ r.ended → (segTest seg s i localXid false).map Prod.fst = some .visible ∨
        (segTest seg s i localXid false).map Prod.fst = some .ignore) ∧
      (e.1 ∉ r.ended → (segTest seg s i localXid false).map Prod.fst = some .inProgress)

/-- **Snapshots are exact in the runs whose steps are in order.** -/
theorem snapshot_exact {as : List (TmAction B)} (hok : Along (tmStep cfg) (InOrder cfg) tmInit as)
    (hrun : run (tmStep cfg) tmInit as = some st) : ExactAnswers st := by
  intro r hr e he hbe seg s i localXid hs hg
  have h := (exactInv_run hok hrun).exact r hr e he hbe
  rw [segTest_answer hs hg]
  refine ⟨?_, fun hmem => by rw [h.2 hmem]⟩
  intro hmem
  cases ha : distribXidAnswer r.ds e.1 false with
  | inProgress => exact absurd ha (h.1 hmem)
  | visible => exact Or.inl rfl
  | ignore => exact Or.inr rfl

end Preservation

/-- A transaction has ended and the next one runs when the other backend takes a snapshot. -/
def orderedRun : List (TmAction (Fin 2)) :=
  [.currentDtxActivate 0, .procArrayEndGxact 0, .currentDtxActivate 0, .beginSnapshot 1,
    .readSlot 1, .readSlot 1, .endSnapshot 1]

theorem snapshot_exact_orderedRun :
    ∃ st, run (tmStep twoBackends) tmInit orderedRun = some st ∧
      st.started = [(3, 0), (2, 0)] ∧
      st.snapshots = [⟨1, scanResult twoBackends ⟨[], 3, 3, 3, [3]⟩, [2], 0⟩] ∧
      ExactAnswers st := by
  obtain ⟨st, hst⟩ : ∃ st, run (tmStep twoBackends) tmInit orderedRun = some st :=
    Option.isSome_iff_exists.mp (by decide)
  have hshape : (run (tmStep twoBackends) tmInit orderedRun).map
      (fun st => (st.started, st.snapshots)) = some ([(3, 0), (2, 0)],
        [⟨1, scanResult twoBackends ⟨[], 3, 3, 3, [3]⟩, [2], 0⟩]) := by rfl
  rw [hst, Option.map_some, Option.some.injEq, Prod.mk.injEq] at hshape
  exact ⟨st, hst, hshape.1, hshape.2, snapshot_exact (by decide) hst⟩

/-! ## The order of the reads matters -/

def threeBackends : TmConfig (Fin 3) := ⟨[0, 1, 2], by decide, 7, 3⟩

/-- Backend 2 has passed the slot of 0 when 0 and then 1 start a transaction. It reads the id of
1, which raises `xmax` above that of 0. -/
def passedRun : List (TmAction (Fin 3)) :=
  [.beginSnapshot 2, .readSlot 2, .currentDtxActivate 0, .currentDtxActivate 1, .readSlot 2,
    .readSlot 2, .endSnapshot 2]

/-- A segment on which the local transaction 5 belongs to the transaction of backend 0. -/
def passedSegment : SegConfig := ⟨4, ⟨3, fun x => if x = 5 then (7, 2) else (0, 0)⟩, 7⟩

/-- **A running transaction is taken for ended.** -/
theorem passedTransaction_visible :
    ¬ ∀ as st, run (tmStep threeBackends) tmInit as = some st → ExactAnswers st := by
  intro hall
  obtain ⟨st, hst⟩ : ∃ st, run (tmStep threeBackends) tmInit passedRun = some st :=
    Option.isSome_iff_exists.mp (by decide)
  have hshape : (run (tmStep threeBackends) tmInit passedRun).map
      (fun st => (st.started, st.snapshots)) = some ([(3, 1), (2, 0)],
        [⟨2, scanResult threeBackends ⟨[], 1, 3, 1, [3]⟩, [], 0⟩]) := by rfl
  rw [hst, Option.map_some, Option.some.injEq, Prod.mk.injEq] at hshape
  have hs : Holds passedSegment
      ⟨[freshMapping (scanResult threeBackends ⟨[], 1, 3, 1, [3]⟩) 4], []⟩ 0
      (scanResult threeBackends ⟨[], 1, 3, 1, [3]⟩) :=
    ⟨⟨[.receive (scanResult threeBackends ⟨[], 1, 3, 1, [3]⟩) 4], rfl⟩, rfl⟩
  have hg : MappedTo passedSegment.log 5 passedSegment.distribTimeStamp 2 := by decide
  have hans := (hall passedRun st hst ⟨2, scanResult threeBackends ⟨[], 1, 3, 1, [3]⟩, [], 0⟩
    (by simp [hshape.2]) (2, 0) (by simp [hshape.1]) (by decide) passedSegment _ 0 5 hs hg).2
    (by simp)
  rw [segTest_answer hs hg] at hans
  simp [distribXidAnswer, scanResult, inProgressScan] at hans

end Hdb.Dtx
