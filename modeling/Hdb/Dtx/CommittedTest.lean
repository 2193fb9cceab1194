import Hdb.Dtx.Snapshot

/-!
# The caches of the visibility test

A segment process keeps one cache of commit pairs for all its snapshots, and in each snapshot the
local ids it has found to be in progress. Both only repeat what the distributed log and the
snapshot say: every answer is the one computed with no cache at all (`uncachedTest`).

Main results: `committedTest_spec`, one call of the test, `segTest_answer` and
`segTest_eq_uncachedTest`, a call in any state a process can reach.
-/

namespace Hdb.Dtx

/-! ## The test without caches -/

/-- A distributed id against a snapshot. -/
def distribXidAnswer (ds : DistributedSnapshot) (distribXid : Nat) (isVacuumCheck : Bool) :
    DistributedSnapshotCommitted :=
  if distribXid < ds.xminAllDistributedSnapshots then .ignore
  else if isVacuumCheck then .inProgress
  else if distribXid < ds.xmin then .visible
  else if ds.xmax ≤ distribXid then .inProgress
  else if inProgressScan distribXid ds.inProgressXidArray then .inProgress
  else .visible

/-- The test as the log alone decides it. -/
def uncachedTest (log : DistributedLog) (ds : DistributedSnapshot) (localXid : Nat)
    (isVacuumCheck : Bool) : Option DistributedSnapshotCommitted :=
  if transactionIdIsNormal localXid = false then some .ignore
  else
    match distributedLogCommittedCheck log localXid with
    | .error => none
    | .notFound => some .ignore
    | .found distribTimeStamp distribXid =>
      if distribTimeStamp ≠ ds.distribTransactionTimeStamp then some .ignore
      else some (distribXidAnswer ds distribXid isVacuumCheck)

/-- What a vacuum check would not ignore is in progress to it. -/
theorem uncachedTest_vacuum {log : DistributedLog} {ds : DistributedSnapshot} {localXid : Nat}
    (h : uncachedTest log ds localXid false = some .inProgress) (isVacuumCheck : Bool) :
    uncachedTest log ds localXid isVacuumCheck = some .inProgress := by
  cases isVacuumCheck with
  | false => exact h
  | true =>
    unfold uncachedTest at h ⊢
    by_cases hn : transactionIdIsNormal localXid = false
    · simp [hn] at h
    · rw [if_neg hn] at h ⊢
      cases hl : distributedLogCommittedCheck log localXid with
      | notFound => simp [hl] at h
      | error => simp [hl] at h
      | found t d =>
        simp only [hl] at h ⊢
        by_cases ht : t = ds.distribTransactionTimeStamp
        · by_cases hd : d < ds.xminAllDistributedSnapshots
          · simp [ht, hd, distribXidAnswer] at h
          · simp [ht, hd, distribXidAnswer]
        · simp [ht] at h

theorem uncachedTest_vacuum_ignore {log : DistributedLog} {ds : DistributedSnapshot}
    {localXid : Nat} (h : uncachedTest log ds localXid true = some .ignore) :
    uncachedTest log ds localXid false = some .ignore := by
  unfold uncachedTest at h ⊢
  by_cases hn : transactionIdIsNormal localXid = false
  · simp [hn]
  · rw [if_neg hn] at h ⊢
    cases hl : distributedLogCommittedCheck log localXid with
    | notFound => rfl
    | error => simp [hl] at h
    | found t d =>
      simp only [hl] at h ⊢
      by_cases ht : t = ds.distribTransactionTimeStamp
      · by_cases hd : d < ds.xminAllDistributedSnapshots
        · simp [ht, hd, distribXidAnswer]
        · simp [ht, hd, distribXidAnswer] at h
      · simp [ht]

theorem found_ne_zero {log : DistributedLog} {localXid t d : Nat}
    (h : distributedLogCommittedCheck log localXid = .found t d) : d ≠ 0 := by
  simp only [distributedLogCommittedCheck] at h
  split_ifs at h with h₁ h₂
  simp only [LogAnswer.found.injEq] at h
  exact h.2 ▸ h₂.2

/-! ## A segment process -/

structure SegConfig where
  gpMaxLocalDistributedCache : Nat
  log : DistributedLog
  /-- The start of the dispatcher all snapshots come from. -/
  distribTimeStamp : Nat

/-- The snapshots of a process, and its cache. -/
structure SegState where
  dslms : List DistributedSnapshotWithLocalMapping
  cache : LocalDistribXactCache

def segInit : SegState := ⟨[], []⟩

inductive SegAction
  | receive (ds : DistributedSnapshot) (maxLocalXidsCount : Nat)
  | test (i localXid : Nat) (isVacuumCheck : Bool)
  deriving DecidableEq, Repr

/-- The test with the `i`th snapshot of a process. -/
def segTest (seg : SegConfig) (s : SegState) (i localXid : Nat) (isVacuumCheck : Bool) :
    Option (DistributedSnapshotCommitted × TestState) :=
  (s.dslms[i]?).bind fun dslm =>
    committedTest seg.gpMaxLocalDistributedCache seg.log ⟨dslm, s.cache⟩ localXid isVacuumCheck

/-- Receive a snapshot, or test with one. A test that fails changes nothing. -/
def segStep (seg : SegConfig) (s : SegState) : SegAction → Option SegState
  | .receive ds maxLocalXidsCount =>
    if ds.distribTransactionTimeStamp = seg.distribTimeStamp then
      some { s with dslms := s.dslms ++ [freshMapping ds maxLocalXidsCount] }
    else none
  | .test i localXid isVacuumCheck =>
    match segTest seg s i localXid isVacuumCheck with
    | none => some s
    | some (_, ts) => some ⟨s.dslms.set i ts.dslm, ts.cache⟩

/-! ## What the caches promise -/

variable {seg : SegConfig}

/-- A commit pair repeats the log. -/
def EntryOk (seg : SegConfig) (e : Nat × Nat) : Prop :=
  (e.2 = 0 ∧ distributedLogCommittedCheck seg.log e.1 = .notFound) ∨
    (e.2 ≠ 0 ∧ distributedLogCommittedCheck seg.log e.1 = .found seg.distribTimeStamp e.2)

/-- The local ids a snapshot remembers are in progress in it. -/
structure MappingOk (seg : SegConfig) (dslm : DistributedSnapshotWithLocalMapping) : Prop where
  stamp : dslm.ds.distribTransactionTimeStamp = seg.distribTimeStamp
  inProgress : ∀ x ∈ dslm.inProgressMappedLocalXids,
    uncachedTest seg.log dslm.ds x false = some .inProgress
  min_mem : dslm.minCachedLocalXid = 0 ∨
    dslm.minCachedLocalXid ∈ dslm.inProgressMappedLocalXids
  max_mem : dslm.maxCachedLocalXid = 0 ∨
    dslm.maxCachedLocalXid ∈ dslm.inProgressMappedLocalXids

structure SegInv (seg : SegConfig) (s : SegState) : Prop where
  dslms : ∀ dslm ∈ s.dslms, MappingOk seg dslm
  cache : ∀ e ∈ s.cache, EntryOk seg e

theorem mappingOk_fresh {ds : DistributedSnapshot}
    (h : ds.distribTransactionTimeStamp = seg.distribTimeStamp) (maxLocalXidsCount : Nat) :
    MappingOk seg (freshMapping ds maxLocalXidsCount) :=
  ⟨h, fun _ hx => absurd hx List.not_mem_nil, Or.inl rfl, Or.inl rfl⟩

theorem MappingOk.mem_of_cached {dslm : DistributedSnapshotWithLocalMapping}
    (h : MappingOk seg dslm) {localXid : Nat} (hn : transactionIdIsNormal localXid = true)
    (hc : cachedInProgress dslm localXid = true) :
    localXid ∈ dslm.inProgressMappedLocalXids := by
  have hpos : localXid ≠ 0 := by
    intro h0
    simp [h0, transactionIdIsNormal] at hn
  simp only [cachedInProgress, Bool.and_eq_true, Bool.or_eq_true, beq_iff_eq,
    List.contains_iff_mem] at hc
  obtain ⟨-, (rfl | rfl) | ⟨-, hm⟩⟩ := hc
  · exact h.min_mem.resolve_left hpos
  · exact h.max_mem.resolve_left hpos
  · exact hm

@[simp] theorem rememberLocalXid_ds (dslm : DistributedSnapshotWithLocalMapping) (x : Nat) :
    (rememberLocalXid dslm x).ds = dslm.ds := by
  unfold rememberLocalXid
  split_ifs <;> rfl

theorem rememberLocalXid_mapped (dslm : DistributedSnapshotWithLocalMapping) (x : Nat) :
    (rememberLocalXid dslm x).inProgressMappedLocalXids =
      if dslm.inProgressMappedLocalXids.length < dslm.maxLocalXidsCount then
        dslm.inProgressMappedLocalXids ++ [x]
      else dslm.inProgressMappedLocalXids := by
  unfold rememberLocalXid
  by_cases hroom : dslm.inProgressMappedLocalXids.length < dslm.maxLocalXidsCount
  · rw [if_pos hroom, if_pos hroom]
  · rw [if_neg hroom, if_neg hroom]

/-- An id that is in progress may be remembered. -/
theorem MappingOk.remember {dslm : DistributedSnapshotWithLocalMapping} (h : MappingOk seg dslm)
    {localXid : Nat} (hx : uncachedTest seg.log dslm.ds localXid false = some .inProgress) :
    MappingOk seg (rememberLocalXid dslm localXid) := by
  refine ⟨by simpa using h.stamp, ?_, ?_, ?_⟩
  · intro y hy
    rw [rememberLocalXid_ds]
    rw [rememberLocalXid_mapped] at hy
    split_ifs at hy
    · rw [List.mem_append, List.mem_singleton] at hy
      obtain hy | rfl := hy
      · exact h.inProgress y hy
      · exact hx
    · exact h.inProgress y hy
  · unfold rememberLocalXid
    by_cases hroom : dslm.inProgressMappedLocalXids.length < dslm.maxLocalXidsCount
    · rw [if_pos hroom]
      simp only
      split_ifs
      · exact Or.inr (by simp)
      · exact h.min_mem.imp_right (List.mem_append_left _)
    · rw [if_neg hroom]
      exact h.min_mem
  · unfold rememberLocalXid
    by_cases hroom : dslm.inProgressMappedLocalXids.length < dslm.maxLocalXidsCount
    · rw [if_pos hroom]
      simp only
      split_ifs
      · exact Or.inr (by simp)
      · exact h.max_mem.imp_right (List.mem_append_left _)
    · rw [if_neg hroom]
      exact h.max_mem

/-! ## One call -/

theorem testDistribXid_fst (ts : TestState) (localXid distribXid : Nat) (isVacuumCheck : Bool) :
    (testDistribXid ts localXid distribXid isVacuumCheck).1 =
      distribXidAnswer ts.dslm.ds distribXid isVacuumCheck := by
  simp only [testDistribXid, distribXidAnswer]
  split_ifs <;> rfl

/-- What the last part of the test does to the caches: nothing, or it remembers the local id. -/
theorem testDistribXid_snd (ts : TestState) (localXid distribXid : Nat) (isVacuumCheck : Bool) :
    (testDistribXid ts localXid distribXid isVacuumCheck).2 = ts ∨
      (isVacuumCheck = false ∧ distribXidAnswer ts.dslm.ds distribXid false = .inProgress ∧
        (testDistribXid ts localXid distribXid isVacuumCheck).2 =
          { ts with dslm := rememberLocalXid ts.dslm localXid }) := by
  simp only [testDistribXid, distribXidAnswer]
  split_ifs <;> simp_all

theorem testDistribXid_ok (ts : TestState) (hm : MappingOk seg ts.dslm) {localXid distribXid : Nat}
    (hn : transactionIdIsNormal localXid = true)
    (hl : distributedLogCommittedCheck seg.log localXid = .found seg.distribTimeStamp distribXid)
    (isVacuumCheck : Bool) :
    MappingOk seg (testDistribXid ts localXid distribXid isVacuumCheck).2.dslm ∧
      (testDistribXid ts localXid distribXid isVacuumCheck).2.dslm.ds = ts.dslm.ds ∧
      (testDistribXid ts localXid distribXid isVacuumCheck).2.cache = ts.cache := by
  obtain hs | ⟨-, ha, hs⟩ := testDistribXid_snd ts localXid distribXid isVacuumCheck
  · rw [hs]
    exact ⟨hm, rfl, rfl⟩
  · rw [hs]
    refine ⟨hm.remember ?_, rememberLocalXid_ds _ _, rfl⟩
    simp [uncachedTest, hn, hl, hm.stamp, ha]

theorem mem_of_find {max : Nat} {cache cache' : LocalDistribXactCache} {localXid d : Nat}
    (h : localDistribXactCacheCommittedFind max cache localXid = some (d, cache')) :
    (localXid, d) ∈ cache ∧ ∀ e ∈ cache', e ∈ cache := by
  unfold localDistribXactCacheCommittedFind at h
  split_ifs at h
  cases hf : cache.find? fun e => e.1 == localXid with
  | none => simp [hf] at h
  | some e =>
    simp only [hf, Option.some.injEq, Prod.mk.injEq] at h
    obtain ⟨rfl, rfl⟩ := h
    have hmem := List.mem_of_find?_eq_some hf
    have hkey : e.1 = localXid := by simpa using List.find?_some hf
    refine ⟨hkey ▸ hmem, ?_⟩
    intro e' he'
    obtain rfl | he' := List.mem_cons.mp he'
    · exact hmem
    · exact List.mem_of_mem_eraseP he'

/-- An id the cache did not have can be added: the error is not reached. -/
theorem add_of_find_none {max : Nat} {cache : LocalDistribXactCache} {localXid : Nat}
    (h : localDistribXactCacheCommittedFind max cache localXid = none) (d : Nat) :
    ∃ cache', localDistribXactCacheAddCommitted max cache localXid d = some cache' ∧
      ∀ e ∈ cache', e ∈ cache ∨ e = (localXid, d) := by
  unfold localDistribXactCacheCommittedFind at h
  unfold localDistribXactCacheAddCommitted
  by_cases hmax : max = 0
  · exact ⟨cache, by simp [hmax], fun e he => Or.inl he⟩
  · rw [if_neg hmax] at h ⊢
    have hnone : ∀ e ∈ cache, (e.1 == localXid) = false := by
      cases hf : cache.find? fun e => e.1 == localXid with
      | none => simpa using hf
      | some e => simp [hf] at h
    have hsub : ∀ e ∈ (if max ≤ cache.length then cache.dropLast else cache), e ∈ cache := by
      intro e he
      split_ifs at he
      · exact List.dropLast_subset _ he
      · exact he
    have hany : ((if max ≤ cache.length then cache.dropLast else cache).any
        fun e => e.1 == localXid) = false := by
      rw [List.any_eq_false]
      intro e he
      simp [hnone e (hsub e he)]
    refine ⟨(localXid, d) :: (if max ≤ cache.length then cache.dropLast else cache), ?_, ?_⟩
    · simp [hany]
    · intro e he
      obtain rfl | he := List.mem_cons.mp he
      · exact Or.inr rfl
      · exact Or.inl (hsub e he)

/-- **One call of the test.** With caches that keep their promise the answer is the one of the
log, and the caches keep their promise. -/
theorem committedTest_spec (ts : TestState) (hm : MappingOk seg ts.dslm)
    (hcache : ∀ e ∈ ts.cache, EntryOk seg e) (localXid : Nat) (isVacuumCheck : Bool) :
    (committedTest seg.gpMaxLocalDistributedCache seg.log ts localXid isVacuumCheck).map Prod.fst =
        uncachedTest seg.log ts.dslm.ds localXid isVacuumCheck ∧
      ∀ a ts', committedTest seg.gpMaxLocalDistributedCache seg.log ts localXid isVacuumCheck =
          some (a, ts') →
        MappingOk seg ts'.dslm ∧ ts'.dslm.ds = ts.dslm.ds ∧ ∀ e ∈ ts'.cache, EntryOk seg e := by
  unfold committedTest
  by_cases hn : transactionIdIsNormal localXid = true
  swap
  · simp only [Bool.not_eq_true] at hn
    rw [if_pos hn]
    refine ⟨by simp [uncachedTest, hn], ?_⟩
    intro a ts' h
    cases h
    exact ⟨hm, rfl, hcache⟩
  rw [if_neg (by simp [hn])]
  by_cases hc : cachedInProgress ts.dslm localXid = true
  · rw [if_pos hc]
    have hx := hm.inProgress localXid (hm.mem_of_cached hn hc)
    refine ⟨(uncachedTest_vacuum hx isVacuumCheck).symm, ?_⟩
    intro a ts' h
    cases h
    exact ⟨hm, rfl, hcache⟩
  rw [if_neg hc]
  cases hf : localDistribXactCacheCommittedFind seg.gpMaxLocalDistributedCache ts.cache
    localXid with
  | some p =>
    obtain ⟨d, cache'⟩ := p
    obtain ⟨hmem, hsub⟩ := mem_of_find hf
    have hcache' : ∀ e ∈ cache', EntryOk seg e := fun e he => hcache e (hsub e he)
    obtain ⟨hd, hl⟩ | ⟨hd, hl⟩ := hcache _ hmem
    · simp only at hd hl
      subst hd
      refine ⟨by simp [uncachedTest, hn, hl], ?_⟩
      intro a ts' h
      simp only [if_true, Option.some.injEq, Prod.mk.injEq] at h
      obtain ⟨rfl, rfl⟩ := h
      exact ⟨hm, rfl, hcache'⟩
    · simp only at hd hl
      simp only [hd, if_false]
      refine ⟨by simp [uncachedTest, hn, hl, hm.stamp, testDistribXid_fst], ?_⟩
      intro a ts' h
      simp only [Option.some.injEq] at h
      have hok := testDistribXid_ok { ts with cache := cache' } hm hn hl isVacuumCheck
      rw [h] at hok
      exact ⟨hok.1, hok.2.1, by rw [hok.2.2]; exact hcache'⟩
  | none =>
    cases hl : distributedLogCommittedCheck seg.log localXid with
    | error =>
      refine ⟨by simp [uncachedTest, hn, hl], ?_⟩
      intro a ts' h
      cases h
    | notFound =>
      obtain ⟨cache', hadd, hsub⟩ := add_of_find_none hf 0
      simp only [hadd, Option.map_some]
      refine ⟨by simp [uncachedTest, hn, hl], ?_⟩
      intro a ts' h
      cases h
      refine ⟨hm, rfl, ?_⟩
      intro e he
      obtain he | rfl := hsub e he
      · exact hcache e he
      · exact Or.inl ⟨rfl, hl⟩
    | found t d =>
      by_cases ht : t = ts.dslm.ds.distribTransactionTimeStamp
      · subst ht
        obtain ⟨cache', hadd, hsub⟩ := add_of_find_none hf d
        simp only [ne_eq, not_true_eq_false, if_false, hadd, Option.map_some]
        refine ⟨by simp [uncachedTest, hn, hl, testDistribXid_fst], ?_⟩
        intro a ts' h
        simp only [Option.some.injEq] at h
        rw [hm.stamp] at hl
        have hok := testDistribXid_ok { ts with cache := cache' } hm hn hl isVacuumCheck
        rw [h] at hok
        refine ⟨hok.1, hok.2.1, ?_⟩
        intro e he
        rw [hok.2.2] at he
        obtain he | rfl := hsub e he
        · exact hcache e he
        · exact Or.inr ⟨found_ne_zero hl, hl⟩
      · simp only [ne_eq, ht, not_false_eq_true, if_true]
        refine ⟨by simp [uncachedTest, hn, hl, ht], ?_⟩
        intro a ts' h
        cases h
        exact ⟨hm, rfl, hcache⟩

/-! ## Every call of a process -/

theorem segTest_spec {s : SegState} (h : SegInv seg s) {i : Nat}
    {dslm : DistributedSnapshotWithLocalMapping} (hi : s.dslms[i]? = some dslm) (localXid : Nat)
    (isVacuumCheck : Bool) :
    (segTest seg s i localXid isVacuumCheck).map Prod.fst =
        uncachedTest seg.log dslm.ds localXid isVacuumCheck ∧
      ∀ a ts', segTest seg s i localXid isVacuumCheck = some (a, ts') →
        MappingOk seg ts'.dslm ∧ ts'.dslm.ds = dslm.ds ∧ ∀ e ∈ ts'.cache, EntryOk seg e := by
  simp only [segTest, hi, Option.bind_some]
  exact committedTest_spec ⟨dslm, s.cache⟩ (h.dslms _ (List.mem_of_getElem? hi)) h.cache
    localXid isVacuumCheck

theorem SegInv.step {s s' : SegState} (h : SegInv seg s) {a : SegAction}
    (hstep : segStep seg s a = some s') : SegInv seg s' := by
  cases a with
  | receive ds maxLocalXidsCount =>
    simp only [segStep] at hstep
    split_ifs at hstep with hds
    cases hstep
    refine ⟨?_, h.cache⟩
    intro dslm hdslm
    rw [List.mem_append, List.mem_singleton] at hdslm
    obtain hdslm | rfl := hdslm
    · exact h.dslms dslm hdslm
    · exact mappingOk_fresh hds maxLocalXidsCount
  | test i localXid isVacuumCheck =>
    simp only [segStep] at hstep
    cases ht : segTest seg s i localXid isVacuumCheck with
    | none =>
      simp only [ht, Option.some.injEq] at hstep
      exact hstep ▸ h
    | some p =>
      obtain ⟨a, ts⟩ := p
      simp only [ht, Option.some.injEq] at hstep
      subst hstep
      obtain ⟨dslm, hi, -⟩ := Option.bind_eq_some_iff.mp ht
      obtain ⟨hm, -, hcache⟩ := (segTest_spec h hi localXid isVacuumCheck).2 a ts ht
      refine ⟨?_, hcache⟩
      intro dslm' hdslm'
      obtain hdslm' | rfl := List.mem_or_eq_of_mem_set hdslm'
      · exact h.dslms dslm' hdslm'
      · exact hm

theorem segInv_run {s : SegState} {as : List SegAction}
    (hrun : run (segStep seg) segInit as = some s) : SegInv seg s :=
  run_invariant (fun _ _ _ h hstep => h.step hstep)
    ⟨fun _ h => absurd h List.not_mem_nil, fun _ h => absurd h List.not_mem_nil⟩ hrun

/-- The log has committed the local id with the distributed one. -/
def MappedTo (log : DistributedLog) (localXid distribTimeStamp distribXid : Nat) : Prop :=
  transactionIdIsNormal localXid = true ∧
    distributedLogCommittedCheck log localXid = .found distribTimeStamp distribXid

instance (log : DistributedLog) (localXid t d : Nat) : Decidable (MappedTo log localXid t d) :=
  inferInstanceAs (Decidable (_ ∧ _))

/-- A process has come to hold the snapshot as its `i`th. -/
def Holds (seg : SegConfig) (s : SegState) (i : Nat) (ds : DistributedSnapshot) : Prop :=
  (∃ as, run (segStep seg) segInit as = some s) ∧ (s.dslms[i]?).map (·.ds) = some ds

/-- **The answer of a process.** For a local id that the log maps to a distributed one, it is the
answer of the snapshot for that one, whatever was tested before. -/
theorem segTest_answer {s : SegState} {i : Nat} {ds : DistributedSnapshot} (h : Holds seg s i ds)
    {localXid g : Nat} (hg : MappedTo seg.log localXid seg.distribTimeStamp g)
    (isVacuumCheck : Bool) :
    (segTest seg s i localXid isVacuumCheck).map Prod.fst =
      some (distribXidAnswer ds g isVacuumCheck) := by
  obtain ⟨⟨as, hrun⟩, hds⟩ := h
  obtain ⟨dslm, hi, rfl⟩ := Option.map_eq_some_iff.mp hds
  have hinv := segInv_run hrun
  have hm := hinv.dslms dslm (List.mem_of_getElem? hi)
  rw [(segTest_spec hinv hi localXid isVacuumCheck).1]
  simp [uncachedTest, hg.1, hg.2, hm.stamp]

/-- **The caches are transparent.** Whatever a process has tested before, with whichever of its
snapshots, the answer for a snapshot is the one of the log alone, a vacuum check ignores only what
that answer ignores, and an id the cache does not have can be added to it. -/
theorem segTest_eq_uncachedTest {s : SegState} {i : Nat} {ds : DistributedSnapshot}
    (h : Holds seg s i ds) (localXid : Nat) :
    (segTest seg s i localXid false).map Prod.fst = uncachedTest seg.log ds localXid false ∧
      ((segTest seg s i localXid true).map Prod.fst = some .ignore →
        uncachedTest seg.log ds localXid false = some .ignore) ∧
      ∀ distribXid,
        localDistribXactCacheCommittedFind seg.gpMaxLocalDistributedCache s.cache localXid = none →
        localDistribXactCacheAddCommitted seg.gpMaxLocalDistributedCache s.cache localXid
          distribXid ≠ none := by
  obtain ⟨⟨as, hrun⟩, hds⟩ := h
  obtain ⟨dslm, hi, rfl⟩ := Option.map_eq_some_iff.mp hds
  have hinv := segInv_run hrun
  refine ⟨(segTest_spec hinv hi localXid false).1, ?_, ?_⟩
  · intro hv
    rw [(segTest_spec hinv hi localXid true).1] at hv
    exact uncachedTest_vacuum_ignore hv
  · intro distribXid hf hadd
    obtain ⟨cache', hsome, -⟩ := add_of_find_none hf distribXid
    rw [hsome] at hadd
    cases hadd

/-- A cache of one entry. The log has distributed ids for three local ids, one of them from another
start of the dispatcher. -/
def smallCacheSegment : SegConfig :=
  ⟨1, ⟨3, fun x => if x = 10 then (7, 5) else if x = 11 then (7, 6) else if x = 12 then (6, 5)
    else (0, 0)⟩, 7⟩

def olderSnapshot : DistributedSnapshot :=
  { distribTransactionTimeStamp := 7, xminAllDistributedSnapshots := 2, xmin := 5, xmax := 6,
    inProgressXidArray := [5] }

def newerSnapshot : DistributedSnapshot :=
  { distribTransactionTimeStamp := 7, xminAllDistributedSnapshots := 2, xmin := 6, xmax := 8,
    inProgressXidArray := [6] }

/-- Both snapshots are used, the pair of the first local id is evicted and read again. -/
theorem segTest_eq_uncachedTest_evicted :
    ∃ s, Holds smallCacheSegment s 1 newerSnapshot ∧
      (segTest smallCacheSegment s 1 10 false).map Prod.fst =
        uncachedTest smallCacheSegment.log newerSnapshot 10 false := by
  have hs : Holds smallCacheSegment
      ⟨[⟨olderSnapshot, 10, 10, 4, [10]⟩, ⟨newerSnapshot, 11, 11, 4, [11]⟩], [(11, 6)]⟩ 1
      newerSnapshot :=
    ⟨⟨[.receive olderSnapshot 4, .receive newerSnapshot 4, .test 0 10 false, .test 1 12 false,
      .test 1 11 false], rfl⟩, rfl⟩
  exact ⟨_, hs, (segTest_eq_uncachedTest hs 10).1⟩

end Hdb.Dtx
