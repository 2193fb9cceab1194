import Hdb.Dtx.SnapshotReuse

/-!
# What a snapshot keeps when it is filled again

A call of `GetSnapshotData` clears the cache of local ids only when it allocates the array of
in-progress ids, so a snapshot that is filled again keeps the local ids cached for the transactions
it listed before.

Main result: `snapshots_fresh`. As long as every fill lists the transactions of the local ids that
are cached, and nothing cached is copied without the list it belongs to, the local ids in every
snapshot belong to transactions it lists. `refillOther_keeps_localXid` is a run without that.
-/

namespace Hdb.Dtx

/-! ## What a test remembers -/

theorem mem_of_inProgressScan {d : ℕ} {xids : List ℕ} (h : inProgressScan d xids = true) :
    d ∈ xids := by
  induction xids with
  | nil => cases h
  | cons x xids ih =>
    rw [inProgressScan] at h
    split_ifs at h with heq hlt
    · exact heq ▸ List.mem_cons_self
    · exact List.mem_cons_of_mem x (ih h)

theorem testDistribXid_remembers (ts : TestState) (localXid distribXid : ℕ) (isVacuumCheck : Bool) :
    (testDistribXid ts localXid distribXid isVacuumCheck).2 = ts ∨
      distribXid ∈ ts.dslm.ds.inProgressXidArray ∧
        (testDistribXid ts localXid distribXid isVacuumCheck).2 =
          { ts with dslm := rememberLocalXid ts.dslm localXid } := by
  simp only [testDistribXid]
  split_ifs with hall hvacuum hmin hmax hscan
  · exact Or.inl rfl
  · exact Or.inl rfl
  · exact Or.inl rfl
  · exact Or.inl rfl
  · exact Or.inr ⟨mem_of_inProgressScan hscan, rfl⟩
  · exact Or.inl rfl

/-- A commit pair is not at odds with the log. -/
def PairOk (committed : ℕ → ℕ × ℕ) (distribTimeStamp : ℕ) (e : ℕ × ℕ) : Prop :=
  e.2 ≠ 0 → committed e.1 = (distribTimeStamp, e.2)

theorem entry_of_found {log : DistributedLog} {localXid t d : ℕ}
    (h : distributedLogCommittedCheck log localXid = .found t d) : log.entry localXid = (t, d) := by
  simp only [distributedLogCommittedCheck] at h
  split_ifs at h
  cases h
  rfl

/-- **What a test does to a snapshot**: nothing, or it remembers a local id whose transaction is in
progress in the snapshot. The log may have been truncated since the pairs were cached. -/
theorem committedTest_remembers {max localXid : ℕ} {log : DistributedLog} {ts ts' : TestState}
    {isVacuumCheck : Bool} {a : DistributedSnapshotCommitted}
    (hcache : ∀ e ∈ ts.cache, PairOk log.entry ts.dslm.ds.distribTransactionTimeStamp e)
    (h : committedTest max log ts localXid isVacuumCheck = some (a, ts')) :
    (∀ e ∈ ts'.cache, PairOk log.entry ts.dslm.ds.distribTransactionTimeStamp e) ∧
      (ts'.dslm = ts.dslm ∨ ∃ d ∈ ts.dslm.ds.inProgressXidArray,
        log.entry localXid = (ts.dslm.ds.distribTransactionTimeStamp, d) ∧
          ts'.dslm = rememberLocalXid ts.dslm localXid) := by
  -- the last part of the test, with a cache that has the pair or not
  have hlast : ∀ (cache : LocalDistribXactCache) (d : ℕ),
      (∀ e ∈ cache, PairOk log.entry ts.dslm.ds.distribTransactionTimeStamp e) →
      log.entry localXid = (ts.dslm.ds.distribTransactionTimeStamp, d) →
      testDistribXid { ts with cache := cache } localXid d isVacuumCheck = (a, ts') →
      (∀ e ∈ ts'.cache, PairOk log.entry ts.dslm.ds.distribTransactionTimeStamp e) ∧
        (ts'.dslm = ts.dslm ∨ ∃ d ∈ ts.dslm.ds.inProgressXidArray,
          log.entry localXid = (ts.dslm.ds.distribTransactionTimeStamp, d) ∧
            ts'.dslm = rememberLocalXid ts.dslm localXid) := by
    intro cache d hpairs hd htest
    have hsnd : (testDistribXid { ts with cache := cache } localXid d isVacuumCheck).2 = ts' := by
      rw [htest]
    obtain hsame | ⟨hmem, hremember⟩ :=
      testDistribXid_remembers { ts with cache := cache } localXid d isVacuumCheck
    · rw [hsame] at hsnd
      subst hsnd
      exact ⟨hpairs, Or.inl rfl⟩
    · rw [hremember] at hsnd
      subst hsnd
      exact ⟨hpairs, Or.inr ⟨d, hmem, hd, rfl⟩⟩
  unfold committedTest at h
  split_ifs at h with hnormal hcached
  · cases h
    exact ⟨hcache, Or.inl rfl⟩
  · cases h
    exact ⟨hcache, Or.inl rfl⟩
  cases hfind : localDistribXactCacheCommittedFind max ts.cache localXid with
  | some p =>
    obtain ⟨d, cache'⟩ := p
    obtain ⟨hmem, hsub⟩ := mem_of_find hfind
    have hpairs : ∀ e ∈ cache', PairOk log.entry ts.dslm.ds.distribTransactionTimeStamp e :=
      fun e he => hcache e (hsub e he)
    simp only [hfind, invalidDistributedTransactionId] at h
    by_cases hd : d = 0
    · rw [if_pos hd] at h
      cases h
      exact ⟨hpairs, Or.inl rfl⟩
    · rw [if_neg hd, Option.some.injEq] at h
      exact hlast cache' d hpairs (hcache _ hmem hd) h
  | none =>
    simp only [hfind] at h
    cases hlog : distributedLogCommittedCheck log localXid with
    | error => simp [hlog] at h
    | notFound =>
      simp only [hlog, Option.map_eq_some_iff, Prod.mk.injEq] at h
      obtain ⟨cache', hadd, -, rfl⟩ := h
      obtain ⟨cache'', hadd', hsub⟩ := add_of_find_none hfind invalidDistributedTransactionId
      rw [hadd, Option.some.injEq] at hadd'
      subst hadd'
      refine ⟨fun e he => ?_, Or.inl rfl⟩
      obtain he | rfl := hsub e he
      · exact hcache e he
      · exact fun hne => absurd rfl hne
    | found t d =>
      simp only [hlog] at h
      have hentry := entry_of_found hlog
      by_cases ht : t = ts.dslm.ds.distribTransactionTimeStamp
      · rw [if_neg (not_not.mpr ht), Option.map_eq_some_iff] at h
        obtain ⟨cache', hadd, htest⟩ := h
        obtain ⟨cache'', hadd', hsub⟩ := add_of_find_none hfind d
        rw [hadd, Option.some.injEq] at hadd'
        subst hadd'
        refine hlast cache' d (fun e he => ?_) (ht ▸ hentry) htest
        obtain he | rfl := hsub e he
        · exact hcache e he
        · exact fun _ => ht ▸ hentry
      · rw [if_pos ht] at h
        cases h
        exact ⟨hcache, Or.inl rfl⟩

end Hdb.Dtx

namespace Hdb.StaticSnapshot

open DtxContext (DistributedSnapshot)

variable {cfg : Config} {arrays arrays' : Arrays} {dslm : DistributedSnapshotWithLocalMapping}
  {snapshot : SnapshotData} {p p' : Process}

/-! ## The invariant -/

/-- The local id was committed with a distributed transaction of the list. -/
def Listed (cfg : Config) (xids : List UInt32) (localXid : ℕ) : Prop :=
  ∃ d ∈ xids, cfg.committed localXid = (cfg.distribTimeStamp, d.toNat)

instance (cfg : Config) (xids : List UInt32) (localXid : ℕ) :
    Decidable (Listed cfg xids localXid) :=
  inferInstanceAs (Decidable (∃ d ∈ xids, _))

/-- The cached local ids belong to transactions of the snapshot, and stand in its array. -/
structure Fresh (cfg : Config) (arrays : Arrays) (dslm : DistributedSnapshotWithLocalMapping) :
    Prop where
  listed : ∀ x ∈ dslm.localXids arrays, Listed cfg dslm.ds.xip x
  current_le : dslm.currentLocalXidsCount ≤ dslm.maxLocalXidsCount
  max_le : dslm.maxLocalXidsCount ≤ (dslm.array arrays).length

structure SnapshotOk (cfg : Config) (arrays : Arrays) (snapshot : SnapshotData) : Prop where
  fresh : Fresh cfg arrays snapshot.distribSnapshotWithLocalMapping
  address : ∀ a ∈ snapshot.distribSnapshotWithLocalMapping.inProgressMappedLocalXids,
    a < arrays.length
  stamp : snapshot.haveDistribSnapshot = true →
    snapshot.distribSnapshotWithLocalMapping.ds.distribTransactionTimeStamp.toNat =
      cfg.distribTimeStamp

/-- A test has nothing to add to the mapping of a copy: there is no room, or nothing listed. -/
def Full (dslm : DistributedSnapshotWithLocalMapping) : Prop :=
  dslm.currentLocalXidsCount = dslm.maxLocalXidsCount ∨ dslm.ds.xip = []

structure ProcessOk (cfg : Config) (p : Process) : Prop where
  static : SnapshotOk cfg p.arrays p.static
  wellFormed : p.static.distribSnapshotWithLocalMapping.ds.WellFormed
  copies : ∀ copy ∈ p.copies, SnapshotOk cfg p.arrays copy
  full : ∀ copy ∈ p.copies, Full copy.distribSnapshotWithLocalMapping
  /-- A copy that shares the array of the static snapshot uses nothing of it. -/
  apart : ∀ copy ∈ p.copies,
    ∀ a ∈ p.static.distribSnapshotWithLocalMapping.inProgressMappedLocalXids,
    copy.distribSnapshotWithLocalMapping.inProgressMappedLocalXids = some a →
      copy.distribSnapshotWithLocalMapping.currentLocalXidsCount = 0
  cache : ∀ e ∈ p.cache, Dtx.PairOk cfg.committed cfg.distribTimeStamp e

/-! ## Arrays -/

namespace DistributedSnapshotWithLocalMapping

theorem array_append (h : ∀ a ∈ dslm.inProgressMappedLocalXids, a < arrays.length)
    (more : Arrays) : dslm.array (arrays ++ more) = dslm.array arrays := by
  unfold array
  cases hm : dslm.inProgressMappedLocalXids with
  | none => rfl
  | some a =>
    rw [Option.bind_some, Option.bind_some, List.getElem?_append_left (h a hm)]

theorem array_modify {a : ℕ} (h : dslm.inProgressMappedLocalXids ≠ some a) (f : List ℕ → List ℕ) :
    dslm.array (arrays.modify a f) = dslm.array arrays := by
  unfold array
  cases hm : dslm.inProgressMappedLocalXids with
  | none => rfl
  | some b =>
    have hne : a ≠ b := fun heq => h (heq ▸ hm)
    rw [Option.bind_some, Option.bind_some, List.getElem?_modify_ne _ _ hne]

theorem localXids_congr (h : dslm.array arrays' = dslm.array arrays) :
    dslm.localXids arrays' = dslm.localXids arrays := by
  rw [localXids, localXids, mapped, mapped, h]

/-- With nothing in use it does not matter what the array holds. -/
theorem localXids_of_unused (h : dslm.currentLocalXidsCount = 0) (arrays arrays' : Arrays) :
    dslm.localXids arrays' = dslm.localXids arrays := by
  rw [localXids, localXids, mapped, mapped, h, List.take_zero, List.take_zero]

theorem length_mapped (h : Fresh cfg arrays dslm) :
    (dslm.mapped arrays).length = dslm.currentLocalXidsCount := by
  rw [mapped, List.length_take]
  exact min_eq_left (h.current_le.trans h.max_le)

/-- What is stored unchanged stays as it was. -/
theorem store_load (h : Fresh cfg arrays dslm) : dslm.store (dslm.load arrays) = dslm := by
  rw [store, load, length_mapped h]

theorem storeArray_mapped (arrays : Arrays) (dslm : DistributedSnapshotWithLocalMapping) :
    dslm.storeArray arrays (dslm.mapped arrays) = arrays := by
  unfold storeArray
  cases hm : dslm.inProgressMappedLocalXids with
  | none => rfl
  | some a =>
    refine List.ext_getElem? fun i => ?_
    by_cases hi : a = i
    · subst hi
      rw [List.getElem?_modify_eq]
      cases harr : arrays[a]? with
      | none => rfl
      | some arr =>
        have hmapped : dslm.mapped arrays = arr.take dslm.currentLocalXidsCount := by
          rw [mapped, array, hm, Option.bind_some, harr, Option.getD_some]
        rw [Option.map_eq_map, Option.map_some, hmapped, List.length_take]
        refine congrArg some ?_
        rcases le_total dslm.currentLocalXidsCount arr.length with hle | hge
        · rw [min_eq_left hle, List.take_append_drop]
        · rw [min_eq_right hge, List.take_of_length_le hge, List.drop_length, List.append_nil]
    · rw [List.getElem?_modify_ne _ _ hi]

end DistributedSnapshotWithLocalMapping

open DistributedSnapshotWithLocalMapping

theorem SnapshotOk.congr (h : SnapshotOk cfg arrays snapshot)
    (hlocal : snapshot.distribSnapshotWithLocalMapping.localXids arrays' =
      snapshot.distribSnapshotWithLocalMapping.localXids arrays)
    (hlength : (snapshot.distribSnapshotWithLocalMapping.array arrays').length =
      (snapshot.distribSnapshotWithLocalMapping.array arrays).length)
    (hle : arrays.length ≤ arrays'.length) : SnapshotOk cfg arrays' snapshot where
  fresh := ⟨hlocal.symm ▸ h.fresh.listed, h.fresh.current_le, hlength.symm ▸ h.fresh.max_le⟩
  address a ha := (h.address a ha).trans_le hle
  stamp := h.stamp

/-- More arrays do not matter to a snapshot. -/
theorem SnapshotOk.append (h : SnapshotOk cfg arrays snapshot) (more : Arrays) :
    SnapshotOk cfg (arrays ++ more) snapshot := by
  have harray := array_append h.address more
  refine h.congr (localXids_congr harray) (congrArg List.length harray) ?_
  rw [List.length_append]
  exact Nat.le_add_right _ _

/-! ## A snapshot is filled -/

/-- The transactions a fill makes the snapshot list. -/
def filledXids (sent : DistributedSnapshot) : Context → List UInt32
  | .qeTwoPhaseExplicitWriter | .qeTwoPhaseImplicitWriter | .qeAutoCommitImplicit
  | .qeEntryDbSingleton | .qeReader => if sent.distribSnapshotId ≠ 0 then sent.xip else []
  | .localOnly | .qdRetryPhase2 | .qeFinishPrepared | .qdDistributedCapable | .qePrepared => []

theorem fillIn_spec {sent : Sent} {fresh : ℕ → UInt32} {context : Context} {filled : SnapshotData}
    (hwf : snapshot.distribSnapshotWithLocalMapping.ds.WellFormed)
    (hstamp : sent.ds.distribSnapshotId ≠ 0 →
      sent.ds.distribTransactionTimeStamp.toNat = cfg.distribTimeStamp)
    (h : fillIn sent.ds fresh snapshot context = some filled) :
    ∃ ds, filled.distribSnapshotWithLocalMapping =
        { snapshot.distribSnapshotWithLocalMapping with ds := ds } ∧
      ds.WellFormed ∧ ds.xip = filledXids sent.ds context ∧
      (filled.haveDistribSnapshot = true →
        ds.distribTransactionTimeStamp.toNat = cfg.distribTimeStamp) := by
  have hwithout : ∀ {filled}, some snapshot.withoutSnapshot = some filled →
      ∃ ds, filled.distribSnapshotWithLocalMapping =
          { snapshot.distribSnapshotWithLocalMapping with ds := ds } ∧
        ds.WellFormed ∧ ds.xip = [] ∧ (filled.haveDistribSnapshot = true →
          ds.distribTransactionTimeStamp.toNat = cfg.distribTimeStamp) := by
    rintro _ ⟨⟩
    refine ⟨{ snapshot.distribSnapshotWithLocalMapping.ds with count := 0 }, rfl,
      ⟨hwf.maxCount_eq, hwf.maxCount_pos, le_refl 0, hwf.count_nonneg.trans hwf.count_le⟩, ?_,
      fun hhave => Bool.noConfusion hhave⟩
    exact List.take_zero
  have hsent : ∀ {filled}, (if sent.ds.distribSnapshotId ≠ 0 then
        (snapshot.distribSnapshotWithLocalMapping.ds.copy fresh sent.ds).toOption.map fun ds =>
          ⟨true, { snapshot.distribSnapshotWithLocalMapping with ds := ds }⟩
      else some snapshot.withoutSnapshot) = some filled →
      ∃ ds, filled.distribSnapshotWithLocalMapping =
          { snapshot.distribSnapshotWithLocalMapping with ds := ds } ∧
        ds.WellFormed ∧ ds.xip = (if sent.ds.distribSnapshotId ≠ 0 then sent.ds.xip else []) ∧
        (filled.haveDistribSnapshot = true →
          ds.distribTransactionTimeStamp.toNat = cfg.distribTimeStamp) := by
    intro filled hfilled
    by_cases hid : sent.ds.distribSnapshotId ≠ 0
    · obtain ⟨ds, hcopy, hds, hagrees⟩ := DistributedSnapshot.copy_spec hwf sent.readable fresh
      rw [if_pos hid, hcopy] at hfilled
      cases hfilled
      rw [if_pos hid]
      exact ⟨ds, rfl, hds, hagrees.xip,
        fun _ => hagrees.distribTransactionTimeStamp ▸ hstamp hid⟩
    · rw [if_neg hid] at hfilled ⊢
      exact hwithout hfilled
  cases context with
  | localOnly => exact hwithout h
  | qdRetryPhase2 => exact hwithout h
  | qeFinishPrepared => exact hwithout h
  | qdDistributedCapable => cases h
  | qePrepared => cases h
  | qeEntryDbSingleton => exact hsent h
  | qeAutoCommitImplicit => exact hsent h
  | qeTwoPhaseExplicitWriter => exact hsent h
  | qeTwoPhaseImplicitWriter => exact hsent h
  | qeReader => exact hsent h

/-- **A fill replaces the distributed snapshot, and nothing else.** -/
theorem fillInDistributedSnapshot_spec {debugDisable : Bool} {sent : Sent} {fresh : ℕ → UInt32}
    {context : Context} {filled : SnapshotData}
    (hwf : snapshot.distribSnapshotWithLocalMapping.ds.WellFormed)
    (hstamp : sent.ds.distribSnapshotId ≠ 0 →
      sent.ds.distribTransactionTimeStamp.toNat = cfg.distribTimeStamp)
    (h : fillInDistributedSnapshot debugDisable sent.ds fresh context snapshot = some filled) :
    ∃ ds, filled.distribSnapshotWithLocalMapping =
        { snapshot.distribSnapshotWithLocalMapping with ds := ds } ∧
      ds.WellFormed ∧ ds.xip = filledXids sent.ds context ∧
      (filled.haveDistribSnapshot = true →
        ds.distribTransactionTimeStamp.toNat = cfg.distribTimeStamp) := by
  obtain ⟨filled', hfill, rfl⟩ := Option.map_eq_some_iff.mp h
  obtain ⟨ds, hdslm, hds, hxip, hhave⟩ := fillIn_spec hwf hstamp hfill
  cases debugDisable with
  | false => exact ⟨ds, hdslm, hds, hxip, hhave⟩
  | true => exact ⟨ds, hdslm, hds, hxip, fun hfalse => Bool.noConfusion hfalse⟩

theorem localXids_eq_nil (hcurrent : dslm.currentLocalXidsCount = 0)
    (hmin : dslm.minCachedLocalXid = 0) (hmax : dslm.maxCachedLocalXid = 0) (arrays : Arrays) :
    dslm.localXids arrays = [] := by
  rw [localXids, mapped, hcurrent, hmin, hmax]
  rfl

/-- Before a fill the cache is as it was, and empty when the arrays are new. -/
theorem prepare_spec {sent : DistributedSnapshot} {fresh : ℕ → UInt32} {freshLocal : ℕ → ℕ}
    {context : Context} (h : ProcessOk cfg p)
    (hp : prepare cfg sent fresh freshLocal context p = some p') :
    ProcessOk cfg p' ∧ ∀ x ∈ p'.static.distribSnapshotWithLocalMapping.localXids p'.arrays,
      p.static.distribSnapshotWithLocalMapping.ds.inProgressXidArray ≠ none ∧
        x ∈ p.static.distribSnapshotWithLocalMapping.localXids p.arrays := by
  unfold prepare at hp
  split_ifs at hp with hnone
  swap
  · cases hp
    exact ⟨h, fun x hx => ⟨hnone, hx⟩⟩
  obtain ⟨maxCount, -, rfl⟩ := Option.map_eq_some_iff.mp hp
  have hxip : p.static.distribSnapshotWithLocalMapping.ds.xip = [] := by
    rw [DistributedSnapshot.xip, hnone]
    exact List.take_nil
  have hcount : p.static.distribSnapshotWithLocalMapping.ds.count ≤ 0 := by
    have hmax := h.wellFormed.maxCount_eq
    rw [hnone] at hmax
    exact h.wellFormed.count_le.trans_eq hmax
  unfold allocate
  split_ifs with hpos
  · have hempty : ∀ {x : ℕ}, x ∉ ([] : List ℕ) := List.not_mem_nil
    refine ⟨⟨⟨⟨fun x hx => ?_, Nat.zero_le _, ?_⟩, ?_, h.static.stamp⟩, ⟨?_, fun _ => hpos,
      h.wellFormed.count_nonneg, hcount.trans hpos.le⟩,
      fun copy hcopy => (h.copies copy hcopy).append _,
      h.full, ?_, h.cache⟩, fun x hx => ?_⟩
    · rw [localXids_eq_nil rfl rfl rfl] at hx
      exact absurd hx hempty
    · simp [array]
    · rintro a ⟨⟩
      simp
    · simp [hpos.le]
    · rintro copy hcopy a ⟨⟩ ha
      exact absurd ((h.copies copy hcopy).address _ ha) (lt_irrefl _)
    · rw [localXids_eq_nil rfl rfl rfl] at hx
      exact absurd hx hempty
  · refine ⟨h, fun x hx => ?_⟩
    obtain ⟨d, hd, -⟩ := h.static.fresh.listed x hx
    rw [hxip] at hd
    cases hd

theorem ProcessOk.getSnapshotData {debugDisable : Bool} {sent : Sent} {fresh : ℕ → UInt32}
    {freshLocal : ℕ → ℕ} {context : Context} (h : ProcessOk cfg p)
    (hstamp : sent.ds.distribSnapshotId ≠ 0 →
      sent.ds.distribTransactionTimeStamp.toNat = cfg.distribTimeStamp)
    (hclean : p.static.distribSnapshotWithLocalMapping.ds.inProgressXidArray = none ∨
      ∀ x ∈ p.static.distribSnapshotWithLocalMapping.localXids p.arrays,
        Listed cfg (filledXids sent.ds context) x)
    (hp : getSnapshotData cfg debugDisable sent.ds fresh freshLocal context p = some p') :
    ProcessOk cfg p' := by
  obtain ⟨q, hq, hp⟩ := Option.bind_eq_some_iff.mp hp
  obtain ⟨static, hfill, hp⟩ := Option.bind_eq_some_iff.mp hp
  cases hp
  obtain ⟨hok, hlocal⟩ := prepare_spec h hq
  obtain ⟨ds, hdslm, hds, hxip, hhave⟩ :=
    fillInDistributedSnapshot_spec hok.wellFormed hstamp hfill
  refine ⟨⟨?_, ?_, ?_⟩, ?_, hok.copies, hok.full, ?_, hok.cache⟩
  · rw [hdslm]
    refine ⟨fun x hx => ?_, hok.static.fresh.current_le, hok.static.fresh.max_le⟩
    obtain ⟨hsome, hx⟩ := hlocal x hx
    exact hxip ▸ hclean.resolve_left hsome x hx
  · rw [hdslm]
    exact hok.static.address
  · rw [hdslm]
    exact hhave
  · rw [hdslm]
    exact hds
  · rw [hdslm]
    exact hok.apart

/-! ## A snapshot is copied -/

theorem SnapshotOk.current_eq_zero (h : SnapshotOk cfg arrays snapshot)
    (hlocal : snapshot.distribSnapshotWithLocalMapping.localXids arrays = []) :
    snapshot.distribSnapshotWithLocalMapping.currentLocalXidsCount = 0 := by
  rw [← length_mapped h.fresh, (List.append_eq_nil_iff.mp hlocal).1]
  rfl

/-- **A copy has its own cache, or none.** -/
theorem copySnapshot_spec (h : SnapshotOk cfg arrays snapshot)
    (hclean : (snapshot.haveDistribSnapshot = true ∧
        0 < snapshot.distribSnapshotWithLocalMapping.ds.count) ∨
      snapshot.distribSnapshotWithLocalMapping.localXids arrays = []) :
    (∃ more, (copySnapshot arrays snapshot).1 = arrays ++ more) ∧
      SnapshotOk cfg (copySnapshot arrays snapshot).1 (copySnapshot arrays snapshot).2 ∧
      Full (copySnapshot arrays snapshot).2.distribSnapshotWithLocalMapping ∧
      ((copySnapshot arrays snapshot).2.distribSnapshotWithLocalMapping.inProgressMappedLocalXids =
          some arrays.length ∨
        (copySnapshot arrays snapshot).2.distribSnapshotWithLocalMapping.currentLocalXidsCount =
          0) := by
  by_cases hcopied : snapshot.haveDistribSnapshot = true ∧
      0 < snapshot.distribSnapshotWithLocalMapping.ds.count
  · have hlength := length_mapped h.fresh
    have harray : (snapshot.withOwnArrays arrays).distribSnapshotWithLocalMapping.array
        (arrays ++ [snapshot.distribSnapshotWithLocalMapping.mapped arrays]) =
          snapshot.distribSnapshotWithLocalMapping.mapped arrays := by
      simp [array, SnapshotData.withOwnArrays]
    have hlocal : (snapshot.withOwnArrays arrays).distribSnapshotWithLocalMapping.localXids
        (arrays ++ [snapshot.distribSnapshotWithLocalMapping.mapped arrays]) =
          snapshot.distribSnapshotWithLocalMapping.localXids arrays := by
      have hcurrent :
        (snapshot.withOwnArrays arrays).distribSnapshotWithLocalMapping.currentLocalXidsCount =
          snapshot.distribSnapshotWithLocalMapping.currentLocalXidsCount := rfl
      rw [localXids, mapped, harray, hcurrent, List.take_of_length_le hlength.le]
      rfl
    have hxip : (snapshot.withOwnArrays arrays).distribSnapshotWithLocalMapping.ds.xip =
        snapshot.distribSnapshotWithLocalMapping.ds.xip := by
      change (snapshot.distribSnapshotWithLocalMapping.ds.xip).take
        snapshot.distribSnapshotWithLocalMapping.ds.count.toNat = _
      rw [DistributedSnapshot.xip, List.take_take, min_self]
    rw [copySnapshot, if_pos hcopied]
    refine ⟨⟨_, rfl⟩, ⟨⟨?_, le_refl _, ?_⟩, ?_, h.stamp⟩, Or.inl rfl, Or.inl rfl⟩
    · rw [hlocal, hxip]
      exact h.fresh.listed
    · exact hlength.ge.trans_eq (congrArg List.length harray.symm)
    · rintro a ⟨⟩
      simp
  · have hlocal := hclean.resolve_left hcopied
    rw [copySnapshot, if_neg hcopied]
    refine ⟨⟨[], (List.append_nil arrays).symm⟩, ⟨⟨fun x hx => ?_, h.fresh.current_le,
      h.fresh.max_le⟩, h.address, h.stamp⟩, Or.inr List.take_nil, Or.inr (h.current_eq_zero hlocal)⟩
    have hx' : x ∈ snapshot.distribSnapshotWithLocalMapping.localXids arrays := hx
    rw [hlocal] at hx'
    cases hx'

theorem ProcessOk.get (h : ProcessOk cfg p) {target : Target} (hs : p.get target = some snapshot) :
    SnapshotOk cfg p.arrays snapshot := by
  cases target with
  | static =>
    cases hs
    exact h.static
  | copy i => exact h.copies snapshot (List.mem_of_getElem? hs)

theorem ProcessOk.copySnapshot (h : ProcessOk cfg p) (hs : SnapshotOk cfg p.arrays snapshot)
    (hclean : (snapshot.haveDistribSnapshot = true ∧
        0 < snapshot.distribSnapshotWithLocalMapping.ds.count) ∨
      snapshot.distribSnapshotWithLocalMapping.localXids p.arrays = []) :
    ProcessOk cfg { p with
      arrays := (copySnapshot p.arrays snapshot).1
      copies := p.copies ++ [(copySnapshot p.arrays snapshot).2] } := by
  obtain ⟨⟨more, hmore⟩, hok, hfull, hown⟩ := copySnapshot_spec hs hclean
  refine ⟨hmore ▸ h.static.append more, h.wellFormed, fun copy hcopy => ?_, fun copy hcopy => ?_,
    fun copy hcopy a ha hshared => ?_, h.cache⟩
  · obtain hcopy | hcopy := List.mem_append.mp hcopy
    · exact hmore ▸ (h.copies copy hcopy).append more
    · exact List.mem_singleton.mp hcopy ▸ hok
  · obtain hcopy | hcopy := List.mem_append.mp hcopy
    · exact h.full copy hcopy
    · exact List.mem_singleton.mp hcopy ▸ hfull
  · obtain hcopy | hcopy := List.mem_append.mp hcopy
    · exact h.apart copy hcopy a ha hshared
    · rw [List.mem_singleton.mp hcopy] at hshared ⊢
      refine hown.resolve_left fun hnew => ?_
      -- the address of a new array is not that of the static snapshot
      have ha' := h.static.address a ha
      rw [hnew, Option.some.injEq] at hshared
      exact absurd hshared ha'.ne'

/-! ## A snapshot is tested with -/

namespace DistributedSnapshotWithLocalMapping

theorem array_storeArray {a : ℕ} (hm : dslm.inProgressMappedLocalXids = some a)
    (ha : a < arrays.length) (xs : List ℕ) :
    dslm.array (dslm.storeArray arrays xs) = xs ++ (dslm.array arrays).drop xs.length := by
  rw [array, array, storeArray, hm]
  simp [List.getElem?_eq_getElem ha]

/-- A write within the array of one mapping changes no other mapping's array, and no length. -/
theorem length_array_storeArray {other : DistributedSnapshotWithLocalMapping} {a : ℕ}
    (hm : dslm.inProgressMappedLocalXids = some a) (ha : a < arrays.length) {xs : List ℕ}
    (hroom : xs.length ≤ (dslm.array arrays).length) :
    (other.array (dslm.storeArray arrays xs)).length = (other.array arrays).length := by
  by_cases hshared : other.inProgressMappedLocalXids = some a
  · have hother : ∀ arrays, other.array arrays = dslm.array arrays := by
      intro arrays
      rw [array, array, hshared, hm]
    rw [hother, hother, array_storeArray hm ha, List.length_append, List.length_drop]
    exact Nat.add_sub_cancel' hroom
  · have hstore : dslm.storeArray arrays xs =
        arrays.modify a fun arr => xs ++ arr.drop xs.length := by rw [storeArray, hm]
    rw [hstore, array_modify hshared]

end DistributedSnapshotWithLocalMapping

/-- A remembered local id is the only new one in the cache. -/
theorem rememberLocalXid_bounds (tested : Dtx.DistributedSnapshotWithLocalMapping) (localXid : ℕ) :
    ((Dtx.rememberLocalXid tested localXid).minCachedLocalXid = tested.minCachedLocalXid ∨
        (Dtx.rememberLocalXid tested localXid).minCachedLocalXid = localXid) ∧
      ((Dtx.rememberLocalXid tested localXid).maxCachedLocalXid = tested.maxCachedLocalXid ∨
        (Dtx.rememberLocalXid tested localXid).maxCachedLocalXid = localXid) := by
  unfold Dtx.rememberLocalXid
  by_cases hroom : tested.inProgressMappedLocalXids.length < tested.maxLocalXidsCount
  · rw [if_pos hroom]
    exact ⟨(ite_eq_or_eq _ _ _).symm, (ite_eq_or_eq _ _ _).symm⟩
  · rw [if_neg hroom]
    exact ⟨Or.inl rfl, Or.inl rfl⟩

/-- **The static snapshot remembers a local id** whose transaction it lists. -/
theorem ProcessOk.remember (h : ProcessOk cfg p) {localXid : ℕ}
    (hroom : p.static.distribSnapshotWithLocalMapping.currentLocalXidsCount <
      p.static.distribSnapshotWithLocalMapping.maxLocalXidsCount)
    (hlisted : Listed cfg p.static.distribSnapshotWithLocalMapping.ds.xip localXid) :
    ProcessOk cfg { p with
      static := { p.static with distribSnapshotWithLocalMapping :=
        p.static.distribSnapshotWithLocalMapping.store (Dtx.rememberLocalXid
          (p.static.distribSnapshotWithLocalMapping.load p.arrays) localXid) }
      arrays := p.static.distribSnapshotWithLocalMapping.storeArray p.arrays
        (Dtx.rememberLocalXid (p.static.distribSnapshotWithLocalMapping.load p.arrays)
          localXid).inProgressMappedLocalXids } := by
  set dslm := p.static.distribSnapshotWithLocalMapping with hdslm
  have hlength := length_mapped h.static.fresh
  have hmax := h.static.fresh.max_le
  rw [← hdslm] at hlength hmax
  have hmapped : (Dtx.rememberLocalXid (dslm.load p.arrays) localXid).inProgressMappedLocalXids =
      dslm.mapped p.arrays ++ [localXid] := by
    rw [Dtx.rememberLocalXid_mapped]
    exact if_pos (hlength.trans_lt hroom)
  have hnew : (dslm.mapped p.arrays ++ [localXid]).length = dslm.currentLocalXidsCount + 1 := by
    rw [List.length_append, hlength, List.length_singleton]
  -- there is room, so the static snapshot has an array
  obtain ⟨a, ha⟩ : ∃ a, dslm.inProgressMappedLocalXids = some a := by
    cases hm : dslm.inProgressMappedLocalXids with
    | some a => exact ⟨a, rfl⟩
    | none =>
      have hnone : dslm.array p.arrays = [] := by
        rw [array, hm]
        rfl
      rw [hnone] at hmax
      exact absurd (hroom.trans_le hmax) (Nat.not_lt_zero _)
  have hlt := h.static.address a ha
  have hfits : (dslm.mapped p.arrays ++ [localXid]).length ≤ (dslm.array p.arrays).length :=
    hnew.trans_le (hroom.trans_le hmax)
  have harray : dslm.array (dslm.storeArray p.arrays (dslm.mapped p.arrays ++ [localXid])) =
      (dslm.mapped p.arrays ++ [localXid]) ++
        (dslm.array p.arrays).drop (dslm.mapped p.arrays ++ [localXid]).length :=
    array_storeArray ha hlt _
  have hframe : ∀ other : DistributedSnapshotWithLocalMapping,
      (other.array (dslm.storeArray p.arrays (dslm.mapped p.arrays ++ [localXid]))).length =
        (other.array p.arrays).length := fun other => length_array_storeArray ha hlt hfits
  have hcount : (dslm.storeArray p.arrays (dslm.mapped p.arrays ++ [localXid])).length =
      p.arrays.length := by
    rw [storeArray, ha]
    exact List.length_modify _ _ _
  rw [hmapped]
  set tested := Dtx.rememberLocalXid (dslm.load p.arrays) localXid with htested
  have hlocal : ∀ x ∈ (dslm.store tested).localXids
      (dslm.storeArray p.arrays (dslm.mapped p.arrays ++ [localXid])),
      x ∈ dslm.localXids p.arrays ∨ x = localXid := by
    have hused : (dslm.store tested).mapped
        (dslm.storeArray p.arrays (dslm.mapped p.arrays ++ [localXid])) =
          dslm.mapped p.arrays ++ [localXid] := by
      change (dslm.array _).take tested.inProgressMappedLocalXids.length = _
      rw [hmapped, harray, List.take_left]
    intro x hx
    rw [localXids, hused] at hx
    obtain hx | hx := List.mem_append.mp hx
    · obtain hx | hx := List.mem_append.mp hx
      · exact Or.inl (List.mem_append_left _ hx)
      · exact Or.inr (List.mem_singleton.mp hx)
    · obtain ⟨hbound, hne⟩ := List.mem_filter.mp hx
      obtain ⟨hmin, hmax⟩ := rememberLocalXid_bounds (dslm.load p.arrays) localXid
      have hold : x = dslm.minCachedLocalXid ∨ x = dslm.maxCachedLocalXid ∨ x = localXid := by
        obtain rfl | rfl := List.mem_pair.mp hbound
        · exact hmin.imp_right Or.inr
        · exact Or.inr hmax
      rw [← or_assoc] at hold
      refine hold.imp_left fun hold => List.mem_append_right _ (List.mem_filter.mpr ⟨?_, hne⟩)
      exact List.mem_pair.mpr hold
  refine ⟨⟨⟨fun x hx => ?_, ?_, ?_⟩, fun b hb => ?_, h.static.stamp⟩, h.wellFormed,
    fun copy hcopy => ?_, h.full, h.apart, h.cache⟩
  · obtain hx | rfl := hlocal x hx
    · exact h.static.fresh.listed x hx
    · exact hlisted
  · change tested.inProgressMappedLocalXids.length ≤ dslm.maxLocalXidsCount
    rw [hmapped, hnew]
    exact hroom
  · exact hmax.trans_eq (hframe dslm).symm
  · exact (h.static.address b hb).trans_eq hcount.symm
  · refine (h.copies copy hcopy).congr ?_ (hframe _) hcount.ge
    by_cases hshared : copy.distribSnapshotWithLocalMapping.inProgressMappedLocalXids = some a
    · exact localXids_of_unused (h.apart copy hcopy a ha hshared) _ _
    · refine localXids_congr ?_
      rw [storeArray, ha]
      exact array_modify hshared _

theorem ProcessOk.committedTest (h : ProcessOk cfg p) {target : Target} {localXid : ℕ}
    {isVacuumCheck : Bool} (hp : committedTest cfg p target localXid isVacuumCheck = some p') :
    ProcessOk cfg p' := by
  obtain ⟨snapshot, hget, hp⟩ := Option.bind_eq_some_iff.mp hp
  obtain ⟨u, hguard, hp⟩ := Option.bind_eq_some_iff.mp hp
  obtain ⟨⟨a, ts⟩, htest, hp⟩ := Option.bind_eq_some_iff.mp hp
  cases hp
  have hok := h.get hget
  have hhave : snapshot.haveDistribSnapshot = true := (Option.guard_eq_some' u).mp hguard
  have hstamp := hok.stamp hhave
  have hpairs : ∀ e ∈ p.cache, Dtx.PairOk (p.log cfg).entry
      snapshot.distribSnapshotWithLocalMapping.ds.distribTransactionTimeStamp.toNat e := by
    rw [hstamp]
    exact h.cache
  obtain ⟨hcache, hdslm⟩ := Dtx.committedTest_remembers hpairs htest
  have hcache' : ∀ e ∈ ts.cache, Dtx.PairOk cfg.committed cfg.distribTimeStamp e := by
    rw [← hstamp]
    exact hcache
  -- a test that remembers nothing writes what was there
  have hset : p.set snapshot target = p := by
    cases target with
    | static =>
      cases hget
      rfl
    | copy i =>
      obtain ⟨hi, hi'⟩ := List.getElem?_eq_some_iff.mp hget
      rw [Process.set, ← hi', List.set_getElem_self]
  have hsame : ts.dslm = snapshot.distribSnapshotWithLocalMapping.load p.arrays →
      ProcessOk cfg { p.set { snapshot with distribSnapshotWithLocalMapping :=
          snapshot.distribSnapshotWithLocalMapping.store ts.dslm } target with
        arrays := snapshot.distribSnapshotWithLocalMapping.storeArray p.arrays
          ts.dslm.inProgressMappedLocalXids
        cache := ts.cache } := by
    intro heq
    have harrays : snapshot.distribSnapshotWithLocalMapping.storeArray p.arrays
        (snapshot.distribSnapshotWithLocalMapping.load p.arrays).inProgressMappedLocalXids =
          p.arrays := storeArray_mapped p.arrays _
    rw [heq, store_load hok.fresh, harrays, hset]
    exact ⟨h.static, h.wellFormed, h.copies, h.full, h.apart, hcache'⟩
  obtain hdslm | ⟨d, hd, hcommitted, hdslm⟩ := hdslm
  · exact hsame hdslm
  by_cases hroom : snapshot.distribSnapshotWithLocalMapping.currentLocalXidsCount <
      snapshot.distribSnapshotWithLocalMapping.maxLocalXidsCount
  swap
  · refine hsame (hdslm.trans ?_)
    have hlength : ((snapshot.distribSnapshotWithLocalMapping.load
        p.arrays).inProgressMappedLocalXids).length =
          snapshot.distribSnapshotWithLocalMapping.currentLocalXidsCount := length_mapped hok.fresh
    exact if_neg fun hlt => hroom (hlength.symm.trans_lt hlt)
  obtain ⟨xid, hxid, rfl⟩ := List.mem_map.mp hd
  cases target with
  | static =>
    cases hget
    have hlisted : Listed cfg p.static.distribSnapshotWithLocalMapping.ds.xip localXid :=
      ⟨xid, hxid, hstamp ▸ hcommitted⟩
    have hremember := h.remember hroom hlisted
    rw [hdslm]
    exact ⟨hremember.static, hremember.wellFormed, hremember.copies, hremember.full,
      hremember.apart, hcache'⟩
  | copy i =>
    exfalso
    obtain hfull | hnone := h.full snapshot (List.mem_of_getElem? hget)
    · exact absurd hroom hfull.not_lt
    · rw [hnone] at hxid
      cases hxid

/-! ## Runs -/

/-- A snapshot that is filled again lists the transactions of the local ids that are cached, and a
snapshot that lists nothing is copied only with nothing cached. -/
def Clean (cfg : Config) (p : Process) : Action → Prop
  | .getSnapshotData _ sent _ _ context =>
    p.static.distribSnapshotWithLocalMapping.ds.inProgressXidArray = none ∨
      ∀ x ∈ p.static.distribSnapshotWithLocalMapping.localXids p.arrays,
        Listed cfg (filledXids sent.ds context) x
  | .copySnapshot source => ∀ snapshot ∈ p.get source,
    (snapshot.haveDistribSnapshot = true ∧ 0 < snapshot.distribSnapshotWithLocalMapping.ds.count) ∨
      snapshot.distribSnapshotWithLocalMapping.localXids p.arrays = []
  | .committedTest _ _ _ | .truncateLog _ => True

theorem ProcessOk.step (h : ProcessOk cfg p) {a : Action} (hclean : Clean cfg p a)
    (hstep : step cfg p a = some p') : ProcessOk cfg p' := by
  cases a with
  | getSnapshotData debugDisable sent fresh freshLocal context =>
    simp only [StaticSnapshot.step] at hstep
    split_ifs at hstep with hstamp
    exact h.getSnapshotData hstamp hclean hstep
  | copySnapshot source =>
    obtain ⟨snapshot, hget, rfl⟩ := Option.map_eq_some_iff.mp hstep
    exact h.copySnapshot (h.get hget) (hclean snapshot hget)
  | committedTest target localXid isVacuumCheck => exact h.committedTest hstep
  | truncateLog oldestXmin =>
    cases hstep
    exact ⟨h.static, h.wellFormed, h.copies, h.full, h.apart, h.cache⟩

theorem processOk_start : ProcessOk cfg start where
  static := ⟨⟨fun x hx => absurd hx List.not_mem_nil, le_refl 0, le_refl 0⟩,
    (fun a ha => by cases ha), fun hhave => Bool.noConfusion hhave⟩
  wellFormed := ⟨rfl, fun hsome => Bool.noConfusion hsome, le_refl 0, le_refl 0⟩
  copies _ hcopy := absurd hcopy List.not_mem_nil
  full _ hcopy := absurd hcopy List.not_mem_nil
  apart _ hcopy := absurd hcopy List.not_mem_nil
  cache _ he := absurd he List.not_mem_nil

/-- **A reused snapshot keeps nothing of the old one**, in the runs in which no fill and no copy
leaves cached local ids behind in a snapshot that does not list their transactions. -/
theorem snapshots_fresh (cfg : Config) {as : List Action} {p : Process}
    (hclean : Along (step cfg) (Clean cfg) start as) (hrun : run (step cfg) start as = some p) :
    ∀ snapshot ∈ p.static :: p.copies,
      Fresh cfg p.arrays snapshot.distribSnapshotWithLocalMapping := by
  have hok : ProcessOk cfg p :=
    run_invariant_along (fun _ _ _ hok hclean hstep => hok.step hclean hstep) hclean
      processOk_start hrun
  intro snapshot hsnapshot
  obtain rfl | hcopy := List.mem_cons.mp hsnapshot
  · exact hok.static.fresh
  · exact (hok.copies snapshot hcopy).fresh

instance instDecidableClean (cfg : Config) (p : Process) : (a : Action) → Decidable (Clean cfg p a)
  | .getSnapshotData _ sent _ _ context =>
    inferInstanceAs
      (Decidable (p.static.distribSnapshotWithLocalMapping.ds.inProgressXidArray = none ∨
      ∀ x ∈ p.static.distribSnapshotWithLocalMapping.localXids p.arrays,
        Listed cfg (filledXids sent.ds context) x))
  | .copySnapshot source => inferInstanceAs (Decidable (∀ snapshot ∈ p.get source,
      (snapshot.haveDistribSnapshot = true ∧
          0 < snapshot.distribSnapshotWithLocalMapping.ds.count) ∨
        snapshot.distribSnapshotWithLocalMapping.localXids p.arrays = []))
  | .committedTest _ _ _ | .truncateLog _ => inferInstanceAs (Decidable True)

/-- Two local ids were committed with distributed transactions. -/
def twoCommitted : Config :=
  ⟨4, 10, fun x => if x = 100 then (7, 5) else if x = 101 then (7, 6) else (0, 0), 7⟩

/-- A snapshot that lists one transaction. -/
def listsOne (distribSnapshotId xid : UInt32) : Sent where
  ds := ⟨7, 3, distribSnapshotId, 5, 9, 1, 4, some [xid, 0, 0, 0]⟩
  readable :=
    ⟨zero_le_one, (by decide : (1 : ℤ) ≤ DtxContext.maxBackends), (by decide : (1 : ℤ) ≤ 4)⟩

/-- A snapshot that lists two. -/
def listsBoth : Sent where
  ds := ⟨7, 3, 2, 5, 9, 2, 4, some [5, 6, 0, 0]⟩
  readable := ⟨by decide, by decide, by decide⟩

def fill (sent : Sent) : Action := .getSnapshotData false sent (fun _ => 0) (fun _ => 0) .qeReader

/-- The second snapshot lists what the first did. -/
def refillListed : List Action :=
  [fill (listsOne 1 5), .committedTest .static 100 false, .copySnapshot .static, fill listsBoth,
    .committedTest .static 101 false, .committedTest (.copy 0) 100 false]

theorem snapshots_fresh_refillListed :
    ∃ p, run (step twoCommitted) start refillListed = some p ∧
      p.static.distribSnapshotWithLocalMapping.localXids p.arrays = [100, 101, 100, 101] ∧
      ∀ snapshot ∈ p.static :: p.copies,
        Fresh twoCommitted p.arrays snapshot.distribSnapshotWithLocalMapping := by
  have hclean : Along (step twoCommitted) (Clean twoCommitted) start refillListed := by decide
  exact ⟨_, rfl, by decide, snapshots_fresh twoCommitted hclean rfl⟩

/-- The second snapshot lists another transaction. -/
def refillOther : List Action :=
  [fill (listsOne 1 5), .committedTest .static 100 false, fill (listsOne 2 6)]

/-- The local id cached for the first transaction is kept. -/
theorem refillOther_keeps_localXid :
    ∃ p, run (step twoCommitted) start refillOther = some p ∧
      100 ∈ p.static.distribSnapshotWithLocalMapping.localXids p.arrays ∧
      ¬ Fresh twoCommitted p.arrays p.static.distribSnapshotWithLocalMapping := by
  refine ⟨_, rfl, by decide, fun hfresh => ?_⟩
  have hlisted : ¬ Listed twoCommitted [6] 100 := by decide
  exact hlisted (hfresh.listed 100 (by decide))

end Hdb.StaticSnapshot
