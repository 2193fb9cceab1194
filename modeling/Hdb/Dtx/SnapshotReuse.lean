import Hdb.Dtx.CommittedTest
import Hdb.Dtx.ContextRoundTrip

/-!
# A static snapshot is filled again

`GetSnapshotData` fills the same static snapshot each time. The array of in-progress distributed ids
is allocated once and kept, or replaced by a larger one, and the local ids that the test has cached
stand in an array beside it. `CopySnapshot` gives a copy its own arrays when there is something to
copy, and otherwise leaves it pointing to the cache of the original.

The arrays of local ids have addresses, so that two snapshots can share one. What `malloc` gives is
arbitrary, so it is a parameter of the calls that allocate. The commits that the distributed log
knows are given, and the log may be truncated at any time.
-/

namespace Hdb.StaticSnapshot

open DtxContext (DistributedSnapshot)
open Dtx (DistributedLog LocalDistribXactCache)

/-! ## Snapshots in memory -/

/-- `DtxContext`. -/
inductive Context where
  | localOnly
  | qdDistributedCapable
  | qdRetryPhase2
  | qeEntryDbSingleton
  | qeAutoCommitImplicit
  | qeTwoPhaseExplicitWriter
  | qeTwoPhaseImplicitWriter
  | qeReader
  | qePrepared
  | qeFinishPrepared
  deriving DecidableEq

/-- `inProgressMappedLocalXids` is an address. -/
structure DistributedSnapshotWithLocalMapping where
  ds : DistributedSnapshot
  minCachedLocalXid : ℕ
  maxCachedLocalXid : ℕ
  currentLocalXidsCount : ℕ
  maxLocalXidsCount : ℕ
  inProgressMappedLocalXids : Option ℕ
  deriving DecidableEq

/-- The distributed part of `SnapshotData`. -/
structure SnapshotData where
  haveDistribSnapshot : Bool
  distribSnapshotWithLocalMapping : DistributedSnapshotWithLocalMapping
  deriving DecidableEq

def staticInit : SnapshotData := ⟨false, ⟨.staticInit, 0, 0, 0, 0, none⟩⟩

/-- The arrays of local ids, by address. -/
abbrev Arrays := List (List ℕ)

namespace DistributedSnapshotWithLocalMapping

/-- The array of the mapping. -/
def array (arrays : Arrays) (dslm : DistributedSnapshotWithLocalMapping) : List ℕ :=
  (dslm.inProgressMappedLocalXids.bind fun a => arrays[a]?).getD []

/-- The entries in use. -/
def mapped (arrays : Arrays) (dslm : DistributedSnapshotWithLocalMapping) : List ℕ :=
  (dslm.array arrays).take dslm.currentLocalXidsCount

/-- The local ids the mapping has cached. -/
def localXids (arrays : Arrays) (dslm : DistributedSnapshotWithLocalMapping) : List ℕ :=
  dslm.mapped arrays ++ [dslm.minCachedLocalXid, dslm.maxCachedLocalXid].filter (· ≠ 0)

/-- What the test reads of the mapping. -/
def load (arrays : Arrays) (dslm : DistributedSnapshotWithLocalMapping) :
    Dtx.DistributedSnapshotWithLocalMapping where
  ds := {
    distribTransactionTimeStamp := dslm.ds.distribTransactionTimeStamp.toNat
    xminAllDistributedSnapshots := dslm.ds.xminAllDistributedSnapshots.toNat
    xmin := dslm.ds.xmin.toNat
    xmax := dslm.ds.xmax.toNat
    inProgressXidArray := dslm.ds.xip.map UInt32.toNat }
  minCachedLocalXid := dslm.minCachedLocalXid
  maxCachedLocalXid := dslm.maxCachedLocalXid
  maxLocalXidsCount := dslm.maxLocalXidsCount
  inProgressMappedLocalXids := dslm.mapped arrays

/-- The entries are written to the start of the array. -/
def storeArray (arrays : Arrays) (dslm : DistributedSnapshotWithLocalMapping) (xs : List ℕ) :
    Arrays :=
  match dslm.inProgressMappedLocalXids with
  | none => arrays
  | some a => arrays.modify a fun arr => xs ++ arr.drop xs.length

/-- What the test leaves in the fields of the mapping. -/
def store (dslm : DistributedSnapshotWithLocalMapping)
    (tested : Dtx.DistributedSnapshotWithLocalMapping) : DistributedSnapshotWithLocalMapping :=
  { dslm with
    minCachedLocalXid := tested.minCachedLocalXid
    maxCachedLocalXid := tested.maxCachedLocalXid
    currentLocalXidsCount := tested.inProgressMappedLocalXids.length }

end DistributedSnapshotWithLocalMapping

/-! ## A process of a segment -/

structure Config where
  gpMaxLocalDistributedCache : ℕ
  maxPreparedXacts : ℤ
  /-- The time stamp and the distributed id each local id was committed with. -/
  committed : ℕ → ℕ × ℕ
  /-- The start of the dispatcher that the snapshots come from. -/
  distribTimeStamp : ℕ

structure Process where
  arrays : Arrays
  static : SnapshotData
  copies : List SnapshotData
  cache : LocalDistribXactCache
  /-- The distributed log is truncated before this local id. -/
  oldestXmin : ℕ

def start : Process := ⟨[], staticInit, [], [], 0⟩

/-- `QEDtxContextInfo.distributedSnapshot`. -/
structure Sent where
  ds : DistributedSnapshot
  readable : ds.Readable

variable (cfg : Config)

/-- `GetDistributedSnapshotMaxCount`. `none` is the FATAL for an unexpected context. -/
def getDistributedSnapshotMaxCount (sent : DistributedSnapshot) : Context → Option ℤ
  | .localOnly | .qdRetryPhase2 | .qeFinishPrepared => some 0
  | .qdDistributedCapable => some cfg.maxPreparedXacts
  | .qeTwoPhaseExplicitWriter | .qeTwoPhaseImplicitWriter | .qeAutoCommitImplicit
  | .qeEntryDbSingleton | .qeReader =>
    if sent.distribSnapshotId ≠ 0 then some sent.maxCount else some cfg.maxPreparedXacts
  | .qePrepared => none

/-- The arrays of a snapshot that has none are allocated, with the cache empty. -/
def allocate (maxCount : ℤ) (fresh : ℕ → UInt32) (freshLocal : ℕ → ℕ) (p : Process) : Process :=
  let dslm := p.static.distribSnapshotWithLocalMapping
  if 0 < maxCount then
    { p with
      arrays := p.arrays ++ [(List.range maxCount.toNat).map freshLocal]
      static := { p.static with distribSnapshotWithLocalMapping := {
        ds := { dslm.ds with
          inProgressXidArray := some ((List.range maxCount.toNat).map fresh)
          maxCount := maxCount }
        currentLocalXidsCount := 0
        minCachedLocalXid := 0
        maxCachedLocalXid := 0
        inProgressMappedLocalXids := some p.arrays.length
        maxLocalXidsCount := maxCount.toNat } } }
  else p

/-- No distributed snapshot. -/
def SnapshotData.withoutSnapshot (snapshot : SnapshotData) : SnapshotData :=
  let dslm := snapshot.distribSnapshotWithLocalMapping
  { haveDistribSnapshot := false
    distribSnapshotWithLocalMapping := { dslm with ds := { dslm.ds with count := 0 } } }

/-- `FillInDistributedSnapshot`, without its last statement. `none` is an error. -/
def fillIn (sent : DistributedSnapshot) (fresh : ℕ → UInt32) (snapshot : SnapshotData) :
    Context → Option SnapshotData
  | .localOnly | .qdRetryPhase2 | .qeFinishPrepared => some snapshot.withoutSnapshot
  | .qdDistributedCapable => none
  | .qeTwoPhaseExplicitWriter | .qeTwoPhaseImplicitWriter | .qeAutoCommitImplicit
  | .qeEntryDbSingleton | .qeReader =>
    let dslm := snapshot.distribSnapshotWithLocalMapping
    if sent.distribSnapshotId ≠ 0 then
      (dslm.ds.copy fresh sent).toOption.map fun ds => ⟨true, { dslm with ds := ds }⟩
    else some snapshot.withoutSnapshot
  | .qePrepared => none

/-- `FillInDistributedSnapshot`. -/
def fillInDistributedSnapshot (debugDisable : Bool) (sent : DistributedSnapshot)
    (fresh : ℕ → UInt32) (context : Context) (snapshot : SnapshotData) : Option SnapshotData :=
  (fillIn sent fresh snapshot context).map fun snapshot =>
    if debugDisable then { snapshot with haveDistribSnapshot := false } else snapshot

/-- `GetSnapshotData` before it fills the snapshot. -/
def prepare (sent : DistributedSnapshot) (fresh : ℕ → UInt32) (freshLocal : ℕ → ℕ)
    (context : Context) (p : Process) : Option Process :=
  if p.static.distribSnapshotWithLocalMapping.ds.inProgressXidArray = none then
    (getDistributedSnapshotMaxCount cfg sent context).map fun maxCount =>
      allocate maxCount fresh freshLocal p
  else some p

/-- `GetSnapshotData`, as far as the distributed snapshot goes. -/
def getSnapshotData (debugDisable : Bool) (sent : DistributedSnapshot) (fresh : ℕ → UInt32)
    (freshLocal : ℕ → ℕ) (context : Context) (p : Process) : Option Process := do
  let p ← prepare cfg sent fresh freshLocal context p
  let static ← fillInDistributedSnapshot debugDisable sent fresh context p.static
  return { p with static := static }

/-- A copy with arrays in its own block, at a new address. -/
def SnapshotData.withOwnArrays (arrays : Arrays) (snapshot : SnapshotData) : SnapshotData :=
  let dslm := snapshot.distribSnapshotWithLocalMapping
  { snapshot with distribSnapshotWithLocalMapping := { dslm with
    ds := { dslm.ds with inProgressXidArray := some dslm.ds.xip, maxCount := -1 }
    inProgressMappedLocalXids := some arrays.length
    maxLocalXidsCount := dslm.currentLocalXidsCount } }

/-- Any other copy keeps all but the in-progress array. -/
def SnapshotData.withoutXidArray (snapshot : SnapshotData) : SnapshotData :=
  let dslm := snapshot.distribSnapshotWithLocalMapping
  { snapshot with distribSnapshotWithLocalMapping :=
    { dslm with ds := { dslm.ds with inProgressXidArray := none } } }

/-- `CopySnapshot`. -/
def copySnapshot (arrays : Arrays) (snapshot : SnapshotData) : Arrays × SnapshotData :=
  if snapshot.haveDistribSnapshot ∧ 0 < snapshot.distribSnapshotWithLocalMapping.ds.count then
    (arrays ++ [snapshot.distribSnapshotWithLocalMapping.mapped arrays],
      snapshot.withOwnArrays arrays)
  else (arrays, snapshot.withoutXidArray)

/-- The static snapshot, or one of the copies. -/
inductive Target where
  | static
  | copy (i : ℕ)
  deriving DecidableEq

def Process.get (p : Process) : Target → Option SnapshotData
  | .static => some p.static
  | .copy i => p.copies[i]?

def Process.set (p : Process) (snapshot : SnapshotData) : Target → Process
  | .static => { p with static := snapshot }
  | .copy i => { p with copies := p.copies.set i snapshot }

/-- The distributed log as it is now. -/
def Process.log (p : Process) : DistributedLog := ⟨p.oldestXmin, cfg.committed⟩

/-- `DistributedSnapshotWithLocalMapping_CommittedTest` with one of the snapshots, which must have a
distributed part. -/
def committedTest (p : Process) (target : Target) (localXid : ℕ) (isVacuumCheck : Bool) :
    Option Process := do
  let snapshot ← p.get target
  let dslm := snapshot.distribSnapshotWithLocalMapping
  guard snapshot.haveDistribSnapshot
  let (_, ts) ← Dtx.committedTest cfg.gpMaxLocalDistributedCache (p.log cfg)
    ⟨dslm.load p.arrays, p.cache⟩ localXid isVacuumCheck
  return { p.set { snapshot with distribSnapshotWithLocalMapping := dslm.store ts.dslm } target with
    arrays := dslm.storeArray p.arrays ts.dslm.inProgressMappedLocalXids
    cache := ts.cache }

inductive Action where
  | getSnapshotData (debugDisable : Bool) (sent : Sent) (fresh : ℕ → UInt32) (freshLocal : ℕ → ℕ)
      (context : Context)
  | copySnapshot (source : Target)
  | committedTest (target : Target) (localXid : ℕ) (isVacuumCheck : Bool)
  | truncateLog (oldestXmin : ℕ)

/-- One call of the process. The dispatcher sends snapshots of its own. -/
def step (p : Process) : Action → Option Process
  | .getSnapshotData debugDisable sent fresh freshLocal context =>
    if sent.ds.distribSnapshotId ≠ 0 →
        sent.ds.distribTransactionTimeStamp.toNat = cfg.distribTimeStamp then
      getSnapshotData cfg debugDisable sent.ds fresh freshLocal context p
    else none
  | .copySnapshot source => (p.get source).map fun snapshot =>
    { p with
      arrays := (copySnapshot p.arrays snapshot).1
      copies := p.copies ++ [(copySnapshot p.arrays snapshot).2] }
  | .committedTest target localXid isVacuumCheck =>
      committedTest cfg p target localXid isVacuumCheck
  | .truncateLog oldestXmin => some { p with oldestXmin := oldestXmin }

end Hdb.StaticSnapshot
