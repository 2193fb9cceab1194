import Hdb.Dtx.Xid
import Hdb.Lib.Run

/-!
# Distributed snapshots

The dispatcher's side is a system of backends that share the transaction counter, the latest
completed distributed transaction id and one `TMGXACT` slot each. Its steps are what the code
does atomically:

* `currentDtxActivate` takes the next id and stores it, under `shmGxidGenLock` alone;
* a backend in `CreateDistributedSnapshot` reads `latestCompletedDxid`, then one slot after the
  other, and finally publishes its `xmin`, all while it holds `ProcArrayLock` shared;
* `ProcArrayEndGxact` needs `ProcArrayLock` exclusive, so it waits until no scan is going on.

The locals of a scan are a record in the state. Three fields record the history: which ids were
given to whom, which have ended, and the snapshots produced. No step reads them.

The second part is the test a segment makes with a snapshot,
`DistributedSnapshotWithLocalMapping_CommittedTest`, with its two caches.
-/

namespace Hdb.Dtx

/-! ## Taking snapshots -/

structure TmGxact where
  gxid : Nat
  xminDistributedSnapshot : Nat
  deriving DecidableEq, Repr

structure DistributedSnapshot where
  distribTransactionTimeStamp : Nat
  xminAllDistributedSnapshots : Nat
  xmin : Nat
  xmax : Nat
  /-- The in-progress transactions, in ascending order. -/
  inProgressXidArray : List Nat
  deriving DecidableEq, Repr

variable {B : Type} [DecidableEq B]

/-- The locals of `CreateDistributedSnapshot`. -/
structure Scan (B : Type) where
  /-- The slots still to be read. -/
  todo : List B
  xmin : Nat
  xmax : Nat
  globalXminDistributedSnapshots : Nat
  /-- The array as filled so far. -/
  inProgress : List Nat
  deriving DecidableEq, Repr

/-- A snapshot that was produced, with the circumstances. -/
structure Taken (B : Type) where
  backend : B
  ds : DistributedSnapshot
  /-- The transactions that had ended when the snapshot was taken. -/
  ended : List Nat
  /-- How often the backend had reset its slot. -/
  resets : Nat
  deriving DecidableEq, Repr

/-- The shared memory of the dispatcher, the scans in progress, and the history. -/
structure TmState (B : Type) where
  shmGIDSeq : Nat
  latestCompletedDxid : Nat
  gxact : B → TmGxact
  scan : B → Option (Scan B)
  started : List (Nat × B)
  ended : List Nat
  resets : B → Nat
  snapshots : List (Taken B)

def tmInit : TmState B where
  shmGIDSeq := firstDistributedTransactionId
  latestCompletedDxid := invalidDistributedTransactionId
  gxact _ := ⟨invalidDistributedTransactionId, invalidDistributedTransactionId⟩
  scan _ := none
  started := []
  ended := []
  resets _ := 0
  snapshots := []

/-- What does not change: the backends in the order of the process array, the time the
dispatcher started, and the room for in-progress ids in a snapshot. -/
structure TmConfig (B : Type) where
  procs : List B
  nodup : procs.Nodup
  distribTimeStamp : Nat
  maxCount : Nat

inductive TmAction (B : Type)
  | currentDtxActivate (b : B)
  | beginSnapshot (b : B)
  | readSlot (b : B)
  | endSnapshot (b : B)
  | procArrayEndGxact (b : B)
  deriving DecidableEq, Repr

/-- No backend holds `ProcArrayLock`. -/
def lockFree (cfg : TmConfig B) (st : TmState B) : Bool :=
  cfg.procs.all fun b => (st.scan b).isNone

/-- Take the next id. The very last one is a `PANIC`, after which nothing happens. -/
def currentDtxActivate (st : TmState B) (b : B) : Option (TmState B) :=
  if (st.scan b).isSome ∨ (st.gxact b).gxid ≠ invalidDistributedTransactionId then none
  else if st.shmGIDSeq + 1 = lastDistributedTransactionId then none
  else some { st with
    shmGIDSeq := st.shmGIDSeq + 1
    gxact := Function.update st.gxact b { st.gxact b with gxid := st.shmGIDSeq + 1 }
    started := (st.shmGIDSeq + 1, b) :: st.started }

/-- Enter `CreateDistributedSnapshot`. -/
def beginSnapshot (cfg : TmConfig B) (st : TmState B) (b : B) : Option (TmState B) :=
  if (st.scan b).isSome then none
  else some { st with
    scan := Function.update st.scan b (some {
      todo := cfg.procs
      xmin := st.latestCompletedDxid + 1
      xmax := st.latestCompletedDxid + 1
      globalXminDistributedSnapshots := st.latestCompletedDxid + 1
      inProgress := [] }) }

/-- The body of the loop over the slots, for the slot of `p`. `none` is the error for too many
transactions. -/
def scanSlot (maxCount : Nat) (me p : B) (slot : TmGxact) (sc : Scan B) : Option (Scan B) :=
  let dxid := slot.xminDistributedSnapshot
  let globalXmin :=
    if dxid ≠ invalidDistributedTransactionId ∧ dxid < sc.globalXminDistributedSnapshots then dxid
    else sc.globalXminDistributedSnapshots
  let gxid := slot.gxid
  if gxid = invalidDistributedTransactionId then
    some { sc with globalXminDistributedSnapshots := globalXmin }
  else
    let xmin := if gxid < sc.xmin then gxid else sc.xmin
    let xmax := if sc.xmax < gxid then gxid else sc.xmax
    if p = me then
      some { sc with globalXminDistributedSnapshots := globalXmin, xmin := xmin, xmax := xmax }
    else if maxCount ≤ sc.inProgress.length then none
    else
      some { sc with
        globalXminDistributedSnapshots := globalXmin
        xmin := xmin
        xmax := xmax
        inProgress := sc.inProgress ++ [gxid] }

/-- One round of the loop. An error ends the scan without a snapshot. -/
def readSlot (cfg : TmConfig B) (st : TmState B) (b : B) : Option (TmState B) :=
  match st.scan b with
  | none => none
  | some sc =>
    match sc.todo with
    | [] => none
    | p :: todo =>
      some { st with
        scan := Function.update st.scan b
          (scanSlot cfg.maxCount b p (st.gxact p) { sc with todo := todo }) }

/-- The snapshot a finished scan gives. -/
def scanResult (cfg : TmConfig B) (sc : Scan B) : DistributedSnapshot where
  distribTransactionTimeStamp := cfg.distribTimeStamp
  xminAllDistributedSnapshots :=
    if sc.xmin < sc.globalXminDistributedSnapshots then sc.xmin
    else sc.globalXminDistributedSnapshots
  xmin := sc.xmin
  xmax := sc.xmax
  inProgressXidArray := sc.inProgress.mergeSort

/-- Record a snapshot and publish its `xmin`, unless the backend has one published. -/
def publishSnapshot (cfg : TmConfig B) (st : TmState B) (b : B) (sc : Scan B) : TmState B :=
  { st with
    scan := Function.update st.scan b none
    gxact :=
      if (st.gxact b).xminDistributedSnapshot = invalidDistributedTransactionId then
        Function.update st.gxact b { st.gxact b with xminDistributedSnapshot := sc.xmin }
      else st.gxact
    snapshots := ⟨b, scanResult cfg sc, st.ended, st.resets b⟩ :: st.snapshots }

/-- Leave `CreateDistributedSnapshot`. -/
def endSnapshot (cfg : TmConfig B) (st : TmState B) (b : B) : Option (TmState B) :=
  match st.scan b with
  | none => none
  | some sc => if sc.todo = [] then some (publishSnapshot cfg st b sc) else none

/-- Clear the slot of a backend. -/
def resetGxact (st : TmState B) (b : B) : TmState B :=
  let gxid := (st.gxact b).gxid
  { st with
    gxact := Function.update st.gxact b
      ⟨invalidDistributedTransactionId, invalidDistributedTransactionId⟩
    ended := if gxid = invalidDistributedTransactionId then st.ended else gxid :: st.ended
    resets := Function.update st.resets b (st.resets b + 1) }

/-- End the transaction of a backend, under the exclusive lock. -/
def procArrayEndGxact (cfg : TmConfig B) (st : TmState B) (b : B) : Option (TmState B) :=
  if lockFree cfg st then
    let gxid := (st.gxact b).gxid
    some (resetGxact { st with
      latestCompletedDxid :=
        if gxid ≠ invalidDistributedTransactionId ∧
            transactionIdPrecedes st.latestCompletedDxid gxid = true then gxid
        else st.latestCompletedDxid } b)
  else none

/-- One atomic step of a backend of the process array. -/
def tmStep (cfg : TmConfig B) (st : TmState B) : TmAction B → Option (TmState B)
  | .currentDtxActivate b => if b ∈ cfg.procs then currentDtxActivate st b else none
  | .beginSnapshot b => if b ∈ cfg.procs then beginSnapshot cfg st b else none
  | .readSlot b => if b ∈ cfg.procs then readSlot cfg st b else none
  | .endSnapshot b => if b ∈ cfg.procs then endSnapshot cfg st b else none
  | .procArrayEndGxact b => if b ∈ cfg.procs then procArrayEndGxact cfg st b else none

/-! ## Testing with a snapshot -/

inductive DistributedSnapshotCommitted
  | inProgress
  | visible
  | ignore
  deriving DecidableEq, Repr

/-- A snapshot with the local ids known to be in progress in it. -/
structure DistributedSnapshotWithLocalMapping where
  ds : DistributedSnapshot
  minCachedLocalXid : Nat
  maxCachedLocalXid : Nat
  maxLocalXidsCount : Nat
  /-- The `currentLocalXidsCount` entries in use. -/
  inProgressMappedLocalXids : List Nat
  deriving DecidableEq, Repr

/-- A snapshot just received, with no local ids cached. -/
def freshMapping (ds : DistributedSnapshot) (maxLocalXidsCount : Nat) :
    DistributedSnapshotWithLocalMapping :=
  ⟨ds, invalidTransactionId, invalidTransactionId, maxLocalXidsCount, []⟩

/-- The process-local cache of commit pairs, most recently used first. -/
abbrev LocalDistribXactCache := List (Nat × Nat)

/-- Look a local id up. A hit moves the entry to the front. -/
def localDistribXactCacheCommittedFind (gpMaxLocalDistributedCache : Nat)
    (cache : LocalDistribXactCache) (localXid : Nat) : Option (Nat × LocalDistribXactCache) :=
  if gpMaxLocalDistributedCache = 0 then none
  else
    match cache.find? fun e => e.1 == localXid with
    | none => none
    | some e => some (e.2, e :: cache.eraseP fun e => e.1 == localXid)

/-- Add a pair, removing the least recently used one of a full cache. `none` is the error for a
local id that is already there. -/
def localDistribXactCacheAddCommitted (gpMaxLocalDistributedCache : Nat)
    (cache : LocalDistribXactCache) (localXid distribXid : Nat) : Option LocalDistribXactCache :=
  if gpMaxLocalDistributedCache = 0 then some cache
  else
    let cache := if gpMaxLocalDistributedCache ≤ cache.length then cache.dropLast else cache
    if cache.any fun e => e.1 == localXid then none else some ((localXid, distribXid) :: cache)

/-- The distributed log: for each local id the time stamp and distributed id it was committed
with, both 0 when there is none. -/
structure DistributedLog where
  oldestXmin : Nat
  entry : Nat → Nat × Nat

inductive LogAnswer
  | notFound
  | found (distribTimeStamp distribXid : Nat)
  | error
  deriving DecidableEq, Repr

def distributedLogCommittedCheck (log : DistributedLog) (localXid : Nat) : LogAnswer :=
  if transactionIdPrecedes localXid log.oldestXmin then .notFound
  else
    let e := log.entry localXid
    if e.1 ≠ 0 ∧ e.2 ≠ 0 then .found e.1 e.2
    else if e.1 = 0 ∧ e.2 = 0 then .notFound
    else .error

/-- The loop over the in-progress array, which stops at the first greater entry. -/
def inProgressScan (distribXid : Nat) : List Nat → Bool
  | [] => false
  | x :: xs => if distribXid = x then true else if distribXid < x then false
    else inProgressScan distribXid xs

/-- Remember a local id as in progress, while there is room. -/
def rememberLocalXid (dslm : DistributedSnapshotWithLocalMapping) (localXid : Nat) :
    DistributedSnapshotWithLocalMapping :=
  if dslm.inProgressMappedLocalXids.length < dslm.maxLocalXidsCount then
    { dslm with
      inProgressMappedLocalXids := dslm.inProgressMappedLocalXids ++ [localXid]
      minCachedLocalXid :=
        if transactionIdIsValid dslm.minCachedLocalXid = false ∨
            transactionIdPrecedes localXid dslm.minCachedLocalXid = true then localXid
        else dslm.minCachedLocalXid
      maxCachedLocalXid :=
        if transactionIdIsValid dslm.maxCachedLocalXid = false ∨
            transactionIdFollows localXid dslm.maxCachedLocalXid = true then localXid
        else dslm.maxCachedLocalXid }
  else dslm

/-- What the test has at hand: the snapshot with its cache, and the cache of the process. -/
structure TestState where
  dslm : DistributedSnapshotWithLocalMapping
  cache : LocalDistribXactCache

/-- The last part of the test: a distributed id against the snapshot. -/
def testDistribXid (ts : TestState) (localXid distribXid : Nat) (isVacuumCheck : Bool) :
    DistributedSnapshotCommitted × TestState :=
  let ds := ts.dslm.ds
  if distribXid < ds.xminAllDistributedSnapshots then (.ignore, ts)
  else if isVacuumCheck then (.inProgress, ts)
  else if distribXid < ds.xmin then (.visible, ts)
  else if ds.xmax ≤ distribXid then (.inProgress, ts)
  else if inProgressScan distribXid ds.inProgressXidArray then
    (.inProgress, { ts with dslm := rememberLocalXid ts.dslm localXid })
  else (.visible, ts)

/-- The local id is one the snapshot has cached as in progress. -/
def cachedInProgress (dslm : DistributedSnapshotWithLocalMapping) (localXid : Nat) : Bool :=
  dslm.inProgressMappedLocalXids.length != 0 &&
    (localXid == dslm.minCachedLocalXid || localXid == dslm.maxCachedLocalXid ||
      (transactionIdFollows localXid dslm.minCachedLocalXid &&
        transactionIdPrecedes localXid dslm.maxCachedLocalXid &&
        dslm.inProgressMappedLocalXids.contains localXid))

/-- Is a committed local id in progress according to the distributed snapshot? `none` is an
error of the log or of the cache. -/
def committedTest (gpMaxLocalDistributedCache : Nat) (log : DistributedLog) (ts : TestState)
    (localXid : Nat) (isVacuumCheck : Bool) : Option (DistributedSnapshotCommitted × TestState) :=
  if transactionIdIsNormal localXid = false then some (.ignore, ts)
  else if cachedInProgress ts.dslm localXid then some (.inProgress, ts)
  else
    match localDistribXactCacheCommittedFind gpMaxLocalDistributedCache ts.cache localXid with
    | some (distribXid, cache) =>
      let ts := { ts with cache := cache }
      if distribXid = invalidDistributedTransactionId then some (.ignore, ts)
      else some (testDistribXid ts localXid distribXid isVacuumCheck)
    | none =>
      match distributedLogCommittedCheck log localXid with
      | .error => none
      | .found distribTimeStamp distribXid =>
        if distribTimeStamp ≠ ts.dslm.ds.distribTransactionTimeStamp then some (.ignore, ts)
        else
          (localDistribXactCacheAddCommitted gpMaxLocalDistributedCache ts.cache localXid
            distribXid).map fun cache =>
              testDistribXid { ts with cache := cache } localXid distribXid isVacuumCheck
      | .notFound =>
        (localDistribXactCacheAddCommitted gpMaxLocalDistributedCache ts.cache localXid
          invalidDistributedTransactionId).map fun cache => (.ignore, { ts with cache := cache })

end Hdb.Dtx
