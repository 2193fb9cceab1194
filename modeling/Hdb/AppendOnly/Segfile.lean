import Hdb.Dtx.Xid
import Hdb.Lib.Run

/-!
# Segment files of append-only tables

The dispatcher keeps the state of the segment files of append-only tables in a hash table of bounded
size. Insertions and vacuum take segment files from it, and give them back at the end of the
transaction.

A call is one step: it holds `AOSegFileLock` from the moment it has the entry of the table. When
there is no entry, the catalogs are read without the lock. What was read then is a parameter of the
call (`Catalogs`), and so are the active snapshot of the caller and the order of the hash table.
-/

namespace Hdb.AppendOnly

open Dtx

/-! ## Data -/

/-- `MAX_AOREL_CONCURRENCY` -/
abbrev maxAorelConcurrency : Nat := 128

/-- `AORelationVersion_GetLatest` -/
abbrev latestVersion : Nat := 3

inductive AOSegfileState
  | available
  | awaitingDropReady
  | insertUse
  | compactionUse
  | dropUse
  | compactedAwaitingDrop
  | pseudoCompactionUse
  | compactedDropSkipped
  deriving DecidableEq

structure AOSegfileStatus where
  totalTupcount : Int
  tupsadded : Int
  /-- The transaction that uses the file. -/
  xid : Nat
  /-- The last transaction that wrote to it and committed. -/
  latestWriteXid : Nat
  state : AOSegfileState
  formatversion : Nat
  isfull : Bool
  aborted : Bool
  deriving DecidableEq

structure AORelHashEntryData where
  relid : Nat
  txnsUsingRel : Int
  relsegfiles : Nat → AOSegfileStatus

def AORelHashEntryData.setFile (entry : AORelHashEntryData) (segno : Nat) (file : AOSegfileStatus) :
    AORelHashEntryData :=
  { entry with relsegfiles := Function.update entry.relsegfiles segno file }

/-- What a transaction may still call. An insertion calls `SetSegnoForWrite` any number of times. A
transaction of vacuum chooses the file to compact and then the one to insert into, or it drops
files. -/
inductive XactPhase
  | idle
  | inserting
  | compacting (relid segno : Nat)
  | vacuumed
  | ended
  deriving DecidableEq

structure Xact where
  xid : Nat
  phase : XactPhase
  appendOnlyInsertXact : Bool
  deriving DecidableEq

structure WriterState where
  hash : List AORelHashEntryData
  numExistingAorels : Nat
  /-- The transactions that have not finished. -/
  xacts : List Xact

structure WriterConfig where
  maxAppendOnlyTables : Nat
  /-- `test_AppendOnlyHash_eviction_vs_just_marking_not_inuse` -/
  testEviction : Bool

structure FileSegInfo where
  segno : Nat
  totalTupcount : Int
  formatversion : Nat

/-- What is read from the catalogs of a table on the dispatcher and on the segments. -/
structure Catalogs where
  fileSegs : List FileSegInfo
  awaitingDrop : List Nat

structure Snapshot where
  xmax : Nat
  xip : List Nat

/-- What a call depends on, apart from the hash table. -/
structure Session where
  snapshot : Snapshot
  catalogs : Catalogs
  /-- Which of the unused entries comes first in the hash table. -/
  victim : Nat

inductive AOError
  | tooManyTables
  | noHashEntry

/-! ## The hash table -/

def initialStatus : AOSegfileStatus where
  totalTupcount := 0
  tupsadded := 0
  xid := invalidTransactionId
  latestWriteXid := invalidTransactionId
  state := .available
  formatversion := latestVersion
  isfull := false
  aborted := false

/-- A file that is in the catalogs. -/
def readFileSegInfo (awaitingDrop : List Nat) (files : Nat → AOSegfileStatus) (info : FileSegInfo) :
    Nat → AOSegfileStatus :=
  Function.update files info.segno { files info.segno with
    state := if awaitingDrop.contains info.segno then .awaitingDropReady
      else (files info.segno).state
    totalTupcount := info.totalTupcount
    formatversion := info.formatversion }

/-- The entry that `AORelCreateHashEntry` makes. -/
def aoRelCreateHashEntry (relid : Nat) (catalogs : Catalogs) : AORelHashEntryData where
  relid := relid
  txnsUsingRel := 0
  relsegfiles := catalogs.fileSegs.foldl (readFileSegInfo catalogs.awaitingDrop) fun _ =>
    initialStatus

def aoRelLookupHashEntry (st : WriterState) (relid : Nat) : Option AORelHashEntryData :=
  st.hash.find? (·.relid == relid)

def aoRelRemoveHashEntry (st : WriterState) (relid : Nat) : WriterState :=
  if (aoRelLookupHashEntry st relid).isSome then
    { st with
      hash := st.hash.filter (·.relid != relid)
      numExistingAorels := st.numExistingAorels - 1 }
  else st

/-- The entries that no transaction uses. -/
def unusedEntries (st : WriterState) : List AORelHashEntryData :=
  st.hash.filter (·.txnsUsingRel == 0)

/-- Make room for an entry, if necessary. -/
def appendOnlyRelHashNew (config : WriterConfig) (st : WriterState) (victim : Nat) :
    Except AOError WriterState :=
  if config.maxAppendOnlyTables ≤ st.numExistingAorels then
    match (unusedEntries st)[victim % (unusedEntries st).length]? with
    | none => .error .tooManyTables
    | some entry => .ok (aoRelRemoveHashEntry st entry.relid)
  else .ok st

def aoRelGetOrCreateHashEntry (config : WriterConfig) (st : WriterState) (relid : Nat)
    (session : Session) : Except AOError WriterState :=
  if (aoRelLookupHashEntry st relid).isSome then .ok st
  else
    match appendOnlyRelHashNew config st session.victim with
    | .error e => .error e
    | .ok st => .ok { st with
        hash := aoRelCreateHashEntry relid session.catalogs :: st.hash
        numExistingAorels := st.numExistingAorels + 1 }

/-- The entry of a table. -/
def getEntry (config : WriterConfig) (st : WriterState) (relid : Nat) (session : Session) :
    Except AOError (WriterState × AORelHashEntryData) :=
  match aoRelGetOrCreateHashEntry config st relid session with
  | .error e => .error e
  | .ok st =>
    match aoRelLookupHashEntry st relid with
    | none => .error .noHashEntry
    | some entry => .ok (st, entry)

def setEntry (st : WriterState) (entry : AORelHashEntryData) : WriterState :=
  { st with hash := st.hash.map fun e => if e.relid = entry.relid then entry else e }

/-! ## Choosing a segment file -/

/-- The last transaction that wrote to the file runs concurrently with `xid`. -/
def usedByConcurrentTransaction (xid : Nat) (snapshot : Snapshot) (file : AOSegfileStatus) : Bool :=
  if !transactionIdIsValid file.latestWriteXid then false
  else if transactionIdPrecedes xid file.latestWriteXid then true
  else if snapshot.xmax ≤ file.latestWriteXid then true
  else snapshot.xip.contains file.latestWriteXid

/-- The loop of `SetSegnoForWrite`: the file, and whether it is one that the transaction has
already. -/
def writeLoop (xid : Nat) (snapshot : Snapshot) (files : Nat → AOSegfileStatus) :
    List Nat → Option Nat → Option Nat × Bool
  | [], chosen => (chosen, false)
  | i :: segnos, chosen =>
    let file := files i
    if file.isfull then writeLoop xid snapshot files segnos chosen
    else
      let chosen :=
        if file.state = .available ∧ file.formatversion = latestVersion ∧ chosen = none ∧
            usedByConcurrentTransaction xid snapshot file = false then some i
        else chosen
      if file.xid = xid then (some i, true) else writeLoop xid snapshot files segnos chosen

/-- The file that `SetSegnoForWrite` finds. -/
def segnoToWrite (xid : Nat) (snapshot : Snapshot) (entry : AORelHashEntryData) :
    Option Nat × Bool :=
  writeLoop xid snapshot entry.relsegfiles (List.range' 1 (maxAorelConcurrency - 1)) none

/-- Mark a file as in use. -/
def AORelHashEntryData.use (entry : AORelHashEntryData) (segno : Nat) (state : AOSegfileState)
    (xid : Nat) : AORelHashEntryData :=
  entry.setFile segno { entry.relsegfiles segno with state := state, xid := xid }

/-- `none` when no file was found. -/
def setSegnoForWrite (xid : Nat) (snapshot : Snapshot) (entry : AORelHashEntryData) :
    AORelHashEntryData × Option Nat :=
  let entry := { entry with txnsUsingRel := entry.txnsUsingRel + 1 }
  let (chosen, reused) := segnoToWrite xid snapshot entry
  let entry := if reused then { entry with txnsUsingRel := entry.txnsUsingRel - 1 } else entry
  match chosen with
  | none => (entry, none)
  | some segno => (entry.use segno .insertUse xid, some segno)

/-- The first file that awaits a drop. -/
def segnoAwaitingDrop (xid : Nat) (snapshot : Snapshot) (compactedSegmentFileList : List Nat)
    (entry : AORelHashEntryData) : Option Nat :=
  (List.range maxAorelConcurrency).find? fun i =>
    let file := entry.relsegfiles i
    (file.state == .awaitingDropReady || file.state == .compactedAwaitingDrop) &&
      !usedByConcurrentTransaction xid snapshot file && !compactedSegmentFileList.contains i

/-- The first file with tuples that is available. -/
def segnoToCompact (xid : Nat) (snapshot : Snapshot)
    (compactedSegmentFileList insertedSegmentFileList : List Nat) (entry : AORelHashEntryData) :
    Option Nat :=
  (List.range maxAorelConcurrency).find? fun i =>
    let file := entry.relsegfiles i
    decide (0 < file.totalTupcount) && file.state == .available &&
      !usedByConcurrentTransaction xid snapshot file && !compactedSegmentFileList.contains i &&
      !insertedSegmentFileList.contains i

/-- On the first call of a vacuum, the tuples of segment file 0 have been counted. -/
def setSegzeroTupcount (compactedSegmentFileList : List Nat) (segzeroTupcount : Int)
    (entry : AORelHashEntryData) : AORelHashEntryData :=
  if compactedSegmentFileList = [] then
    entry.setFile 0 { entry.relsegfiles 0 with totalTupcount := segzeroTupcount }
  else entry

/-- The file to compact and `is_drop`. The second search is made when the first one found nothing or
segment file 0. -/
def compactionSegno (xid : Nat) (snapshot : Snapshot)
    (compactedSegmentFileList insertedSegmentFileList : List Nat) (entry : AORelHashEntryData) :
    Option (Nat × Bool) :=
  let drop := segnoAwaitingDrop xid snapshot compactedSegmentFileList entry
  let usesegno :=
    if drop = none ∨ drop = some 0 then
      (segnoToCompact xid snapshot compactedSegmentFileList insertedSegmentFileList entry).or drop
    else drop
  usesegno.map fun segno => (segno, drop.isSome)

def setSegnoForCompaction (xid : Nat) (snapshot : Snapshot)
    (compactedSegmentFileList insertedSegmentFileList : List Nat) (segzeroTupcount : Int)
    (entry : AORelHashEntryData) : AORelHashEntryData × Option (Nat × Bool) :=
  let entry := setSegzeroTupcount compactedSegmentFileList segzeroTupcount entry
  match compactionSegno xid snapshot compactedSegmentFileList insertedSegmentFileList entry with
  | none => (entry, none)
  | some (segno, isDrop) =>
    let txnsUsingRel := if (entry.relsegfiles segno).xid ≠ xid then entry.txnsUsingRel + 1
      else entry.txnsUsingRel
    (({ entry with txnsUsingRel := txnsUsingRel } : AORelHashEntryData).use segno
      (if isDrop then .pseudoCompactionUse else .compactionUse) xid, some (segno, isDrop))

/-- The loop of `SetSegnoForCompactionInsert`: the available file with the fewest tuples. -/
def compactionInsertLoop (xid : Nat) (snapshot : Snapshot) (inCompactionList : Nat → Bool)
    (files : Nat → AOSegfileStatus) : List Nat → Int → Option Nat → Option Nat
  | [], _, chosen => chosen
  | i :: segnos, minTupcount, chosen =>
    let file := files i
    let better := file.totalTupcount < minTupcount ∧ file.state = .available ∧
      file.formatversion = latestVersion ∧ usedByConcurrentTransaction xid snapshot file = false ∧
      inCompactionList i = false
    if inCompactionList i = false ∧ file.xid = xid then some i
    else compactionInsertLoop xid snapshot inCompactionList files segnos
      (if better then file.totalTupcount else minTupcount) (if better then some i else chosen)

def setSegnoForCompactionInsert (xid : Nat) (snapshot : Snapshot)
    (compactedSegno compactedSegmentFileList : List Nat) (entry : AORelHashEntryData) :
    AORelHashEntryData × Option Nat :=
  let chosen := compactionInsertLoop xid snapshot
    (fun i => compactedSegno.contains i || compactedSegmentFileList.contains i) entry.relsegfiles
    (List.range' 1 (maxAorelConcurrency - 1)) (2 ^ 63 - 1) none
  match chosen with
  | none => (entry, none)
  | some segno => (entry.use segno .insertUse xid, some segno)

/-- The files of the list get the state and the transaction. -/
def registerSegnos (state : AOSegfileState) (xid : Nat) (compactedSegmentFileList : List Nat)
    (entry : AORelHashEntryData) : AORelHashEntryData where
  relid := entry.relid
  txnsUsingRel := entry.txnsUsingRel + 1
  relsegfiles i :=
    if i < maxAorelConcurrency ∧ compactedSegmentFileList.contains i then
      { entry.relsegfiles i with state := state, xid := xid }
    else entry.relsegfiles i

def registerSegnoForCompactionDrop := registerSegnos .dropUse

def deregisterSegnoForCompactionDrop := registerSegnos .compactedDropSkipped

/-! ## The end of a transaction -/

/-- Change the files that the transaction uses. -/
def mapOwned (xid : Nat) (f : AOSegfileStatus → AOSegfileStatus) (files : Nat → AOSegfileStatus) :
    Nat → AOSegfileStatus :=
  fun i => if i < maxAorelConcurrency ∧ (files i).xid = xid then f (files i) else files i

/-- `segfileMaxRowThreshold`: 0.9 times the number of rows that have a row number. -/
def segfileMaxRowThreshold : Int := 9 * 1099511627775 / 10

def commitFile (xid : Nat) (file : AOSegfileStatus) : AOSegfileStatus :=
  { file with
    totalTupcount := file.totalTupcount + file.tupsadded
    tupsadded := 0
    isfull := decide (segfileMaxRowThreshold < file.totalTupcount + file.tupsadded)
    latestWriteXid := xid }

def atCommitAppendOnly (xid : Nat) (entry : AORelHashEntryData) : AORelHashEntryData :=
  if 0 < entry.txnsUsingRel then
    { entry with relsegfiles := mapOwned xid (commitFile xid) entry.relsegfiles }
  else entry

def abortFile (file : AOSegfileStatus) : AOSegfileStatus :=
  { file with tupsadded := 0, aborted := true }

def atAbortAppendOnly (xid : Nat) (entry : AORelHashEntryData) : AORelHashEntryData :=
  if entry.txnsUsingRel ≠ 0 then
    { entry with relsegfiles := mapOwned xid abortFile entry.relsegfiles }
  else entry

/-- The state after the transaction. -/
def AOSegfileState.next (state : AOSegfileState) (aborted : Bool) : AOSegfileState :=
  match state with
  | .insertUse => .available
  | .dropUse => if aborted then .awaitingDropReady else .available
  | .compactionUse => if aborted then .available else .compactedAwaitingDrop
  | .pseudoCompactionUse => if aborted then .awaitingDropReady else .compactedAwaitingDrop
  | .compactedDropSkipped => .awaitingDropReady
  | state => state

def atEOXactStateTransition (file : AOSegfileStatus) : AOSegfileStatus :=
  { file with
    state := file.state.next file.aborted
    xid := invalidTransactionId
    aborted := false }

/-- The transaction uses a file of the table. -/
def AORelHashEntryData.usedBy (entry : AORelHashEntryData) (xid : Nat) : Bool :=
  (List.range maxAorelConcurrency).any fun i => (entry.relsegfiles i).xid == xid

/-- `none` when the entry is removed. -/
def atEOXactAppendOnlyRelation (config : WriterConfig) (xid : Nat) (entry : AORelHashEntryData) :
    Option AORelHashEntryData :=
  if entry.txnsUsingRel = 0 then some entry
  else
    let entry := { entry with
      relsegfiles := mapOwned xid atEOXactStateTransition entry.relsegfiles
      txnsUsingRel := if entry.usedBy xid then entry.txnsUsingRel - 1 else entry.txnsUsingRel }
    if config.testEviction ∧ entry.txnsUsingRel = 0 then none else some entry

/-! ## Steps -/

inductive WriterAction
  | begin (xid : Nat)
  | setSegnoForWrite (xid relid : Nat) (session : Session)
  | updateMasterAosegTotals (relid segno : Nat) (tupcount : Int)
  | setSegnoForCompaction (xid relid : Nat) (session : Session)
      (compactedSegmentFileList insertedSegmentFileList : List Nat) (segzeroTupcount : Int)
  | setSegnoForCompactionInsert (xid : Nat) (session : Session)
      (compactedSegmentFileList : List Nat)
  | registerSegnoForCompactionDrop (xid relid : Nat) (session : Session)
      (compactedSegmentFileList : List Nat)
  | deregisterSegnoForCompactionDrop (xid relid : Nat) (session : Session)
      (compactedSegmentFileList : List Nat)
  | atCommit (xid : Nat)
  | atAbort (xid : Nat)
  | atEOXact (xid : Nat)

def findXact (st : WriterState) (xid : Nat) : Option Xact := st.xacts.find? (·.xid == xid)

def setXact (st : WriterState) (x : Xact) : WriterState :=
  { st with xacts := st.xacts.map fun y => if y.xid = x.xid then x else y }

/-- A call for the entry of a table. After an error the transaction can go on: it may have been
raised in a subtransaction. -/
def call {ρ : Type} (config : WriterConfig) (st : WriterState) (relid : Nat) (session : Session)
    (f : AORelHashEntryData → AORelHashEntryData × ρ) (done : ρ → Xact) : WriterState :=
  match getEntry config st relid session with
  | .error _ => st
  | .ok (st, entry) => setXact (setEntry st (f entry).1) (done (f entry).2)

def phaseAfterCompaction (relid : Nat) : Option (Nat × Bool) → XactPhase
  | some (segno, false) => .compacting relid segno
  | _ => .vacuumed

/-- Register files for the drop, or skip it. There is nothing to do for an empty list. -/
def registerStep (config : WriterConfig) (st : WriterState) (x : Xact) (relid : Nat)
    (session : Session) (register : Nat → List Nat → AORelHashEntryData → AORelHashEntryData)
    (compactedSegmentFileList : List Nat) : Option WriterState :=
  if x.phase = .idle ∧ ∀ i ∈ compactedSegmentFileList, i < maxAorelConcurrency then
    if compactedSegmentFileList = [] then some st
    else some (call config st relid session
      (fun entry => (register x.xid compactedSegmentFileList entry, ()))
      fun _ => { x with phase := .vacuumed, appendOnlyInsertXact := true })
  else none

/-- One call, or one part of the end of a transaction. -/
def writerStep (config : WriterConfig) (st : WriterState) : WriterAction → Option WriterState
  | .begin xid =>
    if transactionIdIsValid xid ∧ findXact st xid = none then
      some { st with xacts := ⟨xid, .idle, false⟩ :: st.xacts }
    else none
  | .setSegnoForWrite xid relid session =>
    (findXact st xid).bind fun x =>
      if x.phase = .idle ∨ x.phase = .inserting then
        some (call config st relid session (setSegnoForWrite xid session.snapshot) fun segno =>
          if segno.isSome then { x with phase := .inserting, appendOnlyInsertXact := true } else x)
      else none
  | .updateMasterAosegTotals relid segno tupcount =>
    if (aoRelLookupHashEntry st relid).isSome then
      some { st with hash := st.hash.map fun e =>
        if e.relid = relid then e.setFile segno { e.relsegfiles segno with
          tupsadded := (e.relsegfiles segno).tupsadded + tupcount }
        else e }
    else none
  | .setSegnoForCompaction xid relid session compactedSegmentFileList insertedSegmentFileList
      segzeroTupcount =>
    (findXact st xid).bind fun x =>
      if x.phase = .idle then
        some (call config st relid session (setSegnoForCompaction xid session.snapshot
          compactedSegmentFileList insertedSegmentFileList segzeroTupcount) fun result =>
            { x with
              phase := phaseAfterCompaction relid result
              appendOnlyInsertXact := x.appendOnlyInsertXact || result.isSome })
      else none
  | .setSegnoForCompactionInsert xid session compactedSegmentFileList =>
    (findXact st xid).bind fun x =>
      match x.phase with
      | .compacting relid segno =>
        some (call config st relid session (setSegnoForCompactionInsert xid session.snapshot [segno]
          compactedSegmentFileList) fun _ => { x with phase := .vacuumed })
      | _ => none
  | .registerSegnoForCompactionDrop xid relid session compactedSegmentFileList =>
    (findXact st xid).bind fun x =>
      registerStep config st x relid session AppendOnly.registerSegnoForCompactionDrop
        compactedSegmentFileList
  | .deregisterSegnoForCompactionDrop xid relid session compactedSegmentFileList =>
    (findXact st xid).bind fun x =>
      registerStep config st x relid session AppendOnly.deregisterSegnoForCompactionDrop
        compactedSegmentFileList
  | .atCommit xid =>
    (findXact st xid).bind fun x =>
      if x.phase = .ended then none
      else
        let hash := if x.appendOnlyInsertXact then st.hash.map (atCommitAppendOnly xid) else st.hash
        some (setXact { st with hash := hash } { x with phase := .ended })
  | .atAbort xid =>
    (findXact st xid).bind fun x =>
      let hash := if x.appendOnlyInsertXact then st.hash.map (atAbortAppendOnly xid) else st.hash
      some (setXact { st with hash := hash } { x with phase := .ended })
  | .atEOXact xid =>
    (findXact st xid).bind fun x =>
      if x.phase = .ended then
        let hash := if x.appendOnlyInsertXact then
            st.hash.filterMap (atEOXactAppendOnlyRelation config xid)
          else st.hash
        some { hash := hash
               numExistingAorels := st.numExistingAorels - (st.hash.length - hash.length)
               xacts := st.xacts.filter (·.xid != xid) }
      else none

def writerStart : WriterState := ⟨[], 0, []⟩

end Hdb.AppendOnly
