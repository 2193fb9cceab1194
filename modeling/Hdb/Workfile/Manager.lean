import Hdb.Lib.Table
import Hdb.Lib.Run
import Mathlib.Data.List.Sort

/-!
# The workfile manager

The temporary files of a query are registered with workfile sets in shared memory. A set belongs to
the process that created it, and is summed up in a record of the query. The operations on shared
memory hold `WorkFileManagerLock`, so each of them is one step.

A limit error is raised after the counters were changed, or before. In both cases the file stays
registered until the transaction deletes it, and the step is the part that was done.
-/

namespace Hdb.Workfile

structure QueryKey where
  sessionId : Nat
  commandCount : Nat
  deriving DecidableEq

structure WorkFileUsagePerQuery where
  key : QueryKey
  refcount : Nat
  numFiles : Nat
  totalBytes : BitVec 64
  active : Bool

def WorkFileUsagePerQuery.addSet (q : WorkFileUsagePerQuery) : WorkFileUsagePerQuery :=
  { q with refcount := q.refcount + 1 }

def WorkFileUsagePerQuery.removeSet (q : WorkFileUsagePerQuery) : WorkFileUsagePerQuery :=
  { q with refcount := q.refcount - 1 }

def WorkFileUsagePerQuery.addFile (q : WorkFileUsagePerQuery) : WorkFileUsagePerQuery :=
  { q with numFiles := q.numFiles + 1 }

def WorkFileUsagePerQuery.removeFile (size : BitVec 64) (q : WorkFileUsagePerQuery) :
    WorkFileUsagePerQuery :=
  { q with numFiles := q.numFiles - 1, totalBytes := q.totalBytes - size }

def WorkFileUsagePerQuery.addBytes (diff : BitVec 64) (q : WorkFileUsagePerQuery) :
    WorkFileUsagePerQuery :=
  { q with totalBytes := q.totalBytes + diff }

structure WorkFileSet where
  /-- The query, and the key of its record. -/
  perquery : QueryKey
  numFiles : Nat
  totalBytes : BitVec 64
  active : Bool
  /-- The process that created the set. It is not in shared memory. -/
  creator : Nat

/-- An entry of `localEntries` of a process that has a workfile set. -/
structure WorkFileLocalEntry where
  proc : Nat
  file : Nat
  workSet : Nat
  size : BitVec 64

/-- The file descriptors of different processes are different. -/
def WorkFileLocalEntry.key (f : WorkFileLocalEntry) : Nat × Nat := (f.proc, f.file)

def WorkFileLocalEntry.resize (size : BitVec 64) (f : WorkFileLocalEntry) : WorkFileLocalEntry :=
  { f with size := size }

instance lawfulBEq_setKey : LawfulBEq (Nat × Nat) := inferInstance

structure WorkFileState where
  freeList : List Nat
  activeList : List Nat
  numActive : Nat
  totalBytes : BitVec 64
  perQueryHash : List WorkFileUsagePerQuery
  entries : Nat → WorkFileSet
  localEntries : List WorkFileLocalEntry
  /-- The sets that a process created and has not closed. -/
  openSets : List (Nat × Nat)
  /-- The processes that have exited. -/
  exited : List Nat

structure WorkFileConfig where
  gpWorkfileMaxEntries : Nat
  gpWorkfileLimitFilesPerQuery : Nat
  gpWorkfileLimitPerQuery : Nat
  gpWorkfileLimitPerSegment : Nat

def workFileShmemInit (config : WorkFileConfig) : WorkFileState where
  freeList := List.range config.gpWorkfileMaxEntries
  activeList := []
  numActive := 0
  totalBytes := 0
  perQueryHash := []
  entries := fun _ => ⟨⟨0, 0⟩, 0, 0, false, 0⟩
  localEntries := []
  openSets := []
  exited := []

/-! ## Operations -/

def findPerQuery (st : WorkFileState) (key : QueryKey) : Option WorkFileUsagePerQuery :=
  Table.find (·.key) key st.perQueryHash

/-- Find or make the record of a query, and count a set. The elements of the hash table come from
shared memory that was zero, or were removed with a `refcount` of 0. -/
def enterPerQuery (hash : List WorkFileUsagePerQuery) (key : QueryKey) :
    List WorkFileUsagePerQuery :=
  let hash := if (Table.find (·.key) key hash).isSome then hash else ⟨key, 0, 0, 0, true⟩ :: hash
  Table.modify (·.key) key WorkFileUsagePerQuery.addSet hash

/-- `none` when there is no free entry. -/
def workfileMgrCreateSetInternal (st : WorkFileState) (proc : Nat) (key : QueryKey) :
    Option (WorkFileState × Nat) :=
  match st.freeList with
  | [] => none
  | workSet :: freeList => some ({ st with
      freeList := freeList
      activeList := workSet :: st.activeList
      numActive := st.numActive + 1
      perQueryHash := enterPerQuery st.perQueryHash key
      entries := Function.update st.entries workSet ⟨key, 0, 0, true, proc⟩ }, workSet)

def findFile (st : WorkFileState) (proc file : Nat) : Option WorkFileLocalEntry :=
  Table.find WorkFileLocalEntry.key (proc, file) st.localEntries

/-- Associate a file with a set. -/
def addFile (st : WorkFileState) (proc file workSet : Nat) : WorkFileState :=
  { st with
    localEntries := ⟨proc, file, workSet, 0⟩ :: st.localEntries
    entries := Function.update st.entries workSet
      { st.entries workSet with numFiles := (st.entries workSet).numFiles + 1 }
    perQueryHash := Table.modify (·.key) (st.entries workSet).perquery
      WorkFileUsagePerQuery.addFile st.perQueryHash }

/-- The limit on the number of files is checked afterwards. -/
def registerFileWithSet (st : WorkFileState) (proc file workSet : Nat) : WorkFileState :=
  if (findFile st proc file).isSome then st else addFile st proc file workSet

/-- The files of the query are too many. -/
def tooManyFiles (config : WorkFileConfig) (st : WorkFileState) (workSet : Nat) : Bool :=
  config.gpWorkfileLimitFilesPerQuery > 0 &&
    match findPerQuery st (st.entries workSet).perquery with
    | none => false
    | some q => config.gpWorkfileLimitFilesPerQuery < q.numFiles

/-- The files of the query or of the segment would be too large. -/
def tooManyBytes (config : WorkFileConfig) (st : WorkFileState) (workSet : Nat) (diff : BitVec 64) :
    Bool :=
  decide (0 < diff.toInt) &&
    ((config.gpWorkfileLimitPerQuery > 0 &&
      match findPerQuery st (st.entries workSet).perquery with
      | none => false
      | some q =>
        config.gpWorkfileLimitPerQuery < ((q.totalBytes + diff + 1023) / 1024#64).toNat) ||
    (config.gpWorkfileLimitPerSegment != 0 &&
      config.gpWorkfileLimitPerSegment < ((st.totalBytes + diff) / 1024#64).toNat))

/-- Change the size of a file that is in a set. -/
def setFileSize (st : WorkFileState) (f : WorkFileLocalEntry) (newsize : BitVec 64) :
    WorkFileState :=
  let diff := newsize - f.size
  { st with
    totalBytes := st.totalBytes + diff
    localEntries := Table.modify WorkFileLocalEntry.key f.key (WorkFileLocalEntry.resize newsize)
      st.localEntries
    entries := Function.update st.entries f.workSet
      { st.entries f.workSet with totalBytes := (st.entries f.workSet).totalBytes + diff }
    perQueryHash := Table.modify (·.key) (st.entries f.workSet).perquery
      (WorkFileUsagePerQuery.addBytes diff) st.perQueryHash }

/-- A file without a set gets one of its own. -/
def updateWorkFileSize (config : WorkFileConfig) (st : WorkFileState) (proc file : Nat)
    (newsize : BitVec 64) (key : QueryKey) : WorkFileState :=
  match findFile st proc file with
  | some f =>
    if newsize - f.size = 0 then st
    else if tooManyBytes config st f.workSet (newsize - f.size) then st
    else setFileSize st f newsize
  | none =>
    if newsize = 0 then st
    else
      match workfileMgrCreateSetInternal st proc key with
      | none => st
      | some (st, workSet) =>
        let st := addFile st proc file workSet
        if tooManyFiles config st workSet then st
        else if tooManyBytes config st workSet newsize then st
        else setFileSize st ⟨proc, file, workSet, 0⟩ newsize

/-- Put a set back on the free list, and remove the record of the query with its last set. -/
def freeSet (st : WorkFileState) (workSet : Nat) : WorkFileState :=
  let key := (st.entries workSet).perquery
  { st with
    freeList := workSet :: st.freeList
    activeList := st.activeList.erase workSet
    numActive := st.numActive - 1
    entries := Function.update st.entries workSet { st.entries workSet with active := false }
    perQueryHash := (Table.modify (·.key) key WorkFileUsagePerQuery.removeSet
      st.perQueryHash).filter fun q => !(q.key == key && q.refcount == 0) }

/-- Take a file out of its set. -/
def removeFile (st : WorkFileState) (f : WorkFileLocalEntry) : WorkFileState :=
  { st with
    totalBytes := st.totalBytes - f.size
    localEntries := Table.remove WorkFileLocalEntry.key f.key st.localEntries
    entries := Function.update st.entries f.workSet { st.entries f.workSet with
      numFiles := (st.entries f.workSet).numFiles - 1
      totalBytes := (st.entries f.workSet).totalBytes - f.size }
    perQueryHash := Table.modify (·.key) (st.entries f.workSet).perquery
      (WorkFileUsagePerQuery.removeFile f.size) st.perQueryHash }

def workFileDeleted (st : WorkFileState) (proc file : Nat) : WorkFileState :=
  match findFile st proc file with
  | none => st
  | some f =>
    let st := removeFile st f
    if (st.entries f.workSet).numFiles = 0 then freeSet st f.workSet else st

/-- Forget the sets of a process. `workfile_mgr_close_set` does nothing. -/
def forgetSets (st : WorkFileState) (proc : Nat) : WorkFileState :=
  { st with openSets := st.openSets.filter (·.1 != proc) }

/-- The files of a process, in the order of their descriptors. -/
def filesOf (st : WorkFileState) (proc : Nat) : List Nat :=
  ((st.localEntries.filter (·.proc == proc)).map (·.file)).insertionSort (· ≤ ·)

def atProcExitWorkFile (st : WorkFileState) (proc : Nat) : WorkFileState :=
  (filesOf st proc).foldl (fun st file => workFileDeleted st proc file) (forgetSets st proc)

/-! ## Steps -/

inductive WorkFileAction
  | createSet (proc : Nat) (key : QueryKey)
  | registerFile (proc file workSet : Nat)
  | updateSize (proc file : Nat) (newsize : BitVec 64) (key : QueryKey)
  | deleted (proc file : Nat)
  | closeSet (proc workSet : Nat)
  /-- The query of the process is over, by an error or not. -/
  | endQuery (proc : Nat)
  | exit (proc : Nat)

/-- The process that acts. -/
def WorkFileAction.proc : WorkFileAction → Nat
  | createSet proc _ => proc
  | registerFile proc _ _ => proc
  | updateSize proc _ _ _ => proc
  | deleted proc _ => proc
  | closeSet proc _ => proc
  | endQuery proc => proc
  | exit proc => proc

/-- A process registers files with the sets that it created and has not closed. -/
def workFileAct (config : WorkFileConfig) (st : WorkFileState) :
    WorkFileAction → Option WorkFileState
  | .createSet proc key =>
    match workfileMgrCreateSetInternal st proc key with
    | none => some st
    | some (st, workSet) => some { st with openSets := (proc, workSet) :: st.openSets }
  | .registerFile proc file workSet =>
    if (proc, workSet) ∈ st.openSets then some (registerFileWithSet st proc file workSet) else none
  | .updateSize proc file newsize key => some (updateWorkFileSize config st proc file newsize key)
  | .deleted proc file => some (workFileDeleted st proc file)
  | .closeSet proc workSet =>
    if (proc, workSet) ∈ st.openSets then
      some { st with openSets := st.openSets.filter (· != (proc, workSet)) }
    else none
  | .endQuery proc => some (forgetSets st proc)
  | .exit proc => some { atProcExitWorkFile st proc with exited := proc :: st.exited }

/-- A process that has exited does nothing more. -/
def workFileStep (config : WorkFileConfig) (st : WorkFileState) (a : WorkFileAction) :
    Option WorkFileState :=
  if a.proc ∈ st.exited then none else workFileAct config st a

end Hdb.Workfile
