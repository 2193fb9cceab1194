import Mathlib.Algebra.Order.BigOperators.Group.Finset
import Mathlib.Data.List.FinRange
import Mathlib.Tactic.Common

/-!
# Resource groups: shared memory and the functions that run under `ResGroupLock`

**The control** (`ResGroupControl`). The pool of free chunks, the array of groups, the array of
slots with its free list, and the fields of `PGPROC` and `SessionState` that the resource groups
use. A group that is not in use has `groupId = none` (`InvalidOid`); the hash table of the source
is the search for a group by its id.

**Chunks.** A group holds chunks in two parts, `memQuotaGranted` and `memSharedGranted`; they come
from the pool in `mempoolReserve` and go back in `mempoolRelease`. Which part a chunk belongs to
is decided by `groupRebalanceQuota` when it is reserved.

**Partial functions.** `none` is a dereference of a null `freeSlot`.
-/

namespace Hdb.ResGroup

inductive MemAuditor
  | vmtracker
  | cgroup
deriving DecidableEq, Repr

/-- Whether the process is a query dispatcher or executes for one (`Gp_role`); of a node, whether it
is the dispatcher or a segment (`IS_QUERY_DISPATCHER()`). The two differ for the executor of a query
that runs on the dispatcher (the entry db). -/
inductive GpRole
  | dispatch
  | execute
deriving DecidableEq, Repr

/-- The capabilities that the memory and admission code reads, in the ranges of
`checkResgroupCapLimit` and without the conflict of `checkResgroupCapConflicts`. -/
structure ResGroupCaps where
  concurrency : ℕ
  memLimit : ℕ
  memSharedQuota : ℕ
  memAuditor : MemAuditor
  memLimit_le : memLimit ≤ 100
  memSharedQuota_le : memSharedQuota ≤ 100
  concurrency_cgroup : memAuditor = .cgroup → concurrency = 0
deriving DecidableEq

/-- The limit that `ALTER RESOURCE GROUP` sets, with its value. -/
inductive ResGroupLimit
  | concurrency (value : ℕ)
  | cpu
  | memory (value : ℕ) (h : value ≤ 100)
  | memorySharedQuota (value : ℕ) (h : value ≤ 100)
  | memorySpillRatio
  | cpuset
deriving DecidableEq

/-- `AlterResourceGroup`: the new capabilities, if they have no conflict. -/
def ResGroupCaps.alter (caps : ResGroupCaps) : ResGroupLimit → Option ResGroupCaps
  | .concurrency value =>
    if h : caps.memAuditor = .cgroup → value = 0 then
      some { caps with concurrency := value, concurrency_cgroup := h }
    else none
  | .memory value h => some { caps with memLimit := value, memLimit_le := h }
  | .memorySharedQuota value h => some { caps with memSharedQuota := value, memSharedQuota_le := h }
  | .cpu | .memorySpillRatio | .cpuset => some caps

structure ResGroupData (p : ℕ) where
  groupId : Option ℕ
  memGap : ℤ
  memExpected : ℤ
  memQuotaGranted : ℤ
  memSharedGranted : ℤ
  memQuotaUsed : ℤ
  memUsage : ℤ
  memSharedUsage : ℤ
  nRunning : ℤ
  nRunningBypassed : ℤ
  waitProcs : List (Fin p)
  lockedForDrop : Bool
  caps : ResGroupCaps
deriving DecidableEq

/-- A slot that is not in use has `groupId = none`. -/
structure ResGroupSlotData (g : ℕ) where
  groupId : Option ℕ
  group : Option (Fin g)
  memQuota : ℤ
  memUsage : ℤ
  nProcs : ℤ
deriving DecidableEq

structure ResGroupControl (g s p : ℕ) where
  totalChunks : ℕ
  freeChunks : ℤ
  groups : Fin g → ResGroupData p
  slots : Fin s → ResGroupSlotData g
  freeSlot : List (Fin s)
  /-- `PGPROC.resSlot`. -/
  resSlot : Fin p → Option (Fin s)
  /-- `PGPROC.links` is in a queue. -/
  procIsWaiting : Fin p → Bool
  /-- `SessionState.resGroupSlot`, for each session. -/
  resGroupSlot : Fin p → Option (Fin s)

variable {g s p : ℕ}

namespace ResGroupControl

def setGroup (c : ResGroupControl g s p) (i : Fin g) (group : ResGroupData p) :
    ResGroupControl g s p :=
  { c with groups := Function.update c.groups i group }

def setSlot (c : ResGroupControl g s p) (x : Fin s) (slot : ResGroupSlotData g) :
    ResGroupControl g s p :=
  { c with slots := Function.update c.slots x slot }

end ResGroupControl

open ResGroupControl

/-! ## What the capabilities promise -/

def groupGetMemExpected (totalChunks : ℕ) (caps : ResGroupCaps) : ℤ :=
  ((totalChunks * caps.memLimit / 100 : ℕ) : ℤ)

def slotGetMemQuotaExpected (totalChunks : ℕ) (caps : ResGroupCaps) : ℤ :=
  ((totalChunks * caps.memLimit / 100 * (100 - caps.memSharedQuota) / 100 / caps.concurrency : ℕ) :
    ℤ)

def groupGetMemQuotaExpected (totalChunks : ℕ) (caps : ResGroupCaps) : ℤ :=
  if 0 < caps.concurrency then slotGetMemQuotaExpected totalChunks caps * caps.concurrency
  else ((totalChunks * caps.memLimit / 100 * (100 - caps.memSharedQuota) / 100 : ℕ) : ℤ)

def groupGetMemSharedExpected (totalChunks : ℕ) (caps : ResGroupCaps) : ℤ :=
  groupGetMemExpected totalChunks caps - groupGetMemQuotaExpected totalChunks caps

/-- The quota of a slot on a segment, where the group may have other capabilities than those that
came with the query. -/
def slotGetMemQuotaOnQE (totalChunks : ℕ) (caps : ResGroupCaps) (group : ResGroupData p) : ℤ :=
  let nFreeSlots := caps.concurrency - group.nRunning
  if nFreeSlots ≤ 0 then
    min (slotGetMemQuotaExpected totalChunks caps)
      ((group.memQuotaGranted - group.memQuotaUsed).tdiv caps.concurrency)
  else
    min (slotGetMemQuotaExpected totalChunks caps)
      ((group.memQuotaGranted - group.memQuotaUsed).tdiv nFreeSlots)

/-! ## The pool -/

/-- The chunks that `mempoolReserve` gets. -/
def mempoolReserved (freeChunks chunks : ℤ) : ℤ := min (max 0 freeChunks) chunks

def groupRebalanceQuota (totalChunks : ℕ) (group : ResGroupData p) (chunks : ℤ)
    (caps : ResGroupCaps) : ResGroupData p :=
  let delta := groupGetMemQuotaExpected totalChunks caps - group.memQuotaGranted
  if 0 ≤ delta then
    { group with
      memQuotaGranted := group.memQuotaGranted + min chunks delta
      memSharedGranted := group.memSharedGranted + (chunks - min chunks delta) }
  else { group with memSharedGranted := group.memSharedGranted + chunks }

/-- The chunks the group gets from the pool in `mempoolAutoReserve`. -/
def mempoolAutoReserved (freeChunks : ℤ) (group : ResGroupData p) : ℤ :=
  let neededMemStocks := group.memExpected - (group.memSharedGranted + group.memQuotaGranted)
  if 0 < neededMemStocks then mempoolReserved freeChunks neededMemStocks else 0

def mempoolAutoReserve (c : ResGroupControl g s p) (i : Fin g) (caps : ResGroupCaps) :
    ResGroupControl g s p :=
  let chunks := mempoolAutoReserved c.freeChunks (c.groups i)
  if 0 < (c.groups i).memExpected -
      ((c.groups i).memSharedGranted + (c.groups i).memQuotaGranted) then
    { c.setGroup i (groupRebalanceQuota c.totalChunks (c.groups i) chunks caps) with
      freeChunks := c.freeChunks - chunks }
  else c

/-- The quota that is not used and not kept for the free slots. -/
def memQuotaToFree (totalChunks : ℕ) (group : ResGroupData p) : ℤ :=
  let nfreeSlots := group.caps.concurrency - group.nRunning
  group.memQuotaGranted -
    (group.memQuotaUsed +
      if 0 < nfreeSlots then slotGetMemQuotaExpected totalChunks group.caps * nfreeSlots else 0)

def memSharedToFree (totalChunks : ℕ) (group : ResGroupData p) : ℤ :=
  group.memSharedGranted -
    max group.memSharedUsage (groupGetMemSharedExpected totalChunks group.caps)

/-- The chunks that `mempoolAutoRelease` returns to the pool. -/
def mempoolAutoReleased (totalChunks : ℕ) (group : ResGroupData p) : ℤ :=
  max (memQuotaToFree totalChunks group) 0 + max (memSharedToFree totalChunks group) 0

def mempoolAutoRelease (c : ResGroupControl g s p) (i : Fin g) : ResGroupControl g s p :=
  { c.setGroup i
      { c.groups i with
        memQuotaGranted :=
          (c.groups i).memQuotaGranted - max (memQuotaToFree c.totalChunks (c.groups i)) 0
        memSharedGranted :=
          (c.groups i).memSharedGranted - max (memSharedToFree c.totalChunks (c.groups i)) 0 } with
    freeChunks := c.freeChunks + mempoolAutoReleased c.totalChunks (c.groups i) }

/-! ## Slots -/

/-- `none` when the slot pool is empty. -/
def slotpoolAllocSlot (c : ResGroupControl g s p) : Option (Fin s × ResGroupControl g s p) :=
  match c.freeSlot with
  | [] => none
  | x :: next => some (x, { c with freeSlot := next })

def slotpoolFreeSlot (c : ResGroupControl g s p) (x : Fin s) : ResGroupControl g s p :=
  { c.setSlot x
      { c.slots x with groupId := none, group := none, memQuota := -1, memUsage := 0 } with
    freeSlot := x :: c.freeSlot }

def initSlot (c : ResGroupControl g s p) (x : Fin s) (i : Fin g) (slotMemQuota : ℤ) :
    ResGroupControl g s p :=
  c.setSlot x
    { c.slots x with
      group := some i
      groupId := (c.groups i).groupId
      memQuota := slotMemQuota
      memUsage := 0 }

/-- The quota of a new slot fits into what the group has been granted. -/
def memQuotaFits (totalChunks : ℕ) (group : ResGroupData p) : Bool :=
  group.memQuotaUsed + slotGetMemQuotaExpected totalChunks group.caps ≤ group.memQuotaGranted

/-- `groupReserveMemQuota` finds enough quota for a slot, in the grants of the group and in the
pool. -/
def slotObtainable (totalChunks : ℕ) (freeChunks : ℤ) (group : ResGroupData p) : Bool :=
  group.nRunning < group.caps.concurrency &&
    memQuotaFits totalChunks
      (if 0 < group.memExpected - (group.memSharedGranted + group.memQuotaGranted) then
        groupRebalanceQuota totalChunks group (mempoolAutoReserved freeChunks group) group.caps
      else group)

/-- Get a slot with memory quota granted, if the concurrency and the quota allow it. The chunks
reserved on the way stay with the group also when it gets no slot. -/
def groupGetSlot (c : ResGroupControl g s p) (i : Fin g) :
    Option (Option (Fin s) × ResGroupControl g s p) :=
  if (c.groups i).caps.concurrency ≤ (c.groups i).nRunning then some (none, c)
  else
    let c' := mempoolAutoReserve c i (c.groups i).caps
    let slotMemQuota := slotGetMemQuotaExpected c'.totalChunks (c'.groups i).caps
    if memQuotaFits c'.totalChunks (c'.groups i) then
      (slotpoolAllocSlot (c'.setGroup i
          { c'.groups i with memQuotaUsed := (c'.groups i).memQuotaUsed + slotMemQuota })).map
        fun (x, d) =>
          let d := initSlot d x i slotMemQuota
          (some x, d.setGroup i { d.groups i with nRunning := (d.groups i).nRunning + 1 })
    else some (none, c')

/-! ## The wait queue -/

def groupWaitQueuePush (c : ResGroupControl g s p) (i : Fin g) (q : Fin p) :
    ResGroupControl g s p :=
  { c.setGroup i { c.groups i with waitProcs := (c.groups i).waitProcs ++ [q] } with
    procIsWaiting := Function.update c.procIsWaiting q true }

def groupWaitQueueErase (c : ResGroupControl g s p) (i : Fin g) (q : Fin p) :
    ResGroupControl g s p :=
  { c.setGroup i { c.groups i with waitProcs := (c.groups i).waitProcs.erase q } with
    procIsWaiting := Function.update c.procIsWaiting q false }

/-- Pop the process `q` with the slot it is granted and leave `qs` in the queue. -/
def wakeup (c : ResGroupControl g s p) (i : Fin g) (q : Fin p) (qs : List (Fin p))
    (x : Option (Fin s)) : ResGroupControl g s p :=
  { c.setGroup i { c.groups i with waitProcs := qs } with
    procIsWaiting := Function.update c.procIsWaiting q false
    resSlot := Function.update c.resSlot q x }

/-- The loop of `wakeupSlots` over the processes in the queue. -/
def wakeupSlotsLoop (grant : Bool) (i : Fin g) :
    List (Fin p) → ResGroupControl g s p → Option (ResGroupControl g s p)
  | [], c => some c
  | q :: qs, c =>
    if grant then
      match groupGetSlot c i with
      | none => none
      | some (none, c') => some c'
      | some (some x, c') => wakeupSlotsLoop grant i qs (wakeup c' i q qs (some x))
    else wakeupSlotsLoop grant i qs (wakeup c i q qs none)

def wakeupSlots (c : ResGroupControl g s p) (i : Fin g) (grant : Bool) :
    Option (ResGroupControl g s p) :=
  wakeupSlotsLoop grant i (c.groups i).waitProcs c

/-! ## Chunks come back to the pool -/

def groupMemOnNotifyForVmtracker (role : GpRole) (c : ResGroupControl g s p) (i : Fin g) :
    Option (ResGroupControl g s p) :=
  if role ≠ .dispatch then some c
  else if (c.groups i).lockedForDrop then some c
  else if (c.groups i).waitProcs = [] then some c
  else if (c.groups i).memExpected - (c.groups i).memQuotaGranted - (c.groups i).memSharedGranted
      ≤ 0 then some c
  else wakeupSlots c i true

/-- The part of the increase that the pool has; the limit of the cgroup itself is not modelled. -/
def groupApplyCgroupMemInc (c : ResGroupControl g s p) (i : Fin g) : ResGroupControl g s p :=
  let memory_inc := mempoolReserved c.freeChunks (-(c.groups i).memGap)
  if memory_inc ≤ 0 then c
  else
    { c.setGroup i { c.groups i with memGap := (c.groups i).memGap + memory_inc } with
      freeChunks := c.freeChunks - memory_inc }

def groupMemOnNotifyForCgroup (c : ResGroupControl g s p) (i : Fin g) : ResGroupControl g s p :=
  if (c.groups i).memGap < 0 then groupApplyCgroupMemInc c i else c

def groupMemOnNotify (role : GpRole) (c : ResGroupControl g s p) (i : Fin g) :
    Option (ResGroupControl g s p) :=
  match (c.groups i).caps.memAuditor with
  | .vmtracker => groupMemOnNotifyForVmtracker role c i
  | .cgroup => some (groupMemOnNotifyForCgroup c i)

/-- The loop of `notifyGroupsOnMem`, which stops when the pool is empty. -/
def notifyLoop (role : GpRole) (skipGroupId : Option ℕ) :
    List (Fin g) → ResGroupControl g s p → Option (ResGroupControl g s p)
  | [], c => some c
  | i :: is, c =>
    if (c.groups i).groupId = none ∨ (c.groups i).groupId = skipGroupId then
      notifyLoop role skipGroupId is c
    else
      (groupMemOnNotify role c i).bind fun c' =>
        if c'.freeChunks = 0 then some c' else notifyLoop role skipGroupId is c'

def notifyGroupsOnMem (role : GpRole) (skipGroupId : Option ℕ) (c : ResGroupControl g s p) :
    Option (ResGroupControl g s p) :=
  notifyLoop role skipGroupId (List.finRange g) c

/-- Put back the slot `x`; the process that does so belongs to the session `session`. -/
def groupPutSlot (role : GpRole) (session : Fin p) (c : ResGroupControl g s p) (i : Fin g)
    (x : Fin s) : Option (ResGroupControl g s p) :=
  let c1 := c.setGroup i
    { c.groups i with memQuotaUsed := (c.groups i).memQuotaUsed - (c.slots x).memQuota }
  let c2 := slotpoolFreeSlot c1 x
  let c3 := c2.setGroup i { c2.groups i with nRunning := (c2.groups i).nRunning - 1 }
  let c4 := { c3 with resGroupSlot := Function.update c3.resGroupSlot session none }
  let c5 := mempoolAutoRelease c4 i
  if 0 < mempoolAutoReleased c4.totalChunks (c4.groups i) then
    notifyGroupsOnMem role (c5.groups i).groupId c5
  else some c5

/-- Put back the slot and, on the dispatcher, wake up the queue of the group. Whether that is done
is a question about the `node`; whom `groupPutSlot` notifies depends on the `role` of the
process. -/
def groupReleaseSlot (node role : GpRole) (session : Fin p) (c : ResGroupControl g s p) (i : Fin g)
    (x : Fin s) : Option (ResGroupControl g s p) :=
  (groupPutSlot role session c i x).bind fun c' =>
    if node = .dispatch then wakeupSlots c' i true else some c'

/-! ## Creation, alteration and drop -/

def groupHashFind (c : ResGroupControl g s p) (groupId : ℕ) : Option (Fin g) :=
  (List.finRange g).find? fun i => (c.groups i).groupId = some groupId

/-- The group entry that `groupHashNew` takes. -/
def groupHashNew (c : ResGroupControl g s p) : Option (Fin g) :=
  (List.finRange g).find? fun i => (c.groups i).groupId = none

/-- A group before it has been granted anything. -/
def newGroup (totalChunks groupId : ℕ) (caps : ResGroupCaps) : ResGroupData p where
  groupId := some groupId
  memGap := 0
  memExpected := groupGetMemExpected totalChunks caps
  memQuotaGranted := 0
  memSharedGranted := 0
  memQuotaUsed := 0
  memUsage := 0
  memSharedUsage := 0
  nRunning := 0
  nRunningBypassed := 0
  waitProcs := []
  lockedForDrop := false
  caps := caps

/-- `none` when the group exists or there is no entry left for it. -/
def createGroup (c : ResGroupControl g s p) (groupId : ℕ) (caps : ResGroupCaps) :
    Option (ResGroupControl g s p) :=
  if (groupHashFind c groupId).isSome then none
  else
    (groupHashNew c).map fun i =>
      let chunks := mempoolReserved c.freeChunks (groupGetMemExpected c.totalChunks caps)
      { c.setGroup i
          (groupRebalanceQuota c.totalChunks (newGroup c.totalChunks groupId caps) chunks caps) with
        freeChunks := c.freeChunks - chunks }

def groupMemOnDropForVmtracker (c : ResGroupControl g s p) (i : Fin g) : ResGroupControl g s p :=
  { c.setGroup i { c.groups i with memQuotaGranted := 0, memSharedGranted := 0 } with
    freeChunks :=
      c.freeChunks + ((c.groups i).memQuotaGranted + (c.groups i).memSharedGranted) }

def groupMemOnDropForCgroup (c : ResGroupControl g s p) (i : Fin g) : ResGroupControl g s p :=
  { c with
    freeChunks :=
      c.freeChunks +
        (groupGetMemExpected c.totalChunks (c.groups i).caps + (c.groups i).memGap) }

def groupMemOnDrop (c : ResGroupControl g s p) (i : Fin g) : ResGroupControl g s p :=
  match (c.groups i).caps.memAuditor with
  | .vmtracker => groupMemOnDropForVmtracker c i
  | .cgroup => groupMemOnDropForCgroup c i

def removeGroup (role : GpRole) (c : ResGroupControl g s p) (i : Fin g) :
    Option (ResGroupControl g s p) :=
  let groupId := (c.groups i).groupId
  let c1 := groupMemOnDrop c i
  notifyGroupsOnMem role groupId (c1.setGroup i { c1.groups i with groupId := none })

/-- `groupApplyMemCaps`, with whether it returned more chunks than it took. -/
def groupApplyMemCaps (c : ResGroupControl g s p) (i : Fin g) : Bool × ResGroupControl g s p :=
  let c1 := c.setGroup i
    { c.groups i with memExpected := groupGetMemExpected c.totalChunks (c.groups i).caps }
  let released := mempoolAutoReleased c1.totalChunks (c1.groups i)
  let c2 := mempoolAutoRelease c1 i
  let reserved := mempoolAutoReserved c2.freeChunks (c2.groups i)
  (decide (reserved < released), mempoolAutoReserve c2 i (c2.groups i).caps)

def groupMemOnAlterForVmtracker (role : GpRole) (c : ResGroupControl g s p) (i : Fin g) :
    Option (ResGroupControl g s p) :=
  let (shouldNotify, c1) := groupApplyMemCaps c i
  (wakeupSlots c1 i true).bind fun c2 =>
    if shouldNotify then notifyGroupsOnMem role (c2.groups i).groupId c2 else some c2

/-- The chunks go back before `memGap` is reset. -/
def groupApplyCgroupMemDec (role : GpRole) (c : ResGroupControl g s p) (i : Fin g) :
    Option (ResGroupControl g s p) :=
  let memory_dec := (c.groups i).memGap
  let c1 := { c with freeChunks := c.freeChunks + memory_dec }
  (notifyGroupsOnMem role (c1.groups i).groupId c1).map fun c2 =>
    c2.setGroup i { c2.groups i with memGap := (c2.groups i).memGap - memory_dec }

def groupMemOnAlterForCgroup (role : GpRole) (c : ResGroupControl g s p) (i : Fin g) :
    Option (ResGroupControl g s p) :=
  if (c.groups i).memGap = 0 then some c
  else if 0 < (c.groups i).memGap then groupApplyCgroupMemDec role c i
  else some (groupApplyCgroupMemInc c i)

def groupMemOnAlter (role : GpRole) (c : ResGroupControl g s p) (i : Fin g) :
    Option (ResGroupControl g s p) :=
  match (c.groups i).caps.memAuditor with
  | .vmtracker => groupMemOnAlterForVmtracker role c i
  | .cgroup => groupMemOnAlterForCgroup role c i

/-- The change of `memGap`, which is only for an alteration of the memory limit. -/
def memLimitGap (totalChunks : ℕ) (oldCaps caps : ResGroupCaps) : ResGroupLimit → ℤ
  | .memory _ _ => ((totalChunks : ℤ) * ((oldCaps.memLimit : ℤ) - caps.memLimit)).tdiv 100
  | _ => 0

/-- Whether the alteration of the limit leads to `group_mem_on_alter`. -/
def ResGroupLimit.isMem : ResGroupLimit → Bool
  | .concurrency _ | .memory _ _ | .memorySharedQuota _ _ => true
  | .cpu | .memorySpillRatio | .cpuset => false

/-- The capabilities of the group become `caps`, as `ResGroupAlterOnCommit` sets them before
`group_mem_on_alter`. -/
def alterGroup (c : ResGroupControl g s p) (i : Fin g) (limit : ResGroupLimit)
    (caps : ResGroupCaps) : ResGroupControl g s p :=
  c.setGroup i
    { c.groups i with
      caps := caps
      memGap :=
        (c.groups i).memGap + memLimitGap c.totalChunks (c.groups i).caps caps limit }

/-- `oldCaps` of the callback are those of the group: an ALTER holds the lock on the catalog until
its callback has run. -/
def ResGroupAlterOnCommit (role : GpRole) (c : ResGroupControl g s p) (i : Fin g)
    (limit : ResGroupLimit) (caps : ResGroupCaps) : Option (ResGroupControl g s p) :=
  if limit.isMem then groupMemOnAlter role (alterGroup c i limit caps) i
  else some (alterGroup c i limit caps)

/-- `none` when transactions are running in the group. -/
def ResGroupCheckForDrop (role : GpRole) (c : ResGroupControl g s p) (i : Fin g) :
    Option (ResGroupControl g s p) :=
  if role ≠ .dispatch then some c
  else if 0 < (c.groups i).nRunning + (c.groups i).nRunningBypassed then none
  else some (c.setGroup i { c.groups i with lockedForDrop := true })

def ResGroupDropFinish (role : GpRole) (c : ResGroupControl g s p) (i : Fin g) (isCommit : Bool) :
    Option (ResGroupControl g s p) :=
  let woken :=
    if role = .dispatch then
      (wakeupSlots c i false).map fun c1 =>
        c1.setGroup i { c1.groups i with lockedForDrop := false }
    else some c
  woken.bind fun c2 => if isCommit then removeGroup role c2 i else some c2

/-! ## Memory usage -/

/-- The part of `chunks` that `groupIncMemUsage` charges over the quota of the slot. -/
def deltaSharedInc (slot : ResGroupSlotData g) (chunks : ℤ) : ℤ :=
  let sharedMemUsage := slot.memUsage + chunks - slot.memQuota
  if 0 < sharedMemUsage then min sharedMemUsage chunks else 0

/-- The part of `chunks` that `groupDecMemUsage` takes from over the quota of the slot. -/
def deltaSharedDec (slot : ResGroupSlotData g) (chunks : ℤ) : ℤ :=
  let sharedMemUsage := slot.memUsage - slot.memQuota
  if 0 < sharedMemUsage then min sharedMemUsage chunks else 0

/-- The part of a charge to `memSharedUsage` that the shared grant of the group does not cover. -/
def deltaGlobalInc (memSharedGranted oldSharedUsage deltaSharedMemUsage : ℤ) : ℤ :=
  max 0 (deltaSharedMemUsage - max 0 (memSharedGranted - oldSharedUsage))

/-- The part of a discharge from `memSharedUsage` that goes back to the pool. -/
def deltaGlobalDec (memSharedGranted oldSharedUsage deltaSharedMemUsage : ℤ) : ℤ :=
  min (max 0 (oldSharedUsage - memSharedGranted)) deltaSharedMemUsage

/-- Charge `chunks` to the slot `slot`, the group and the pool; with the chunks by which the pool is
overused. -/
def groupIncMemUsage (c : ResGroupControl g s p) (i : Fin g) (slot : ResGroupSlotData g)
    (chunks : ℤ) : ℤ × ResGroupSlotData g × ResGroupControl g s p :=
  let group := c.groups i
  let deltaShared := deltaSharedInc slot chunks
  let deltaGlobal := deltaGlobalInc group.memSharedGranted group.memSharedUsage deltaShared
  let globalOveruse :=
    if 0 < slot.memUsage + chunks - slot.memQuota then max 0 (0 - (c.freeChunks - deltaGlobal))
    else 0
  (globalOveruse, { slot with memUsage := slot.memUsage + chunks },
    { c.setGroup i
        { group with
          memUsage := group.memUsage + chunks
          memSharedUsage := group.memSharedUsage + deltaShared } with
      freeChunks := c.freeChunks - deltaGlobal })

/-- The chunks that `groupDecMemUsage` returns to the pool. -/
def globalReleased (c : ResGroupControl g s p) (i : Fin g) (slot : ResGroupSlotData g)
    (chunks : ℤ) : ℤ :=
  deltaGlobalDec (c.groups i).memSharedGranted (c.groups i).memSharedUsage
    (deltaSharedDec slot chunks)

def groupDecMemUsage (c : ResGroupControl g s p) (i : Fin g) (slot : ResGroupSlotData g)
    (chunks : ℤ) : ResGroupSlotData g × ResGroupControl g s p :=
  let group := c.groups i
  ({ slot with memUsage := slot.memUsage - chunks },
    { c.setGroup i
        { group with
          memUsage := group.memUsage - chunks
          memSharedUsage := group.memSharedUsage - deltaSharedDec slot chunks } with
      freeChunks := c.freeChunks + globalReleased c i slot chunks })

end Hdb.ResGroup
